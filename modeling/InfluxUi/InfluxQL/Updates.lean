import InfluxUi.InfluxQL.Connection

/-!
# Successive compositions

A run of builder updates: each stores a selection as the session and calls
`_updateComposition`, with no other edit in between. A composition of two or more lines is
replaced in place by the next one. A one-line composition is recorded as the range `1..1`,
which `_updateComposition` cannot tell from "no range yet": the next composition is inserted
above it and the old `SELECT` line stays in the buffer, stranded below the composition.
-/

namespace InfluxUi.InfluxQL

open InfluxUi.Editor

section Updates

variable (defaultInfluxqlEditorText : List Char)

/-- A builder update: the selection becomes the session and is written to the buffer. -/
def ConnectionManager.applySession (manager : ConnectionManager)
    (session : CompositionSelection) : ConnectionManager :=
  ConnectionManager.updateComposition defaultInfluxqlEditorText (manager.updateLocalState session)

def ConnectionManager.applySessions (manager : ConnectionManager)
    (sessions : List CompositionSelection) : ConnectionManager :=
  sessions.foldl (ConnectionManager.applySession defaultInfluxqlEditorText) manager

def strandedLines (sessions : List CompositionSelection) : List (List Char) :=
  (sessions.filter fun session => (compositionLines session).length = 1).reverse.flatMap
    compositionLines

@[simp]
theorem strandedLines_nil : strandedLines [] = [] := rfl

theorem strandedLines_append_singleton (sessions : List CompositionSelection)
    (session : CompositionSelection) :
    strandedLines (sessions ++ [session]) =
      (if (compositionLines session).length = 1 then compositionLines session else []) ++
        strandedLines sessions := by
  unfold strandedLines
  split <;> simp [*, List.filter_append, List.flatMap_append]

@[simp]
theorem ConnectionManager.applySessions_append_singleton (manager : ConnectionManager)
    (sessions : List CompositionSelection) (session : CompositionSelection) :
    ConnectionManager.applySessions defaultInfluxqlEditorText manager (sessions ++ [session]) =
      (ConnectionManager.applySessions defaultInfluxqlEditorText manager sessions).applySession
        defaultInfluxqlEditorText session :=
  List.foldl_append _ _ _ _

theorem ConnectionManager.rangeAtTop_updateLocalState {manager : ConnectionManager}
    (top : manager.RangeAtTop) (session : CompositionSelection) :
    (manager.updateLocalState session).RangeAtTop := top

def compositionRangeOf (session : CompositionSelection) : LspRange :=
  ⟨⟨1, 1⟩, ⟨(compositionLines session).length, 1⟩⟩

/-- After updates from a buffer with no composition range, the buffer holds the last
composition, the stranded one-line compositions, and the original lines. -/
theorem ConnectionManager.applySessions_lines {manager : ConnectionManager}
    (noRange : manager.compositionRange = none) (earlier : List CompositionSelection)
    (last : CompositionSelection)
    (lineBreakFree : ∀ session ∈ earlier ++ [last], session.LineBreakFree) :
    (ConnectionManager.applySessions defaultInfluxqlEditorText manager
        (earlier ++ [last])).model.lines =
        compositionLines last ++ strandedLines earlier ++ manager.model.lines ∧
      (ConnectionManager.applySessions defaultInfluxqlEditorText manager
        (earlier ++ [last])).compositionRange = some (compositionRangeOf last) := by
  have noRangeTop : manager.RangeAtTop := by simp [ConnectionManager.RangeAtTop, noRange]
  induction earlier using List.reverseRecOn generalizing last with
  | nil =>
      have free := lineBreakFree last (by simp)
      simp only [List.nil_append, ConnectionManager.applySessions, List.foldl_cons, List.foldl_nil,
        ConnectionManager.applySession]
      have top := ConnectionManager.rangeAtTop_updateLocalState noRangeTop last
      refine ⟨?_, ConnectionManager.updateComposition_compositionRange _ top⟩
      rw [ConnectionManager.updateComposition_lines _ top free]
      simp [ConnectionManager.updateLocalState, ConnectionManager.compositionEndLine, noRange]
  | append_singleton earlier previous inductionHypothesis =>
      obtain ⟨lines, range⟩ := inductionHypothesis previous
        (fun session member => lineBreakFree session (by simp at member ⊢; tauto))
      have free := lineBreakFree last (by simp)
      have top : ((ConnectionManager.applySessions defaultInfluxqlEditorText manager
          (earlier ++ [previous])).updateLocalState last).RangeAtTop := by
        intro recorded same
        simp only [ConnectionManager.updateLocalState, range, Option.some.injEq] at same
        subst same
        exact ⟨rfl, List.length_pos.mpr (compositionLines_ne_nil _)⟩
      rw [List.append_assoc, List.singleton_append,
        ← List.singleton_append, ← List.append_assoc,
        ConnectionManager.applySessions_append_singleton]
      refine ⟨?_, ConnectionManager.updateComposition_compositionRange _ top⟩
      rw [ConnectionManager.applySession, ConnectionManager.updateComposition_lines _ top free]
      simp only [ConnectionManager.updateLocalState, ConnectionManager.compositionEndLine, range,
        compositionRangeOf, Option.map_some', Option.getD_some, lines,
        strandedLines_append_singleton]
      split
      · simp
      · simp [List.drop_left]

/-- Without a one-line composition before the last one, updates replace and never duplicate:
the buffer is the last composition above the original text. -/
theorem ConnectionManager.applySessions_getValue {manager : ConnectionManager}
    (noRange : manager.compositionRange = none) (earlier : List CompositionSelection)
    (last : CompositionSelection)
    (lineBreakFree : ∀ session ∈ earlier ++ [last], session.LineBreakFree)
    (noOneLine : ∀ session ∈ earlier, (compositionLines session).length ≠ 1) :
    (ConnectionManager.applySessions defaultInfluxqlEditorText manager
        (earlier ++ [last])).model.getValue =
      (buildComposition last).composition ++ '\n' :: manager.model.getValue := by
  have stranded : strandedLines earlier = [] := by
    simp only [strandedLines, List.flatMap_eq_nil_iff, List.mem_reverse, List.mem_filter,
      decide_eq_true_eq]
    exact fun session ⟨member, single⟩ => absurd single (noOneLine session member)
  rw [TextModel.getValue, (ConnectionManager.applySessions_lines _ noRange earlier last
    lineBreakFree).1, stranded, List.append_nil,
    joinLines_append (compositionLines_ne_nil last) manager.model.lines_ne_nil]
  rfl

theorem applySessions_getValue_after_measurement :
    (⟨TextModel.ofText "x".toList, ⟨[], none, none, []⟩, none, false, none, 0⟩ :
        ConnectionManager).compositionRange = none ∧
      (∀ session ∈ [(⟨[], some "m".toList, none, []⟩ : CompositionSelection)] ++
        [⟨[], none, none, []⟩], session.LineBreakFree) ∧
      (∀ session ∈ [(⟨[], some "m".toList, none, []⟩ : CompositionSelection)],
        (compositionLines session).length ≠ 1) ∧
      (ConnectionManager.applySessions [] ⟨TextModel.ofText "x".toList, ⟨[], none, none, []⟩, none,
          false, none, 0⟩
          ([⟨[], some "m".toList, none, []⟩] ++ [⟨[], none, none, []⟩])).model.getValue =
        (buildComposition ⟨[], none, none, []⟩).composition ++ '\n' :: "x".toList :=
  have lineBreakFree : ∀ session ∈ [(⟨[], some "m".toList, none, []⟩ : CompositionSelection)] ++
      [⟨[], none, none, []⟩], session.LineBreakFree := by
    simp [CompositionSelection.LineBreakFree, CompositionSelection.Avoids]
  have twoLines : ∀ session ∈ [(⟨[], some "m".toList, none, []⟩ : CompositionSelection)],
      (compositionLines session).length ≠ 1 := by
    simp only [List.mem_singleton, forall_eq]
    decide
  ⟨rfl, lineBreakFree, twoLines,
    ConnectionManager.applySessions_getValue [] rfl _ _ lineBreakFree twoLines⟩

/-- Writing a selection again leaves the buffer and the range as the first write left them,
unless its composition is one line. -/
theorem ConnectionManager.applySession_idempotent {manager : ConnectionManager}
    (top : manager.RangeAtTop) {session : CompositionSelection}
    (lineBreakFree : session.LineBreakFree) (severalLines : (compositionLines session).length ≠ 1) :
    ((manager.applySession defaultInfluxqlEditorText session).applySession
        defaultInfluxqlEditorText session).model.lines =
        (manager.applySession defaultInfluxqlEditorText session).model.lines ∧
      ((manager.applySession defaultInfluxqlEditorText session).applySession
        defaultInfluxqlEditorText session).compositionRange =
        (manager.applySession defaultInfluxqlEditorText session).compositionRange := by
  set once := manager.applySession defaultInfluxqlEditorText session
  have localTop := ConnectionManager.rangeAtTop_updateLocalState top session
  have range : once.compositionRange = some (compositionRangeOf session) :=
    ConnectionManager.updateComposition_compositionRange _ localTop
  have againTop : (once.updateLocalState session).RangeAtTop :=
    ConnectionManager.rangeAtTop_updateLocalState
      (ConnectionManager.updateComposition_rangeAtTop _ _ localTop) session
  have endLine : (once.updateLocalState session).compositionEndLine =
      (compositionLines session).length := by
    simp [ConnectionManager.compositionEndLine, ConnectionManager.updateLocalState, range,
      compositionRangeOf]
  have written : once.model.lines = compositionLines session ++ _ :=
    ConnectionManager.updateComposition_lines _ localTop lineBreakFree
  constructor
  · rw [ConnectionManager.applySession,
      ConnectionManager.updateComposition_lines _ againTop lineBreakFree, endLine,
      if_neg severalLines]
    simp [ConnectionManager.updateLocalState, written]
  · rw [ConnectionManager.applySession,
      ConnectionManager.updateComposition_compositionRange _ againTop, range]
    rfl

theorem applySession_idempotent_measurement :
    (⟨TextModel.ofText "x".toList, ⟨[], none, none, []⟩, none, false, none, 0⟩ :
        ConnectionManager).RangeAtTop ∧
      (⟨[], some "m".toList, none, []⟩ : CompositionSelection).LineBreakFree ∧
      (compositionLines ⟨[], some "m".toList, none, []⟩).length ≠ 1 ∧
      (((⟨TextModel.ofText "x".toList, ⟨[], none, none, []⟩, none, false, none, 0⟩ :
          ConnectionManager).applySession [] ⟨[], some "m".toList, none, []⟩).applySession []
          ⟨[], some "m".toList, none, []⟩).model.lines =
        ((⟨TextModel.ofText "x".toList, ⟨[], none, none, []⟩, none, false, none, 0⟩ :
          ConnectionManager).applySession [] ⟨[], some "m".toList, none, []⟩).model.lines ∧
      (((⟨TextModel.ofText "x".toList, ⟨[], none, none, []⟩, none, false, none, 0⟩ :
          ConnectionManager).applySession [] ⟨[], some "m".toList, none, []⟩).applySession []
          ⟨[], some "m".toList, none, []⟩).compositionRange =
        ((⟨TextModel.ofText "x".toList, ⟨[], none, none, []⟩, none, false, none, 0⟩ :
          ConnectionManager).applySession [] ⟨[], some "m".toList, none, []⟩).compositionRange :=
  have top : (⟨TextModel.ofText "x".toList, ⟨[], none, none, []⟩, none, false, none, 0⟩ :
      ConnectionManager).RangeAtTop := by
    simp [ConnectionManager.RangeAtTop]
  have lineBreakFree : (⟨[], some "m".toList, none, []⟩ : CompositionSelection).LineBreakFree := by
    simp [CompositionSelection.LineBreakFree, CompositionSelection.Avoids]
  have twoLines : (compositionLines ⟨[], some "m".toList, none, []⟩).length ≠ 1 := by decide
  ⟨top, lineBreakFree, twoLines,
    ConnectionManager.applySession_idempotent [] top lineBreakFree twoLines⟩

/-- The selection with nothing chosen: `SELECT *`, one line. -/
def selectAll : CompositionSelection := ⟨[], none, none, []⟩

/-- The empty selection applied twice to an empty buffer: the first `SELECT *` stays. -/
theorem applySessions_selectAll_twice :
    (ConnectionManager.applySessions defaultInfluxqlEditorText
        ⟨TextModel.ofText [], selectAll, none, false, none, 0⟩
        [selectAll, selectAll]).model.getValue =
      "SELECT *\nSELECT *\n".toList ∧
    (buildComposition selectAll).composition ++ '\n' :: [] = "SELECT *\n".toList := by
  have lineBreakFree : selectAll.LineBreakFree := by
    simp [CompositionSelection.LineBreakFree, CompositionSelection.Avoids, selectAll]
  have lines := (ConnectionManager.applySessions_lines defaultInfluxqlEditorText
    (show (⟨TextModel.ofText [], selectAll, none, false, none, 0⟩ :
      ConnectionManager).compositionRange = none from rfl) [selectAll] selectAll
    (by simpa using lineBreakFree)).1
  refine ⟨?_, by decide⟩
  rw [show [selectAll, selectAll] = [selectAll] ++ [selectAll] from rfl, TextModel.getValue, lines]
  decide

end Updates

end InfluxUi.InfluxQL
