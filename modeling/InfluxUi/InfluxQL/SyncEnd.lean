import InfluxUi.InfluxQL.Updates

/-!
# When the listener ends the sync

The listener of `_setCompositionHandlers` decides by lines only. A change counts as inside the
composition when it starts at or below the range's first line and ends on or above its last
line; a deletion also counts when it starts inside the range, wherever it ends. It keeps no
state of its own: every event with a qualifying change schedules the sync-ended callbacks, and
the recorded range stays as it was.

A replacement by non-empty text that starts inside the composition and ends below it (select
all, then paste) is not caught, though it rewrites the composition's last lines.
-/

namespace InfluxUi.InfluxQL

open InfluxUi.Editor

section Listener

variable (defaultInfluxqlEditorText : List Char)

theorem editorChangeIsWithinComposition_some (range : LspRange) (change : ContentChange) :
    editorChangeIsWithinComposition (some range) change = true ↔
      range.start.line ≤ change.range.startLineNumber ∧
        (change.range.endLineNumber ≤ range.«end».line ∨
          (change.text = [] ∧ change.range.startLineNumber ≤ range.«end».line)) := by
  simp only [editorChangeIsWithinComposition, Bool.or_eq_true, Bool.and_eq_true,
    decide_eq_true_eq, List.isEmpty_iff]
  by_cases deletion : change.text = []
  · simp only [deletion, true_and]; omega
  · simp only [deletion, false_and, or_false]

/-- After an update with a selection free of line breaks, the recorded range covers the lines
just written: they are the composition, the range runs from line 1 to its last line, and a
change within them counts as inside. -/
theorem ConnectionManager.applySession_contains {manager : ConnectionManager}
    (top : manager.RangeAtTop) {session : CompositionSelection}
    (lineBreakFree : session.LineBreakFree) :
    (manager.applySession defaultInfluxqlEditorText session).model.lines.take
        (compositionLines session).length = compositionLines session ∧
      (manager.applySession defaultInfluxqlEditorText session).compositionRange =
        some (compositionRangeOf session) ∧
      ∀ change : ContentChange, 1 ≤ change.range.startLineNumber →
        change.range.endLineNumber ≤ (compositionLines session).length →
        editorChangeIsWithinComposition
          (manager.applySession defaultInfluxqlEditorText session).compositionRange change =
            true := by
  have localTop := ConnectionManager.rangeAtTop_updateLocalState top session
  have range : (manager.applySession defaultInfluxqlEditorText session).compositionRange =
      some (compositionRangeOf session) :=
    ConnectionManager.updateComposition_compositionRange _ localTop
  refine ⟨?_, range, fun change startsInside endsInside => ?_⟩
  · rw [ConnectionManager.applySession,
      ConnectionManager.updateComposition_lines _ localTop lineBreakFree]
    simp [ConnectionManager.updateLocalState]
  · rw [range, editorChangeIsWithinComposition_some]
    exact ⟨startsInside, .inl endsInside⟩

theorem applySession_contains_measurement :
    (⟨TextModel.ofText [], selectAll, none, false, none, 0⟩ : ConnectionManager).RangeAtTop ∧
      (⟨[], some "m".toList, none, []⟩ : CompositionSelection).LineBreakFree ∧
      ((⟨TextModel.ofText [], selectAll, none, false, none, 0⟩ : ConnectionManager).applySession
          [] ⟨[], some "m".toList, none, []⟩).model.lines.take
          (compositionLines ⟨[], some "m".toList, none, []⟩).length =
        compositionLines ⟨[], some "m".toList, none, []⟩ ∧
      ((⟨TextModel.ofText [], selectAll, none, false, none, 0⟩ : ConnectionManager).applySession
          [] ⟨[], some "m".toList, none, []⟩).compositionRange =
        some (compositionRangeOf ⟨[], some "m".toList, none, []⟩) ∧
      ∀ change : ContentChange, 1 ≤ change.range.startLineNumber →
        change.range.endLineNumber ≤ (compositionLines ⟨[], some "m".toList, none, []⟩).length →
        editorChangeIsWithinComposition
          ((⟨TextModel.ofText [], selectAll, none, false, none, 0⟩ :
            ConnectionManager).applySession [] ⟨[], some "m".toList, none, []⟩).compositionRange
          change = true :=
  have top : (⟨TextModel.ofText [], selectAll, none, false, none, 0⟩ :
      ConnectionManager).RangeAtTop := by
    simp [ConnectionManager.RangeAtTop]
  have lineBreakFree : (⟨[], some "m".toList, none, []⟩ : CompositionSelection).LineBreakFree := by
    simp [CompositionSelection.LineBreakFree, CompositionSelection.Avoids]
  ⟨top, lineBreakFree, ConnectionManager.applySession_contains [] top lineBreakFree⟩

def ConnectionManager.deliver (manager : ConnectionManager)
    (events : List (List ContentChange)) : ConnectionManager :=
  events.foldl (fun current changes =>
    compositionChangeHandler defaultInfluxqlEditorText changes current) manager

/-- Each event with a qualifying change schedules the sync-ended callbacks once more, and
nothing else changes; in particular the range stays, so a later qualifying event is counted
again. -/
theorem ConnectionManager.deliver_eq (manager : ConnectionManager)
    (events : List (List ContentChange)) :
    ConnectionManager.deliver defaultInfluxqlEditorText manager events =
      { manager with
        syncEndedCallbacks := manager.syncEndedCallbacks +
          (events.filter
            (shouldEndSync defaultInfluxqlEditorText manager.compositionRange)).length } := by
  induction events generalizing manager with
  | nil => rfl
  | cons changes rest inductionHypothesis =>
      simp only [ConnectionManager.deliver, List.foldl_cons] at inductionHypothesis ⊢
      rw [inductionHypothesis, compositionChangeHandler_eq]
      by_cases ending : shouldEndSync defaultInfluxqlEditorText manager.compositionRange changes
      · simp [ending, List.filter_cons]; omega
      · simp [ending, List.filter_cons]

def typingOnFirstLine : List ContentChange :=
  [⟨⟨1, 1, 1, 1⟩, 0, "x".toList, false⟩, ⟨⟨1, 3, 1, 4⟩, 1, "x".toList, false⟩]

theorem shouldEndSync_typingOnFirstLine (defaultInfluxqlEditorText : List Char) :
    shouldEndSync defaultInfluxqlEditorText (some ⟨⟨1, 1⟩, ⟨1, 1⟩⟩) typingOnFirstLine =
      true := by
  have inside : ∀ change ∈ typingOnFirstLine,
      editorChangeIsWithinComposition (some ⟨⟨1, 1⟩, ⟨1, 1⟩⟩) change = true := by decide
  simp only [shouldEndSync, List.any_eq_true, Bool.and_eq_true, Bool.not_eq_true']
  by_cases empty : utf16Length defaultInfluxqlEditorText = 0
  · exact ⟨_, List.mem_cons_of_mem _ (List.mem_singleton_self _), inside _ (by decide),
      by simp [couldBeFromComposition, empty]⟩
  · exact ⟨_, List.mem_cons_self _ _, inside _ (by decide),
      by simp [couldBeFromComposition, Ne.symm empty]⟩

/-- Whatever the placeholder text, the same event on a one-line composition, delivered twice,
schedules the sync-ended callbacks twice. -/
theorem deliver_schedules_twice :
    ¬ ∃ defaultInfluxqlEditorText : List Char,
      (ConnectionManager.deliver defaultInfluxqlEditorText
        ⟨TextModel.ofText "SELECT *".toList, selectAll, some ⟨⟨1, 1⟩, ⟨1, 1⟩⟩, false, none, 0⟩
        [typingOnFirstLine, typingOnFirstLine]).syncEndedCallbacks ≤ 1 := by
  rintro ⟨defaultInfluxqlEditorText, atMostOnce⟩
  rw [ConnectionManager.deliver_eq] at atMostOnce
  simp [shouldEndSync_typingOnFirstLine] at atMostOnce

/-- Lines `s..e` of the recorded range hold the composition of the session, while no
sync-ended callback has been scheduled. -/
def ConnectionManager.CompositionIntact (manager : ConnectionManager) : Prop :=
  ∀ range, manager.compositionRange = some range → manager.syncEndedCallbacks = 0 →
    (manager.model.lines.drop (range.start.line - 1)).take
        (range.«end».line + 1 - range.start.line) =
      compositionLines manager.session


def ConnectionManager.Synced (manager : ConnectionManager) : Prop :=
  manager.compositionRange = some (compositionRangeOf manager.session) ∧
    manager.model.lines.take (compositionLines manager.session).length =
      compositionLines manager.session

theorem ConnectionManager.Synced.intact {manager : ConnectionManager}
    (synced : manager.Synced) : manager.CompositionIntact := by
  intro range recorded _
  rw [synced.1, Option.some.injEq] at recorded
  subst recorded
  simpa [compositionRangeOf] using synced.2

/-- An edit the listener misses: non-empty text over a range that starts inside the recorded
range and ends below it. -/
def ConnectionManager.Straddles (manager : ConnectionManager) (operation : EditOperation) :
    Prop :=
  ∃ range, manager.compositionRange = some range ∧ operation.text ≠ [] ∧
    (manager.model.applyEdit operation).2.range.startLineNumber ≤ range.«end».line ∧
    range.«end».line < (manager.model.applyEdit operation).2.range.endLineNumber

theorem ConnectionManager.applyEdit_cases {manager : ConnectionManager} (synced : manager.Synced)
    (installed : manager.firstLoad = false) {operation : EditOperation}
    (unmarked : operation.forceMoveMarkers = false)
    (notPlaceholder :
      (manager.model.applyEdit operation).2.rangeLength ≠ utf16Length defaultInfluxqlEditorText) :
    (ConnectionManager.applyEdit defaultInfluxqlEditorText operation manager).syncEndedCallbacks =
        manager.syncEndedCallbacks + 1 ∨
      (ConnectionManager.applyEdit defaultInfluxqlEditorText operation manager).Synced ∨
      manager.Straddles operation := by
  have startsBelowTop := manager.model.one_le_validateRange_startLineNumber operation.range
  have notFromComposition : couldBeFromComposition defaultInfluxqlEditorText
      (manager.model.applyEdit operation).2 = false := by
    simpa [couldBeFromComposition, unmarked] using notPlaceholder
  rw [ConnectionManager.applyEdit_syncEndedCallbacks]
  by_cases within : editorChangeIsWithinComposition manager.compositionRange
      (manager.model.applyEdit operation).2
  · left
    simp [installed, shouldEndSync, within, notFromComposition]
  · right
    rw [synced.1, editorChangeIsWithinComposition_some] at within
    simp only [compositionRangeOf, TextModel.applyEdit_change] at within
    by_cases below : (compositionLines manager.session).length <
        (manager.model.validateRange operation.range).startLineNumber
    · left
      refine ⟨by simpa using synced.1, ?_⟩
      rw [ConnectionManager.applyEdit_model, (ConnectionManager.applyEdit_fields _ _ _).1,
        TextModel.applyEdit_take (by simpa using below)]
      exact synced.2
    · right
      refine ⟨_, synced.1, fun deletion => within ⟨startsBelowTop, .inr ⟨deletion, by omega⟩⟩,
        ?_, ?_⟩ <;> simp only [compositionRangeOf, TextModel.applyEdit_change]
      · omega
      · by_contra notBelow; exact within ⟨startsBelowTop, .inl (by omega)⟩

/-- One step of a run: a builder update with a selection free of line breaks, or a user edit
that carries no marker and does not remove exactly the placeholder text's length in UTF-16
units. `allowed` may restrict the user edits further. -/
inductive ConnectionManager.Step (allowed : ConnectionManager → EditOperation → Prop) :
    ConnectionManager → ConnectionManager → Prop
  | builderUpdate {manager : ConnectionManager} (session : CompositionSelection) :
      session.LineBreakFree →
      ConnectionManager.Step allowed manager
        (manager.applySession defaultInfluxqlEditorText session)
  | userEdit {manager : ConnectionManager} (operation : EditOperation) :
      operation.forceMoveMarkers = false →
      (manager.model.applyEdit operation).2.rangeLength ≠ utf16Length defaultInfluxqlEditorText →
      allowed manager operation →
      ConnectionManager.Step allowed manager
        (ConnectionManager.applyEdit defaultInfluxqlEditorText operation manager)

inductive ConnectionManager.Reachable (allowed : ConnectionManager → EditOperation → Prop) :
    ConnectionManager → Prop
  | initial {manager : ConnectionManager} : manager.compositionRange = none →
      manager.firstLoad = false → manager.syncEndedCallbacks = 0 →
      ConnectionManager.Reachable allowed manager
  | step {manager next : ConnectionManager} : ConnectionManager.Reachable allowed manager →
      ConnectionManager.Step defaultInfluxqlEditorText allowed manager next →
      ConnectionManager.Reachable allowed next

def ConnectionManager.Guarded (manager : ConnectionManager) : Prop :=
  manager.firstLoad = false ∧ manager.RangeAtTop ∧
    (manager.syncEndedCallbacks = 0 → manager.compositionRange ≠ none → manager.Synced)

theorem ConnectionManager.applySession_synced {manager : ConnectionManager}
    (top : manager.RangeAtTop) {session : CompositionSelection}
    (lineBreakFree : session.LineBreakFree) :
    (manager.applySession defaultInfluxqlEditorText session).Synced := by
  have localTop := ConnectionManager.rangeAtTop_updateLocalState top session
  have sameSession : (manager.applySession defaultInfluxqlEditorText session).session = session :=
    (ConnectionManager.updateComposition_fields _ _).1
  rw [ConnectionManager.Synced, sameSession]
  refine ⟨ConnectionManager.updateComposition_compositionRange _ localTop, ?_⟩
  rw [ConnectionManager.applySession,
    ConnectionManager.updateComposition_lines _ localTop lineBreakFree]
  simp [ConnectionManager.updateLocalState]

theorem ConnectionManager.Step.guarded {manager next : ConnectionManager}
    (step : ConnectionManager.Step defaultInfluxqlEditorText (fun state operation =>
      ¬ state.Straddles operation) manager next)
    (guarded : manager.Guarded) : next.Guarded := by
  obtain ⟨installed, top, synced⟩ := guarded
  cases step with
  | builderUpdate session lineBreakFree =>
      refine ⟨by simpa [ConnectionManager.applySession] using installed,
        ConnectionManager.updateComposition_rangeAtTop _ _
          (ConnectionManager.rangeAtTop_updateLocalState top session),
        fun _ _ => ConnectionManager.applySession_synced _ top lineBreakFree⟩
  | userEdit operation unmarked notPlaceholder contained =>
      have same := ConnectionManager.applyEdit_fields defaultInfluxqlEditorText operation manager
      refine ⟨same.2.2.1 ▸ installed, fun range recorded => top range (same.2.1 ▸ recorded),
        fun idle recorded => ?_⟩
      have grew := ConnectionManager.applyEdit_syncEndedCallbacks defaultInfluxqlEditorText
        operation manager
      have idleBefore : manager.syncEndedCallbacks = 0 := by omega
      rcases ConnectionManager.applyEdit_cases defaultInfluxqlEditorText
          (synced idleBefore (same.2.1 ▸ recorded)) installed unmarked notPlaceholder with
        counted | kept | missed
      · omega
      · exact kept
      · exact absurd missed contained

/-- Over every run whose user edits the listener does not miss, the recorded lines hold the
last composition until a sync-ended callback is scheduled. -/
theorem ConnectionManager.Reachable.compositionIntact {manager : ConnectionManager}
    (reachable : ConnectionManager.Reachable defaultInfluxqlEditorText
      (fun state operation => ¬ state.Straddles operation) manager) :
    manager.CompositionIntact := by
  suffices guarded : manager.Guarded from fun range recorded idle =>
    (guarded.2.2 idle (by simp [recorded])).intact range recorded idle
  induction reachable with
  | initial noRange installed _ =>
      exact ⟨installed, by simp [ConnectionManager.RangeAtTop, noRange], by simp [noRange]⟩
  | step _ step inductionHypothesis => exact step.guarded _ inductionHypothesis

theorem compositionIntact_after_update :
    ConnectionManager.Reachable [] (fun state operation => ¬ state.Straddles operation)
        ((⟨TextModel.ofText [], selectAll, none, false, none, 0⟩ : ConnectionManager).applySession
          [] ⟨[], some "m".toList, none, []⟩) ∧
      ((⟨TextModel.ofText [], selectAll, none, false, none, 0⟩ : ConnectionManager).applySession []
        ⟨[], some "m".toList, none, []⟩).CompositionIntact :=
  have reachable := ConnectionManager.Reachable.step
    (ConnectionManager.Reachable.initial rfl rfl rfl)
    (ConnectionManager.Step.builderUpdate ⟨[], some "m".toList, none, []⟩
      (by simp [CompositionSelection.LineBreakFree, CompositionSelection.Avoids]))
  ⟨reachable, ConnectionManager.Reachable.compositionIntact [] reachable⟩

def measurementOnly : CompositionSelection := ⟨[], some "m".toList, none, []⟩

def straddleStart : ConnectionManager :=
  ⟨TextModel.ofText (List.replicate (utf16Length defaultInfluxqlEditorText) 'a'), selectAll, none,
    false, none, 0⟩

theorem measurementOnly_lineBreakFree : measurementOnly.LineBreakFree := by
  simp [CompositionSelection.LineBreakFree, CompositionSelection.Avoids, measurementOnly]

theorem straddleStart_rangeAtTop : (straddleStart defaultInfluxqlEditorText).RangeAtTop := by
  simp [ConnectionManager.RangeAtTop, straddleStart]

def pasteOverTail : EditOperation := ⟨⟨2, .number 1, 3, .infinity⟩, "x".toList, false⟩

section PasteOverTail

variable (model : TextModel) (length : Nat)
  (lines : model.lines = ["SELECT *".toList, "FROM \"m\"".toList, List.replicate length 'a'])
include lines

theorem pasteOverTail_range : model.validateRange pasteOverTail.range = ⟨2, 1, 3, length + 1⟩ := by
  have count : model.getLineCount = 3 := by simp [TextModel.getLineCount, lines]
  simp only [TextModel.validateRange, pasteOverTail]
  rw [TextModel.validatePosition_infinity (by decide) (by omega)]
  simp [TextModel.validatePosition, count, Range.ofPositions, TextModel.getLineMaxColumn,
    TextModel.getLineContent, lines]

theorem pasteOverTail_rangeLength : (model.applyEdit pasteOverTail).2.rangeLength = length + 9 := by
  simp only [TextModel.applyEdit, pasteOverTail_range model length lines, TextModel.getOffsetAt,
    TextModel.getLineContent, lines]
  simp +decide [utf16Length_replicate, utf16Units]
  omega

theorem pasteOverTail_lines :
    (model.applyEdit pasteOverTail).1.lines = ["SELECT *".toList, "x".toList] := by
  simp only [TextModel.applyEdit_lines, pasteOverTail_range model length lines, TextModel.replace,
    TextModel.getLineContent, lines]
  simp [pasteOverTail]
  decide

end PasteOverTail

theorem straddleStart_applySession_lines :
    ((straddleStart defaultInfluxqlEditorText).applySession defaultInfluxqlEditorText
      measurementOnly).model.lines =
      ["SELECT *".toList, "FROM \"m\"".toList,
        List.replicate (utf16Length defaultInfluxqlEditorText) 'a'] := by
  rw [ConnectionManager.applySession, ConnectionManager.updateComposition_lines _
    (ConnectionManager.rangeAtTop_updateLocalState (straddleStart_rangeAtTop _) measurementOnly)
    measurementOnly_lineBreakFree]
  have single : splitBufferLines (List.replicate (utf16Length defaultInfluxqlEditorText) 'a') =
      [List.replicate (utf16Length defaultInfluxqlEditorText) 'a'] :=
    splitBufferLines_of_breakFree ⟨by simp, by simp⟩
  have rendered : compositionLines measurementOnly = ["SELECT *".toList, "FROM \"m\"".toList] := by
    decide
  simp only [ConnectionManager.compositionEndLine, ConnectionManager.updateLocalState,
    straddleStart, TextModel.ofText, single, Option.map_none', Option.getD_none, if_true, rendered]
  rfl

/-- A run the listener gets wrong: after the two-line composition is written, non-empty text
pasted over its last line and the line below leaves the range in place, schedules nothing, and
the recorded lines no longer hold the composition. -/
theorem pasteOverTail_breaks_composition :
    ConnectionManager.Reachable defaultInfluxqlEditorText (fun _ _ => True)
        (ConnectionManager.applyEdit defaultInfluxqlEditorText pasteOverTail
          ((straddleStart defaultInfluxqlEditorText).applySession defaultInfluxqlEditorText
            measurementOnly)) ∧
      ¬ (ConnectionManager.applyEdit defaultInfluxqlEditorText pasteOverTail
          ((straddleStart defaultInfluxqlEditorText).applySession defaultInfluxqlEditorText
            measurementOnly)).CompositionIntact := by
  have lines := straddleStart_applySession_lines defaultInfluxqlEditorText
  set updated := (straddleStart defaultInfluxqlEditorText).applySession defaultInfluxqlEditorText
    measurementOnly
  have range : updated.compositionRange = some ⟨⟨1, 1⟩, ⟨2, 1⟩⟩ :=
    ConnectionManager.updateComposition_compositionRange _
      (ConnectionManager.rangeAtTop_updateLocalState (straddleStart_rangeAtTop _) measurementOnly)
  have sameSession : updated.session = measurementOnly :=
    (ConnectionManager.updateComposition_fields _ _).1
  have idle : updated.syncEndedCallbacks = 0 :=
    ConnectionManager.updateComposition_syncEndedCallbacks _ _
  have missed : shouldEndSync defaultInfluxqlEditorText updated.compositionRange
      [(updated.model.applyEdit pasteOverTail).2] = false := by
    have outside : editorChangeIsWithinComposition updated.compositionRange
        (updated.model.applyEdit pasteOverTail).2 = false := by
      rw [range, Bool.eq_false_iff, ne_eq, editorChangeIsWithinComposition_some,
        (TextModel.applyEdit_change _ _).1, (TextModel.applyEdit_change _ _).2.1,
        pasteOverTail_range _ _ lines]
      simp [pasteOverTail]
    simp [shouldEndSync, outside]
  have stillIdle : (ConnectionManager.applyEdit defaultInfluxqlEditorText pasteOverTail
      updated).syncEndedCallbacks = 0 := by
    rw [ConnectionManager.applyEdit_syncEndedCallbacks, missed, idle]; simp
  constructor
  · refine .step (.step (.initial rfl rfl rfl)
      (.builderUpdate measurementOnly measurementOnly_lineBreakFree))
      (.userEdit pasteOverTail rfl ?_ trivial)

    rw [pasteOverTail_rangeLength _ _ lines]; omega
  · intro intact
    have kept := intact _ (by simpa using range) stillIdle
    rw [ConnectionManager.applyEdit_model, pasteOverTail_lines _ _ lines,
      (ConnectionManager.applyEdit_fields _ _ _).1, sameSession] at kept
    revert kept
    decide

end Listener

end InfluxUi.InfluxQL
