import InfluxUi.Editor.TextModel
import InfluxUi.InfluxQL.Composition

/-!
# The InfluxQL connection manager

The composition part of `ConnectionManager`
(`src/languageSupport/languages/influxql/connection.ts`). `_updateComposition` writes the
rendered selection over the lines it owns, the composition range, and records the new range.
The listener `_setCompositionHandlers` installs classifies every change of the buffer: a change
inside the composition range that is neither the removal of the placeholder text nor marked
with `forceMoveMarkers` schedules the sync-ended callbacks (`_callbackSetSession` with
`synced: false` and the `compositionEnded` notification) on a zero-delay timer.

`DEFAULT_INFLUXQL_EDITOR_TEXT` is not under `src`; the functions that read its length take the
text as a parameter, and compare its JavaScript length, in UTF-16 units, with the length a
change removed. The callbacks only reach the owning UI, so the model counts them.
-/

namespace InfluxUi.InfluxQL

open InfluxUi.Editor

structure LspPosition where
  line : Nat
  column : Nat
  deriving DecidableEq, Repr

structure LspRange where
  start : LspPosition
  «end» : LspPosition
  deriving DecidableEq, Repr

structure TimeRange where
  lower : Option (List Char)
  upper : Option (List Char)
  deriving DecidableEq, Repr

/-- The fields of one `ConnectionManager` the composition code reads and writes. The listener
is installed once `firstLoad` is `false`. -/
structure ConnectionManager where
  model : TextModel
  session : CompositionSelection
  compositionRange : Option LspRange
  firstLoad : Bool
  timeRange : Option TimeRange
  syncEndedCallbacks : Nat

section Handlers

variable (defaultInfluxqlEditorText : List Char)

def editorChangeIsWithinComposition (compositionRange : Option LspRange)
    (change : ContentChange) : Bool :=
  match compositionRange with
  | none => false
  | some range =>
      let startLine := range.start.line
      let endLine := range.«end».line
      let hasChangeInBlock :=
        startLine ≤ change.range.startLineNumber && change.range.endLineNumber ≤ endLine
      let isDeletion := change.text.isEmpty
      let linesDeleted : Int := change.range.endLineNumber - change.range.startLineNumber
      let hasDeletionFromBlock := isDeletion &&
        (startLine ≤ change.range.startLineNumber &&
          decide ((change.range.endLineNumber : Int) ≤ endLine + linesDeleted))
      hasChangeInBlock || hasDeletionFromBlock

def couldBeFromComposition (change : ContentChange) : Bool :=
  change.rangeLength == utf16Length defaultInfluxqlEditorText || change.forceMoveMarkers

def shouldEndSync (compositionRange : Option LspRange) (changes : List ContentChange) : Bool :=
  changes.any fun change =>
    editorChangeIsWithinComposition compositionRange change &&
      !couldBeFromComposition defaultInfluxqlEditorText change

/-- The listener installed by `_setCompositionHandlers`. -/
def compositionChangeHandler (changes : List ContentChange)
    (manager : ConnectionManager) : ConnectionManager :=
  if shouldEndSync defaultInfluxqlEditorText manager.compositionRange changes then
    { manager with syncEndedCallbacks := manager.syncEndedCallbacks + 1 }
  else manager

def ConnectionManager.contentChanged (changes : List ContentChange)
    (manager : ConnectionManager) : ConnectionManager :=
  if manager.firstLoad then manager
  else compositionChangeHandler defaultInfluxqlEditorText changes manager

def ConnectionManager.applyEdit (operation : EditOperation)
    (manager : ConnectionManager) : ConnectionManager :=
  let (model, change) := manager.model.applyEdit operation
  ConnectionManager.contentChanged defaultInfluxqlEditorText [change] { manager with model }

/-- Modelled from the spec: `_setEditorBlockStyle` (in the agnostic connection manager, not
under `src`) records the range it is given as the composition range; the highlighting is not
modelled. -/
def ConnectionManager.setEditorBlockStyle (range : LspRange) (_shouldHighlight : Bool)
    (manager : ConnectionManager) : ConnectionManager :=
  { manager with compositionRange := some range }

def ConnectionManager.updateComposition (manager : ConnectionManager) : ConnectionManager :=
  let built := buildComposition manager.session
  let startLineNumber := (manager.compositionRange.map (·.start.line)).getD 1
  let endLineNumber := (manager.compositionRange.map (·.«end».line)).getD 1
  let shouldAddNewLine := startLineNumber == 1 && endLineNumber == 1
  let endColumn := if shouldAddNewLine then Column.number 1 else .infinity
  let edited := ConnectionManager.applyEdit defaultInfluxqlEditorText
    ⟨⟨startLineNumber, .number 1, endLineNumber, endColumn⟩,
      built.composition ++ (if shouldAddNewLine then ['\n'] else []), true⟩ manager
  edited.setEditorBlockStyle
    ⟨⟨startLineNumber, 1⟩, ⟨startLineNumber + built.lines - 1, built.lenLastLine⟩⟩
    (0 < built.lines)

/-- What the agnostic manager's `_updateLocalState` and `_diffSchemaChange` report (they are
not under `src`): whether to go on, whether fields or tags were added or removed, and whether
the placeholder text is to be removed. -/
structure SchemaDiff where
  shouldContinue : Bool
  schemaChanged : Bool
  shouldRemoveDefaultMsg : Bool
  deriving DecidableEq, Repr

/-- Modelled from the spec: `_updateLocalState` (not under `src`) stores the selection the
caller supplies as the session. -/
def ConnectionManager.updateLocalState (schema : CompositionSelection)
    (manager : ConnectionManager) : ConnectionManager :=
  { manager with session := schema }

def ConnectionManager.onSchemaSessionChange (schema : CompositionSelection) (diff : SchemaDiff)
    (range : Option TimeRange) (manager : ConnectionManager) : ConnectionManager :=
  let manager := manager.updateLocalState schema
  if !diff.shouldContinue then manager
  else
    let manager := if manager.firstLoad then { manager with firstLoad := false } else manager
    let manager := if diff.shouldRemoveDefaultMsg then
      ConnectionManager.applyEdit defaultInfluxqlEditorText ⟨manager.model.fullRange, [], false⟩
        manager
      else manager
    let rangeChanged := manager.timeRange.bind (·.lower) != range.bind (·.lower) ||
      manager.timeRange.bind (·.upper) != range.bind (·.upper)
    let manager := { manager with timeRange := range }
    if diff.schemaChanged || rangeChanged then
      ConnectionManager.updateComposition defaultInfluxqlEditorText manager
    else manager

theorem compositionChangeHandler_eq (changes : List ContentChange) (manager : ConnectionManager) :
    compositionChangeHandler defaultInfluxqlEditorText changes manager =
      { manager with
        syncEndedCallbacks := manager.syncEndedCallbacks +
          if shouldEndSync defaultInfluxqlEditorText manager.compositionRange changes then 1
          else 0 } := by
  unfold compositionChangeHandler; split <;> simp_all

theorem ConnectionManager.contentChanged_eq (changes : List ContentChange)
    (manager : ConnectionManager) :
    ConnectionManager.contentChanged defaultInfluxqlEditorText changes manager =
      { manager with
        syncEndedCallbacks := manager.syncEndedCallbacks +
          if !manager.firstLoad &&
            shouldEndSync defaultInfluxqlEditorText manager.compositionRange changes then 1
          else 0 } := by
  cases manager
  unfold ConnectionManager.contentChanged
  split <;> simp_all [compositionChangeHandler_eq]

theorem shouldEndSync_of_forced (compositionRange : Option LspRange) (changes : List ContentChange)
    (forced : ∀ change ∈ changes, change.forceMoveMarkers) :
    shouldEndSync defaultInfluxqlEditorText compositionRange changes = false := by
  simp only [shouldEndSync, List.any_eq_false]
  intro change member
  simp [couldBeFromComposition, forced change member]

@[simp]
theorem ConnectionManager.applyEdit_model (operation : EditOperation)
    (manager : ConnectionManager) :
    (ConnectionManager.applyEdit defaultInfluxqlEditorText operation manager).model =
      (manager.model.applyEdit operation).1 := by
  simp [ConnectionManager.applyEdit, ConnectionManager.contentChanged_eq]

@[simp]
theorem ConnectionManager.applyEdit_fields (operation : EditOperation)
    (manager : ConnectionManager) :
    (ConnectionManager.applyEdit defaultInfluxqlEditorText operation manager).session =
        manager.session ∧
      (ConnectionManager.applyEdit defaultInfluxqlEditorText operation manager).compositionRange =
        manager.compositionRange ∧
      (ConnectionManager.applyEdit defaultInfluxqlEditorText operation manager).firstLoad =
        manager.firstLoad ∧
      (ConnectionManager.applyEdit defaultInfluxqlEditorText operation manager).timeRange =
        manager.timeRange := by
  simp [ConnectionManager.applyEdit, ConnectionManager.contentChanged_eq]

theorem ConnectionManager.applyEdit_syncEndedCallbacks (operation : EditOperation)
    (manager : ConnectionManager) :
    (ConnectionManager.applyEdit defaultInfluxqlEditorText operation manager).syncEndedCallbacks =
      manager.syncEndedCallbacks +
        if !manager.firstLoad && shouldEndSync defaultInfluxqlEditorText manager.compositionRange
          [(manager.model.applyEdit operation).2] then 1 else 0 := by
  simp [ConnectionManager.applyEdit, ConnectionManager.contentChanged_eq]

/-- The recorded composition range starts on the first line and ends on a line. -/
def ConnectionManager.RangeAtTop (manager : ConnectionManager) : Prop :=
  ∀ range, manager.compositionRange = some range →
    range.start.line = 1 ∧ 1 ≤ range.«end».line


def ConnectionManager.compositionEndLine (manager : ConnectionManager) : Nat :=
  (manager.compositionRange.map (·.«end».line)).getD 1

theorem ConnectionManager.startLine_of_rangeAtTop {manager : ConnectionManager}
    (top : manager.RangeAtTop) : (manager.compositionRange.map (·.start.line)).getD 1 = 1 := by
  cases recorded : manager.compositionRange with
  | none => rfl
  | some range => simpa using (top range recorded).1

theorem ConnectionManager.one_le_compositionEndLine {manager : ConnectionManager}
    (top : manager.RangeAtTop) : 1 ≤ manager.compositionEndLine := by
  unfold compositionEndLine
  cases recorded : manager.compositionRange with
  | none => simp
  | some range => simpa using (top range recorded).2

theorem ConnectionManager.updateComposition_syncEndedCallbacks (manager : ConnectionManager) :
    (ConnectionManager.updateComposition defaultInfluxqlEditorText manager).syncEndedCallbacks =
      manager.syncEndedCallbacks := by
  simp only [ConnectionManager.updateComposition, ConnectionManager.setEditorBlockStyle,
    ConnectionManager.applyEdit_syncEndedCallbacks]
  rw [shouldEndSync_of_forced _ _ _ (by simp)]
  simp

@[simp]
theorem ConnectionManager.updateComposition_fields (manager : ConnectionManager) :
    (ConnectionManager.updateComposition defaultInfluxqlEditorText manager).session =
        manager.session ∧
      (ConnectionManager.updateComposition defaultInfluxqlEditorText manager).firstLoad =
        manager.firstLoad ∧
      (ConnectionManager.updateComposition defaultInfluxqlEditorText manager).timeRange =
        manager.timeRange := by
  simp [ConnectionManager.updateComposition, ConnectionManager.setEditorBlockStyle]

/-- The range `_updateComposition` records: from the first line to the composition's last. -/
theorem ConnectionManager.updateComposition_compositionRange {manager : ConnectionManager}
    (top : manager.RangeAtTop) :
    (ConnectionManager.updateComposition defaultInfluxqlEditorText manager).compositionRange =
      some ⟨⟨1, 1⟩, ⟨(compositionLines manager.session).length, 1⟩⟩ := by
  have positive := List.length_pos.mpr (compositionLines_ne_nil manager.session)
  simp only [ConnectionManager.updateComposition, ConnectionManager.setEditorBlockStyle,
    ConnectionManager.startLine_of_rangeAtTop top, buildComposition_lines,
    buildComposition_lenLastLine]
  congr
  omega

theorem ConnectionManager.updateComposition_rangeAtTop (manager : ConnectionManager)
    (top : manager.RangeAtTop) :
    (ConnectionManager.updateComposition defaultInfluxqlEditorText manager).RangeAtTop := by
  intro range recorded
  rw [ConnectionManager.updateComposition_compositionRange _ top] at recorded
  cases recorded
  exact ⟨rfl, List.length_pos.mpr (compositionLines_ne_nil _)⟩

/-- The buffer after `_updateComposition`: the composition, then the lines below the old
range. While the range is a single line it is taken for "no range yet": the composition is
inserted above it and the old line stays. -/
theorem ConnectionManager.updateComposition_lines {manager : ConnectionManager}
    (top : manager.RangeAtTop) (lineBreakFree : manager.session.LineBreakFree) :
    (ConnectionManager.updateComposition defaultInfluxqlEditorText manager).model.lines =
      compositionLines manager.session ++
        if manager.compositionEndLine = 1 then manager.model.lines
        else manager.model.lines.drop manager.compositionEndLine := by
  have endLine := ConnectionManager.one_le_compositionEndLine top
  have endEq : (manager.compositionRange.map (·.«end».line)).getD 1 =
      manager.compositionEndLine := rfl
  simp only [ConnectionManager.updateComposition, ConnectionManager.setEditorBlockStyle,
    ConnectionManager.applyEdit_model, ConnectionManager.startLine_of_rangeAtTop top, endEq]
  by_cases single : manager.compositionEndLine = 1
  · obtain ⟨⟨lines, nonempty, breakFree⟩, session⟩ := manager
    obtain ⟨first, rest, rfl⟩ := List.exists_cons_of_ne_nil nonempty
    simp only [single, beq_self_eq_true, Bool.and_self, if_true,
      TextModel.applyEdit_insertAtStart, List.head_cons, List.tail_cons, List.append_assoc,
      List.singleton_append, buildComposition]
    rw [splitBufferLines_joinLines_append (compositionLines_breakFree lineBreakFree)
      (compositionLines_ne_nil _),
      splitBufferLines_of_breakFree (breakFree first (List.mem_cons_self _ _))]
    simp
  · simp only [single, beq_self_eq_true, beq_iff_eq, Bool.true_and, if_false, List.append_nil,
      TextModel.applyEdit_replaceFromStart _ endLine, buildComposition]
    rw [splitBufferLines_joinLines (compositionLines_breakFree lineBreakFree)
      (compositionLines_ne_nil _)]

end Handlers

end InfluxUi.InfluxQL
