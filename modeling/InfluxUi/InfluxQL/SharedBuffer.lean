import InfluxUi.Editor.Locality
import InfluxUi.InfluxQL.SyncEnd

/-!
# The buffer the query builder shares with the user

The editor's buffer holds two things: the composition the builder last wrote, on top, and the
user's own text below it. `SharedDocument` is that view: the selection last written, the user's
text as a buffer of its own, and the time range the builder last supplied. A builder call
(`onSchemaSessionChange`) may write a new composition; a user edit changes the user's text, its
lines counted from the first line below the composition.

The connection manager refines this view over every run of such events, as long as no call
removes the placeholder, no name or value of a selection written holds `\n` or `\r`, every
composition written has more than one line, and every user edit lies below the composition:
the buffer is always the last composition above the user's text, the recorded range covers
exactly the composition, and no sync-ended callback is ever scheduled. A one-line composition is excluded because its range `1..1` is taken
for "no range yet" (see `Updates`).
-/

namespace InfluxUi.InfluxQL

open InfluxUi.Editor

def timeRangeChanged (previous current : Option TimeRange) : Bool :=
  previous.bind (·.lower) != current.bind (·.lower) ||
    previous.bind (·.upper) != current.bind (·.upper)

/-- The abstract state: the selection whose composition was last written, if any, the user's
text below it, and the builder's time range. -/
structure SharedDocument where
  written : Option CompositionSelection
  text : TextModel
  timeRange : Option TimeRange

def SharedDocument.compositionBlock (document : SharedDocument) : List (List Char) :=
  (document.written.map compositionLines).getD []

/-- What happens to the shared buffer: a call of `onSchemaSessionChange`, or a user edit whose
lines are counted from the first line below the composition. -/
inductive BufferEvent where
  | schemaChange (schema : CompositionSelection) (diff : SchemaDiff) (range : Option TimeRange)
  | userEdit (operation : EditOperation)

/-- The events the law covers: builder calls that keep the buffer's text and write multi-line
compositions free of line breaks, and user edits whose both ends lie below the composition. -/
def BufferEvent.Covered : BufferEvent → Prop
  | .schemaChange schema diff _ =>
      diff.shouldRemoveDefaultMsg = false ∧ schema.LineBreakFree ∧
        (compositionLines schema).length ≠ 1
  | .userEdit operation => 1 ≤ operation.range.startLineNumber ∧ 1 ≤ operation.range.endLineNumber

/-- The purpose of the synchroniser: a builder call that goes on takes the new time range and,
when the schema or the time range changed, writes its selection; a user edit changes the user's
text and nothing else. -/
def SharedDocument.handle (document : SharedDocument) : BufferEvent → SharedDocument
  | .schemaChange schema diff range =>
      if diff.shouldContinue then
        { document with
          written :=
            if diff.schemaChanged || timeRangeChanged document.timeRange range then some schema
            else document.written
          timeRange := range }
      else document
  | .userEdit operation => { document with text := (document.text.applyEdit operation).1 }

def SharedDocument.run (document : SharedDocument) (events : List BufferEvent) : SharedDocument :=
  events.foldl SharedDocument.handle document

def ConnectionManager.compositionHeight (manager : ConnectionManager) : Nat :=
  (manager.compositionRange.map (·.«end».line)).getD 0

section SharedBuffer

variable (defaultInfluxqlEditorText : List Char)

def ConnectionManager.handle (manager : ConnectionManager) : BufferEvent → ConnectionManager
  | .schemaChange schema diff range =>
      ConnectionManager.onSchemaSessionChange defaultInfluxqlEditorText schema diff range manager
  | .userEdit operation =>
      ConnectionManager.applyEdit defaultInfluxqlEditorText
        (operation.shift manager.compositionHeight) manager

def ConnectionManager.handleAll (manager : ConnectionManager) (events : List BufferEvent) :
    ConnectionManager :=
  events.foldl (ConnectionManager.handle defaultInfluxqlEditorText) manager

/-- The manager shows the document: its buffer is the composition above the user's text, its
range is the composition's, no sync-ended callback is scheduled, and the composition written is
not a single line. -/
structure ConnectionManager.Shows (manager : ConnectionManager) (document : SharedDocument) :
    Prop where
  lines : manager.model.lines = document.compositionBlock ++ document.text.lines
  range : manager.compositionRange = document.written.map compositionRangeOf
  timeRange : manager.timeRange = document.timeRange
  idle : manager.syncEndedCallbacks = 0
  severalLines : ∀ session, document.written = some session →
    (compositionLines session).length ≠ 1

/-- `onSchemaSessionChange` when the placeholder stays: it stores the selection; a call that
goes on also installs the listener and takes the time range, and writes the composition when
the schema or the time range changed. -/
theorem ConnectionManager.onSchemaSessionChange_of_keepsText (manager : ConnectionManager)
    (schema : CompositionSelection) {diff : SchemaDiff} (range : Option TimeRange)
    (keepsText : diff.shouldRemoveDefaultMsg = false) :
    ConnectionManager.onSchemaSessionChange defaultInfluxqlEditorText schema diff range manager =
      if diff.shouldContinue then
        if diff.schemaChanged || timeRangeChanged manager.timeRange range then
          ConnectionManager.updateComposition defaultInfluxqlEditorText
            { manager with session := schema, firstLoad := false, timeRange := range }
        else { manager with session := schema, firstLoad := false, timeRange := range }
      else manager.updateLocalState schema := by
  obtain ⟨model, session, compositionRange, firstLoad, timeRange, callbacks⟩ := manager
  obtain ⟨shouldContinue, schemaChanged, shouldRemoveDefaultMsg⟩ := diff
  cases shouldContinue <;> cases firstLoad <;>
    simp_all [ConnectionManager.onSchemaSessionChange, ConnectionManager.updateLocalState,
      timeRangeChanged]

theorem ConnectionManager.Shows.compositionHeight {manager : ConnectionManager}
    {document : SharedDocument} (shows : manager.Shows document) :
    manager.compositionHeight = document.compositionBlock.length := by
  cases written : document.written <;>
    simp [ConnectionManager.compositionHeight, shows.range, written,
      SharedDocument.compositionBlock, compositionRangeOf]

theorem ConnectionManager.Shows.rangeAtTop {manager : ConnectionManager}
    {document : SharedDocument} (shows : manager.Shows document) : manager.RangeAtTop := by
  intro range recorded
  rw [shows.range] at recorded
  obtain ⟨session, _, rfl⟩ := Option.map_eq_some'.mp recorded
  exact ⟨rfl, List.length_pos.mpr (compositionLines_ne_nil session)⟩

theorem editorChangeIsWithinComposition_shift (session : CompositionSelection)
    {change : ContentChange} (startsBelow : 1 ≤ change.range.startLineNumber)
    (endsBelow : 1 ≤ change.range.endLineNumber) :
    editorChangeIsWithinComposition (some (compositionRangeOf session))
      (change.shift (compositionLines session).length) = false := by
  rw [Bool.eq_false_iff, ne_eq, editorChangeIsWithinComposition_some]
  simp only [compositionRangeOf, ContentChange.shift_range, Range.shift_startLineNumber,
    Range.shift_endLineNumber]
  omega

theorem ConnectionManager.Shows.schemaChange {manager : ConnectionManager}
    {document : SharedDocument} (shows : manager.Shows document) {schema : CompositionSelection}
    {diff : SchemaDiff} (range : Option TimeRange)
    (covered : (BufferEvent.schemaChange schema diff range).Covered) :
    (manager.handle defaultInfluxqlEditorText (.schemaChange schema diff range)).Shows
      (document.handle (.schemaChange schema diff range)) := by
  obtain ⟨keepsText, lineBreakFree, severalLines⟩ := covered
  simp only [ConnectionManager.handle, SharedDocument.handle,
    ConnectionManager.onSchemaSessionChange_of_keepsText _ _ _ _ keepsText, shows.timeRange]
  cases continues : diff.shouldContinue
  · exact ⟨shows.lines, shows.range, shows.timeRange, shows.idle, shows.severalLines⟩
  by_cases writes : (diff.schemaChanged || timeRangeChanged document.timeRange range) = true
  swap
  · simp only [if_true, writes, Bool.false_eq_true, if_false]
    exact ⟨shows.lines, shows.range, rfl, shows.idle, shows.severalLines⟩
  simp only [if_true, writes]
  have top : ({ manager with session := schema, firstLoad := false, timeRange := range } :
      ConnectionManager).RangeAtTop := shows.rangeAtTop
  refine ⟨?_, ConnectionManager.updateComposition_compositionRange _ top,
    (ConnectionManager.updateComposition_fields _ _).2.2,
    (ConnectionManager.updateComposition_syncEndedCallbacks _ _).trans shows.idle,
    fun session written => by cases written; exact severalLines⟩
  rw [ConnectionManager.updateComposition_lines _ top lineBreakFree]
  simp only [ConnectionManager.compositionEndLine, shows.range, shows.lines,
    SharedDocument.compositionBlock]
  cases written : document.written with
  | none => simp
  | some previous =>
      simp [compositionRangeOf, shows.severalLines previous written]

theorem ConnectionManager.Shows.userEdit {manager : ConnectionManager}
    {document : SharedDocument} (shows : manager.Shows document) {operation : EditOperation}
    (covered : (BufferEvent.userEdit operation).Covered) :
    (manager.handle defaultInfluxqlEditorText (.userEdit operation)).Shows
      (document.handle (.userEdit operation)) := by
  obtain ⟨startsBelow, endsBelow⟩ := covered
  have edited := TextModel.applyEdit_of_stacked shows.lines startsBelow endsBelow
  have startLine := document.text.one_le_validateRange_startLineNumber operation.range
  have endLine := document.text.one_le_validateRange_endLineNumber operation.range
  have same := ConnectionManager.applyEdit_fields defaultInfluxqlEditorText
    (operation.shift document.compositionBlock.length) manager
  have outside : editorChangeIsWithinComposition manager.compositionRange
      ((document.text.applyEdit operation).2.shift document.compositionBlock.length) = false := by
    rw [shows.range]
    cases written : document.written with
    | none => rfl
    | some session =>
        simpa [SharedDocument.compositionBlock, written] using
          editorChangeIsWithinComposition_shift session startLine endLine
  simp only [ConnectionManager.handle, SharedDocument.handle, shows.compositionHeight]
  refine ⟨?_, same.2.1.trans shows.range, same.2.2.2.trans shows.timeRange, ?_,
    shows.severalLines⟩
  · rw [ConnectionManager.applyEdit_model, edited.1]
    rfl
  · rw [ConnectionManager.applyEdit_syncEndedCallbacks, edited.2, shows.idle]
    simp [shouldEndSync, outside]

theorem ConnectionManager.Shows.handle {manager : ConnectionManager} {document : SharedDocument}
    (shows : manager.Shows document) {event : BufferEvent} (covered : event.Covered) :
    (manager.handle defaultInfluxqlEditorText event).Shows (document.handle event) := by
  cases event with
  | schemaChange schema diff range => exact shows.schemaChange _ range covered
  | userEdit operation => exact shows.userEdit _ covered

theorem ConnectionManager.Shows.handleAll {manager : ConnectionManager}
    {document : SharedDocument} (shows : manager.Shows document) {events : List BufferEvent}
    (covered : ∀ event ∈ events, event.Covered) :
    (manager.handleAll defaultInfluxqlEditorText events).Shows (document.run events) := by
  induction events generalizing manager document with
  | nil => exact shows
  | cons event rest inductionHypothesis =>
      exact inductionHypothesis (shows.handle _ (covered event (List.mem_cons_self _ _)))
        fun later member => covered later (List.mem_cons_of_mem _ member)

/-- Builder and user never get in each other's way. From a buffer with no composition and no
callback scheduled, over every run of builder calls that keep the text and write multi-line
compositions free of line breaks, and of user edits below the composition: the buffer is the last
composition written above the user's text, edited exactly as a buffer of its own, the range
covers exactly that composition, and no sync-ended callback is scheduled. -/
theorem ConnectionManager.handleAll_shows (manager : ConnectionManager)
    (noRange : manager.compositionRange = none) (idle : manager.syncEndedCallbacks = 0)
    (events : List BufferEvent) (covered : ∀ event ∈ events, event.Covered) :
    (manager.handleAll defaultInfluxqlEditorText events).Shows
      (SharedDocument.run ⟨none, manager.model, manager.timeRange⟩ events) :=
  ConnectionManager.Shows.handleAll _
    ⟨by simp [SharedDocument.compositionBlock], by simp [noRange], rfl, idle, by simp⟩ covered

/-- The measurement `m` written, `y` typed on the user's first line, then `cpu` written over it. -/
def typingBetweenUpdates : List BufferEvent :=
  [.schemaChange measurementOnly ⟨true, true, false⟩ none,
    .userEdit ⟨⟨1, .number 2, 1, .number 2⟩, "y".toList, false⟩,
    .schemaChange ⟨[], some "cpu".toList, none, []⟩ ⟨true, true, false⟩ none]

theorem handleAll_shows_typingBetweenUpdates :
    (⟨TextModel.ofText "x".toList, selectAll, none, false, none, 0⟩ :
        ConnectionManager).compositionRange = none ∧
      (⟨TextModel.ofText "x".toList, selectAll, none, false, none, 0⟩ :
        ConnectionManager).syncEndedCallbacks = 0 ∧
      (∀ event ∈ typingBetweenUpdates, event.Covered) ∧
      (ConnectionManager.handleAll [] ⟨TextModel.ofText "x".toList, selectAll, none, false, none, 0⟩
        typingBetweenUpdates).Shows
        (SharedDocument.run ⟨none, TextModel.ofText "x".toList, none⟩ typingBetweenUpdates) :=
  have covered : ∀ event ∈ typingBetweenUpdates, event.Covered := by
    simp only [typingBetweenUpdates, List.mem_cons, List.mem_singleton, List.not_mem_nil,
      or_false, forall_eq_or_imp, forall_eq]
    refine ⟨⟨rfl, measurementOnly_lineBreakFree, by decide⟩, ⟨by decide, by decide⟩,
      ⟨rfl, by simp [CompositionSelection.LineBreakFree, CompositionSelection.Avoids], by decide⟩⟩
  ⟨rfl, rfl, covered, ConnectionManager.handleAll_shows [] _ rfl rfl _ covered⟩

end SharedBuffer

end InfluxUi.InfluxQL
