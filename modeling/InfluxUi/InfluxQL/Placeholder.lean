import InfluxUi.InfluxQL.SharedBuffer

/-!
# Removing the placeholder

A builder call may ask for the placeholder text to go (`shouldRemoveDefaultMsg`). The call has
installed the listener by then, so the listener sees the `setValue('')` that empties the buffer.
The change reports the whole text as removed, and the listener takes a change of exactly the
placeholder's length, in UTF-16 units, for the composition's own (`_couldBeFromComposition`):
when the buffer held text of that length, the removal schedules nothing, and the call is the same call, keeping the
text, on an empty buffer. A session that opens so then refines `SharedDocument` from an empty
user text.
-/

namespace InfluxUi.InfluxQL

open InfluxUi.Editor

section Placeholder

variable (defaultInfluxqlEditorText : List Char)

/-- Under the placeholder's length, removing it is the same call, keeping the text, on an empty
buffer. -/
theorem ConnectionManager.onSchemaSessionChange_of_placeholder (manager : ConnectionManager)
    (placeholder : utf16Length manager.model.getValue = utf16Length defaultInfluxqlEditorText)
    (schema : CompositionSelection) {diff : SchemaDiff} (range : Option TimeRange)
    (continues : diff.shouldContinue = true) (removes : diff.shouldRemoveDefaultMsg = true) :
    ConnectionManager.onSchemaSessionChange defaultInfluxqlEditorText schema diff range manager =
      ConnectionManager.onSchemaSessionChange defaultInfluxqlEditorText schema
        { diff with shouldRemoveDefaultMsg := false } range
        { manager with model := TextModel.ofText [] } := by
  obtain ⟨model, session, compositionRange, firstLoad, timeRange, callbacks⟩ := manager
  obtain ⟨shouldContinue, schemaChanged, shouldRemoveDefaultMsg⟩ := diff
  have cleared := TextModel.applyEdit_fullRange model false
  have emptied : (model.applyEdit ⟨model.fullRange, [], false⟩).1 = TextModel.ofText [] :=
    TextModel.ext cleared.1
  dsimp only at continues removes placeholder
  subst continues removes
  cases firstLoad <;>
    simp [ConnectionManager.onSchemaSessionChange, ConnectionManager.updateLocalState,
      ConnectionManager.applyEdit, ConnectionManager.contentChanged_eq, shouldEndSync,
      couldBeFromComposition, cleared.2, placeholder, emptied]

/-- A one-character placeholder at first load: nothing written, no callback scheduled. -/
def placeholderAtFirstLoad : ConnectionManager :=
  ⟨TextModel.ofText "x".toList, selectAll, none, true, none, 0⟩

/-- A session that opens by removing the placeholder. From a buffer whose text is as long as the
placeholder, with no composition range and no callback scheduled, a builder call that goes on,
removes the placeholder and writes a multi-line composition free of line breaks, then any covered
run: the buffer shows the document that starts from an empty user text. -/
theorem ConnectionManager.handleAll_shows_afterPlaceholder (manager : ConnectionManager)
    (noRange : manager.compositionRange = none) (idle : manager.syncEndedCallbacks = 0)
    (placeholder : utf16Length manager.model.getValue = utf16Length defaultInfluxqlEditorText)
    {schema : CompositionSelection} {diff : SchemaDiff} (range : Option TimeRange)
    (continues : diff.shouldContinue = true) (removes : diff.shouldRemoveDefaultMsg = true)
    (lineBreakFree : schema.LineBreakFree) (severalLines : (compositionLines schema).length ≠ 1)
    (events : List BufferEvent) (covered : ∀ event ∈ events, event.Covered) :
    (manager.handleAll defaultInfluxqlEditorText (.schemaChange schema diff range :: events)).Shows
      (SharedDocument.run ⟨none, TextModel.ofText [], manager.timeRange⟩
        (.schemaChange schema diff range :: events)) := by
  have emptied : ({ manager with model := TextModel.ofText [] } : ConnectionManager).Shows
      ⟨none, TextModel.ofText [], manager.timeRange⟩ :=
    ⟨by simp [SharedDocument.compositionBlock], by simp [noRange], rfl, idle, by simp⟩
  have opened := emptied.schemaChange defaultInfluxqlEditorText range
    (⟨rfl, lineBreakFree, severalLines⟩ :
      (BufferEvent.schemaChange schema { diff with shouldRemoveDefaultMsg := false } range).Covered)
  simp only [ConnectionManager.handleAll, SharedDocument.run, List.foldl_cons]
  rw [ConnectionManager.handle, ConnectionManager.onSchemaSessionChange_of_placeholder _ manager
    placeholder schema range continues removes]
  exact opened.handleAll defaultInfluxqlEditorText covered

/-- `y` typed on the user's line, below the composition the opening call wrote. -/
def typingAfterOpening : List BufferEvent :=
  [.userEdit ⟨⟨1, .number 1, 1, .number 1⟩, "y".toList, false⟩]

theorem handleAll_shows_afterPlaceholder_typing :
    placeholderAtFirstLoad.compositionRange = none ∧
      placeholderAtFirstLoad.syncEndedCallbacks = 0 ∧
      utf16Length placeholderAtFirstLoad.model.getValue = utf16Length "x".toList ∧
      (⟨true, true, true⟩ : SchemaDiff).shouldContinue = true ∧
      (⟨true, true, true⟩ : SchemaDiff).shouldRemoveDefaultMsg = true ∧
      measurementOnly.LineBreakFree ∧ (compositionLines measurementOnly).length ≠ 1 ∧
      (∀ event ∈ typingAfterOpening, event.Covered) ∧
      (placeholderAtFirstLoad.handleAll "x".toList
          (.schemaChange measurementOnly ⟨true, true, true⟩ none :: typingAfterOpening)).Shows
        (SharedDocument.run ⟨none, TextModel.ofText [], placeholderAtFirstLoad.timeRange⟩
          (.schemaChange measurementOnly ⟨true, true, true⟩ none :: typingAfterOpening)) :=
  have covered : ∀ event ∈ typingAfterOpening, event.Covered := by
    simp only [typingAfterOpening, List.mem_singleton, forall_eq]
    exact ⟨by decide, by decide⟩
  ⟨rfl, rfl, by decide, rfl, rfl, measurementOnly_lineBreakFree, by decide, covered,
    ConnectionManager.handleAll_shows_afterPlaceholder _ _ rfl rfl (by decide) none rfl rfl
      measurementOnly_lineBreakFree (by decide) _ covered⟩

end Placeholder

end InfluxUi.InfluxQL
