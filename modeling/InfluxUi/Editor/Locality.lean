import InfluxUi.Editor.TextModel

/-!
# Editing below a block of lines

A buffer whose lines are a fixed block followed by the lines of a second buffer. An edit whose
range lies below the block, both ends counted from the first line after it, leaves the block as
it is and acts on the rest exactly as the same edit, with its lines counted from there, acts on
the second buffer alone. The change the listeners receive is that edit's change moved down by
the height of the block: same columns, same removed length, same text and marker flag.
-/

namespace InfluxUi.Editor

/-- The same position, `k` lines further down. -/
def Position.shift (position : Position) (k : Nat) : Position :=
  ⟨position.lineNumber + k, position.column⟩

/-- The same range, `k` lines further down. -/
def Range.shift (range : Range) (k : Nat) : Range :=
  ⟨range.startLineNumber + k, range.startColumn, range.endLineNumber + k, range.endColumn⟩

def IRange.shift (range : IRange) (k : Nat) : IRange :=
  ⟨range.startLineNumber + k, range.startColumn, range.endLineNumber + k, range.endColumn⟩

def EditOperation.shift (operation : EditOperation) (k : Nat) : EditOperation :=
  ⟨operation.range.shift k, operation.text, operation.forceMoveMarkers⟩

def ContentChange.shift (change : ContentChange) (k : Nat) : ContentChange :=
  ⟨change.range.shift k, change.rangeLength, change.text, change.forceMoveMarkers⟩

@[simp]
theorem Range.shift_startLineNumber (range : Range) (k : Nat) :
    (range.shift k).startLineNumber = range.startLineNumber + k := rfl

@[simp]
theorem Range.shift_endLineNumber (range : Range) (k : Nat) :
    (range.shift k).endLineNumber = range.endLineNumber + k := rfl

@[simp]
theorem ContentChange.shift_range (change : ContentChange) (k : Nat) :
    (change.shift k).range = change.range.shift k := rfl

@[simp]
theorem ContentChange.shift_text (change : ContentChange) (k : Nat) :
    (change.shift k).text = change.text := rfl

@[simp]
theorem ContentChange.shift_forceMoveMarkers (change : ContentChange) (k : Nat) :
    (change.shift k).forceMoveMarkers = change.forceMoveMarkers := rfl

@[simp]
theorem ContentChange.shift_rangeLength (change : ContentChange) (k : Nat) :
    (change.shift k).rangeLength = change.rangeLength := rfl

/-- Ordering the ends of a range does not depend on where its lines are counted from. -/
theorem Range.ofPositions_shift (start finish : Position) (k : Nat) :
    Range.ofPositions (start.shift k) (finish.shift k) =
      (Range.ofPositions start finish).shift k := by
  unfold Range.ofPositions Position.shift Range.shift
  dsimp only
  by_cases swapped : finish.lineNumber < start.lineNumber ∨
      (start.lineNumber = finish.lineNumber ∧ finish.column < start.column)
  · rw [if_pos swapped, if_pos (by omega)]
  · rw [if_neg swapped, if_neg (by omega)]

theorem ofPositions_endLineNumber (start finish : Position) :
    (Range.ofPositions start finish).endLineNumber = start.lineNumber ∨
      (Range.ofPositions start finish).endLineNumber = finish.lineNumber := by
  unfold Range.ofPositions; split <;> simp

namespace TextModel

/-- A validated range never ends above the first line. -/
theorem one_le_validateRange_endLineNumber (model : TextModel) (range : IRange) :
    1 ≤ (model.validateRange range).endLineNumber := by
  unfold validateRange
  rcases ofPositions_endLineNumber (model.validatePosition range.startLineNumber
      range.startColumn) (model.validatePosition range.endLineNumber range.endColumn) with
    same | same <;> rw [same] <;> exact one_le_validatePosition_lineNumber ..

/-- The UTF-16 length of a block of lines, each with its line break. -/
def blockLength (block : List (List Char)) : Nat :=
  block.foldr (fun line offset => utf16Length line + 1 + offset) 0

theorem foldr_offset (block : List (List Char)) (start : Nat) :
    block.foldr (fun line offset => utf16Length line + 1 + offset) start =
      blockLength block + start := by
  induction block with
  | nil => simp [blockLength]
  | cons line block inductionHypothesis =>
      simp only [List.foldr_cons, blockLength] at inductionHypothesis ⊢
      rw [inductionHypothesis]
      omega

section Stacked

variable {whole model : TextModel} {above : List (List Char)}
  (stacked : whole.lines = above ++ model.lines)
include stacked

theorem getLineCount_of_stacked : whole.getLineCount = above.length + model.getLineCount := by
  simp [getLineCount, stacked]

theorem getLineContent_of_stacked {lineNumber : Nat} (positive : 1 ≤ lineNumber) :
    whole.getLineContent (lineNumber + above.length) = model.getLineContent lineNumber := by
  have index : lineNumber + above.length - 1 = above.length + (lineNumber - 1) := by omega
  simp only [getLineContent, stacked, index, List.getD_eq_getElem?_getD,
    List.getElem?_append_right (Nat.le_add_right above.length (lineNumber - 1)),
    Nat.add_sub_cancel_left]

theorem getLineMaxColumn_of_stacked {lineNumber : Nat} (positive : 1 ≤ lineNumber) :
    whole.getLineMaxColumn (lineNumber + above.length) = model.getLineMaxColumn lineNumber := by
  simp only [getLineMaxColumn, getLineContent_of_stacked stacked positive]

theorem validatePosition_of_stacked {lineNumber : Nat} (positive : 1 ≤ lineNumber)
    (column : Column) :
    whole.validatePosition (lineNumber + above.length) column =
      (model.validatePosition lineNumber column).shift above.length := by
  have count := getLineCount_of_stacked stacked
  have last : whole.getLineMaxColumn whole.getLineCount =
      model.getLineMaxColumn model.getLineCount := by
    rw [count, Nat.add_comm, getLineMaxColumn_of_stacked stacked model.getLineCount_pos]
  have inside : ¬ lineNumber + above.length < 1 := by omega
  have beyondIff : whole.getLineCount < lineNumber + above.length ↔
      model.getLineCount < lineNumber := by omega
  simp only [validatePosition, inside, show ¬ lineNumber < 1 by omega, if_false, beyondIff]
  by_cases beyond : model.getLineCount < lineNumber
  · simp only [beyond, if_true]
    rw [last, count, Position.shift, Nat.add_comm]
  · simp only [beyond, if_false, getLineMaxColumn_of_stacked stacked positive]
    cases column with
    | number n => dsimp only; split_ifs <;> rfl
    | infinity => rfl

theorem validateRange_of_stacked {range : IRange} (startsBelow : 1 ≤ range.startLineNumber)
    (endsBelow : 1 ≤ range.endLineNumber) :
    whole.validateRange (range.shift above.length) =
      (model.validateRange range).shift above.length := by
  simp only [validateRange, IRange.shift, validatePosition_of_stacked stacked startsBelow,
    validatePosition_of_stacked stacked endsBelow, Range.ofPositions_shift]

theorem getOffsetAt_of_stacked {lineNumber : Nat} (positive : 1 ≤ lineNumber) (column : Nat) :
    whole.getOffsetAt (lineNumber + above.length) column =
      blockLength above + model.getOffsetAt lineNumber column := by
  have index : lineNumber + above.length - 1 = above.length + (lineNumber - 1) := by omega
  simp only [getOffsetAt, stacked, index, List.take_append, List.foldr_append, foldr_offset,
    getLineContent_of_stacked stacked positive]
  omega

theorem replace_of_stacked {range : Range} (startsBelow : 1 ≤ range.startLineNumber)
    (endsBelow : 1 ≤ range.endLineNumber) (text : List Char) :
    whole.replace (range.shift above.length) text = above ++ model.replace range text := by
  have index : range.startLineNumber + above.length - 1 =
      above.length + (range.startLineNumber - 1) := by omega
  simp only [replace, Range.shift_startLineNumber, Range.shift_endLineNumber,
    getLineContent_of_stacked stacked startsBelow, getLineContent_of_stacked stacked endsBelow]
  rw [stacked, index, List.take_append, Nat.add_comm range.endLineNumber, List.drop_append]
  simp [Range.shift]

/-- An edit below the block: the block stays, the rest is edited as a buffer of its own, and
listeners receive that buffer's change moved down by the block's height. -/
theorem applyEdit_of_stacked {operation : EditOperation}
    (startsBelow : 1 ≤ operation.range.startLineNumber)
    (endsBelow : 1 ≤ operation.range.endLineNumber) :
    (whole.applyEdit (operation.shift above.length)).1.lines =
        above ++ (model.applyEdit operation).1.lines ∧
      (whole.applyEdit (operation.shift above.length)).2 =
        (model.applyEdit operation).2.shift above.length := by
  have validated := validateRange_of_stacked stacked startsBelow endsBelow
  have startLine := model.one_le_validateRange_startLineNumber operation.range
  have endLine := model.one_le_validateRange_endLineNumber operation.range
  refine ⟨?_, ?_⟩
  · simp only [applyEdit_lines, EditOperation.shift, validated]
    exact replace_of_stacked stacked startLine endLine _
  · simp only [applyEdit, EditOperation.shift, validated, ContentChange.shift,
      Range.shift_startLineNumber, Range.shift_endLineNumber]
    rw [getOffsetAt_of_stacked stacked endLine, getOffsetAt_of_stacked stacked startLine,
      Nat.add_sub_add_left]
    rfl

end Stacked

end TextModel

end InfluxUi.Editor
