import InfluxUi.Editor.Lines

/-!
# The editor's text model

The part of Monaco's `ITextModel` the connection manager relies on: a buffer of lines,
validation of edit ranges, `applyEdits` with a single operation, and the content change it
reports to `onDidChangeContent` listeners. Positions are 1-based; column `c` of a line stands
before its `c`-th character, so a line of `n` characters has columns `1` to `n + 1`. Monaco
numbers the same positions by UTF-16 units; offsets and the removed length of a change are
counted in UTF-16 units, as Monaco reports them. Inserted text is split at `\r\n`, `\r` and
`\n`, and the buffer's end of line is `\n`, Monaco's default.

Validation follows `TextModel.validatePosition`: a line before the first is `(1, 1)`, a line
after the last is the end of the last line, and a column is clamped into its line, `Infinity`
included. The `Range` constructor then puts the two ends in order. A change reports the
validated range, the length it removed and the text it inserted; the marker flag of the
operation is passed through, which the connection manager reads.
-/

namespace InfluxUi.Editor

/-- A column of an edit range as the code gives it: a number, or `Infinity`. -/
inductive Column where
  | number (n : Nat)
  | infinity
  deriving DecidableEq, Repr

structure IRange where
  startLineNumber : Nat
  startColumn : Column
  endLineNumber : Nat
  endColumn : Column
  deriving DecidableEq, Repr

structure Position where
  lineNumber : Nat
  column : Nat
  deriving DecidableEq, Repr

structure Range where
  startLineNumber : Nat
  startColumn : Nat
  endLineNumber : Nat
  endColumn : Nat
  deriving DecidableEq, Repr

/-- `new Range(...)`: the ends are swapped when the start comes after the end. -/
def Range.ofPositions (start finish : Position) : Range :=
  if finish.lineNumber < start.lineNumber ∨
      (start.lineNumber = finish.lineNumber ∧ finish.column < start.column) then
    ⟨finish.lineNumber, finish.column, start.lineNumber, start.column⟩
  else ⟨start.lineNumber, start.column, finish.lineNumber, finish.column⟩

structure EditOperation where
  range : IRange
  text : List Char
  forceMoveMarkers : Bool
  deriving DecidableEq, Repr

structure ContentChange where
  range : Range
  rangeLength : Nat
  text : List Char
  forceMoveMarkers : Bool
  deriving DecidableEq, Repr

/-- A buffer: at least one line, and no line holds a line break. -/
@[ext]
structure TextModel where
  lines : List (List Char)
  lines_ne_nil : lines ≠ []
  breakFree : BreakFree lines

namespace TextModel

def ofText (text : List Char) : TextModel :=
  ⟨splitBufferLines text, splitBufferLines_ne_nil text, splitBufferLines_breakFree text⟩

def getValue (model : TextModel) : List Char := joinLines model.lines

def getLineCount (model : TextModel) : Nat := model.lines.length

def getLineContent (model : TextModel) (lineNumber : Nat) : List Char :=
  model.lines.getD (lineNumber - 1) []

def getLineMaxColumn (model : TextModel) (lineNumber : Nat) : Nat :=
  (model.getLineContent lineNumber).length + 1

def validatePosition (model : TextModel) (lineNumber : Nat) (column : Column) : Position :=
  if lineNumber < 1 then ⟨1, 1⟩
  else if model.getLineCount < lineNumber then
    ⟨model.getLineCount, model.getLineMaxColumn model.getLineCount⟩
  else
    match column with
    | .number n =>
        if n ≤ 1 then ⟨lineNumber, 1⟩
        else if model.getLineMaxColumn lineNumber ≤ n then
          ⟨lineNumber, model.getLineMaxColumn lineNumber⟩
        else ⟨lineNumber, n⟩
    | .infinity => ⟨lineNumber, model.getLineMaxColumn lineNumber⟩

def validateRange (model : TextModel) (range : IRange) : Range :=
  Range.ofPositions (model.validatePosition range.startLineNumber range.startColumn)
    (model.validatePosition range.endLineNumber range.endColumn)

/-- The UTF-16 units before a position: the lines above, each with its line break, then the
characters before it on its line. -/
def getOffsetAt (model : TextModel) (lineNumber column : Nat) : Nat :=
  (model.lines.take (lineNumber - 1)).foldr (fun line offset => utf16Length line + 1 + offset) 0 +
    utf16Length ((model.getLineContent lineNumber).take (column - 1))

def replace (model : TextModel) (range : Range) (text : List Char) : List (List Char) :=
  model.lines.take (range.startLineNumber - 1) ++
    splitBufferLines ((model.getLineContent range.startLineNumber).take (range.startColumn - 1) ++
      text ++ (model.getLineContent range.endLineNumber).drop (range.endColumn - 1)) ++
    model.lines.drop range.endLineNumber

theorem replace_ne_nil (model : TextModel) (range : Range) (text : List Char) :
    model.replace range text ≠ [] := by
  simp [replace, splitBufferLines_ne_nil]

theorem replace_breakFree (model : TextModel) (range : Range) (text : List Char) :
    BreakFree (model.replace range text) := by
  intro line member
  simp only [replace, List.mem_append] at member
  rcases member with (kept | written) | kept
  · exact model.breakFree line (List.mem_of_mem_take kept)
  · exact splitBufferLines_breakFree _ line written
  · exact model.breakFree line (List.mem_of_mem_drop kept)

/-- `applyEdits([operation])`: the new buffer and the change its listeners receive. -/
def applyEdit (model : TextModel) (operation : EditOperation) : TextModel × ContentChange :=
  let range := model.validateRange operation.range
  (⟨model.replace range operation.text, model.replace_ne_nil _ _, model.replace_breakFree _ _⟩,
    ⟨range,
      model.getOffsetAt range.endLineNumber range.endColumn -
        model.getOffsetAt range.startLineNumber range.startColumn,
      operation.text, operation.forceMoveMarkers⟩)

def fullRange (model : TextModel) : IRange := ⟨1, .number 1, model.getLineCount, .infinity⟩

theorem getLineCount_pos (model : TextModel) : 0 < model.getLineCount :=
  List.length_pos.mpr model.lines_ne_nil

theorem validatePosition_lineNumber (model : TextModel) (lineNumber : Nat) (column : Column) :
    (model.validatePosition lineNumber column).lineNumber =
      if lineNumber < 1 then 1 else min lineNumber model.getLineCount := by
  unfold validatePosition
  split_ifs with before beyond
  · rfl
  · dsimp only; omega
  · have within : min lineNumber model.getLineCount = lineNumber := by omega
    rw [within]
    cases column with
    | number n => dsimp only; split_ifs <;> rfl
    | infinity => rfl

theorem validatePosition_lineNumber_le (model : TextModel) (lineNumber : Nat) (column : Column) :
    (model.validatePosition lineNumber column).lineNumber ≤ model.getLineCount := by
  have := model.getLineCount_pos
  rw [validatePosition_lineNumber]
  split <;> omega

@[simp]
theorem validatePosition_start (model : TextModel) :
    model.validatePosition 1 (.number 1) = ⟨1, 1⟩ := by
  have := model.getLineCount_pos
  simp [validatePosition, show ¬ model.getLineCount < 1 by omega]

theorem validatePosition_infinity {model : TextModel} {lineNumber : Nat}
    (positive : 1 ≤ lineNumber)
    (inside : lineNumber ≤ model.getLineCount) :
    model.validatePosition lineNumber .infinity =
      ⟨lineNumber, model.getLineMaxColumn lineNumber⟩ := by
  simp [validatePosition, show ¬ lineNumber < 1 by omega,
    show ¬ model.getLineCount < lineNumber by omega]

theorem validatePosition_beyond {model : TextModel} {lineNumber : Nat} (column : Column)
    (beyond : model.getLineCount < lineNumber) :
    model.validatePosition lineNumber column =
      ⟨model.getLineCount, model.getLineMaxColumn model.getLineCount⟩ := by
  have := model.getLineCount_pos
  simp [validatePosition, show ¬ lineNumber < 1 by omega, beyond]

theorem ofPositions_of_le {start finish : Position}
    (ordered : start.lineNumber < finish.lineNumber ∨
      (start.lineNumber = finish.lineNumber ∧ start.column ≤ finish.column)) :
    Range.ofPositions start finish =
      ⟨start.lineNumber, start.column, finish.lineNumber, finish.column⟩ := by
  unfold Range.ofPositions
  rw [if_neg]
  omega

theorem one_le_validatePosition_lineNumber (model : TextModel) (lineNumber : Nat)
    (column : Column) : 1 ≤ (model.validatePosition lineNumber column).lineNumber := by
  have := model.getLineCount_pos
  rw [validatePosition_lineNumber]
  split <;> omega

theorem ofPositions_startLineNumber (start finish : Position) :
    (Range.ofPositions start finish).startLineNumber = start.lineNumber ∨
      (Range.ofPositions start finish).startLineNumber = finish.lineNumber := by
  unfold Range.ofPositions; split <;> simp

theorem validateRange_startLineNumber_le (model : TextModel) (range : IRange) :
    (model.validateRange range).startLineNumber ≤ model.getLineCount := by
  unfold validateRange
  rcases ofPositions_startLineNumber (model.validatePosition range.startLineNumber
      range.startColumn) (model.validatePosition range.endLineNumber range.endColumn) with
    same | same <;> rw [same] <;> exact validatePosition_lineNumber_le ..

theorem one_le_validateRange_startLineNumber (model : TextModel) (range : IRange) :
    1 ≤ (model.validateRange range).startLineNumber := by
  unfold validateRange
  rcases ofPositions_startLineNumber (model.validatePosition range.startLineNumber
      range.startColumn) (model.validatePosition range.endLineNumber range.endColumn) with
    same | same <;> rw [same] <;> exact one_le_validatePosition_lineNumber ..

@[simp]
theorem applyEdit_change (model : TextModel) (operation : EditOperation) :
    (model.applyEdit operation).2.range = model.validateRange operation.range ∧
      (model.applyEdit operation).2.text = operation.text ∧
      (model.applyEdit operation).2.forceMoveMarkers = operation.forceMoveMarkers :=
  ⟨rfl, rfl, rfl⟩

@[simp]
theorem applyEdit_lines (model : TextModel) (operation : EditOperation) :
    (model.applyEdit operation).1.lines =
      model.replace (model.validateRange operation.range) operation.text := rfl

/-- An edit leaves every line above the start of its range as it was. -/
theorem applyEdit_take {model : TextModel} {operation : EditOperation} {count : Nat}
    (above : count < (model.applyEdit operation).2.range.startLineNumber) :
    (model.applyEdit operation).1.lines.take count = model.lines.take count := by
  simp only [applyEdit_change] at above
  have bound := model.validateRange_startLineNumber_le operation.range
  have kept : (model.lines.take ((model.validateRange operation.range).startLineNumber - 1)).length
      = (model.validateRange operation.range).startLineNumber - 1 := by
    simp [getLineCount] at bound ⊢; omega
  rw [applyEdit_lines, replace, List.append_assoc, List.take_append_of_le_length (by omega),
    List.take_take]
  congr 1; omega

theorem applyEdit_insertAtStart (model : TextModel) (text : List Char) (forceMoveMarkers : Bool) :
    (model.applyEdit ⟨⟨1, .number 1, 1, .number 1⟩, text, forceMoveMarkers⟩).1.lines =
      splitBufferLines (text ++ model.lines.head model.lines_ne_nil) ++ model.lines.tail := by
  obtain ⟨lines, nonempty, breakFree⟩ := model
  obtain ⟨first, rest, rfl⟩ := List.exists_cons_of_ne_nil nonempty
  simp [replace, validateRange, Range.ofPositions, getLineContent]

theorem replace_fromStart (model : TextModel) (last : Nat) (text : List Char) :
    model.replace ⟨1, 1, last, model.getLineMaxColumn last⟩ text =
      splitBufferLines text ++ model.lines.drop last := by
  simp [replace, getLineMaxColumn]

/-- Replacing the buffer from its start to the end of line `last`, or of the last line when
there are fewer. -/
theorem applyEdit_replaceFromStart (model : TextModel) {last : Nat} (positive : 1 ≤ last)
    (text : List Char) (forceMoveMarkers : Bool) :
    (model.applyEdit ⟨⟨1, .number 1, last, .infinity⟩, text, forceMoveMarkers⟩).1.lines =
      splitBufferLines text ++ model.lines.drop last := by
  have := model.getLineCount_pos
  simp only [applyEdit_lines, validateRange, validatePosition_start]
  by_cases inside : last ≤ model.getLineCount
  · rw [validatePosition_infinity positive inside,
      ofPositions_of_le (by simp only [getLineMaxColumn]; omega), replace_fromStart]
  · rw [validatePosition_beyond _ (by omega),
      ofPositions_of_le (by simp only [getLineMaxColumn]; omega), replace_fromStart]
    simp [getLineCount, List.drop_of_length_le, show model.lines.length ≤ last by
      simp [getLineCount] at inside; omega]

theorem offset_lastLine_eq_length : ∀ (lines : List (List Char)), lines ≠ [] →
    (lines.take (lines.length - 1)).foldr (fun line offset => utf16Length line + 1 + offset) 0 +
        utf16Length (lines.getD (lines.length - 1) []) = utf16Length (joinLines lines)
  | [_], _ => by simp
  | line :: next :: rest, _ => by
      have inductionHypothesis := offset_lastLine_eq_length (next :: rest) (List.cons_ne_nil _ _)
      simp only [List.length_cons, Nat.add_sub_cancel, List.take_succ_cons, List.foldr_cons,
        List.getD_cons_succ, utf16Length_joinLines_cons (List.cons_ne_nil next rest)]
        at inductionHypothesis ⊢
      omega

theorem getOffsetAt_lastPosition (model : TextModel) :
    model.getOffsetAt model.getLineCount (model.getLineMaxColumn model.getLineCount) =
      utf16Length model.getValue := by
  simp only [getOffsetAt, getLineMaxColumn, getLineContent, getLineCount, getValue,
    Nat.add_sub_cancel, List.take_length]
  exact offset_lastLine_eq_length _ model.lines_ne_nil

/-- `setValue('')`: the buffer becomes one empty line, and the change reports its whole text as
removed. -/
theorem applyEdit_fullRange (model : TextModel) (forceMoveMarkers : Bool) :
    (model.applyEdit ⟨model.fullRange, [], forceMoveMarkers⟩).1.lines = [[]] ∧
      (model.applyEdit ⟨model.fullRange, [], forceMoveMarkers⟩).2.rangeLength =
        utf16Length model.getValue := by
  have count := model.getLineCount_pos
  have validated : model.validateRange model.fullRange =
      ⟨1, 1, model.getLineCount, model.getLineMaxColumn model.getLineCount⟩ := by
    simp only [validateRange, fullRange, validatePosition_start,
      validatePosition_infinity count le_rfl]
    exact ofPositions_of_le (by simp only [getLineMaxColumn]; omega)
  refine ⟨?_, ?_⟩
  · rw [fullRange, applyEdit_replaceFromStart _ count]
    simp [getLineCount]
  · simp only [applyEdit, validated, getOffsetAt_lastPosition]
    simp [getOffsetAt]

end TextModel

end InfluxUi.Editor
