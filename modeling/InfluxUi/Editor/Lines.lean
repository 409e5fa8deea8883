import Mathlib.Data.List.Basic

/-!
# Text as lines

`_buildComposition` joins its lines with `\n`; in that sense the lines of a text are the pieces
between its `\n` characters (`splitLines`, `joinLines`). The editor takes lines as Monaco does,
by its `strings.splitLines`: a line ends at `\r\n`, `\r` or `\n` (`splitBufferLines`). A buffer
keeps no break inside a line, and its end of line is `\n`.

JavaScript and Monaco measure text in UTF-16 code units, two for a character outside the Basic
Multilingual Plane (`utf16Length`).
-/

namespace InfluxUi.Editor

def splitLines (text : List Char) : List (List Char) := text.splitOn '\n'

def joinLines (lines : List (List Char)) : List Char := ['\n'].intercalate lines

def EolFree (lines : List (List Char)) : Prop := ∀ line ∈ lines, '\n' ∉ line

def splitBufferLines : List Char → List (List Char)
  | [] => [[]]
  | '\r' :: '\n' :: rest => [] :: splitBufferLines rest
  | c :: rest =>
      if c = '\n' ∨ c = '\r' then [] :: splitBufferLines rest
      else (splitBufferLines rest).modifyHead (c :: ·)

/-- No line holds a character at which Monaco breaks lines. -/
def BreakFree (lines : List (List Char)) : Prop := ∀ line ∈ lines, '\n' ∉ line ∧ '\r' ∉ line

def utf16Units (c : Char) : Nat := if c.toNat < 0x10000 then 1 else 2

def utf16Length : List Char → Nat
  | [] => 0
  | c :: text => utf16Units c + utf16Length text

theorem splitLines_ne_nil (text : List Char) : splitLines text ≠ [] :=
  List.splitOnP_ne_nil _ _

theorem splitLines_joinLines {lines : List (List Char)} (eolFree : EolFree lines)
    (nonempty : lines ≠ []) : splitLines (joinLines lines) = lines :=
  List.splitOn_intercalate lines '\n' eolFree nonempty

theorem splitLines_cons (c : Char) (text : List Char) :
    splitLines (c :: text) =
      if c = '\n' then [] :: splitLines text else (splitLines text).modifyHead (c :: ·) := by
  simp [splitLines, List.splitOn, List.splitOnP_cons]

theorem length_splitLines (text : List Char) : (splitLines text).length = text.count '\n' + 1 := by
  induction text with
  | nil => rfl
  | cons c text inductionHypothesis =>
      rw [splitLines_cons]
      by_cases isBreak : c = '\n'
      · simp [isBreak, inductionHypothesis]
      · simp [isBreak, inductionHypothesis, List.count_cons, Ne.symm isBreak]

@[simp]
theorem joinLines_singleton (line : List Char) : joinLines [line] = line := by
  simp [joinLines, List.intercalate]

theorem joinLines_cons {lines : List (List Char)} (nonempty : lines ≠ []) (line : List Char) :
    joinLines (line :: lines) = line ++ '\n' :: joinLines lines := by
  obtain ⟨next, rest, rfl⟩ := List.exists_cons_of_ne_nil nonempty
  simp [joinLines, List.intercalate]

theorem joinLines_append {first : List (List Char)} (firstNonempty : first ≠ [])
    {second : List (List Char)} (secondNonempty : second ≠ []) :
    joinLines (first ++ second) = joinLines first ++ '\n' :: joinLines second := by
  induction first with
  | nil => contradiction
  | cons line rest inductionHypothesis =>
      rcases eq_or_ne rest [] with rfl | restNonempty
      · simp [joinLines_cons secondNonempty]
      · rw [List.cons_append, joinLines_cons (by simp [restNonempty]),
          inductionHypothesis restNonempty, joinLines_cons restNonempty]
        simp

theorem not_mem_intercalate {c : Char} {separator : List Char} (notInSeparator : c ∉ separator) :
    ∀ {parts : List (List Char)}, (∀ part ∈ parts, c ∉ part) →
      c ∉ separator.intercalate parts
  | [], _ => by simp [List.intercalate]
  | [part], notInParts => by simpa [List.intercalate] using notInParts part
  | part :: next :: rest, notInParts => by
      have notInRest : c ∉ separator.intercalate (next :: rest) :=
        not_mem_intercalate notInSeparator fun p member =>
          notInParts p (List.mem_cons_of_mem _ member)
      have headFree := notInParts part (List.mem_cons_self _ _)
      simp only [List.intercalate, List.intersperse_cons₂, List.flatten_cons] at notInRest ⊢
      simp [headFree, notInSeparator, notInRest]

@[simp]
theorem splitBufferLines_nil : splitBufferLines [] = [[]] := rfl

theorem splitBufferLines_newline (rest : List Char) :
    splitBufferLines ('\n' :: rest) = [] :: splitBufferLines rest := by
  rw [splitBufferLines.eq_3 _ _ fun _ isReturn => absurd isReturn (by decide)]
  simp

theorem splitBufferLines_cons {c : Char} (notNewline : c ≠ '\n') (notReturn : c ≠ '\r')
    (rest : List Char) :
    splitBufferLines (c :: rest) = (splitBufferLines rest).modifyHead (c :: ·) := by
  rw [splitBufferLines.eq_3 _ _ fun _ isReturn => absurd isReturn notReturn]
  simp [notNewline, notReturn]

theorem splitBufferLines_ne_nil (text : List Char) : splitBufferLines text ≠ [] := by
  induction text using splitBufferLines.induct with
  | case1 => simp
  | case2 rest _ => simp [splitBufferLines.eq_2]
  | case3 c rest notCrLf isBreak _ => simp [splitBufferLines.eq_3 _ _ notCrLf, isBreak]
  | case4 c rest notCrLf notBreak inductionHypothesis =>
      obtain ⟨first, others, split⟩ := List.exists_cons_of_ne_nil inductionHypothesis
      simp [splitBufferLines.eq_3 _ _ notCrLf, notBreak, split]

theorem splitBufferLines_breakFree (text : List Char) : BreakFree (splitBufferLines text) := by
  induction text using splitBufferLines.induct with
  | case1 => simp [BreakFree]
  | case2 rest inductionHypothesis =>
      simpa [splitBufferLines.eq_2, BreakFree] using inductionHypothesis
  | case3 c rest notCrLf isBreak inductionHypothesis =>
      simpa [splitBufferLines.eq_3 _ _ notCrLf, isBreak, BreakFree] using inductionHypothesis
  | case4 c rest notCrLf notBreak inductionHypothesis =>
      obtain ⟨first, others, split⟩ := List.exists_cons_of_ne_nil (splitBufferLines_ne_nil rest)
      rw [splitBufferLines.eq_3 _ _ notCrLf, if_neg notBreak, split, List.modifyHead_cons]
      rw [split, BreakFree, List.forall_mem_cons] at inductionHypothesis
      simp only [not_or] at notBreak
      refine List.forall_mem_cons.mpr ⟨?_, inductionHypothesis.2⟩
      simp [Ne.symm notBreak.1, Ne.symm notBreak.2, inductionHypothesis.1]

/-- A text without breaks is one line. -/
theorem splitBufferLines_of_breakFree {line : List Char} (free : '\n' ∉ line ∧ '\r' ∉ line) :
    splitBufferLines line = [line] := by
  induction line with
  | nil => rfl
  | cons c line inductionHypothesis =>
      simp only [List.mem_cons, not_or] at free
      rw [splitBufferLines_cons (Ne.symm free.1.1) (Ne.symm free.2.1),
        inductionHypothesis ⟨free.1.2, free.2.2⟩]
      rfl

theorem splitBufferLines_append_newline {line : List Char} (free : '\n' ∉ line ∧ '\r' ∉ line)
    (rest : List Char) : splitBufferLines (line ++ '\n' :: rest) = line :: splitBufferLines rest := by
  induction line with
  | nil => exact splitBufferLines_newline rest
  | cons c line inductionHypothesis =>
      simp only [List.mem_cons, not_or] at free
      rw [List.cons_append, splitBufferLines_cons (Ne.symm free.1.1) (Ne.symm free.2.1),
        inductionHypothesis ⟨free.1.2, free.2.2⟩]
      rfl

/-- The lines of a joined block followed by a break and more text. -/
theorem splitBufferLines_joinLines_append {lines : List (List Char)} (free : BreakFree lines)
    (nonempty : lines ≠ []) (rest : List Char) :
    splitBufferLines (joinLines lines ++ '\n' :: rest) = lines ++ splitBufferLines rest := by
  induction lines with
  | nil => contradiction
  | cons line tail inductionHypothesis =>
      have tailFree : BreakFree tail := fun l member => free l (List.mem_cons_of_mem _ member)
      rcases eq_or_ne tail [] with rfl | tailNonempty
      · simpa using splitBufferLines_append_newline (free line (List.mem_cons_self _ _)) rest
      · rw [joinLines_cons tailNonempty, List.append_assoc, List.cons_append,
          splitBufferLines_append_newline (free line (List.mem_cons_self _ _)),
          inductionHypothesis tailFree tailNonempty]
        rfl

theorem splitBufferLines_joinLines {lines : List (List Char)} (free : BreakFree lines)
    (nonempty : lines ≠ []) : splitBufferLines (joinLines lines) = lines := by
  obtain ⟨first, last, rfl⟩ := List.eq_nil_or_concat lines |>.resolve_left nonempty
  rw [List.concat_eq_append] at free ⊢
  have lastFree := free last (by simp)
  rcases eq_or_ne first [] with rfl | firstNonempty
  · simpa using splitBufferLines_of_breakFree lastFree
  · rw [joinLines_append firstNonempty (List.cons_ne_nil _ _), joinLines_singleton,
      splitBufferLines_joinLines_append (fun line member => free line (by simp [member]))
        firstNonempty, splitBufferLines_of_breakFree lastFree]

@[simp]
theorem utf16Length_nil : utf16Length [] = 0 := rfl

@[simp]
theorem utf16Length_cons (c : Char) (text : List Char) :
    utf16Length (c :: text) = utf16Units c + utf16Length text := rfl

@[simp]
theorem utf16Length_append (first second : List Char) :
    utf16Length (first ++ second) = utf16Length first + utf16Length second := by
  induction first with
  | nil => simp
  | cons c first inductionHypothesis => simp [inductionHypothesis]; omega

theorem utf16Length_replicate (n : Nat) (c : Char) :
    utf16Length (List.replicate n c) = n * utf16Units c := by
  induction n with
  | zero => simp
  | succ n inductionHypothesis =>
      rw [List.replicate_succ, utf16Length_cons, inductionHypothesis, Nat.succ_mul, Nat.add_comm]

theorem utf16Length_joinLines_cons {lines : List (List Char)} (nonempty : lines ≠ [])
    (line : List Char) :
    utf16Length (joinLines (line :: lines)) =
      utf16Length line + 1 + utf16Length (joinLines lines) := by
  have newline : utf16Units '\n' = 1 := rfl
  rw [joinLines_cons nonempty, utf16Length_append, utf16Length_cons, newline]
  omega

end InfluxUi.Editor
