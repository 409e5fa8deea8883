import InfluxUi.Editor.Lines

/-!
# The composed InfluxQL query

`_buildComposition` (`src/languageSupport/languages/influxql/connection.ts`) renders the query
builder's selection as lines of InfluxQL: a `SELECT` line, a `FROM` line when a database,
retention policy or measurement is chosen, and a `WHERE` line with the tag filter in
parentheses when tag values are chosen. It returns the lines joined by `\n`, their number, and
`lenLastLine`, which is meant to size the end of the composition range.

`lenLastLine` is `composition.slice(-1).length`: the length of a one-element array, so always
`1`, while the last line has at least two characters.
-/

namespace InfluxUi.InfluxQL

open InfluxUi.Editor

structure Dbrp where
  database : List Char
  retentionPolicy : List Char
  deriving DecidableEq, Repr

structure TagValue where
  key : List Char
  value : List Char
  deriving DecidableEq, Repr

/-- The parts of `CompositionSelection` that `_buildComposition` reads. -/
structure CompositionSelection where
  fields : List (List Char)
  measurement : Option (List Char)
  dbrp : Option Dbrp
  tagValues : List TagValue
  deriving DecidableEq, Repr

def truthy : Option (List Char) → Bool
  | some text => !text.isEmpty
  | none => false

/-- Modelled from the spec: `groupedTagValues` (in `agnostic/utils`, not under `src`) groups
the selected values by tag key. Keys keep the order of their first selection and values the
order of selection. -/
def insertTagValue : List (List Char × List (List Char)) → TagValue →
    List (List Char × List (List Char))
  | [], tagValue => [(tagValue.key, [tagValue.value])]
  | (key, values) :: rest, tagValue =>
      if key = tagValue.key then (key, values ++ [tagValue.value]) :: rest
      else (key, values) :: insertTagValue rest tagValue

/-- Modelled from the spec: see `insertTagValue`. -/
def groupedTagValues (tagValues : List TagValue) : List (List Char × List (List Char)) :=
  tagValues.foldl insertTagValue []

def quoted (name : List Char) : List Char := '"' :: name ++ ['"']

@[simp]
theorem mem_quoted (c : Char) (name : List Char) :
    c ∈ quoted name ↔ c = '"' ∨ c ∈ name := by
  simp [quoted, or_comm]

def tagValueExpr (key value : List Char) : List Char :=
  quoted key ++ " = '".toList ++ value ++ "'".toList

def tagValuesExpr (tagValues : List TagValue) : List Char :=
  " AND ".toList.intercalate ((groupedTagValues tagValues).map fun group =>
    " AND ".toList.intercalate (group.2.map (tagValueExpr group.1)))

def selectClause (session : CompositionSelection) : List Char :=
  "SELECT ".toList ++
    (if session.fields.length = 0 then "*".toList
    else ", ".toList.intercalate (session.fields.map quoted))

def dbrpMeasurement (session : CompositionSelection) : List (List Char) :=
  (match session.dbrp with
    | some dbrp => [dbrp.database, dbrp.retentionPolicy]
    | none => []) ++
  (if truthy session.measurement then [quoted (session.measurement.getD [])] else [])

def whereClause (session : CompositionSelection) : List (List Char) :=
  if 0 < session.tagValues.length then
    ["WHERE".toList, '(' :: tagValuesExpr session.tagValues ++ [')']]
  else []

/-- The array `composition` of `_buildComposition`, one entry a line. -/
def compositionLines (session : CompositionSelection) : List (List Char) :=
  (selectClause session ::
    if 0 < (dbrpMeasurement session).length then
      ["FROM ".toList ++ ['.'].intercalate (dbrpMeasurement session)]
    else []) ++
  whereClause session

structure BuiltComposition where
  composition : List Char
  lines : Nat
  lenLastLine : Nat
  deriving DecidableEq, Repr

def buildComposition (session : CompositionSelection) : BuiltComposition :=
  let composition := compositionLines session
  let lines := (if 0 < (dbrpMeasurement session).length then 1 + 1 else 1) +
    (whereClause session).length
  ⟨joinLines composition, lines, (composition.drop (composition.length - 1)).length⟩

def Selects (groups : List (List Char × List (List Char))) (key value : List Char) : Prop :=
  ∃ values, (key, values) ∈ groups ∧ value ∈ values

@[simp]
theorem selects_nil (key value : List Char) : ¬ Selects [] key value := by simp [Selects]

@[simp]
theorem selects_cons (groupKey : List Char) (values : List (List Char))
    (rest : List (List Char × List (List Char))) (key value : List Char) :
    Selects ((groupKey, values) :: rest) key value ↔
      (key = groupKey ∧ value ∈ values) ∨ Selects rest key value := by
  simp only [Selects, List.mem_cons, Prod.mk.injEq]
  constructor
  · rintro ⟨found, (⟨rfl, rfl⟩ | member), inFound⟩
    · exact .inl ⟨rfl, inFound⟩
    · exact .inr ⟨found, member, inFound⟩
  · rintro (⟨rfl, inValues⟩ | ⟨found, member, inFound⟩)
    · exact ⟨values, .inl ⟨rfl, rfl⟩, inValues⟩
    · exact ⟨found, .inr member, inFound⟩

theorem selects_insertTagValue (groups : List (List Char × List (List Char)))
    (tagValue : TagValue) (key value : List Char) :
    Selects (insertTagValue groups tagValue) key value ↔
      Selects groups key value ∨ (key = tagValue.key ∧ value = tagValue.value) := by
  induction groups with
  | nil => simp [insertTagValue]
  | cons group rest inductionHypothesis =>
      obtain ⟨groupKey, values⟩ := group
      by_cases same : groupKey = tagValue.key
      · subst same
        simp only [insertTagValue, if_true, selects_cons, List.mem_append, List.mem_singleton]
        rw [and_or_left, or_right_comm]
      · simp only [insertTagValue, same, if_false, selects_cons, inductionHypothesis, or_assoc]

/-- `groupedTagValues` selects exactly the chosen (key, value) pairs. -/
theorem selects_groupedTagValues (tagValues : List TagValue) (key value : List Char) :
    Selects (groupedTagValues tagValues) key value ↔ ⟨key, value⟩ ∈ tagValues := by
  suffices general : ∀ groups, Selects (tagValues.foldl insertTagValue groups) key value ↔
      Selects groups key value ∨ ⟨key, value⟩ ∈ tagValues by
    simpa [groupedTagValues, Selects] using general []
  induction tagValues with
  | nil => simp
  | cons tagValue rest inductionHypothesis =>
      intro groups
      rw [List.foldl_cons, inductionHypothesis, selects_insertTagValue, or_assoc]
      simp only [List.mem_cons, TagValue.mk.injEq]
      constructor <;> rintro (h | h | h) <;> simp_all [eq_comm]

def CompositionSelection.Avoids (c : Char) (session : CompositionSelection) : Prop :=
  (∀ field ∈ session.fields, c ∉ field) ∧
    (∀ measurement, session.measurement = some measurement → c ∉ measurement) ∧
    (∀ dbrp, session.dbrp = some dbrp → c ∉ dbrp.database ∧ c ∉ dbrp.retentionPolicy) ∧
    (∀ tagValue ∈ session.tagValues, c ∉ tagValue.key ∧ c ∉ tagValue.value)

def CompositionSelection.NewlineFree (session : CompositionSelection) : Prop :=
  session.Avoids '\n'

/-- No name or value holds a character at which Monaco breaks lines. -/
def CompositionSelection.LineBreakFree (session : CompositionSelection) : Prop :=
  session.Avoids '\n' ∧ session.Avoids '\r'

theorem compositionLines_ne_nil (session : CompositionSelection) :
    compositionLines session ≠ [] := by
  simp [compositionLines]

section Avoids

variable {c : Char} (isBreak : c = '\n' ∨ c = '\r') {session : CompositionSelection}
  (avoids : session.Avoids c)
include isBreak avoids

theorem not_mem_selectClause : c ∉ selectClause session := by
  rcases isBreak with rfl | rfl
  all_goals
    unfold selectClause; split
    · decide
    · simp only [List.mem_append, not_or]
      refine ⟨by decide, not_mem_intercalate (by decide) fun part member => ?_⟩
      obtain ⟨field, inFields, rfl⟩ := List.mem_map.mp member
      simp [avoids.1 field inFields]

theorem not_mem_dbrpMeasurement : ∀ part ∈ dbrpMeasurement session, c ∉ part := by
  obtain ⟨_, measurement, dbrp, _⟩ := avoids
  intro part member
  simp only [dbrpMeasurement, List.mem_append] at member
  rcases member with fromDbrp | fromMeasurement
  · cases named : session.dbrp with
    | none => simp [named] at fromDbrp
    | some chosen =>
        simp only [named, List.mem_cons, List.mem_singleton, List.not_mem_nil, or_false] at fromDbrp
        rcases fromDbrp with rfl | rfl
        exacts [(dbrp chosen named).1, (dbrp chosen named).2]
  · split at fromMeasurement
    · simp only [List.mem_singleton] at fromMeasurement
      subst fromMeasurement
      have notQuote : c ≠ '"' := by rcases isBreak with rfl | rfl <;> decide
      cases named : session.measurement with
      | none => simp [notQuote]
      | some name => simp [measurement name named, notQuote]
    · simp at fromMeasurement

theorem not_mem_tagValuesExpr : c ∉ tagValuesExpr session.tagValues := by
  rcases isBreak with rfl | rfl
  all_goals
    refine not_mem_intercalate (by decide) fun part member => ?_
    obtain ⟨⟨key, values⟩, inGroups, rfl⟩ := List.mem_map.mp member
    refine not_mem_intercalate (by decide) fun expr inExprs => ?_
    obtain ⟨value, inValues, rfl⟩ := List.mem_map.mp inExprs
    have chosen := (selects_groupedTagValues _ key value).mp ⟨values, inGroups, inValues⟩
    simp [tagValueExpr, avoids.2.2.2 _ chosen]

theorem compositionLines_avoids : ∀ line ∈ compositionLines session, c ∉ line := by
  intro line member
  simp only [compositionLines, List.mem_append, List.mem_cons] at member
  rcases member with (rfl | fromLine) | whereLine
  · exact not_mem_selectClause isBreak avoids
  · split at fromLine
    · simp only [List.mem_singleton] at fromLine
      subst fromLine
      simp only [List.mem_append, not_or]
      rcases isBreak with rfl | rfl <;>
        exact ⟨by decide, not_mem_intercalate (by decide)
          (not_mem_dbrpMeasurement (by decide) avoids)⟩
    · simp at fromLine
  · simp only [whereClause] at whereLine
    split at whereLine
    · simp only [List.mem_cons, List.mem_singleton, List.not_mem_nil, or_false] at whereLine
      have tagsFree := not_mem_tagValuesExpr isBreak avoids
      rcases whereLine with rfl | rfl <;> rcases isBreak with rfl | rfl <;> simp [tagsFree]
    · simp at whereLine

end Avoids

theorem compositionLines_eolFree {session : CompositionSelection}
    (newlineFree : session.NewlineFree) : EolFree (compositionLines session) :=
  compositionLines_avoids (.inl rfl) newlineFree

theorem compositionLines_breakFree {session : CompositionSelection}
    (lineBreakFree : session.LineBreakFree) : BreakFree (compositionLines session) :=
  fun line member => ⟨compositionLines_avoids (.inl rfl) lineBreakFree.1 line member,
    compositionLines_avoids (.inr rfl) lineBreakFree.2 line member⟩

theorem buildComposition_lines (session : CompositionSelection) :
    (buildComposition session).lines = (compositionLines session).length := by
  simp only [buildComposition, compositionLines]
  split <;> simp <;> omega

example : buildComposition ⟨[], some "cpu".toList, some ⟨"telegraf".toList, "autogen".toList⟩,
      [⟨"host".toList, "server01".toList⟩]⟩ =
    ⟨"SELECT *\nFROM telegraf.autogen.\"cpu\"\nWHERE\n(\"host\" = \x27server01\x27)".toList,
      4, 1⟩ := by

  decide

theorem buildComposition_lenLastLine (session : CompositionSelection) :
    (buildComposition session).lenLastLine = 1 := by
  simp only [buildComposition]
  have := List.length_pos.mpr (compositionLines_ne_nil session)
  simp only [List.length_drop]
  omega

theorem splitLines_buildComposition {session : CompositionSelection}
    (newlineFree : session.NewlineFree) :
    splitLines (buildComposition session).composition = compositionLines session :=
  splitLines_joinLines (compositionLines_eolFree newlineFree) (compositionLines_ne_nil session)

theorem two_le_length_of_mem_compositionLines {session : CompositionSelection} {line : List Char}
    (member : line ∈ compositionLines session) : 2 ≤ line.length := by
  simp only [compositionLines, whereClause, List.mem_append, List.mem_cons] at member
  rcases member with (rfl | fromLine) | whereLine
  · simp [selectClause]
  · split at fromLine
    · simp only [List.mem_singleton] at fromLine; subst fromLine; simp
    · simp at fromLine
  · split at whereLine
    · simp only [List.mem_cons, List.mem_singleton, List.not_mem_nil, or_false] at whereLine
      rcases whereLine with rfl | rfl <;> simp
    · simp at whereLine

/-- `lines` is the number of lines of the text, but `lenLastLine` is always `1` while the last
line has at least two characters. -/
theorem buildComposition_size (session : CompositionSelection)
    (newlineFree : session.NewlineFree) :
    (buildComposition session).lines = (buildComposition session).composition.count '\n' + 1 ∧
      (buildComposition session).lenLastLine = 1 ∧
      2 ≤ ((splitLines (buildComposition session).composition).getLast
        (splitLines_ne_nil _)).length := by
  refine ⟨?_, buildComposition_lenLastLine session, ?_⟩
  · rw [buildComposition_lines, ← length_splitLines, splitLines_buildComposition newlineFree]
  · have everyLine : ∀ line ∈ splitLines (buildComposition session).composition,
        2 ≤ line.length := by
      rw [splitLines_buildComposition newlineFree]
      exact fun line member => two_le_length_of_mem_compositionLines member
    exact everyLine _ (List.getLast_mem _)

theorem buildComposition_size_select_all :
    CompositionSelection.NewlineFree ⟨[], none, none, []⟩ ∧
      (buildComposition ⟨[], none, none, []⟩).lines =
        (buildComposition ⟨[], none, none, []⟩).composition.count '\n' + 1 ∧
      (buildComposition ⟨[], none, none, []⟩).lenLastLine = 1 ∧
      2 ≤ ((splitLines (buildComposition ⟨[], none, none, []⟩).composition).getLast
        (splitLines_ne_nil _)).length :=
  have newlineFree : CompositionSelection.NewlineFree ⟨[], none, none, []⟩ := by
    simp [CompositionSelection.NewlineFree, CompositionSelection.Avoids]
  ⟨newlineFree, buildComposition_size _ newlineFree⟩

end InfluxUi.InfluxQL
