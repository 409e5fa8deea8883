import InfluxUi.InfluxQL.Composition

/-!
# What the `WHERE` line means

The composition's filter is InfluxQL text. To say which points it selects, the text is read
back by a lexer and a parser for the fragment of InfluxQL conditions it uses: double-quoted tag
keys, single-quoted string values, `=`, parentheses, and the keywords `AND` and `OR` in any
case, `AND` binding tighter than `OR`. Inside quotes the lexer follows InfluxQL's scanner: a
backslash escapes `n`, `\\`, `"` and `'`, any other escape is an error, and so is a line break.
A point carries one value per tag key.

`_buildComposition` joins every selected `(key, value)` pair with `AND`, also two values of the
same key, so a point satisfies the filter exactly when it matches every selected pair. It
prints names and values as they are, so the results hold for text that stands for itself
between quotes (`Verbatim`).
-/

namespace InfluxUi.InfluxQL

inductive Token where
  | identifier (name : List Char)
  | stringLiteral (value : List Char)
  | equals
  | and
  | or
  | leftParen
  | rightParen
  deriving DecidableEq, Repr

/-- What the lexer is in the middle of: between tokens, inside quotes closed by `ending` or just
after a backslash there, or in a keyword. The characters read so far are kept reversed. -/
inductive LexState where
  | between
  | quoted (ending : Char) (reversed : List Char)
  | escaped (ending : Char) (reversed : List Char)
  | keyword (reversed : List Char)
  deriving DecidableEq, Repr

def keywordToken (word : List Char) : Option Token :=
  if word.map Char.toUpper = "AND".toList then some .and
  else if word.map Char.toUpper = "OR".toList then some .or
  else none

def quotedToken (ending : Char) (text : List Char) : Token :=
  if ending = '"' then .identifier text else .stringLiteral text

def escapedChar (c : Char) : Option Char :=
  if c = 'n' then some '\n'
  else if c = '\\' ∨ c = '"' ∨ c = '\x27' then some c
  else none

def startToken (c : Char) : Option (List Token × LexState) :=
  if c = ' ' then some ([], .between)
  else if c = '"' ∨ c = '\x27' then some ([], .quoted c [])
  else if c = '(' then some ([.leftParen], .between)
  else if c = ')' then some ([.rightParen], .between)
  else if c = '=' then some ([.equals], .between)
  else if c.isAlpha then some ([], .keyword [c])
  else none

def lexStep : LexState → Char → Option (List Token × LexState)
  | .between, c => startToken c
  | .quoted ending reversed, c =>
      if c = ending then some ([quotedToken ending reversed.reverse], .between)
      else if c = '\n' then none
      else if c = '\\' then some ([], .escaped ending reversed)
      else some ([], .quoted ending (c :: reversed))
  | .escaped ending reversed, c =>
      (escapedChar c).map fun unescaped => ([], .quoted ending (unescaped :: reversed))
  | .keyword reversed, c =>
      if c.isAlpha then some ([], .keyword (c :: reversed))
      else do
        let token ← keywordToken reversed.reverse
        let (tokens, state) ← startToken c
        some (token :: tokens, state)

def lexFinish : LexState → Option (List Token)
  | .between => some []
  | .keyword reversed => (keywordToken reversed.reverse).map ([·])
  | _ => none

def lex (state : LexState) : List Char → Option (List Token)
  | [] => lexFinish state
  | c :: rest => do
      let (tokens, next) ← lexStep state c
      let tail ← lex next rest
      some (tokens ++ tail)

inductive Condition where
  | tagEquals (key value : List Char)
  | and (left right : Condition)
  | or (left right : Condition)
  deriving DecidableEq, Repr

def Condition.eval (point : List Char → List Char) : Condition → Bool
  | .tagEquals key value => point key == value
  | .and left right => left.eval point && right.eval point
  | .or left right => left.eval point || right.eval point

/-- What the parser is after: a disjunction, the rest of one after its left part, likewise
for conjunctions, or an operand. -/
inductive Goal where
  | disjunction
  | disjunctionTail (left : Condition)
  | conjunction
  | conjunctionTail (left : Condition)
  | operand
  deriving DecidableEq, Repr

/-- Recursive descent by precedence, with a fuel bound. -/
def parse : Nat → Goal → List Token → Option (Condition × List Token)
  | 0, _, _ => none
  | fuel + 1, .disjunction, tokens => do
      let (left, rest) ← parse fuel .conjunction tokens
      parse fuel (.disjunctionTail left) rest
  | fuel + 1, .disjunctionTail left, .or :: tokens => do
      let (right, rest) ← parse fuel .conjunction tokens
      parse fuel (.disjunctionTail (.or left right)) rest
  | _ + 1, .disjunctionTail left, tokens => some (left, tokens)
  | fuel + 1, .conjunction, tokens => do
      let (left, rest) ← parse fuel .operand tokens
      parse fuel (.conjunctionTail left) rest
  | fuel + 1, .conjunctionTail left, .and :: tokens => do
      let (right, rest) ← parse fuel .operand tokens
      parse fuel (.conjunctionTail (.and left right)) rest
  | _ + 1, .conjunctionTail left, tokens => some (left, tokens)
  | fuel + 1, .operand, .leftParen :: tokens => do
      let (inner, rest) ← parse fuel .disjunction tokens
      match rest with
      | .rightParen :: rest => some (inner, rest)
      | _ => none
  | _ + 1, .operand, .identifier key :: .equals :: .stringLiteral value :: tokens =>
      some (.tagEquals key value, tokens)
  | _ + 1, .operand, _ => none

def parseCondition (tokens : List Token) : Option Condition :=
  match parse (3 * tokens.length + 3) .disjunction tokens with
  | some (condition, []) => some condition
  | _ => none

def whereCondition (session : CompositionSelection) : Option Condition :=
  match whereClause session with
  | [_, text] => (lex .between text).bind parseCondition
  | _ => none

theorem lex_cons (state : LexState) (c : Char) (rest : List Char) :
    lex state (c :: rest) = (lexStep state c).bind fun (tokens, next) =>
      (lex next rest).map (tokens ++ ·) := by
  simp only [lex]
  cases lexStep state c <;> simp [Option.map_eq_bind]

/-- Text that stands for itself between quotes: no quote of either kind, no backslash and no
line break. -/
def Verbatim (text : List Char) : Prop :=
  '"' ∉ text ∧ '\x27' ∉ text ∧ '\\' ∉ text ∧ '\n' ∉ text

instance (text : List Char) : Decidable (Verbatim text) :=
  inferInstanceAs (Decidable (_ ∧ _ ∧ _ ∧ _))

theorem lex_quoted {ending : Char} (closing : ending = '"' ∨ ending = '\x27')
    (reversed : List Char) {text : List Char} (verbatim : Verbatim text) (rest : List Char) :
    lex (.quoted ending reversed) (text ++ ending :: rest) =
      (lex .between rest).map (quotedToken ending (reversed.reverse ++ text) :: ·) := by
  induction text generalizing reversed with
  | nil => simp [lex_cons, lexStep]
  | cons c text inductionHypothesis =>
      obtain ⟨noDouble, noSingle, noBackslash, noNewline⟩ := verbatim
      simp only [List.mem_cons, not_or] at noDouble noSingle noBackslash noNewline
      have notEnding : c ≠ ending := by
        rcases closing with rfl | rfl
        exacts [Ne.symm noDouble.1, Ne.symm noSingle.1]
      rw [List.cons_append, lex_cons]
      simp [lexStep, notEnding, Ne.symm noNewline.1, Ne.symm noBackslash.1, Function.comp_def,
        inductionHypothesis _ ⟨noDouble.2, noSingle.2, noBackslash.2, noNewline.2⟩]

def constraintTokens (key value : List Char) : List Token :=
  [.identifier key, .equals, .stringLiteral value]

theorem lex_tagValueExpr {key value : List Char} (keyVerbatim : Verbatim key)
    (valueVerbatim : Verbatim value) (rest : List Char) :
    lex .between (tagValueExpr key value ++ rest) =
      (lex .between rest).map (constraintTokens key value ++ ·) := by
  have assembled : tagValueExpr key value ++ rest =
      '"' :: (key ++ '"' :: ' ' :: '=' :: ' ' :: '\x27' :: (value ++ '\x27' :: rest)) := by
    simp [tagValueExpr, quoted]
  rw [assembled, lex_cons]
  simp +decide only [lexStep, startToken, ↓reduceIte, Option.some_bind, Option.bind_eq_bind,
    lex_quoted (.inl rfl) _ keyVerbatim, lex_quoted (.inr rfl) _ valueVerbatim, lex_cons,
    List.reverse_nil, List.nil_append, List.singleton_append, List.cons_append, Option.map_map,
    Function.comp_def, constraintTokens, quotedToken, true_or, or_true]

theorem lex_and (rest : List Char) :
    lex .between (" AND ".toList ++ rest) = (lex .between rest).map (.and :: ·) := by
  have spelled : " AND ".toList ++ rest = ' ' :: 'A' :: 'N' :: 'D' :: ' ' :: rest := rfl
  rw [spelled]
  simp +decide only [lex_cons, lexStep, startToken, keywordToken, ↓reduceIte, Option.some_bind,
    Option.bind_eq_bind, Option.map_map, List.nil_append, List.singleton_append, Function.comp_def]

def selectedPairs (tagValues : List TagValue) : List (List Char × List Char) :=
  (groupedTagValues tagValues).flatMap fun group => group.2.map (group.1, ·)

/-- Each printed constraint after the first, with the `AND` before it. -/
def andSteps (pairs : List (List Char × List Char)) : List Char :=
  pairs.flatMap fun pair => " AND ".toList ++ tagValueExpr pair.1 pair.2

def andStepTokens (pairs : List (List Char × List Char)) : List Token :=
  pairs.flatMap fun pair => .and :: constraintTokens pair.1 pair.2

theorem separator_append_intercalate {α : Type} (separator : List α) :
    ∀ {parts : List (List α)}, parts ≠ [] →
      separator ++ separator.intercalate parts = parts.flatMap (separator ++ ·)
  | [], nonempty => absurd rfl nonempty
  | [part], _ => by simp [List.intercalate]
  | part :: next :: rest, _ => by
      have tail : separator ++ separator.intercalate (next :: rest) =
          (next :: rest).flatMap (separator ++ ·) :=
        separator_append_intercalate separator (by simp)
      simp only [List.intercalate, List.intersperse_cons₂, List.flatten_cons] at tail ⊢
      simp [tail]

theorem values_ne_nil_of_insertTagValue {groups : List (List Char × List (List Char))}
    (nonempty : ∀ group ∈ groups, group.2 ≠ []) (tagValue : TagValue) :
    ∀ group ∈ insertTagValue groups tagValue, group.2 ≠ [] := by
  induction groups with
  | nil => simp [insertTagValue]
  | cons head rest inductionHypothesis =>
      rw [List.forall_mem_cons] at nonempty
      unfold insertTagValue
      split_ifs
      · simpa using nonempty.2
      · exact List.forall_mem_cons.mpr ⟨nonempty.1, inductionHypothesis nonempty.2⟩

theorem values_ne_nil_of_groupedTagValues (tagValues : List TagValue) :
    ∀ group ∈ groupedTagValues tagValues, group.2 ≠ [] := by
  suffices general : ∀ groups : List (List Char × List (List Char)),
      (∀ group ∈ groups, group.2 ≠ []) →
        ∀ group ∈ tagValues.foldl insertTagValue groups, group.2 ≠ [] from
    general [] (by simp)
  induction tagValues with
  | nil => exact fun _ nonempty => nonempty
  | cons tagValue rest inductionHypothesis =>
      exact fun groups nonempty =>
        inductionHypothesis _ (values_ne_nil_of_insertTagValue nonempty tagValue)

theorem groupedTagValues_ne_nil {tagValues : List TagValue} (selected : tagValues ≠ []) :
    groupedTagValues tagValues ≠ [] := by
  obtain ⟨tagValue, rest, rfl⟩ := List.exists_cons_of_ne_nil selected
  have chosen :=
    (selects_groupedTagValues (tagValue :: rest) tagValue.key tagValue.value).mpr (by simp)
  intro empty
  simp [empty] at chosen

theorem and_append_tagValuesExpr {tagValues : List TagValue} (selected : tagValues ≠ []) :
    " AND ".toList ++ tagValuesExpr tagValues = andSteps (selectedPairs tagValues) := by
  rw [tagValuesExpr,
    separator_append_intercalate _ (by simpa using groupedTagValues_ne_nil selected),
    andSteps, selectedPairs, List.flatMap_assoc, List.flatMap_map]
  refine List.flatMap_congr fun group member => ?_
  rw [separator_append_intercalate _
    (by simpa using values_ne_nil_of_groupedTagValues _ group member)]
  simp only [List.flatMap_map]

theorem lex_andSteps {pairs : List (List Char × List Char)}
    (verbatim : ∀ pair ∈ pairs, Verbatim pair.1 ∧ Verbatim pair.2) (rest : List Char) :
    lex .between (andSteps pairs ++ rest) = (lex .between rest).map (andStepTokens pairs ++ ·) := by
  induction pairs with
  | nil => simp [andSteps, andStepTokens]
  | cons pair pairs inductionHypothesis =>
      rw [List.forall_mem_cons] at verbatim
      have text : andSteps (pair :: pairs) ++ rest =
          " AND ".toList ++ (tagValueExpr pair.1 pair.2 ++ (andSteps pairs ++ rest)) := by
        simp [andSteps]
      rw [text, lex_and, lex_tagValueExpr verbatim.1.1 verbatim.1.2,
        inductionHypothesis verbatim.2]
      simp [andStepTokens, Option.map_map, Function.comp_def]

theorem lex_leftParen (rest : List Char) :
    lex .between ('(' :: rest) = (lex .between rest).map (.leftParen :: ·) := by
  simp [lex_cons, lexStep, startToken, Function.comp_def]

theorem lex_rightParen : lex .between [')'] = some [.rightParen] := rfl

theorem lex_whereText {tagValues : List TagValue} (selected : tagValues ≠ [])
    (verbatim : ∀ tagValue ∈ tagValues, Verbatim tagValue.key ∧ Verbatim tagValue.value) :
    ∃ key value pairs, selectedPairs tagValues = (key, value) :: pairs ∧
      lex .between ('(' :: tagValuesExpr tagValues ++ [')']) =
        some (.leftParen :: constraintTokens key value ++ andStepTokens pairs ++
          [.rightParen]) := by
  have pairsFree : ∀ pair ∈ selectedPairs tagValues, Verbatim pair.1 ∧ Verbatim pair.2 := by
    intro pair member
    simp only [selectedPairs, List.mem_flatMap, List.mem_map] at member
    obtain ⟨⟨key, values⟩, inGroups, value, inValues, rfl⟩ := member
    exact verbatim _ ((selects_groupedTagValues _ key value).mp ⟨values, inGroups, inValues⟩)
  obtain ⟨⟨key, value⟩, pairs, split⟩ : ∃ pair pairs, selectedPairs tagValues = pair :: pairs := by
    have steps := and_append_tagValuesExpr selected
    cases pairs : selectedPairs tagValues with
    | nil => simp [pairs, andSteps] at steps
    | cons pair rest => exact ⟨pair, rest, rfl⟩
  have text : tagValuesExpr tagValues = tagValueExpr key value ++ andSteps pairs := by
    simpa [andSteps, split] using and_append_tagValuesExpr selected
  rw [split] at pairsFree
  simp only [List.forall_mem_cons] at pairsFree
  refine ⟨key, value, pairs, split, ?_⟩
  rw [text, List.cons_append, lex_leftParen, List.append_assoc,
    lex_tagValueExpr pairsFree.1.1 pairsFree.1.2, lex_andSteps pairsFree.2]
  simp [lex_rightParen, constraintTokens]

def conjoin (left : Condition) (pairs : List (List Char × List Char)) : Condition :=
  pairs.foldl (fun condition pair => .and condition (.tagEquals pair.1 pair.2)) left

theorem eval_conjoin (point : List Char → List Char) (pairs : List (List Char × List Char)) :
    ∀ left : Condition, (conjoin left pairs).eval point =
      (left.eval point && pairs.all fun pair => point pair.1 == pair.2) := by
  induction pairs with
  | nil => simp [conjoin]
  | cons pair pairs inductionHypothesis =>
      intro left
      simp only [conjoin, List.foldl_cons] at inductionHypothesis ⊢
      simp [inductionHypothesis, Condition.eval, Bool.and_assoc]

theorem parse_operand_constraint (fuel : Nat) (key value : List Char) (rest : List Token) :
    parse (fuel + 1) .operand (constraintTokens key value ++ rest) =
      some (.tagEquals key value, rest) := rfl

theorem parse_disjunction (fuel : Nat) (tokens : List Token) :
    parse (fuel + 1) .disjunction tokens =
      (parse fuel .conjunction tokens).bind fun (left, rest) =>
        parse fuel (.disjunctionTail left) rest := rfl

theorem parse_conjunction (fuel : Nat) (tokens : List Token) :
    parse (fuel + 1) .conjunction tokens =
      (parse fuel .operand tokens).bind fun (left, rest) =>
        parse fuel (.conjunctionTail left) rest := rfl

theorem parse_operand_leftParen (fuel : Nat) (tokens : List Token) :
    parse (fuel + 1) .operand (.leftParen :: tokens) =
      (parse fuel .disjunction tokens).bind fun (inner, rest) =>
        match rest with
        | .rightParen :: rest => some (inner, rest)
        | _ => none := rfl

theorem parse_conjunctionTail_and (fuel : Nat) (left : Condition) (tokens : List Token) :
    parse (fuel + 1) (.conjunctionTail left) (.and :: tokens) =
      (parse fuel .operand tokens).bind fun (right, rest) =>
        parse fuel (.conjunctionTail (.and left right)) rest := rfl

theorem parse_conjunctionTail_stop (fuel : Nat) (left : Condition) {rest : List Token}
    (stops : rest.head? ≠ some .and) :
    parse (fuel + 1) (.conjunctionTail left) rest = some (left, rest) := by
  rcases rest with _ | ⟨token, rest⟩
  · rfl
  · cases token <;> first | rfl | simp at stops

/-- The tail loop of a conjunction takes every `AND` step, given a step of fuel for each. -/
theorem parse_conjunctionTail_andSteps (pairs : List (List Char × List Char)) {rest : List Token}
    (stops : rest.head? ≠ some .and) :
    ∀ (left : Condition) (fuel : Nat), pairs.length < fuel →
      parse fuel (.conjunctionTail left) (andStepTokens pairs ++ rest) =
        some (conjoin left pairs, rest) := by
  induction pairs with
  | nil =>
      intro left fuel enough
      obtain ⟨fuel, rfl⟩ := Nat.exists_eq_add_of_lt enough
      exact parse_conjunctionTail_stop _ left stops
  | cons pair pairs inductionHypothesis =>
      intro left fuel enough
      obtain ⟨fuel, rfl⟩ : ∃ smaller, fuel = smaller + 1 + 1 := ⟨fuel - 2, by simp at enough; omega⟩
      have tokens : andStepTokens (pair :: pairs) ++ rest =
          .and :: (constraintTokens pair.1 pair.2 ++ (andStepTokens pairs ++ rest)) := by
        simp [andStepTokens]
      rw [tokens, parse_conjunctionTail_and, parse_operand_constraint]
      exact inductionHypothesis _ _ (by simp at enough; omega)

theorem length_andStepTokens (pairs : List (List Char × List Char)) :
    (andStepTokens pairs).length = 4 * pairs.length := by
  induction pairs with
  | nil => rfl
  | cons pair pairs inductionHypothesis =>
      simp only [andStepTokens, constraintTokens] at inductionHypothesis ⊢
      simp [inductionHypothesis]
      omega

/-- A parenthesised `AND` chain parses whole, within the fuel `parseCondition` gives. -/
theorem parseCondition_chain (key value : List Char) (pairs : List (List Char × List Char)) :
    parseCondition
        (.leftParen :: constraintTokens key value ++ andStepTokens pairs ++ [.rightParen]) =
      some (conjoin (.tagEquals key value) pairs) := by
  have fuel : 3 * (Token.leftParen :: constraintTokens key value ++ andStepTokens pairs ++
      [Token.rightParen]).length + 3 = 12 * pairs.length + 13 + 5 := by
    simp [length_andStepTokens, constraintTokens]
    omega
  have chain : parse (12 * pairs.length + 13) (.conjunctionTail (.tagEquals key value))
      (andStepTokens pairs ++ [.rightParen]) =
        some (conjoin (.tagEquals key value) pairs, [.rightParen]) :=
    parse_conjunctionTail_andSteps pairs (by simp) _ _ (by omega)
  rw [parseCondition, fuel]
  simp only [List.cons_append, List.append_assoc, parse_disjunction, parse_conjunction,
    parse_operand_leftParen, parse_operand_constraint, chain, Option.some_bind]
  rfl

theorem mem_selectedPairs (tagValues : List TagValue) (key value : List Char) :
    (key, value) ∈ selectedPairs tagValues ↔ ⟨key, value⟩ ∈ tagValues := by
  rw [← selects_groupedTagValues]
  simp only [selectedPairs, List.mem_flatMap, List.mem_map, Prod.mk.injEq, Selects]
  constructor
  · rintro ⟨⟨groupKey, values⟩, inGroups, found, inValues, rfl, rfl⟩
    exact ⟨values, inGroups, inValues⟩
  · rintro ⟨values, inGroups, inValues⟩
    exact ⟨(key, values), inGroups, value, inValues, rfl, rfl⟩

/-- For verbatim keys and values the `WHERE` line reads back as the left-nested conjunction
of the selected pairs. -/
theorem whereCondition_eq_conjoin {session : CompositionSelection}
    (selected : session.tagValues ≠ [])
    (verbatim :
      ∀ tagValue ∈ session.tagValues, Verbatim tagValue.key ∧ Verbatim tagValue.value) :
    ∃ key value pairs, selectedPairs session.tagValues = (key, value) :: pairs ∧
      whereCondition session = some (conjoin (.tagEquals key value) pairs) := by
  obtain ⟨key, value, pairs, split, lexed⟩ := lex_whereText selected verbatim
  have clause : whereClause session =
      ["WHERE".toList, '(' :: tagValuesExpr session.tagValues ++ [')']] := by
    simp [whereClause, List.length_pos.mpr selected]
  exact ⟨key, value, pairs, split, by
    simp only [whereCondition, clause, lexed, Option.some_bind, parseCondition_chain]⟩

example : whereCondition ⟨[], none, none,
    [⟨"host".toList, "a".toList⟩, ⟨"region".toList, "eu".toList⟩]⟩ =
      some (.and (.tagEquals "host".toList "a".toList)
        (.tagEquals "region".toList "eu".toList)) := by
  decide

theorem eval_conjoin_selected {tagValues : List TagValue} {key value : List Char}
    {pairs : List (List Char × List Char)} (split : selectedPairs tagValues = (key, value) :: pairs)
    (point : List Char → List Char) :
    (conjoin (.tagEquals key value) pairs).eval point = true ↔
      ∀ tagValue ∈ tagValues, point tagValue.key = tagValue.value := by
  have everyPair : (∀ pair ∈ selectedPairs tagValues, point pair.1 = pair.2) ↔
      ∀ tagValue ∈ tagValues, point tagValue.key = tagValue.value :=
    ⟨fun holds tagValue member =>
        holds (tagValue.key, tagValue.value) ((mem_selectedPairs _ _ _).mpr member),
      fun holds pair member => holds _ ((mem_selectedPairs _ _ _).mp member)⟩
  rw [← everyPair, split, eval_conjoin]
  simp [Condition.eval]

/-- Two values selected for one key are joined by `AND`, so no point satisfies the filter. -/
theorem whereCondition_rejects_alternatives (session : CompositionSelection)
    (verbatim : ∀ tagValue ∈ session.tagValues, Verbatim tagValue.key ∧ Verbatim tagValue.value)
    (first second : TagValue) (firstSelected : first ∈ session.tagValues)
    (secondSelected : second ∈ session.tagValues) (sameKey : first.key = second.key)
    (differentValues : first.value ≠ second.value) :
    ∃ condition, whereCondition session = some condition ∧
      ∀ point : List Char → List Char, condition.eval point = false := by
  obtain ⟨key, value, pairs, split, parsed⟩ :=
    whereCondition_eq_conjoin (List.ne_nil_of_mem firstSelected) verbatim
  refine ⟨_, parsed, fun point => Bool.eq_false_iff.mpr fun holds => differentValues ?_⟩
  have atPoint := (eval_conjoin_selected split point).mp holds
  rw [← atPoint first firstSelected, sameKey, atPoint second secondSelected]

theorem whereCondition_rejects_host_alternatives :
    let session : CompositionSelection :=
      ⟨[], none, none, [⟨"host".toList, "a".toList⟩, ⟨"host".toList, "b".toList⟩]⟩
    ((∀ tagValue ∈ session.tagValues, Verbatim tagValue.key ∧ Verbatim tagValue.value) ∧
      (⟨"host".toList, "a".toList⟩ : TagValue) ∈ session.tagValues ∧
      (⟨"host".toList, "b".toList⟩ : TagValue) ∈ session.tagValues ∧
      "a".toList ≠ "b".toList) ∧
    ∃ condition, whereCondition session = some condition ∧
      ∀ point : List Char → List Char, condition.eval point = false :=
  ⟨by decide, whereCondition_rejects_alternatives _ (by decide) ⟨"host".toList, "a".toList⟩
    ⟨"host".toList, "b".toList⟩ (by decide) (by decide) rfl (by decide)⟩

end InfluxUi.InfluxQL
