import Mathlib.Data.List.Basic

/-!
# Path settings of the build environment

`formatStatic` and `formatBase` (`src/utils/env.ts`) normalise the static directory and the
base paths read from the environment. A JavaScript string is modelled by its list of
characters: `s[i]` is `s[i]?`, which is `none` (`undefined`) past either end, and
`s.slice(1)` is `s.drop 1`.

`formatBase` always yields a path that starts and ends with `/`, and it is idempotent.
`formatStatic` removes only one leading `/`, so it is idempotent except on inputs that
start with `//` and have a third character.
-/

namespace InfluxUi.Utils.Env

/-- `formatStatic`: drop one leading `/`, then add a trailing `/` if there is none. -/
def formatStatic (dir : List Char) : List Char :=
  if dir.length = 0 then dir
  else
    let stripped := if dir[0]? = some '/' then dir.drop 1 else dir
    if stripped[stripped.length - 1]? ≠ some '/' then stripped ++ ['/'] else stripped

/-- `formatBase`: `/` is kept; otherwise add a leading and a trailing `/` where missing. -/
def formatBase (path : List Char) : List Char :=
  if path = ['/'] then path
  else
    let rooted := if path[0]? ≠ some '/' then '/' :: path else path
    if rooted[rooted.length - 1]? ≠ some '/' then rooted ++ ['/'] else rooted

/-- JavaScript's `value || fallback` on an environment variable: unset or empty selects the
fallback. -/
def orFallback (value : Option (List Char)) (fallback : List Char) : List Char :=
  match value with
  | some text => if text.length = 0 then fallback else text
  | none => fallback

def staticDirectory (env : Option (List Char)) : List Char := formatStatic (orFallback env [])

def basePath (env : Option (List Char)) : List Char := formatBase (orFallback env ['/'])

def apiBasePath (env : Option (List Char)) : List Char := formatBase (orFallback env ['/'])

def StartsWithSlash (s : List Char) : Prop := s.head? = some '/'

def EndsWithSlash (s : List Char) : Prop := s.getLast? = some '/'

instance (s : List Char) : Decidable (StartsWithSlash s) :=
  inferInstanceAs (Decidable (s.head? = some '/'))

instance (s : List Char) : Decidable (EndsWithSlash s) :=
  inferInstanceAs (Decidable (s.getLast? = some '/'))

/-- The trailing-slash step shared by both functions. -/
def ensureTrailingSlash (s : List Char) : List Char :=
  if s.getLast? = some '/' then s else s ++ ['/']

theorem getElem?_last (s : List Char) : s[s.length - 1]? = s.getLast? :=
  (List.getLast?_eq_getElem? s).symm

theorem ensureTrailingSlash_endsWith (s : List Char) : EndsWithSlash (ensureTrailingSlash s) := by
  unfold ensureTrailingSlash EndsWithSlash
  split <;> simp [*]

theorem ensureTrailingSlash_of_endsWith {s : List Char} (ends : EndsWithSlash s) :
    ensureTrailingSlash s = s := if_pos ends

@[simp]
theorem ensureTrailingSlash_cons_head (c : Char) (s : List Char) :
    (ensureTrailingSlash (c :: s)).head? = some c := by
  unfold ensureTrailingSlash; split <;> simp

theorem formatStatic_nil : formatStatic [] = [] := rfl

@[simp]
theorem formatStatic_slash_cons (t : List Char) :
    formatStatic ('/' :: t) = ensureTrailingSlash t := by
  simp only [formatStatic, getElem?_last, ensureTrailingSlash]
  simp

@[simp]
theorem formatStatic_cons {c : Char} (hc : c ≠ '/') (t : List Char) :
    formatStatic (c :: t) = ensureTrailingSlash (c :: t) := by
  simp only [formatStatic, getElem?_last, ensureTrailingSlash]
  simp [hc]

@[simp]
theorem formatBase_nil : formatBase [] = ['/'] := rfl

@[simp]
theorem formatBase_slash_cons (t : List Char) :
    formatBase ('/' :: t) = ensureTrailingSlash ('/' :: t) := by
  cases t with
  | nil => rfl
  | cons c u => simp only [formatBase, getElem?_last, ensureTrailingSlash]; simp

@[simp]
theorem formatBase_cons {c : Char} (hc : c ≠ '/') (t : List Char) :
    formatBase (c :: t) = ensureTrailingSlash ('/' :: c :: t) := by
  simp only [formatBase, getElem?_last, ensureTrailingSlash]
  simp [hc]

theorem formatBase_startsWith (path : List Char) : StartsWithSlash (formatBase path) := by
  match path with
  | [] => rfl
  | c :: t =>
      by_cases hc : c = '/'
      · subst hc; simp [StartsWithSlash]
      · simp [StartsWithSlash, hc]

theorem formatBase_endsWith (path : List Char) : EndsWithSlash (formatBase path) := by
  match path with
  | [] => rfl
  | c :: t =>
      by_cases hc : c = '/'
      · rw [hc, formatBase_slash_cons]; exact ensureTrailingSlash_endsWith _
      · rw [formatBase_cons hc]; exact ensureTrailingSlash_endsWith _

/-- A path that already starts and ends with `/` is left alone. -/
theorem formatBase_of_slashes {path : List Char} (starts : StartsWithSlash path)
    (ends : EndsWithSlash path) : formatBase path = path := by
  obtain ⟨t, rfl⟩ := List.head?_eq_some_iff.mp starts
  simpa using ensureTrailingSlash_of_endsWith ends

theorem formatBase_idempotent (path : List Char) :
    formatBase (formatBase path) = formatBase path :=
  formatBase_of_slashes (formatBase_startsWith path) (formatBase_endsWith path)

theorem formatStatic_endsWith {dir : List Char} (nonempty : dir ≠ []) :
    EndsWithSlash (formatStatic dir) := by
  match dir, nonempty with
  | c :: t, _ =>
      by_cases hc : c = '/'
      · rw [hc, formatStatic_slash_cons]; exact ensureTrailingSlash_endsWith _
      · rw [formatStatic_cons hc]; exact ensureTrailingSlash_endsWith _

theorem ensureTrailingSlash_cons_of_ne_nil (c : Char) {s : List Char} (nonempty : s ≠ []) :
    ensureTrailingSlash (c :: s) = c :: ensureTrailingSlash s := by
  obtain ⟨d, t, rfl⟩ := List.exists_cons_of_ne_nil nonempty
  simp only [ensureTrailingSlash, List.getLast?_cons_cons]
  split <;> rfl

/-- A string with no leading and with a trailing `/` is left alone by `formatStatic`. -/
theorem formatStatic_fixed {s : List Char} (starts : ¬ StartsWithSlash s)
    (ends : EndsWithSlash s) : formatStatic s = s := by
  match s, starts, ends with
  | c :: t, starts, ends =>
      have hc : c ≠ '/' := fun h => starts (by simp [StartsWithSlash, h])
      simpa [hc] using ensureTrailingSlash_of_endsWith ends

theorem formatStatic_startsWith_iff (dir : List Char) :
    StartsWithSlash (formatStatic dir) ↔ dir = ['/'] ∨ ['/', '/'] <+: dir := by
  rcases dir with _ | ⟨c, t⟩
  · simp [formatStatic_nil, StartsWithSlash]
  by_cases hc : c = '/'
  · subst hc
    rcases t with _ | ⟨d, u⟩
    · decide
    · simp [StartsWithSlash, List.cons_prefix_cons, eq_comm]
  · simp [StartsWithSlash, hc, Ne.symm hc, List.cons_prefix_cons]

/-- `formatStatic` strips a single `/`: a second leading `/` followed by more text survives
the first application and is removed by the second. -/
theorem formatStatic_idempotent_iff (dir : List Char) :
    formatStatic (formatStatic dir) = formatStatic dir ↔
      ¬ (['/', '/'] <+: dir ∧ 3 ≤ dir.length) := by
  have fixedOfCons : ∀ (c : Char) (t : List Char), c ≠ '/' →
      formatStatic (ensureTrailingSlash (c :: t)) = ensureTrailingSlash (c :: t) := fun c t hc =>
    formatStatic_fixed (by simp [StartsWithSlash, hc]) (ensureTrailingSlash_endsWith _)
  rcases dir with _ | ⟨c, t⟩
  · simp [formatStatic_nil]
  by_cases hc : c = '/'
  swap
  · simp [hc, Ne.symm hc, fixedOfCons c t hc, List.cons_prefix_cons]
  subst hc
  rcases t with _ | ⟨d, u⟩
  · decide
  by_cases hd : d = '/'
  swap
  · simp [hd, Ne.symm hd, fixedOfCons d u hd, List.cons_prefix_cons]
  subst hd
  rcases u with _ | ⟨e, v⟩
  · decide
  · have stripped : formatStatic (formatStatic ('/' :: '/' :: e :: v)) =
        ensureTrailingSlash (e :: v) := by
      rw [formatStatic_slash_cons, ensureTrailingSlash_cons_of_ne_nil _ (List.cons_ne_nil e v),
        formatStatic_slash_cons, ensureTrailingSlash_of_endsWith (ensureTrailingSlash_endsWith _)]
    rw [stripped, formatStatic_slash_cons,
      ensureTrailingSlash_cons_of_ne_nil _ (List.cons_ne_nil e v)]

    simp [List.cons_prefix_cons]

/-- What the two functions guarantee: `formatBase` gives a path with a slash at both ends and
is idempotent; `formatStatic` gives a trailing slash, and strips a leading one except where the
input starts with two. -/
theorem formatPaths_normalised :
    (∀ path, StartsWithSlash (formatBase path) ∧ EndsWithSlash (formatBase path)) ∧
    (∀ path, formatBase (formatBase path) = formatBase path) ∧
    (∀ c dir, EndsWithSlash (formatStatic (c :: dir))) ∧
    (∀ dir, StartsWithSlash (formatStatic dir) ↔ dir = ['/'] ∨ ['/', '/'] <+: dir) ∧
    (∀ dir, formatStatic (formatStatic dir) = formatStatic dir ↔
      ¬ (['/', '/'] <+: dir ∧ 3 ≤ dir.length)) :=
  ⟨fun path => ⟨formatBase_startsWith path, formatBase_endsWith path⟩, formatBase_idempotent,
    fun c dir => formatStatic_endsWith (List.cons_ne_nil c dir), formatStatic_startsWith_iff,
    formatStatic_idempotent_iff⟩

theorem formatStatic_keeps_second_slash :
    StartsWithSlash (formatStatic ['/']) ∧
      formatStatic (formatStatic ['/', '/', 'a']) ≠ formatStatic ['/', '/', 'a'] := by
  decide

end InfluxUi.Utils.Env
