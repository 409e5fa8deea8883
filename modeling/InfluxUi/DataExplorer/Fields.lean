import Mathlib.Data.List.Nodup

/-!
# The fields provider of the data explorer

`FieldsProvider` (`src/dataExplorer/context/fields.tsx`) holds the field names of a measurement
and a loading state. `getFields` sets the state to `Loading` and awaits a query; when the query
resolves, the string `_value` column becomes the field list and the state `Done`, and when it
throws the state becomes `Error`. `resetFields` restores the initial state.

Queries complete in any order, and a completion writes the state whatever was requested or
reset since it was issued: the provider keeps no request counter. A run is a list of events:
the calls, and the completions of the queries still in flight. The model numbers the queries
in the order they are issued and keeps the numbers of those in flight (`pending`); what that
list holds after a run is read off the run itself (`FieldsState.mem_pending_run`).
-/

namespace InfluxUi.DataExplorer.Fields

inductive RemoteDataState where
  | notStarted
  | loading
  | done
  | error
  deriving DecidableEq, Repr

structure Column where
  name : String
  type : String
  data : List String
  deriving DecidableEq, Repr

/-- The `_value` data of a result table: the first column named `_value` of type `string`, or
`[]` when there is none. -/
def valueColumn (columns : List Column) : List String :=
  ((columns.filter fun column => column.name == "_value" && column.type == "string").head?.map
    Column.data).getD []

inductive Response where
  | resolved (columns : List Column)
  | thrown
  deriving DecidableEq, Repr

/-- The provider's state, with the queries issued and not completed, by their issue number. -/
structure FieldsState where
  fields : List String
  loading : RemoteDataState
  pending : List Nat
  issued : Nat
  deriving DecidableEq, Repr

def FieldsState.initial : FieldsState := ⟨[], .notStarted, [], 0⟩

def getFieldsGuard (hasBucket : Bool) (measurement : String) : Bool :=
  !hasBucket || measurement.isEmpty

/-- The synchronous part of `getFields`, up to the `await` of the query. -/
def getFields (hasBucket : Bool) (measurement : String) (state : FieldsState) : FieldsState :=
  if getFieldsGuard hasBucket measurement then state
  else
    { state with
      loading := .loading
      pending := state.pending ++ [state.issued]
      issued := state.issued + 1 }

def resetFields (state : FieldsState) : FieldsState :=
  { state with fields := [], loading := .notStarted }

/-- The part of `getFields` after the `await`: the `try` and `catch` blocks. -/
def completeQuery (request : Nat) (response : Response) (state : FieldsState) : FieldsState :=
  if request ∈ state.pending then
    match response with
    | .resolved columns =>
        { state with
          fields := valueColumn columns
          loading := .done
          pending := state.pending.erase request }
    | .thrown => { state with loading := .error, pending := state.pending.erase request }
  else state

/-- An event of a run: a call, or the completion of a query in flight. The bucket matters
only through the guard, so a call records whether one was given. -/
inductive FieldsEvent where
  | getFields (hasBucket : Bool) (measurement : String)
  | resetFields
  | complete (request : Nat) (response : Response)
  deriving DecidableEq, Repr

def FieldsState.step (state : FieldsState) : FieldsEvent → FieldsState
  | .getFields hasBucket measurement => getFields hasBucket measurement state
  | .resetFields => resetFields state
  | .complete request response => completeQuery request response state

def FieldsState.run (state : FieldsState) (events : List FieldsEvent) : FieldsState :=
  events.foldl FieldsState.step state

@[simp]
theorem FieldsState.run_nil (state : FieldsState) : state.run [] = state := rfl

@[simp]
theorem FieldsState.run_cons (state : FieldsState) (event : FieldsEvent)
    (events : List FieldsEvent) : state.run (event :: events) = (state.step event).run events := rfl

theorem FieldsState.run_append (state : FieldsState) (first second : List FieldsEvent) :
    state.run (first ++ second) = (state.run first).run second :=
  List.foldl_append _ _ _ _

def FieldsEvent.isGetFields : FieldsEvent → Bool
  | .getFields _ _ => true
  | _ => false

def FieldsEvent.issues : FieldsEvent → Bool
  | .getFields hasBucket measurement => !getFieldsGuard hasBucket measurement
  | _ => false

def FieldsEvent.completes (request : Nat) : FieldsEvent → Bool
  | .complete completed _ => completed == request
  | _ => false

theorem FieldsState.run_preserves {invariant : FieldsState → Prop}
    (step : ∀ state event, invariant state → invariant (state.step event)) :
    ∀ (events : List FieldsEvent) (state : FieldsState), invariant state →
      invariant (state.run events)
  | [], _, holds => holds
  | event :: rest, state, holds => FieldsState.run_preserves step rest _ (step state event holds)

theorem getFields_of_not_guard {hasBucket : Bool} {measurement : String}
    (accepted : getFieldsGuard hasBucket measurement = false) (state : FieldsState) :
    getFields hasBucket measurement state =
      { state with
        loading := .loading
        pending := state.pending ++ [state.issued]
        issued := state.issued + 1 } := by
  simp [getFields, accepted]

theorem FieldsState.run_calls {calls : List FieldsEvent}
    (onlyCalls : ∀ event ∈ calls, event.isGetFields) (state : FieldsState) :
    (state.run calls).fields = state.fields ∧
      (state.run calls = state ∨
        ((state.run calls).loading = .loading ∧ (state.run calls).pending ≠ [])) := by
  induction calls generalizing state with
  | nil => simp
  | cons event rest inductionHypothesis =>
      have restCalls : ∀ event ∈ rest, event.isGetFields := fun e member =>
        onlyCalls e (List.mem_cons_of_mem _ member)
      match event, onlyCalls event (List.mem_cons_self _ _) with
      | .getFields hasBucket measurement, _ =>
          cases guard : getFieldsGuard hasBucket measurement with
          | true =>
              simpa [FieldsState.step, getFields, guard] using inductionHypothesis restCalls state
          | false =>
              simp only [FieldsState.run_cons, FieldsState.step, getFields_of_not_guard guard]
              obtain ⟨sameFields, unchanged | issuing⟩ := inductionHypothesis restCalls
                { state with
                  loading := .loading
                  pending := state.pending ++ [state.issued]
                  issued := state.issued + 1 }
              · exact ⟨sameFields, .inr ⟨by rw [unchanged], by rw [unchanged]; simp⟩⟩
              · exact ⟨sameFields, .inr issuing⟩

theorem FieldsState.step_issued (state : FieldsState) (event : FieldsEvent) :
    (state.step event).issued = state.issued + if event.issues then 1 else 0 := by
  cases event with
  | getFields hasBucket measurement =>
      cases guard : getFieldsGuard hasBucket measurement <;>
        simp [FieldsState.step, FieldsEvent.issues, getFields, guard]
  | resetFields => rfl
  | complete request response =>
      simp only [FieldsState.step, completeQuery]
      split
      · cases response <;> rfl
      · rfl

theorem FieldsState.run_issued (state : FieldsState) (events : List FieldsEvent) :
    (state.run events).issued = state.issued + events.countP FieldsEvent.issues := by
  induction events generalizing state with
  | nil => rfl
  | cons event rest inductionHypothesis =>
      rw [FieldsState.run_cons, inductionHypothesis, FieldsState.step_issued, List.countP_cons]
      omega

def FieldsState.WellFormed (state : FieldsState) : Prop :=
  state.pending.Nodup ∧ ∀ request ∈ state.pending, request < state.issued

theorem FieldsState.initial_wellFormed : FieldsState.initial.WellFormed := by
  simp [FieldsState.WellFormed, FieldsState.initial]

theorem FieldsState.step_wellFormed (state : FieldsState) (event : FieldsEvent)
    (wellFormed : state.WellFormed) : (state.step event).WellFormed := by
  obtain ⟨distinct, issuedBefore⟩ := wellFormed
  cases event with
  | getFields hasBucket measurement =>
      cases guard : getFieldsGuard hasBucket measurement
      · rw [FieldsState.step, getFields_of_not_guard guard]
        have fresh : state.issued ∉ state.pending := fun member =>
          Nat.lt_irrefl _ (issuedBefore _ member)
        refine ⟨List.concat_eq_append state.pending _ ▸ distinct.concat fresh, ?_⟩
        intro request member
        rcases List.mem_append.mp member with old | latest
        · exact Nat.lt_succ_of_lt (issuedBefore request old)
        · simp only [List.mem_singleton.mp latest, Nat.lt_succ_self]
      · simpa [FieldsState.step, getFields, guard] using And.intro distinct issuedBefore
  | resetFields => exact ⟨distinct, issuedBefore⟩
  | complete request response =>
      simp only [FieldsState.step, completeQuery]
      split
      · cases response <;>
          exact ⟨distinct.erase _, fun r member => issuedBefore r (List.mem_of_mem_erase member)⟩
      · exact ⟨distinct, issuedBefore⟩

theorem FieldsState.mem_step_pending {state : FieldsState} (distinct : state.pending.Nodup)
    (event : FieldsEvent) (request : Nat) :
    request ∈ (state.step event).pending ↔
      (request ∈ state.pending ∧ event.completes request = false) ∨
        (event.issues = true ∧ state.issued = request) := by
  cases event with
  | getFields hasBucket measurement =>
      cases guard : getFieldsGuard hasBucket measurement <;>
        simp [FieldsState.step, FieldsEvent.issues, FieldsEvent.completes, getFields, guard,
          eq_comm]
  | resetFields => simp [FieldsState.step, FieldsEvent.issues, FieldsEvent.completes, resetFields]
  | complete completed response =>
      simp only [FieldsState.step, completeQuery, FieldsEvent.issues, FieldsEvent.completes,
        beq_eq_false_iff_ne]
      split
      · cases response <;> simp [distinct.mem_erase_iff, and_comm, eq_comm]
      · next notInFlight =>
          simp only [Bool.false_eq_true, false_and, or_false, iff_self_and]
          exact fun member same => notInFlight (same ▸ member)

theorem FieldsState.mem_run_pending {state : FieldsState} (wellFormed : state.WellFormed)
    (events : List FieldsEvent) (request : Nat) :
    request ∈ (state.run events).pending ↔
      (request ∈ state.pending ∧ ∀ event ∈ events, event.completes request = false) ∨
        ∃ before issuing after, events = before ++ issuing :: after ∧ issuing.issues = true ∧
          state.issued + before.countP FieldsEvent.issues = request ∧
          ∀ event ∈ after, event.completes request = false := by
  induction events generalizing state with
  | nil => simp
  | cons event rest inductionHypothesis =>
      rw [FieldsState.run_cons, inductionHypothesis (state.step_wellFormed event wellFormed),
        FieldsState.mem_step_pending wellFormed.1, FieldsState.step_issued]
      simp only [List.forall_mem_cons, List.cons_eq_append_iff]
      constructor
      · rintro (⟨⟨inFlight, notCompleted⟩ | ⟨issues, rfl⟩, restFree⟩ |
          ⟨before, issuing, after, rfl, issuesLater, numbered, afterFree⟩)
        · exact .inl ⟨inFlight, notCompleted, restFree⟩
        · exact .inr ⟨[], event, rest, .inl ⟨rfl, rfl⟩, issues, rfl, restFree⟩
        · refine .inr ⟨event :: before, issuing, after, .inr ⟨before, rfl, rfl⟩, issuesLater, ?_,
            afterFree⟩
          rw [List.countP_cons]
          omega
      · rintro (⟨inFlight, notCompleted, restFree⟩ |
          ⟨before, issuing, after, ⟨rfl, same⟩ | ⟨tail, rfl, rfl⟩, issues, numbered, afterFree⟩)
        · exact .inl ⟨.inl ⟨inFlight, notCompleted⟩, restFree⟩
        · obtain ⟨rfl, rfl⟩ := List.cons.inj same
          exact .inl ⟨.inr ⟨issues, numbered⟩, afterFree⟩
        · rw [List.countP_cons] at numbered
          exact .inr ⟨tail, issuing, after, rfl, issues, by omega, afterFree⟩

/-- From the initial state, the queries in flight are exactly the issued ones that no later
event completes. Query `n` is the one issued by the call, among those passing the guard,
with `n` such calls before it. -/
theorem FieldsState.mem_pending_run (events : List FieldsEvent) (request : Nat) :
    request ∈ (FieldsState.initial.run events).pending ↔
      ∃ before issuing after, events = before ++ issuing :: after ∧ issuing.issues = true ∧
        before.countP FieldsEvent.issues = request ∧
        ∀ event ∈ after, event.completes request = false := by
  rw [FieldsState.mem_run_pending FieldsState.initial_wellFormed]
  simp [FieldsState.initial]

/-- No query is in flight exactly when every issued query has been completed since. -/
theorem FieldsState.pending_run_eq_nil_iff (events : List FieldsEvent) :
    (FieldsState.initial.run events).pending = [] ↔
      ∀ before issuing after, events = before ++ issuing :: after → issuing.issues = true →
        ∃ event ∈ after, event.completes (before.countP FieldsEvent.issues) = true := by
  simp only [List.eq_nil_iff_forall_not_mem, FieldsState.mem_pending_run]
  constructor
  · intro noneInFlight before issuing after split issues
    by_contra allFree
    exact noneInFlight _ ⟨before, issuing, after, split, issues, rfl,
      fun event member => Bool.eq_false_iff.mpr fun completes => allFree ⟨event, member, completes⟩⟩
  · rintro completed request ⟨before, issuing, after, split, issues, rfl, afterFree⟩
    obtain ⟨event, member, completes⟩ := completed before issuing after split issues
    simp [afterFree event member] at completes

theorem FieldsState.run_calls_of_settled {calls : List FieldsEvent}
    (onlyCalls : ∀ event ∈ calls, event.isGetFields) {state : FieldsState}
    (settled : (state.run calls).pending = []) : state.run calls = state :=
  ((FieldsState.run_calls onlyCalls state).2.resolve_right fun ⟨_, inFlight⟩ =>
    inFlight settled)

theorem FieldsState.settled_after_reset (state : FieldsState) (before after : List FieldsEvent)
    (onlyCalls : ∀ event ∈ after, event.isGetFields)
    (settled : (state.run (before ++ .resetFields :: after)).pending = []) :
    (state.run (before ++ .resetFields :: after)).fields = [] ∧
      (state.run (before ++ .resetFields :: after)).loading = .notStarted := by
  rw [FieldsState.run_append, FieldsState.run_cons] at settled ⊢
  rw [FieldsState.run_calls_of_settled onlyCalls settled]
  exact ⟨rfl, rfl⟩

theorem FieldsState.settled_after_resolved (state : FieldsState) (before after : List FieldsEvent)
    (request : Nat) (columns : List Column) (onlyCalls : ∀ event ∈ after, event.isGetFields)
    (inFlight : request ∈ (state.run before).pending)
    (settled :
      (state.run (before ++ .complete request (.resolved columns) :: after)).pending = []) :

    (state.run (before ++ .complete request (.resolved columns) :: after)).fields =
        valueColumn columns ∧
      (state.run (before ++ .complete request (.resolved columns) :: after)).loading = .done := by
  rw [FieldsState.run_append, FieldsState.run_cons] at settled ⊢
  rw [FieldsState.run_calls_of_settled onlyCalls settled]
  simp [FieldsState.step, completeQuery, inFlight]

theorem FieldsState.settled_after_thrown (state : FieldsState) (before after : List FieldsEvent)
    (request : Nat) (onlyCalls : ∀ event ∈ after, event.isGetFields)
    (inFlight : request ∈ (state.run before).pending)
    (settled : (state.run (before ++ .complete request .thrown :: after)).pending = []) :
    (state.run (before ++ .complete request .thrown :: after)).loading = .error := by
  rw [FieldsState.run_append, FieldsState.run_cons] at settled ⊢
  rw [FieldsState.run_calls_of_settled onlyCalls settled]
  simp [FieldsState.step, completeQuery, inFlight]

theorem FieldsState.loading_after_accepted_call (state : FieldsState)
    (before after : List FieldsEvent) (hasBucket : Bool) (measurement : String)
    (onlyCalls : ∀ event ∈ after, event.isGetFields)
    (accepted : getFieldsGuard hasBucket measurement = false) :
    (state.run (before ++ .getFields hasBucket measurement :: after)).loading = .loading := by
  rw [FieldsState.run_append, FieldsState.run_cons]
  rcases (FieldsState.run_calls onlyCalls _).2 with unchanged | ⟨issuing, _⟩
  · rw [unchanged]; simp [FieldsState.step, getFields_of_not_guard accepted]
  · exact issuing

/-- The law of the provider over every run from every state: the last reset or completion,
in the order the completions happen, decides the state once no query is in flight, and an
accepted call leaves `loading` at `Loading` until the next reset or completion. -/
theorem fields_follow_last_completion :
    (∀ (state : FieldsState) (before after : List FieldsEvent),
      (∀ event ∈ after, event.isGetFields) →
      (state.run (before ++ .resetFields :: after)).pending = [] →
      (state.run (before ++ .resetFields :: after)).fields = [] ∧
        (state.run (before ++ .resetFields :: after)).loading = .notStarted) ∧
    (∀ (state : FieldsState) (before after : List FieldsEvent) (request : Nat)
        (columns : List Column),
      (∀ event ∈ after, event.isGetFields) → request ∈ (state.run before).pending →
      (state.run (before ++ .complete request (.resolved columns) :: after)).pending = [] →
      (state.run (before ++ .complete request (.resolved columns) :: after)).fields =
          valueColumn columns ∧
        (state.run (before ++ .complete request (.resolved columns) :: after)).loading = .done) ∧
    (∀ (state : FieldsState) (before after : List FieldsEvent) (request : Nat),
      (∀ event ∈ after, event.isGetFields) → request ∈ (state.run before).pending →
      (state.run (before ++ .complete request .thrown :: after)).pending = [] →
      (state.run (before ++ .complete request .thrown :: after)).loading = .error) ∧
    (∀ (state : FieldsState) (before after : List FieldsEvent) (hasBucket : Bool)
        (measurement : String),
      (∀ event ∈ after, event.isGetFields) → getFieldsGuard hasBucket measurement = false →
      (state.run (before ++ .getFields hasBucket measurement :: after)).loading = .loading) :=
  ⟨FieldsState.settled_after_reset, FieldsState.settled_after_resolved,
    FieldsState.settled_after_thrown, FieldsState.loading_after_accepted_call⟩

theorem fields_follow_last_completion_everyOutcome :
    ((∀ event ∈ ([] : List FieldsEvent), event.isGetFields) ∧
      (FieldsState.initial.run ([.getFields true "cpu",
        .complete 0 (.resolved [⟨"_value", "string", ["usage_user"]⟩])] ++ .resetFields :: [])).pending =
        [] ∧
      (FieldsState.initial.run ([.getFields true "cpu",
        .complete 0 (.resolved [⟨"_value", "string", ["usage_user"]⟩])] ++ .resetFields :: [])).fields =
        [] ∧
      (FieldsState.initial.run ([.getFields true "cpu",
        .complete 0 (.resolved [⟨"_value", "string", ["usage_user"]⟩])] ++ .resetFields :: [])).loading =
        .notStarted) ∧
    ((∀ event ∈ ([] : List FieldsEvent), event.isGetFields) ∧
      0 ∈ (FieldsState.initial.run [.getFields true "cpu", .getFields true "cpu",
        .complete 1 (.resolved [⟨"_value", "string", ["usage_user"]⟩])]).pending ∧
      (FieldsState.initial.run ([.getFields true "cpu", .getFields true "cpu",
        .complete 1 (.resolved [⟨"_value", "string", ["usage_user"]⟩])] ++
        .complete 0 (.resolved [⟨"_value", "string", ["usage_idle"]⟩]) :: [])).pending = [] ∧
      (FieldsState.initial.run ([.getFields true "cpu", .getFields true "cpu",
        .complete 1 (.resolved [⟨"_value", "string", ["usage_user"]⟩])] ++
        .complete 0 (.resolved [⟨"_value", "string", ["usage_idle"]⟩]) :: [])).fields =
        valueColumn [⟨"_value", "string", ["usage_idle"]⟩]) ∧
    ((∀ event ∈ [FieldsEvent.getFields false "cpu"], event.isGetFields) ∧
      0 ∈ (FieldsState.initial.run [.getFields true "cpu"]).pending ∧
      (FieldsState.initial.run ([.getFields true "cpu"] ++
        .complete 0 .thrown :: [.getFields false "cpu"])).pending = [] ∧
      (FieldsState.initial.run ([.getFields true "cpu"] ++
        .complete 0 .thrown :: [.getFields false "cpu"])).loading = .error) ∧
    ((∀ event ∈ ([] : List FieldsEvent), event.isGetFields) ∧ getFieldsGuard true "mem" = false ∧
      (FieldsState.initial.run ([.getFields true "cpu", .complete 0 .thrown] ++
        .getFields true "mem" :: [])).loading = .loading) :=
  ⟨⟨by simp, by decide, fields_follow_last_completion.1 _ _ _ (by simp) (by decide)⟩,
    ⟨by simp, by decide, by decide,
      (fields_follow_last_completion.2.1 _ _ _ _ _ (by simp) (by decide) (by decide)).1⟩,
    ⟨by decide, by decide, by decide,
      fields_follow_last_completion.2.2.1 _ _ _ _ (by decide) (by decide) (by decide)⟩,
    ⟨by simp, by decide, fields_follow_last_completion.2.2.2 _ _ _ _ _ (by simp) (by decide)⟩⟩

/-- Request 1 is the most recent and resolves first; the response to request 0 lands last and
its fields stay. A response landing after `resetFields` likewise undoes the reset. -/
theorem older_response_overwrites_newer :
    (FieldsState.initial.run [.getFields true "cpu", .getFields true "cpu",
        .complete 1 (.resolved [⟨"_value", "string", ["usage_user"]⟩]),
        .complete 0 (.resolved [⟨"_value", "string", ["usage_idle"]⟩])]).pending = [] ∧
      (FieldsState.initial.run [.getFields true "cpu", .getFields true "cpu",
        .complete 1 (.resolved [⟨"_value", "string", ["usage_user"]⟩]),
        .complete 0 (.resolved [⟨"_value", "string", ["usage_idle"]⟩])]).fields =
        ["usage_idle"] ∧
      FieldsState.initial.run [.getFields true "cpu", .resetFields,
        .complete 0 (.resolved [⟨"_value", "string", ["usage_idle"]⟩])] =
        ⟨["usage_idle"], .done, [], 1⟩ := by
  decide

def FieldsState.LoadingTruthful (state : FieldsState) : Prop :=
  (state.loading = .loading → state.pending ≠ []) ∧
    (state.loading = .notStarted → state.fields = [])

theorem FieldsState.step_loadingTruthful (state : FieldsState) (event : FieldsEvent)
    (invariant : state.LoadingTruthful) : (state.step event).LoadingTruthful := by
  cases event with
  | getFields hasBucket measurement =>
      cases guard : getFieldsGuard hasBucket measurement with
      | false =>
          simp [FieldsState.LoadingTruthful, FieldsState.step, getFields_of_not_guard guard]
      | true => simpa [FieldsState.step, getFields, guard] using invariant
  | resetFields => simp [FieldsState.LoadingTruthful, FieldsState.step, resetFields]
  | complete request response =>
      simp only [FieldsState.step, completeQuery]
      split
      · cases response <;> simp [FieldsState.LoadingTruthful]
      · exact invariant

/-- The loading state never sticks and never hides stale fields: over every run from the
initial state it is `Loading` only while a query is in flight, and `NotStarted` only while the
field list is empty. -/
theorem FieldsState.run_loadingTruthful (events : List FieldsEvent) :
    (FieldsState.initial.run events).LoadingTruthful :=
  FieldsState.run_preserves FieldsState.step_loadingTruthful events _
    (⟨(fun loading => nomatch loading), fun _ => rfl⟩ : FieldsState.initial.LoadingTruthful)

end InfluxUi.DataExplorer.Fields
