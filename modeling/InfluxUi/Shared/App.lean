import Mathlib.Data.List.Basic

/-!
# Presentation mode of the application settings

`setPresentationMode` (`src/shared/contexts/app.tsx`) dispatches `disablePresentationMode` at
once, but defers `enablePresentationMode` and its notification by
`PRESENTATION_MODE_ANIMATION_DELAY`. Nothing cancels a pending timer.

The event loop runs one task at a time: a call of `setPresentationMode`, or the firing of a
pending timer. Every timer has the same delay, so timers fire in the order they were set; as
they all run the same callback, the provider only records how many are pending. A firing when
none is pending cannot happen and is a no-op here. Nothing bounds how early a call may follow
another, so the delay itself does not appear: every order of calls and firings is a run.
-/

namespace InfluxUi.Shared.App

inductive AppAction where
  | enablePresentationMode
  | disablePresentationMode
  /-- `notify(presentationModeCopy())`. -/
  | notifyPresentationMode
  deriving DecidableEq, Repr

structure Store where
  presentationMode : Bool
  notifications : Nat
  deriving DecidableEq, Repr

/-- Modelled from the spec: the app and notification reducers are not under `src`; enabling
and disabling set the flag `getPresentationMode` reads, a notification is queued. -/
def Store.dispatch (store : Store) : AppAction → Store
  | .enablePresentationMode => { store with presentationMode := true }
  | .disablePresentationMode => { store with presentationMode := false }
  | .notifyPresentationMode => { store with notifications := store.notifications + 1 }

/-- The store together with the timers `setPresentationMode` has set and that have not fired. -/
structure Provider where
  store : Store
  pendingTimers : Nat
  deriving DecidableEq, Repr

/-- `setPresentationMode`: `true` sets a timer, `false` disables at once. -/
def setPresentationMode (active : Bool) (provider : Provider) : Provider :=
  if active then { provider with pendingTimers := provider.pendingTimers + 1 }
  else { provider with store := provider.store.dispatch .disablePresentationMode }

def presentationTimerCallback (store : Store) : Store :=
  (store.dispatch .enablePresentationMode).dispatch .notifyPresentationMode

inductive Task where
  | setPresentationMode (active : Bool)
  | fireTimer
  deriving DecidableEq, Repr

def Provider.step (provider : Provider) : Task → Provider
  | .setPresentationMode active => setPresentationMode active provider
  | .fireTimer =>
      match provider.pendingTimers with
      | 0 => provider
      | pending + 1 => ⟨presentationTimerCallback provider.store, pending⟩

def Provider.run (provider : Provider) (tasks : List Task) : Provider :=
  tasks.foldl Provider.step provider

@[simp]
theorem Provider.run_nil (provider : Provider) : provider.run [] = provider := rfl

@[simp]
theorem Provider.run_cons (provider : Provider) (task : Task) (tasks : List Task) :
    provider.run (task :: tasks) = (provider.step task).run tasks := rfl

theorem Provider.run_append (provider : Provider) (first second : List Task) :
    provider.run (first ++ second) = (provider.run first).run second :=
  List.foldl_append _ _ _ _

@[simp]
theorem Provider.step_setPresentationMode_true (provider : Provider) :
    provider.step (.setPresentationMode true) =
      { provider with pendingTimers := provider.pendingTimers + 1 } := rfl

@[simp]
theorem Provider.step_setPresentationMode_false (provider : Provider) :
    (provider.step (.setPresentationMode false)).store.presentationMode = false ∧
      (provider.step (.setPresentationMode false)).pendingTimers = provider.pendingTimers :=
  ⟨rfl, rfl⟩

theorem Provider.run_fireTimers (provider : Provider) (count : Nat) :
    (provider.run (List.replicate count .fireTimer)).pendingTimers =
        provider.pendingTimers - count ∧
      (provider.run (List.replicate count .fireTimer)).store.presentationMode =
        (provider.store.presentationMode || decide (0 < count ∧ 0 < provider.pendingTimers)) := by
  induction count generalizing provider with
  | zero => simp
  | succ count inductionHypothesis =>
      obtain ⟨store, pending⟩ := provider
      rcases pending with _ | pending
      · simpa [List.replicate_succ, Provider.step] using inductionHypothesis ⟨store, 0⟩
      · simp only [List.replicate_succ, Provider.run_cons, Provider.step]
        obtain ⟨timers, flag⟩ :=
          inductionHypothesis ⟨presentationTimerCallback store, pending⟩

        refine ⟨by simp only [timers]; omega, ?_⟩
        rw [flag]
        simp [presentationTimerCallback, Store.dispatch]

/-- Once the timers have fired, the flag is the argument of the last call, unless that call
turned the mode off while a timer of an earlier `true` call was pending: the timer still fires
afterwards and turns the mode back on. -/
theorem presentationMode_after_last_call (provider : Provider) (earlier : List Task)
    (active : Bool) (firings : Nat)
    (settled : (provider.run (earlier ++ .setPresentationMode active ::
      List.replicate firings .fireTimer)).pendingTimers = 0) :
    (provider.run (earlier ++ .setPresentationMode active ::
        List.replicate firings .fireTimer)).store.presentationMode =
      (active || decide (0 < (provider.run earlier).pendingTimers)) := by
  rw [Provider.run_append, Provider.run_cons] at settled ⊢
  obtain ⟨timers, flag⟩ :=
    Provider.run_fireTimers ((provider.run earlier).step (.setPresentationMode active)) firings
  rw [flag]
  rw [timers] at settled
  cases active with
  | true => simp at settled ⊢; omega
  | false =>
      simp only [Provider.step_setPresentationMode_false] at settled ⊢
      by_cases pending : 0 < (provider.run earlier).pendingTimers
      · simp [pending]; omega
      · simp [pending]

theorem presentationMode_after_late_disable :
    (Provider.run ⟨⟨false, 0⟩, 0⟩
        ([.setPresentationMode true] ++ .setPresentationMode false ::
          List.replicate 1 .fireTimer)).pendingTimers = 0 ∧
      (Provider.run ⟨⟨false, 0⟩, 0⟩
        ([.setPresentationMode true] ++ .setPresentationMode false ::
          List.replicate 1 .fireTimer)).store.presentationMode =
      (false || decide
        (0 < (Provider.run ⟨⟨false, 0⟩, 0⟩ [.setPresentationMode true]).pendingTimers)) :=
  ⟨by decide, presentationMode_after_last_call _ _ _ _ (by decide)⟩

/-- `true` then `false` within the delay: the deferred enable lands after the disable. -/
theorem presentationMode_enable_lands_after_disable :
    (Provider.run ⟨⟨false, 0⟩, 0⟩
        [.setPresentationMode true, .setPresentationMode false, .fireTimer]).pendingTimers = 0 ∧
      (Provider.run ⟨⟨false, 0⟩, 0⟩ [.setPresentationMode true, .setPresentationMode false,
        .fireTimer]).store.presentationMode = true := by
  decide

theorem Provider.step_notifications (provider : Provider) (task : Task) :
    (provider.step task).store.notifications + (provider.step task).pendingTimers =
      provider.store.notifications + provider.pendingTimers +
        if task = .setPresentationMode true then 1 else 0 := by
  obtain ⟨store, pending⟩ := provider
  cases task with
  | setPresentationMode active =>
      cases active <;> simp [Provider.step, setPresentationMode, Store.dispatch]
      omega
  | fireTimer =>
      cases pending <;> simp [Provider.step, presentationTimerCallback, Store.dispatch]
      omega

/-- No enabling call is lost or notifies twice: over every run, the notifications queued plus
the timers pending grow by exactly the number of calls `setPresentationMode true`, so once no
timer is pending each such call has notified exactly once. -/
theorem Provider.run_notifications (provider : Provider) (tasks : List Task) :
    (provider.run tasks).store.notifications + (provider.run tasks).pendingTimers =
      provider.store.notifications + provider.pendingTimers +
        tasks.count (.setPresentationMode true) := by
  induction tasks generalizing provider with
  | nil => rfl
  | cons task tasks inductionHypothesis =>
      rw [Provider.run_cons, inductionHypothesis, Provider.step_notifications, List.count_cons]
      simp only [beq_iff_eq]
      split_ifs <;> omega

end InfluxUi.Shared.App
