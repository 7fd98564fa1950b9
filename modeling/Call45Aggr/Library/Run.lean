/-! Runs of a machine whose step is a partial function of a state and an action.
`allowed` restricts which actions a run may take in which states, so a theorem
about restricted runs and one about all runs have the same shape. -/
namespace Call45Aggr.Library

inductive Run {σ α : Type} (step : σ → α → Option σ) (allowed : σ → α → Prop) (initial : σ) : σ → Prop
  | start : Run step allowed initial initial
  | step (state next : σ) (action : α) (before : Run step allowed initial state)
      (permitted : allowed state action) (stepped : step state action = some next) :
      Run step allowed initial next

def Always {σ α : Type} (_ : σ) (_ : α) : Prop := True

instance {σ α : Type} (state : σ) (action : α) : Decidable (Always state action) :=
  inferInstanceAs (Decidable True)

namespace Run
variable {σ α : Type} {step : σ → α → Option σ} {allowed : σ → α → Prop} {initial state : σ}

/-- What holds at the start and survives every permitted step holds in every state
of a run. The prefix is at hand, so facts already known of a run may be used. -/
theorem invariant {Holds : σ → Prop} (run : Run step allowed initial state) (first : Holds initial)
    (kept : ∀ state next action, Run step allowed initial state → Holds state →
      allowed state action → step state action = some next → Holds next) : Holds state := by
  induction run with
  | start => exact first
  | step state next action before permitted stepped ih =>
    exact kept state next action before ih permitted stepped

theorem trans {middle final : σ} (first : Run step allowed initial middle)
    (second : Run step allowed middle final) : Run step allowed initial final := by
  induction second with
  | start => exact first
  | step state next action _ permitted stepped ih => exact .step state next action ih permitted stepped

/-- A run seen through `view` as one of another machine, which each step either moves
along or leaves alone. -/
theorem seen {τ β : Type} {other : τ → β → Option τ} {permits : τ → β → Prop} (view : σ → τ)
    (run : Run step allowed initial state)
    (simulated : ∀ state next action, allowed state action → step state action = some next →
      view next = view state ∨
        ∃ move, permits (view state) move ∧ other (view state) move = some (view next)) :
    Run other permits (view initial) (view state) := by
  induction run with
  | start => exact .start
  | step state next action _ permitted stepped ih =>
    rcases simulated state next action permitted stepped with same | ⟨move,permitted,moved⟩
    · rw [same]
      exact ih
    · exact .step (view state) (view next) move ih permitted moved

end Run

def execute {σ α : Type} (step : σ → α → Option σ) (allowed : σ → α → Prop)
    [∀ state action, Decidable (allowed state action)] : List α → σ → Option σ
  | [], state => some state
  | action :: actions, state =>
    if allowed state action then
      match step state action with
      | some next => execute step allowed actions next
      | none => none
    else none

theorem execute_cons {σ α : Type} {step : σ → α → Option σ} {allowed : σ → α → Prop}
    [∀ state action, Decidable (allowed state action)] {action : α} {actions : List α} {state final : σ} :
    execute step allowed (action :: actions) state = some final ↔ ∃ next, allowed state action ∧
      step state action = some next ∧ execute step allowed actions next = some final := by
  rw [execute]
  cases step state action <;> simp

theorem run_of_execute {σ α : Type} {step : σ → α → Option σ} {allowed : σ → α → Prop}
    [∀ state action, Decidable (allowed state action)] {initial state final : σ}
    (before : Run step allowed initial state) (actions : List α)
    (executed : execute step allowed actions state = some final) : Run step allowed initial final := by
  induction actions generalizing state with
  | nil =>
    cases Option.some.inj executed
    exact before
  | cons action actions ih =>
    obtain ⟨next,permitted,stepped,later⟩ := execute_cons.mp executed
    exact ih (.step state next action before permitted stepped) later

/-- Where a step is good exactly when it was allowed, a run is good exactly when each of
its steps was allowed. -/
theorem execute_iff {σ α : Type} {step : σ → α → Option σ} {allowed : σ → α → Prop}
    [∀ state action, Decidable (allowed state action)] {Good : σ → Prop} {initial state final : σ}
    (kept : ∀ state next action, Run step Always initial state → step state action = some next →
      (Good next ↔ Good state ∧ allowed state action))
    (before : Run step Always initial state) (actions : List α)
    (executed : execute step Always actions state = some final) :
    Good final ↔ Good state ∧ execute step allowed actions state = some final := by
  induction actions generalizing state with
  | nil =>
    cases Option.some.inj executed
    simp [execute]
  | cons action actions ih =>
    obtain ⟨next,_,stepped,later⟩ := execute_cons.mp executed
    rw [ih (.step state next action before trivial stepped) later,
      kept state next action before stepped]
    by_cases permitted : allowed state action <;> simp [execute,stepped,permitted]

/-- Where a step leaves a good state for another exactly when it was allowed, every
state on the way is good exactly when each step was allowed. `Holds` is what is known of
the states before a step that was not. -/
theorem execute_prefixes_iff_of {σ α : Type} {step : σ → α → Option σ} {allowed : σ → α → Prop}
    [∀ state action, Decidable (allowed state action)] {Holds Good : σ → Prop} {state final : σ}
    (good : ∀ state, Holds state → Good state)
    (kept : ∀ state next action, Holds state → step state action = some next →
      (Good next ↔ allowed state action))
    (preserved : ∀ state next action, Holds state → step state action = some next →
      allowed state action → Holds next)
    (first : Holds state) (actions : List α) (executed : execute step Always actions state = some final) :
    (∀ earlier reached, earlier <+: actions → execute step Always earlier state = some reached →
      Good reached) ↔ execute step allowed actions state = some final := by
  induction actions generalizing state with
  | nil =>
    refine iff_of_true ?_ executed
    intro earlier reached before ran
    obtain rfl := List.prefix_nil.mp before
    cases Option.some.inj ran
    exact good state first
  | cons action actions ih =>
    obtain ⟨next,_,stepped,later⟩ := execute_cons.mp executed
    constructor
    · intro all
      have soon := all [action] next (by simp) (execute_cons.mpr ⟨next,trivial,stepped,rfl⟩)
      have permitted := (kept state next action first stepped).mp soon
      refine execute_cons.mpr ⟨next,permitted,stepped,?_⟩
      refine (ih (preserved state next action first stepped permitted) later).mp
        fun earlier reached before ran => ?_
      exact all (action :: earlier) reached (by simpa using before)
        (execute_cons.mpr ⟨next,trivial,stepped,ran⟩)
    · intro allowedAll earlier reached before ran
      obtain ⟨after,permitted,moved,rest⟩ := execute_cons.mp allowedAll
      cases Option.some.inj (stepped.symm.trans moved)
      cases earlier with
      | nil =>
        cases Option.some.inj ran
        exact good state first
      | cons head earlier =>
        obtain ⟨rfl,within⟩ := List.cons_prefix_cons.mp before
        obtain ⟨after,_,moved,ran⟩ := execute_cons.mp ran
        cases Option.some.inj (stepped.symm.trans moved)
        exact (ih (preserved state next head first stepped permitted) later).mpr rest
          earlier reached within ran

theorem execute_prefixes_iff {σ α : Type} {step : σ → α → Option σ} {allowed : σ → α → Prop}
    [∀ state action, Decidable (allowed state action)] {Good : σ → Prop} {state final : σ}
    (kept : ∀ state next action, Good state → step state action = some next →
      (Good next ↔ allowed state action))
    (first : Good state) (actions : List α) (executed : execute step Always actions state = some final) :
    (∀ earlier reached, earlier <+: actions → execute step Always earlier state = some reached →
      Good reached) ↔ execute step allowed actions state = some final :=
  execute_prefixes_iff_of (fun _ good => good) kept
    (fun state next action good stepped => (kept state next action good stepped).mpr) first actions executed

theorem execute_always {σ α : Type} {step : σ → α → Option σ} {allowed : σ → α → Prop}
    [∀ state action, Decidable (allowed state action)] {state final : σ} (actions : List α)
    (executed : execute step allowed actions state = some final) :
    execute step Always actions state = some final := by
  induction actions generalizing state with
  | nil => exact executed
  | cons action actions ih =>
    obtain ⟨next,_,stepped,later⟩ := execute_cons.mp executed
    exact execute_cons.mpr ⟨next,trivial,stepped,ih later⟩

theorem exists_run {σ α : Type} (step : σ → α → Option σ) (allowed : σ → α → Prop)
    [∀ state action, Decidable (allowed state action)] (initial : σ) (good : σ → Bool)
    (actions : List α) (executed : (execute step allowed actions initial).any good = true) :
    ∃ final, Run step allowed initial final ∧ good final = true := by
  cases result : execute step allowed actions initial with
  | none => simp [result] at executed
  | some final => exact ⟨final,run_of_execute .start actions result,by simpa [result] using executed⟩

/-- Each action meets `P` in the state before it, as far as the run comes. -/
def Along {σ α : Type} (step : σ → α → Option σ) (P : σ → α → Prop) : List α → σ → Prop
  | [], _ => True
  | action :: actions, state => P state action ∧ ∀ next ∈ step state action, Along step P actions next

instance along_decidable {σ α : Type} {step : σ → α → Option σ} {P : σ → α → Prop} [∀ state action, Decidable (P state action)] :
    ∀ actions state, Decidable (Along step P actions state)
  | [], _ => isTrue trivial
  | action :: actions, state =>
    have := @along_decidable σ α step P _ actions
    inferInstanceAs (Decidable (P state action ∧ ∀ next ∈ step state action, Along step P actions next))

/-- It is enough that the two agree in the states that a run with the first of them comes to. -/
theorem along_iff {σ α : Type} {step : σ → α → Option σ} {P Q : σ → α → Prop} (Holds : σ → Prop)
    (same : ∀ state action, Holds state → (P state action ↔ Q state action))
    (kept : ∀ state action next, Holds state → P state action → step state action = some next → Holds next)
    {state : σ} (first : Holds state) (actions : List α) : Along step P actions state ↔ Along step Q actions state := by
  induction actions generalizing state with
  | nil => exact Iff.rfl
  | cons action actions ih =>
    rw [Along,Along,same state action first]
    refine and_congr_right fun met => forall_congr' fun next => forall_congr' fun stepped => ?_
    exact ih (kept state action next first ((same state action first).mpr met) stepped)

/-- What a machine comes to whatever the order of its permitted steps: until then some step
is possible, and none leads astray. -/
inductive Inevitable {σ α : Type} (step : σ → α → Option σ) (allowed : σ → α → Prop) (Done : σ → Prop) :
    σ → Prop
  | done (state : σ) (finished : Done state) : Inevitable step allowed Done state
  | later (state : σ) (moves : ∃ action next, allowed state action ∧ step state action = some next)
      (rest : ∀ action next, allowed state action → step state action = some next →
        Inevitable step allowed Done next) : Inevitable step allowed Done state

section
variable {σ α τ : Type} {step : σ → α → Option σ} {allowed : σ → α → Prop} {Done : σ → Prop}

theorem inevitable_of_descends {less : τ → τ → Prop} (founded : WellFounded less) (measure : σ → τ)
    (moves : ∀ state, ¬Done state → ∃ action next, allowed state action ∧ step state action = some next)
    (descends : ∀ state next action, allowed state action → step state action = some next →
      less (measure next) (measure state)) (state : σ) : Inevitable step allowed Done state := by
  induction state using (InvImage.wf measure founded).induction with
  | h state ih =>
    by_cases finished : Done state
    · exact .done state finished
    · refine .later state (moves state finished) fun action next permitted stepped => ?_
      exact ih next (descends state next action permitted stepped)

theorem Inevitable.reached {state : σ} (sure : Inevitable step allowed Done state) :
    ∃ final, Run step allowed state final ∧ Done final := by
  induction sure with
  | done state finished => exact ⟨state,.start,finished⟩
  | later state moves _ ih =>
    obtain ⟨action,next,permitted,stepped⟩ := moves
    obtain ⟨final,run,finished⟩ := ih action next permitted stepped
    exact ⟨final,(Run.step state next action .start permitted stepped).trans run,finished⟩

end
end Call45Aggr.Library
