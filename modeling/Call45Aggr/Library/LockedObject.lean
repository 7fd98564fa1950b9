import Call45Aggr.Library.Run
import Mathlib.Logic.Function.Basic

/-! An object behind a test-and-set flag: threads run its methods in small steps, each of
them inside the flag, and the runs of any number of threads are runs of whole methods one
after another. -/
namespace Call45Aggr.Library

/-- `δ` is the object, `μ` its methods, `σ` a place in one and `ρ` what they return. A
method waits, outside the flag, for the object to admit it. -/
structure Methods (δ μ σ ρ : Type) where
  admits : μ → δ → Bool
  enter : μ → σ
  step : σ → δ → δ × (σ ⊕ ρ)

/-- `spin` counts the tests of the flag before the thread yields between them. -/
inductive Turnstile (μ σ ρ : Type)
  | outside
  | trying (method : μ) (spin : Nat)
  | inside (method : μ) (now : σ)
  | leaving (method : μ) (result : ρ)

namespace Turnstile
variable {μ σ ρ : Type}

def Holds : Turnstile μ σ ρ → Prop
  | .outside | .trying _ _ => False
  | .inside _ _ | .leaving _ _ => True

end Turnstile

structure Returned (μ ρ : Type) where
  thread : Nat
  method : μ
  result : ρ

structure LockedObject (δ μ σ ρ : Type) where
  object : δ
  isLocked : Bool := false
  threads : Nat → Turnstile μ σ ρ := fun _ => .outside
  returned : List (Returned μ ρ) := []

inductive LockAction (μ : Type)
  | call (thread : Nat) (method : μ)
  | testAndSet (thread : Nat)
  | work (thread : Nat)
  | clear (thread : Nat)

namespace Methods
variable {δ μ σ ρ : Type} (m : Methods δ μ σ ρ)

/-- A method that has come to `now` runs on to its end. -/
inductive Runs : σ → δ → ρ → δ → Prop
  | last (now : σ) (object after : δ) (result : ρ) (stepped : m.step now object = (after,.inr result)) :
      Runs now object result after
  | more (now next : σ) (object middle after : δ) (result : ρ) (stepped : m.step now object = (middle,.inl next))
      (rest : Runs next middle result after) : Runs now object result after

/-- Whole methods run one after another, in the order of the list. -/
inductive Serial (first : δ) : List (Returned μ ρ) → δ → Prop
  | nil : Serial first [] first
  | snoc (calls : List (Returned μ ρ)) (call : Returned μ ρ) (object after : δ) (before : Serial first calls object)
      (runs : m.Runs (m.enter call.method) object call.result after) : Serial first (calls ++ [call]) after

variable {m} in
theorem Runs.stops {now : σ} {object middle after : δ} {result other : ρ} (runs : m.Runs now object result after)
    (stepped : m.step now object = (middle,.inr other)) : middle = after ∧ other = result := by
  cases runs with
  | last now object after result ran =>
    cases stepped.symm.trans ran
    exact ⟨rfl,rfl⟩
  | more now next object middle after result ran rest => cases stepped.symm.trans ran

variable {m} in
theorem Runs.goes {now next : σ} {object middle after : δ} {result : ρ} (runs : m.Runs now object result after)
    (stepped : m.step now object = (middle,.inl next)) : m.Runs next middle result after := by
  cases runs with
  | last now object after result ran => cases stepped.symm.trans ran
  | more now next object middle after result ran rest =>
    cases stepped.symm.trans ran
    exact rest

variable (spins : Nat)

def lockStep (s : LockedObject δ μ σ ρ) : LockAction μ → Option (LockedObject δ μ σ ρ)
  | .call thread method =>
    match s.threads thread with
    | .outside =>
      if m.admits method s.object then
        some {s with threads := Function.update s.threads thread (.trying method spins)}
      else none
    | _ => none
  | .testAndSet thread =>
    match s.threads thread with
    | .trying method spin =>
      if s.isLocked then some {s with threads := Function.update s.threads thread (.trying method (spin - 1))}
      else
        some {s with
          isLocked := true
          threads := Function.update s.threads thread (.inside method (m.enter method))}
    | _ => none
  | .work thread =>
    match s.threads thread with
    | .inside method now =>
      match m.step now s.object with
      | (object,.inl next) =>
        some {s with object := object,threads := Function.update s.threads thread (.inside method next)}
      | (object,.inr result) =>
        some {s with object := object,threads := Function.update s.threads thread (.leaving method result)}
    | _ => none
  | .clear thread =>
    match s.threads thread with
    | .leaving method result =>
      some {s with
        isLocked := false
        threads := Function.update s.threads thread .outside
        returned := s.returned ++ [⟨thread,method,result⟩]}
    | _ => none

/-- How far the thread that holds the flag has come since the calls before it. -/
def Midway (first : δ) (s : LockedObject δ μ σ ρ) : Turnstile μ σ ρ → Prop
  | .outside | .trying _ _ => False
  | .inside method now => ∃ object, m.Serial first s.returned object ∧
      ∀ result after, m.Runs now s.object result after → m.Runs (m.enter method) object result after
  | .leaving method result => ∃ object, m.Serial first s.returned object ∧
      m.Runs (m.enter method) object result s.object

inductive Sound (first : δ) (s : LockedObject δ μ σ ρ) : Prop
  | free (unlocked : s.isLocked = false) (nobody : ∀ thread, ¬(s.threads thread).Holds)
      (serial : m.Serial first s.returned s.object)
  | held (locked : s.isLocked = true) (holder : Nat) (alone : ∀ thread, (s.threads thread).Holds → thread = holder)
      (midway : m.Midway first s (s.threads holder))

variable {m spins} {first : δ} {s : LockedObject δ μ σ ρ}

theorem Midway.holds {phase : Turnstile μ σ ρ} (midway : m.Midway first s phase) : phase.Holds := by
  cases phase with
  | outside => exact midway
  | trying method spin => exact midway
  | inside method now => trivial
  | leaving method result => trivial

/-- A thread outside the flag may go on waiting as it likes. -/
theorem Sound.waits (sound : m.Sound first s) {thread : Nat} (out : ¬(s.threads thread).Holds)
    {phase : Turnstile μ σ ρ} (still : ¬phase.Holds) :
    m.Sound first {s with threads := Function.update s.threads thread phase} := by
  have kept : ∀ other, (Function.update s.threads thread phase other).Holds → (s.threads other).Holds := by
    intro other holds
    by_cases same : other = thread
    · subst same
      rw [Function.update_self] at holds
      exact absurd holds still
    · rwa [Function.update_of_ne same] at holds
  cases sound with
  | free unlocked nobody serial => exact .free unlocked (fun other holds => nobody other (kept other holds)) serial
  | held locked holder alone midway =>
    refine .held locked holder (fun other holds => alone other (kept other holds)) ?_
    have other : holder ≠ thread := by
      rintro rfl
      exact out midway.holds
    show m.Midway first _ (Function.update s.threads thread phase holder)
    rw [Function.update_of_ne other]
    exact midway

theorem Sound.holder (sound : m.Sound first s) {thread : Nat} (holds : (s.threads thread).Holds) :
    (∀ other, (s.threads other).Holds → other = thread) ∧ s.isLocked = true ∧ m.Midway first s (s.threads thread) := by
  cases sound with
  | free unlocked nobody serial => exact absurd holds (nobody thread)
  | held locked holder alone midway =>
    obtain rfl := alone thread holds
    exact ⟨alone,locked,midway⟩

theorem alone_update {threads : Nat → Turnstile μ σ ρ} {thread : Nat}
    (alone : ∀ other, (threads other).Holds → other = thread) (phase : Turnstile μ σ ρ) :
    ∀ other, (Function.update threads thread phase other).Holds → other = thread := by
  intro other holds
  by_contra different
  rw [Function.update_of_ne different] at holds
  exact different (alone other holds)

theorem step_sound {next : LockedObject δ μ σ ρ} {action : LockAction μ} (stepped : m.lockStep spins s action = some next)
    (sound : m.Sound first s) : m.Sound first next := by
  cases action with
  | call thread method =>
    rw [lockStep] at stepped
    split at stepped
    next phase =>
      split at stepped
      · cases stepped
        exact sound.waits (by rw [phase]; exact id) id
      · cases stepped
    next => cases stepped
  | testAndSet thread =>
    rw [lockStep] at stepped
    split at stepped
    next method spin phase =>
      have out : ¬(s.threads thread).Holds := by rw [phase]; exact id
      split at stepped
      · cases stepped
        exact sound.waits out id
      next unlocked =>
        cases stepped
        cases sound with
        | held locked _ _ _ => exact absurd locked unlocked
        | free _ nobody serial =>
          refine .held rfl thread (alone_update (fun other holds => absurd holds (nobody other)) _) ?_
          show m.Midway first _ (Function.update s.threads thread _ thread)
          rw [Function.update_self]
          exact ⟨s.object,serial,fun _ _ runs => runs⟩
    next => cases stepped
  | work thread =>
    rw [lockStep] at stepped
    split at stepped
    next method now phase =>
      obtain ⟨alone,locked,midway⟩ := sound.holder (by rw [phase]; trivial)
      rw [phase] at midway
      obtain ⟨object,serial,onward⟩ := midway
      split at stepped
      next after next worked =>
        cases stepped
        refine .held locked thread (alone_update alone _) ?_
        show m.Midway first _ (Function.update s.threads thread _ thread)
        rw [Function.update_self]
        exact ⟨object,serial,fun result last runs => onward result last (.more _ _ _ _ _ _ worked runs)⟩
      next after result worked =>
        cases stepped
        refine .held locked thread (alone_update alone _) ?_
        show m.Midway first _ (Function.update s.threads thread _ thread)
        rw [Function.update_self]
        exact ⟨object,serial,onward result after (.last _ _ _ _ worked)⟩
    next => cases stepped
  | clear thread =>
    rw [lockStep] at stepped
    split at stepped
    next method result phase =>
      obtain ⟨alone,locked,midway⟩ := sound.holder (by rw [phase]; trivial)
      rw [phase] at midway
      obtain ⟨object,serial,runs⟩ := midway
      cases stepped
      refine .free rfl (fun other holds => ?_) (.snoc _ ⟨thread,method,result⟩ _ _ serial runs)
      obtain rfl := alone_update alone _ other holds
      have own : (Function.update s.threads other Turnstile.outside other).Holds := holds
      rw [Function.update_self] at own
      exact own
    next => cases stepped

theorem run_sound (run : Run (m.lockStep spins) Always {object := first} s) : m.Sound first s := by
  apply run.invariant
  · exact .free rfl (fun _ => id) .nil
  · exact fun before next action _ sound _ stepped => step_sound stepped sound

/-- `whole` is what a method does when nothing comes in between. -/
def Atomic (m : Methods δ μ σ ρ) (whole : μ → δ → δ × ρ) : Prop :=
  ∀ method object result after, m.Runs (m.enter method) object result after → whole method object = (after,result)

section
variable (whole : μ → δ → δ × ρ) (first : δ)

def replay (calls : List (Returned μ ρ)) : δ := calls.foldl (fun object call => (whole call.method object).1) first

/-- Each call returned what it returns in its turn. -/
def Answered (calls : List (Returned μ ρ)) : Prop :=
  ∀ turn, ∀ call ∈ calls[turn]?, call.result = (whole call.method (replay whole first (calls.take turn))).2

end

variable {whole : μ → δ → δ × ρ}

theorem Serial.replayed (atomic : m.Atomic whole) {calls : List (Returned μ ρ)} {object : δ}
    (serial : m.Serial first calls object) : object = replay whole first calls ∧ Answered whole first calls := by
  induction serial with
  | nil => exact ⟨rfl,fun turn call found => absurd found (by simp)⟩
  | snoc calls call object after _ runs ih =>
    obtain ⟨rfl,answered⟩ := ih
    have ran := atomic _ _ _ _ runs
    refine ⟨?_,fun turn other found => ?_⟩
    · rw [replay,List.foldl_append]
      exact (congrArg Prod.fst ran).symm
    · rw [Option.mem_def,List.getElem?_append] at found
      split at found
      next earlier =>
        rw [List.take_append_of_le_length (Nat.le_of_lt earlier)]
        exact answered turn other found
      next later =>
        obtain ⟨bound,rfl⟩ := List.getElem?_eq_some_iff.mp found
        have last : turn = calls.length := by
          rw [List.length_singleton] at bound
          omega
        subst last
        rw [List.take_left]
        simpa using (congrArg Prod.snd ran).symm

theorem serialised (atomic : m.Atomic whole) (run : Run (m.lockStep spins) Always {object := first} s) :
    (∀ thread other, (s.threads thread).Holds → (s.threads other).Holds → thread = other) ∧
      Answered whole first s.returned ∧ (s.isLocked = false → s.object = replay whole first s.returned) := by
  cases run_sound run with
  | free unlocked nobody serial =>
    obtain ⟨same,answered⟩ := serial.replayed atomic
    exact ⟨fun thread other holds => absurd holds (nobody thread),answered,fun _ => same⟩
  | held locked holder alone midway =>
    refine ⟨fun thread other one two => (alone thread one).trans (alone other two).symm,?_,?_⟩
    · cases phase : s.threads holder with
      | outside => exact absurd midway (by rw [phase]; exact id)
      | trying method spin => exact absurd midway (by rw [phase]; exact id)
      | inside method now =>
        rw [phase] at midway
        obtain ⟨object,serial,-⟩ := midway
        exact (serial.replayed atomic).2
      | leaving method result =>
        rw [phase] at midway
        obtain ⟨object,serial,-⟩ := midway
        exact (serial.replayed atomic).2
    · exact fun unlocked => absurd (locked.symm.trans unlocked) (by decide)

/-- The thread in the flag can always go on by itself until the flag is clear. -/
theorem comes_free {size : σ → δ → Nat}
    (shrinks : ∀ now object after next, m.step now object = (after,.inl next) → size next after < size now object)
    {thread : Nat} (holds : (s.threads thread).Holds) : ∃ later,
      Run (m.lockStep spins) (fun _ action => action = .work thread ∨ action = .clear thread) s later ∧
        later.isLocked = false := by
  have leaves (s : LockedObject δ μ σ ρ) {method : μ} {result : ρ} (phase : s.threads thread = .leaving method result) :
      ∃ later, m.lockStep spins s (.clear thread) = some later ∧ later.isLocked = false := by
    rw [lockStep,phase]
    exact ⟨_,rfl,rfl⟩
  have works (bound : Nat) (s : LockedObject δ μ σ ρ) {method : μ} {now : σ} (phase : s.threads thread = .inside method now)
      (small : size now s.object < bound) : ∃ later,
        Run (m.lockStep spins) (fun _ action => action = .work thread ∨ action = .clear thread) s later ∧
          later.isLocked = false := by
    induction bound generalizing s now with
    | zero => omega
    | succ bound ih =>
      cases worked : m.step now s.object with | mk object outcome =>
      cases outcome with
      | inl next =>
        have less := shrinks _ _ _ _ worked
        obtain ⟨later,run,unlocked⟩ := ih
          {s with object := object,threads := Function.update s.threads thread (.inside method next)}
          (Function.update_self ..) (by dsimp only; omega)
        refine ⟨later,.trans (.step s _ (.work thread) .start (.inl rfl) ?_) run,unlocked⟩
        rw [lockStep,phase]
        simp only [worked]
      | inr result =>
        obtain ⟨later,cleared,unlocked⟩ := leaves
          {s with object := object,threads := Function.update s.threads thread (.leaving method result)}
          (Function.update_self ..)
        refine ⟨later,.step _ later (.clear thread) (.step s _ (.work thread) .start (.inl rfl) ?_) (.inr rfl) cleared,
          unlocked⟩
        rw [lockStep,phase]
        simp only [worked]
  cases phase : s.threads thread with
  | outside => exact absurd holds (by rw [phase]; exact id)
  | trying method spin => exact absurd holds (by rw [phase]; exact id)
  | inside method now => exact works _ s phase (Nat.lt_succ_self _)
  | leaving method result =>
    obtain ⟨later,cleared,unlocked⟩ := leaves s phase
    exact ⟨later,.step s later (.clear thread) .start (.inr rfl) cleared,unlocked⟩

end Methods
end Call45Aggr.Library
