import Call45Aggr.MergeContainer

/-! The pause protocol between the two readers: the merge pauses the reader that ran
ahead, and resumes both only once it has seen the gap small again. -/
namespace Call45Aggr
open Library

namespace MergeContainer

def PausedAhead (c : MergeContainer) : Prop :=
  ¬(c.legPaused = true ∧ c.linkPaused = true) ∧
  (c.legPaused = true → c.maxLinkTime < c.maxLegTime) ∧
  (c.linkPaused = true → c.maxLegTime < c.maxLinkTime)

/-- The lead has not changed hands while the gap stayed above the bound: where the
pause step is about to leave everything as it is, the paused reader is ahead. -/
def LeadKept (env : Env) (c : MergeContainer) : Prop :=
  c.gapExceeded env = true →
    (c.legPaused = true → c.maxLinkTime < c.maxLegTime) ∧
    (c.linkPaused = true → c.maxLegTime < c.maxLinkTime)

instance (env : Env) (c : MergeContainer) : Decidable (c.LeadKept env) :=
  inferInstanceAs (Decidable (_ → _ ∧ _))

theorem gap_positive {env : Env} {c : MergeContainer} (exceeded : c.gapExceeded env = true) :
    c.maxLegTime ≠ c.maxLinkTime := by
  have bound := seconds_nonneg (env.settings.maxCallTime * 2)
  have above : ((c.maxLegTime - c.maxLinkTime).natAbs : Int) > seconds (env.settings.maxCallTime * 2) := by
    simpa [gapExceeded] using exceeded
  omega

theorem regulate_pausedAhead (env : Env) (c : MergeContainer)
    (one : ¬(c.legPaused = true ∧ c.linkPaused = true)) :
    (c.regulate env).PausedAhead ↔ c.LeadKept env := by
  cases exceeded : c.gapExceeded env with
  | false => simp [regulate,LeadKept,PausedAhead,exceeded]
  | true =>
    have apart := gap_positive exceeded
    cases leg : c.legPaused with
    | true =>
      have link : c.linkPaused = false := by simpa [leg] using one
      simp [regulate,LeadKept,PausedAhead,exceeded,leg,link]
    | false =>
      cases link : c.linkPaused with
      | true => simp [regulate,LeadKept,PausedAhead,exceeded,leg,link]
      | false =>
        by_cases ahead : c.maxLinkTime < c.maxLegTime
        · simp [regulate,LeadKept,PausedAhead,exceeded,leg,link,ahead]
        · have behind : c.maxLegTime < c.maxLinkTime := by omega
          simp [regulate,LeadKept,PausedAhead,exceeded,leg,link,ahead,behind]

theorem regulate_one (env : Env) (c : MergeContainer)
    (one : ¬(c.legPaused = true ∧ c.linkPaused = true)) :
    ¬((c.regulate env).legPaused = true ∧ (c.regulate env).linkPaused = true) := by
  unfold regulate
  split
  · split
    next none =>
      simp only [Bool.and_eq_true,Bool.not_eq_true'] at none
      split <;> simp [none.1,none.2]
    next => exact one
  · simp

def LeadKeptAt (env : Env) (c : MergeContainer) (_ : Action) : Prop :=
  match c.phase with
  | .accept [] [] => c.LeadKept env
  | _ => True

instance (env : Env) (c : MergeContainer) (action : Action) : Decidable (LeadKeptAt env c action) := by
  unfold LeadKeptAt
  split <;> infer_instance

structure Paused (c : MergeContainer) : Prop where
  one : ¬(c.legPaused = true ∧ c.linkPaused = true)
  ahead : c.phase.settled = true → c.PausedAhead

theorem addLeg_paused (env : Env) (c : MergeContainer) (leg : CallLeg) :
    (c.addLeg env leg).legPaused = c.legPaused ∧ (c.addLeg env leg).linkPaused = c.linkPaused := by
  unfold addLeg
  cases leg.orig <;> exact ⟨rfl,rfl⟩

theorem step_paused {env : Env} {c next : MergeContainer} {action : Action} (paused : c.Paused)
    (kept : LeadKeptAt env c action) (stepped : step env c action = some next) : next.Paused := by
  obtain ⟨one,ahead⟩ := paused
  cases step_cases stepped with
  | addLeg leg legsIn linksIn phase =>
    refine ⟨?_,by simp⟩
    rw [(addLeg_paused env c leg).1,(addLeg_paused env c leg).2]
    exact one
  | regulate phase =>
    have lead : c.LeadKept env := by simpa [LeadKeptAt,phase] using kept
    exact ⟨c.regulate_one env one,fun _ => (c.regulate_pausedAhead env one).mpr lead⟩
  | dequeueLinks | addLink => exact ⟨one,by simp⟩
  | dequeueLegs _ phase
  | nothing phase
  | pass _ _ _ _ phase
  | keep _ _ _ _ phase
  | enqueue _ _ phase
  | walked _ phase
  | purgeLeg _ _ _ _ _ phase
  | keepLeg _ _ _ _ _ phase
  | purgeLinks _ _ phase => exact ⟨one,fun _ => ahead (by simp [phase])⟩

/-- In a run in which the lead never changes hands above the bound, a paused reader is
always the one strictly ahead after the pause step, so the other one catches up. -/
theorem pause_keeps_lead (env : Env) (start : Int) (c : MergeContainer)
    (run : Run (step env) (LeadKeptAt env) (setStart start) c) (settled : c.phase.settled = true) :
    c.PausedAhead := by
  have paused : c.Paused := run.invariant ⟨by simp [setStart],fun _ => by simp [PausedAhead,setStart]⟩
    fun _ _ _ _ paused kept stepped => step_paused paused kept stepped
  exact paused.ahead settled

def legAhead : List Action :=
  [.dequeueLegs [.row "a" true "1970-01-01 00:00:50"],.dequeueLinks [],
    .work,.work,.getTime 0,.work,.work]

theorem pause_keeps_lead_legAhead : ∃ c : MergeContainer, c.legPaused = true ∧ c.PausedAhead := by
  obtain ⟨c,run,good⟩ := exists_run (step shortCalls) (LeadKeptAt shortCalls) (setStart 0)
    (fun c => c.legPaused && c.phase.settled) legAhead (by decide)
  simp only [Bool.and_eq_true] at good
  exact ⟨c,good.1,pause_keeps_lead shortCalls 0 c run good.2⟩

/-- Then a link still further ahead: the gap is never seen small, and the leg reader
stays paused although it is now the one behind. -/
theorem pause_starves_laggard : ¬∀ (env : Env) (start : Int) (c : MergeContainer),
    Run (step env) Always (setStart start) c → c.phase.settled = true → c.PausedAhead := by
  intro sound
  obtain ⟨c,run,good⟩ := exists_run (step shortCalls) Always (setStart 0)
    (fun c => c.legPaused && c.phase.settled && decide (c.maxLegTime < c.maxLinkTime))
    (legAhead ++ [.dequeueLegs [],.dequeueLinks [.row "b" "t" "1970-01-01 00:03:00"],
      .work,.work,.getTime 0,.work,.work]) (by decide)
  simp only [Bool.and_eq_true,decide_eq_true_eq] at good
  obtain ⟨⟨paused,settled⟩,behind⟩ := good
  have ahead := (sound shortCalls 0 c run settled).2.1 paused
  omega

end MergeContainer
end Call45Aggr
