import Call45Aggr.MergeCutoff

/-! The merge's decisions on machine integers against the same decisions on
mathematical ones. `maxLegTime_` is a `time_t` and `max_call_time` an `unsigned`, but
their difference is stored in an `int`, and the setting is doubled as an `unsigned`. -/
namespace Call45Aggr
open Library

def InEra (time : Int) : Prop := 0 ≤ time ∧ time ≤ 253402300799

instance (time : Int) : Decidable (InEra time) := inferInstanceAs (Decidable (_ ∧ _))

theorem toInt32_of_fits {value : Int} (fits : -2^31 ≤ value ∧ value < 2^31) : toInt32 value = value := by
  unfold toInt32
  exact Int.bmod_eq_of_le (by omega) (by omega)

theorem toInt32_range (value : Int) : -2^31 ≤ toInt32 value ∧ toInt32 value < 2^31 := by
  have low : -((2^32 : Nat) / 2 : Int) ≤ value.bmod (2^32) := Int.le_bmod (by decide)
  have high : value.bmod (2^32) < ((2^32 : Nat) + 1) / 2 := Int.bmod_lt (by decide)
  unfold toInt32
  omega

theorem toInt32_of_low {value : Int} (low : -2^32 < value) (under : value < -2^31) :
    toInt32 value = value + 2^32 := by
  have shifted : toInt32 (value + 2^32) = toInt32 value := by
    unfold toInt32
    exact Int.add_bmod_right value (2^32)
  rw [← shifted]
  exact toInt32_of_fits (by omega)

theorem seconds_lt (value : UInt32) : seconds value < 2^32 := by
  have bound := value.toNat_lt
  unfold seconds
  omega

theorem seconds_double (value : UInt32) :
    seconds (value * 2) = if seconds value < 2^31 then 2 * seconds value else 2 * seconds value - 2^32 := by
  have bound := value.toNat_lt
  have product : (value * 2).toNat = value.toNat * 2 % 2^32 := by simp [UInt32.toNat_mul]
  unfold seconds
  split <;> omega

namespace MergeContainer
open Clocked

/-- A start time is due at both of the bounds of a record test. -/
def Due (env : Env) (c : MergeContainer) (now start : Int) : Prop :=
  start + env.maxCallTime < c.maxLegTime ∧ start + env.maxCallTime < now

/-- What the iteration that has reached `c` decides agrees with the integers, whatever
records, legs and links its loops meet: `d` is a state of one of these loops. -/
structure Exact (env : Env) (c : MergeContainer) : Prop where
  record : ∀ (d : MergeContainer) (record : CallRecord) (rest : List CallRecord) (now : Int),
    d.phase = .walk (c.recordSaveTime env) → d.rest = record :: rest →
    InEra record.startTime → InEra now →
      ((∃ next, d.step env (.getTime now) = some next ∧ next.phase.record = [d.matched record]) ↔
        c.Due env now record.startTime)
  leg : ∀ (d : MergeContainer) (cursor : Option String) (key : String) (leg : CallLeg) (now : Int),
    d.phase = .purge (c.recordSaveTime env) cursor → d.legs.next? cursor = some (key,leg) →
    InEra (env.stamp leg.startTime) → InEra now →
      ((∃ next, d.step env (.getTime now) = some next ∧ next.legs.find? key = none) ↔
        c.Due env now (env.stamp leg.startTime))
  link : ∀ (d next : MergeContainer) (cursor : Option String) (key : String) (cll : Bucket),
    d.phase = .purge (c.recordSaveTime env) cursor → d.step env .work = some next →
    d.links.find? key = some cll → InEra (env.stamp cll.front.linkStartTime) →
      (next.links.find? key = none ↔
        env.stamp cll.front.linkStartTime + env.maxCallTime < c.maxLegTime)
  gap : c.gapExceeded env = true ↔ (c.maxLegTime - c.maxLinkTime).natAbs > 2 * env.maxCallTime

/-- The threshold fits an `int`, and the gap is not one of those that only the wrapped
double of the setting is below. -/
structure Fits (env : Env) (c : MergeContainer) : Prop where
  save : -2^31 ≤ c.maxLegTime - env.maxCallTime ∧ c.maxLegTime - env.maxCallTime < 2^31
  gap : 2^31 ≤ env.maxCallTime →
    2 * env.maxCallTime < (c.maxLegTime - c.maxLinkTime).natAbs ∨
    (c.maxLegTime - c.maxLinkTime).natAbs ≤ 2 * env.maxCallTime - 2^32

theorem gap_exact_iff (env : Env) (c : MergeContainer) :
    (c.gapExceeded env = true ↔ (c.maxLegTime - c.maxLinkTime).natAbs > 2 * env.maxCallTime) ↔
      (2^31 ≤ env.maxCallTime →
        2 * env.maxCallTime < (c.maxLegTime - c.maxLinkTime).natAbs ∨
        (c.maxLegTime - c.maxLinkTime).natAbs ≤ 2 * env.maxCallTime - 2^32) := by
  have bound := seconds_lt env.settings.maxCallTime
  simp only [gapExceeded,decide_eq_true_eq,seconds_double,Env.maxCallTime]
  split <;> omega

theorem walk_emits_iff {env : Env} {d : MergeContainer} {record : CallRecord} {rest : List CallRecord}
    {save now : Int} (phase : d.phase = .walk save) (next : d.rest = record :: rest) :
    (∃ next, d.step env (.getTime now) = some next ∧ next.phase.record = [d.matched record]) ↔
      expired env save now record.startTime = true := by
  cases due : expired env save now record.startTime <;> simp [step,phase,next,due]

theorem purge_erases_iff {env : Env} {d : MergeContainer} {cursor : Option String} {key : String}
    {leg : CallLeg} {save now : Int} (phase : d.phase = .purge save cursor)
    (next : d.legs.next? cursor = some (key,leg)) :
    (∃ next, d.step env (.getTime now) = some next ∧ next.legs.find? key = none) ↔
      expired env save now (env.stamp leg.startTime) = true := by
  have present : d.legs.find? key = some leg := SortedMap.next?_mem next
  cases due : expired env save now (env.stamp leg.startTime) <;> simp [step,phase,next,due,present]

theorem purge_drops_iff {env : Env} {d next : MergeContainer} {cursor : Option String} {key : String}
    {cll : Bucket} {save : Int} (phase : d.phase = .purge save cursor)
    (stepped : d.step env .work = some next) (present : d.links.find? key = some cll) :
    next.links.find? key = none ↔ env.stamp cll.front.linkStartTime < save := by
  have purged : next = {d.purgeLinks env save with phase := .poll} := by
    simp only [step,phase] at stepped
    split at stepped
    next => exact (Option.some.inj stepped).symm
    next => contradiction
  have after : next.links.find? key = if stale env save (key,cll) then none else some cll := by
    rw [purged]
    exact find?_purgeLinks env save present
  rw [after]
  by_cases outdated : env.stamp cll.front.linkStartTime < save <;> simp [stale,outdated]

theorem exact_of_fits {env : Env} {c : MergeContainer} (fits : c.Fits env) : c.Exact env := by
  have save : c.recordSaveTime env = c.maxLegTime - env.maxCallTime := toInt32_of_fits fits.save
  refine ⟨?_,?_,?_,(c.gap_exact_iff env).mpr fits.gap⟩
  · intro d record rest now phase next _ _
    rw [walk_emits_iff phase next,expired_iff,save,Due]
    omega
  · intro d cursor key leg now phase next _ _
    rw [purge_erases_iff phase next,expired_iff,save,Due]
    omega
  · intro d next cursor key cll phase stepped present _
    rw [purge_drops_iff phase stepped present,save]
    omega

theorem Exact.test {env : Env} {c : MergeContainer} (exactly : c.Exact env) (now start : Int)
    (era : InEra start) (read : InEra now) :
    expired env (c.recordSaveTime env) now start = true ↔ c.Due env now start := by
  let record : CallRecord := ⟨"",start,.empty,[]⟩
  let d : MergeContainer :=
    {setStart 0 with phase := .walk (c.recordSaveTime env),rest := [record]}
  rw [← exactly.record d record [] now rfl rfl era read]
  exact (@walk_emits_iff env d record [] _ now rfl rfl).symm

theorem fits_of_exact {env : Env} {c : MergeContainer} (era : InEra c.maxLegTime)
    (exactly : c.Exact env) : c.Fits env := by
  have setting := seconds_nonneg env.settings.maxCallTime
  have bound := seconds_lt env.settings.maxCallTime
  change 0 ≤ env.maxCallTime at setting
  change env.maxCallTime < 2^32 at bound
  have range : -2^31 ≤ c.recordSaveTime env ∧ c.recordSaveTime env < 2^31 := toInt32_range _
  unfold InEra at era
  refine ⟨⟨?_,?_⟩,(c.gap_exact_iff env).mp exactly.gap⟩
  · -- a threshold below the range comes out large: a call starting at 0 leaves at once
    by_contra low
    have save : c.recordSaveTime env = c.maxLegTime - env.maxCallTime + 2^32 :=
      toInt32_of_low (by omega) (by omega)
    have test := exactly.test (env.maxCallTime + 1) 0
      ⟨by omega,by omega⟩ ⟨by omega,by omega⟩
    rw [expired_iff,Due,save] at test
    omega
  · -- a threshold above the range comes out small: a call just past due never leaves
    by_contra high
    have test := exactly.test c.maxLegTime (c.maxLegTime - env.maxCallTime - 1)
      ⟨by omega,by omega⟩ era
    rw [expired_iff,Due] at test
    omega

theorem step_saveTime {env : Env} {c next : MergeContainer} {action : Action}
    (computed : ∀ save, saveTime c.phase = some save → save = c.recordSaveTime env)
    (stepped : step env c action = some next) :
    ∀ save, saveTime next.phase = some save → save = next.recordSaveTime env := by
  cases step_cases stepped with
  | dequeueLegs | nothing | dequeueLinks | addLeg | addLink | purgeLinks => simp
  | regulate phase => simp [recordSaveTime]
  | pass _ _ _ _ phase | keep _ _ _ _ phase | enqueue _ _ phase | walked _ phase
  | purgeLeg _ _ _ _ _ phase | keepLeg _ _ _ _ _ phase =>
    intro save passing
    exact computed save (by simpa [phase] using passing)

theorem run_saveTime {env : Env} {start : Int} {c : MergeContainer}
    (run : Run (step env) Always (setStart start) c) :
    ∀ save, saveTime c.phase = some save → save = c.recordSaveTime env :=
  run.invariant (by simp [setStart]) fun _ _ _ _ computed _ stepped => step_saveTime computed stepped

/-- In every state of a run the loops work with the threshold of that state, and all its
decisions are those over the integers exactly when the threshold and the doubled setting
fit their types. -/
theorem arithmetic_exact_iff (env : Env) (start : Int) (c : MergeContainer)
    (run : Run (step env) Always (setStart start) c) (legs : InEra c.maxLegTime) :
    (∀ save, saveTime c.phase = some save → save = c.recordSaveTime env) ∧
      (c.Exact env ↔ c.Fits env) :=
  ⟨run_saveTime run,fits_of_exact legs,exact_of_fits⟩

theorem arithmetic_exact_oneCall : ∃ c : MergeContainer, c.maxLegTime = 100 ∧ c.Exact shortCalls := by
  obtain ⟨c,run,good⟩ := exists_run (step shortCalls) Always (setStart 0)
    (fun c => c.maxLegTime == 100 && c.maxLinkTime == 5) oneCall (by decide)
  simp only [Bool.and_eq_true,beq_iff_eq] at good
  obtain ⟨leg,link⟩ := good
  have exactly := (arithmetic_exact_iff shortCalls 0 c run (by simp [InEra,leg])).2
  refine ⟨c,leg,exactly.mpr ⟨?_,?_⟩⟩
  · rw [leg]
    decide
  · intro large
    exact absurd large (by decide)

theorem threshold_wraps : ¬∀ (env : Env) (start : Int) (c : MergeContainer),
    Run (step env) Always (setStart start) c → InEra c.maxLegTime → InEra c.maxLinkTime →
      c.Exact env := by
  intro exactly
  have wrapped := exactly {} 2147494448 _ .start (by decide) (by decide)
  have test := wrapped.test 2147494448 2147483647 (by decide) (by decide)
  rw [expired_iff] at test
  exact absurd (test.mpr ⟨by decide,by decide⟩) (by decide)

end MergeContainer
end Call45Aggr
