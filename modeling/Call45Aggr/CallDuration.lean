import Call45Aggr.PostProcessing

/-! The end time and the duration in the report of a call with sound times. -/
namespace Call45Aggr
open Library

def WellTimed (text : String) : Prop := (sscanf dateTimeFormat text.toList).length = 6

instance (text : String) : Decidable (WellTimed text) := inferInstanceAs (Decidable (_ = _))

theorem not_wellTimed_empty : ¬WellTimed "" := by decide

theorem Env.stamp_empty (env : Env) : env.stamp "" = 0 := rfl

theorem empty_le (text : String) : "" ≤ text := by
  apply not_lt.mp
  intro less
  have below : text.toList < [] := String.lt_iff_toList_lt.mp less
  exact absurd below (List.not_lt_nil _)

/-- What an `int` of this many seconds shows is not negative: anything up to 68 years,
and then every other stretch of that length. -/
def Short (length : Int) : Prop := length % 2^32 < 2^31

instance (length : Int) : Decidable (Short length) := inferInstanceAs (Decidable (_ < _))

theorem toInt32_nonneg_iff (value : Int) : 0 ≤ toInt32 value ↔ Short value := by
  unfold toInt32 Short Int.bmod
  dsimp only
  split <;> omega

namespace CallRecord

/-- Every leg has sound times and stops no earlier than it starts, and none starts before
the leg the record was made of. -/
def Timed (env : Env) (record : CallRecord) : Prop :=
  ∀ leg ∈ record.legs.values, WellTimed leg.startTime ∧ WellTimed leg.stopTime ∧
    env.stamp leg.startTime ≤ env.stamp leg.stopTime ∧
    ∀ own ∈ record.legs.find? record.orig, env.stamp own.startTime ≤ env.stamp leg.startTime

instance (env : Env) (record : CallRecord) : Decidable (record.Timed env) := by
  unfold Timed
  infer_instance

/-- The row ends with a leg of the record and lasts no negative time. -/
def SoundRow (record : CallRecord) (row : DataVoipRecord) : Prop :=
  (∃ leg ∈ record.legs.values, row.endConnectionTime = leg.stopTime) ∧ 0 ≤ row.voipDuration

/-- Whatever the sorts do with equal keys and whatever the unset members hold. -/
def SoundlyReported (env : Env) (record : CallRecord) : Prop :=
  ∀ (u : Unset) (v : DataVoipRecord.Unset) (byStartTime : Sorting CallLeg.startTime)
    (byId : Sorting CallLegLink.id),
    ∃ final, (record.assembled u).postProcess byStartTime byId = some final ∧
      record.SoundRow (DataVoipRecordReport.build env v final).2

def beginning (env : Env) (own : CallLeg) : Int := if own.orig then env.stamp own.startTime else 0

/-- A leg that can come last when the present legs among the named ones are sorted. -/
def Latest (record : CallRecord) (leg : CallLeg) : Prop :=
  leg ∈ record.linkedLegs ∧ ∀ other ∈ record.linkedLegs, other.startTime ≤ leg.startTime

/-- Without an id of a linked leg the record's own leg is still originating and short;
with one, a leg so named is there, and the call up to the end of the latest is short. -/
structure Measurable (env : Env) (record : CallRecord) : Prop where
  unlinked : record.named = [] → ∀ own ∈ record.legs.find? record.orig,
    own.orig = true ∧ Short (env.stamp own.stopTime - env.stamp own.startTime)
  linked : record.named ≠ [] → record.linkedLegs ≠ [] ∧
    ∀ own ∈ record.legs.find? record.orig, ∀ leg, record.Latest leg →
      Short (env.stamp leg.stopTime - beginning env own)

variable {env : Env} {record : CallRecord} {u : Unset} {byStartTime : Sorting CallLeg.startTime}
  {final : Assembled}

theorem Processed.begins (processed : record.Processed u byStartTime final) (single : record.Single)
    {own : CallLeg} (found : record.legs.find? record.orig = some own) :
    env.stamp final.a.startTime = beginning env own := by
  rw [processed.a_own single found,beginning]
  split
  · rfl
  · exact env.stamp_empty

theorem row_eq (v : DataVoipRecord.Unset) (final : Assembled) :
    (DataVoipRecordReport.build env v final).2.endConnectionTime =
        DataVoipRecordReport.endConnectionTime final ∧
    (DataVoipRecordReport.build env v final).2.voipDuration =
      toInt32 (env.stamp (DataVoipRecordReport.endConnectionTime final) -
        env.stamp final.a.startTime) := by
  have rest := (DataVoipRecordReport.scans final.links final
    (if final.a.objectType = "pstn" then "incoming" else "")).rest
  change DataVoipRecordReport.endConnectionTime (DataVoipRecordReport.scanLinks final).1 = _ ∧
    toInt32 (env.stamp (DataVoipRecordReport.endConnectionTime (DataVoipRecordReport.scanLinks final).1) -
      env.stamp (DataVoipRecordReport.scanLinks final).1.a.startTime) = _
  rw [DataVoipRecordReport.scanLinks,rest]
  exact ⟨rfl,rfl⟩

theorem Timed.stops (timed : record.Timed env) (leg : CallLeg) (member : leg ∈ record.legs.values) :
    leg.stopTime ≠ "" := by
  intro empty
  have sound := (timed leg member).2.1
  rw [empty] at sound
  exact not_wellTimed_empty sound

theorem Timed.latest (timed : record.Timed env) (processed : record.Processed u byStartTime final)
    (some' : record.linkedLegs ≠ []) {leg : CallLeg} (back : final.b.getLast? = some leg) :
    record.Latest leg := by
  rw [processed.b] at back
  obtain ⟨member,greatest⟩ := byStartTime.last back
  have above : ∀ other ∈ record.linkedLegs, other.startTime ≤ leg.startTime := by
    intro other linked
    obtain ⟨key,name,found⟩ := mem_linkedLegs.mp linked
    exact greatest other (List.mem_map.mpr ⟨key,name,by simp [found]⟩)
  obtain ⟨key,name,same⟩ := List.mem_map.mp member
  cases found : record.legs.find? key with
  | some present =>
    rw [found] at same
    exact ⟨mem_linkedLegs.mpr ⟨key,name,same ▸ found⟩,above⟩
  | none =>
    -- an inserted leg has no start time and sorts before every leg that has one
    rw [found] at same
    obtain ⟨other,linked⟩ := List.exists_mem_of_ne_nil _ some'
    obtain ⟨k,_,present⟩ := mem_linkedLegs.mp linked
    have low := above other linked
    have sound := (timed other (SortedMap.mem_values.mpr ⟨k,present⟩)).1
    have empty : other.startTime = "" := by
      subst same
      exact le_antisymm low (empty_le other.startTime)
    exact absurd (empty ▸ sound) not_wellTimed_empty

theorem Latest.chosen {leg : CallLeg} (latest : record.Latest leg) :
    ∃ byStartTime : Sorting CallLeg.startTime, ∀ u final,
      record.Processed u byStartTime final → final.b.getLast? = some leg := by
  obtain ⟨key,name,found⟩ := mem_linkedLegs.mp latest.1
  have member : leg ∈ record.named.map fun key => (record.legs.find? key).getD default :=
    List.mem_map.mpr ⟨key,name,by simp [found]⟩
  have greatest : ∀ other ∈ record.named.map (fun key => (record.legs.find? key).getD default),
      other.startTime ≤ leg.startTime := by
    intro other inside
    obtain ⟨k,named,same⟩ := List.mem_map.mp inside
    cases present : record.legs.find? k with
    | some linked =>
      rw [present] at same
      exact latest.2 other (mem_linkedLegs.mpr ⟨k,named,same ▸ present⟩)
    | none =>
      rw [present] at same
      subst same
      exact empty_le leg.startTime
  obtain ⟨byStartTime,last⟩ := Sorting.exists_last member greatest
  refine ⟨byStartTime,fun u final processed => ?_⟩
  rw [processed.b]
  exact last

theorem Processed.b_nil (processed : record.Processed u byStartTime final) (unlinked : record.named = []) :
    final.b.getLast? = none := by
  rw [processed.b,unlinked]
  have perm : (byStartTime.run []).Perm [] := byStartTime.perm []
  simp [perm.eq_nil]

theorem Processed.b_some (processed : record.Processed u byStartTime final) (linked : record.named ≠ []) :
    ∃ leg, final.b.getLast? = some leg ∧
      ∃ key ∈ record.named, (record.legs.find? key).getD default = leg := by
  cases back : final.b.getLast? with
  | none =>
    have empty := List.getLast?_eq_none_iff.mp back
    rw [processed.b] at empty
    have perm := byStartTime.perm (record.named.map fun key => (record.legs.find? key).getD default)
    rw [empty] at perm
    exact absurd (List.map_eq_nil_iff.mp perm.symm.eq_nil) linked
  | some leg =>
    rw [processed.b] at back
    obtain ⟨key,name,same⟩ := List.mem_map.mp (byStartTime.last back).1
    exact ⟨leg,rfl,key,name,same⟩

theorem soundRow_unlinked_iff (timed : record.Timed env) (single : record.Single)
    (processed : record.Processed u byStartTime final) (v : DataVoipRecord.Unset)
    (unlinked : record.named = []) {own : CallLeg} (found : record.legs.find? record.orig = some own) :
    record.SoundRow (DataVoipRecordReport.build env v final).2 ↔
      own.orig = true ∧ Short (env.stamp own.stopTime - env.stamp own.startTime) := by
  have ends : DataVoipRecordReport.endConnectionTime final = final.a.stopTime := by
    simp [DataVoipRecordReport.endConnectionTime,processed.b_nil unlinked]
  have present : own ∈ record.legs.values := SortedMap.mem_values.mpr ⟨record.orig,found⟩
  rw [SoundRow,(row_eq v final).1,(row_eq v final).2,ends,toInt32_nonneg_iff,
    processed.begins single found,processed.a_own single found,beginning]
  cases orig : own.orig with
  | true => simpa using fun _ => ⟨own,present,rfl⟩
  | false =>
    simp only [Bool.false_eq_true,if_false,false_and,iff_false,not_and]
    intro ⟨leg,member,same⟩
    exact absurd same.symm (timed.stops leg member)

theorem soundRow_linked_iff (single : record.Single)
    (processed : record.Processed u byStartTime final) (v : DataVoipRecord.Unset)
    {own leg : CallLeg} (found : record.legs.find? record.orig = some own)
    (back : final.b.getLast? = some leg) (linked : leg ∈ record.linkedLegs) :
    record.SoundRow (DataVoipRecordReport.build env v final).2 ↔
      Short (env.stamp leg.stopTime - beginning env own) := by
  have ends : DataVoipRecordReport.endConnectionTime final = leg.stopTime := by
    simp [DataVoipRecordReport.endConnectionTime,back]
  obtain ⟨key,_,present⟩ := mem_linkedLegs.mp linked
  have member : leg ∈ record.legs.values := SortedMap.mem_values.mpr ⟨key,present⟩
  rw [SoundRow,(row_eq v final).1,(row_eq v final).2,ends,toInt32_nonneg_iff,
    processed.begins single found]
  exact and_iff_right ⟨leg,member,rfl⟩

theorem soundlyReported_of_measurable (timed : record.Timed env) (formed : record.WellFormed)
    (single : record.Single) (measurable : record.Measurable env) : record.SoundlyReported env := by
  intro u v byStartTime byId
  obtain ⟨final,done,processed⟩ := record.postProcess_assembled u byStartTime byId
  obtain ⟨own,found⟩ := formed.own
  refine ⟨final,done,?_⟩
  by_cases unlinked : record.named = []
  · exact (soundRow_unlinked_iff timed single processed v unlinked found).mpr
      (measurable.unlinked unlinked own found)
  · obtain ⟨present,short⟩ := measurable.linked unlinked
    obtain ⟨leg,back,_⟩ := processed.b_some unlinked
    have latest := timed.latest processed present back
    exact (soundRow_linked_iff single processed v found back latest.1).mpr (short own found leg latest)

theorem measurable_of_soundlyReported (timed : record.Timed env) (single : record.Single)
    (sound : record.SoundlyReported env) : record.Measurable env := by
  have result (byStartTime : Sorting CallLeg.startTime) : ∃ final,
      record.Processed {} byStartTime final ∧
        record.SoundRow (DataVoipRecordReport.build env {} final).2 := by
    obtain ⟨final,done,row⟩ := sound {} {} byStartTime (.insertion _)
    obtain ⟨other,computed,processed⟩ := record.postProcess_assembled {} byStartTime (.insertion _)
    cases Option.some.inj (done.symm.trans computed)
    exact ⟨final,processed,row⟩
  refine ⟨?_,fun linked => ⟨?_,?_⟩⟩
  · intro unlinked own found
    obtain ⟨final,processed,row⟩ := result (.insertion _)
    exact (soundRow_unlinked_iff timed single processed {} unlinked found).mp row
  · -- with none of the named legs there the call ends with an inserted one
    intro absent
    obtain ⟨final,processed,⟨⟨leg,member,ends⟩,_⟩⟩ := result (.insertion _)
    obtain ⟨last,back,key,name,same⟩ := processed.b_some linked
    have missing : record.legs.find? key = none := by
      cases present : record.legs.find? key with
      | none => rfl
      | some other =>
        have inside : other ∈ record.linkedLegs := mem_linkedLegs.mpr ⟨key,name,present⟩
        simp [absent] at inside
    rw [missing] at same
    subst same
    rw [(row_eq {} final).1,DataVoipRecordReport.endConnectionTime,back] at ends
    exact timed.stops leg member ends.symm
  · intro own found leg latest
    obtain ⟨byStartTime,last⟩ := latest.chosen
    obtain ⟨final,processed,row⟩ := result byStartTime
    exact (soundRow_linked_iff single processed {} found (last {} final processed) latest.1).mp row

end CallRecord

namespace MergeContainer

/-- Of the emitted records with sound times, exactly these get a row with the end of one
of their legs and a duration that is not negative. -/
theorem duration_sound_iff (env : Env) (start : Int) (c : MergeContainer)
    (run : Run (step env) Always (setStart start) c) (record : CallRecord) (out : record ∈ c.output)
    (timed : record.Timed env) : record.SoundlyReported env ↔ record.Measurable env := by
  obtain ⟨formed,single⟩ := output_formed run out
  exact ⟨CallRecord.measurable_of_soundlyReported timed single,
    CallRecord.soundlyReported_of_measurable timed formed single⟩

/-- A call answered at its terminating leg `t`, whose id the originating leg gives as
`lastLinkedId`. -/
def answeredCall (lastLinkedId : String) : List Action :=
  [.dequeueLegs [
      {CallLeg.row "a" true "1970-01-01 00:00:05" with stopTime := "1970-01-01 00:00:09",lastLinkedId},
      {CallLeg.row "t" false "1970-01-01 00:00:06" with stopTime := "1970-01-01 00:00:09"},
      .row "m" true "1970-01-01 00:01:40"],
    .dequeueLinks [.row "a" "t" "1970-01-01 00:00:05"],
    .work,.work,.work,.work,.work,.getTime 1000,.work,.getTime 1000,.work,.work]

theorem duration_sound_answeredCall : ∃ record : CallRecord,
    record.linkedLegs.map (·.uniqueid) = ["t"] ∧ record.SoundlyReported shortCalls := by
  obtain ⟨c,run,good⟩ := exists_run (step shortCalls) Always (setStart 0)
    (fun c => c.output.any fun record => record.Timed shortCalls ∧ record.named ≠ [] ∧
      (record.linkedLegs.map (·.uniqueid) = ["t"] ∧
        ∀ own ∈ record.legs.find? record.orig, ∀ leg ∈ record.linkedLegs,
          Short (shortCalls.stamp leg.stopTime - CallRecord.beginning shortCalls own)))
    (answeredCall "t") (by decide)
  obtain ⟨record,out,facts⟩ := List.any_eq_true.mp good
  obtain ⟨timed,named,linked,short⟩ := decide_eq_true_eq.mp facts
  refine ⟨record,linked,(duration_sound_iff shortCalls 0 c run record out timed).mpr ⟨?_,fun _ => ⟨?_,?_⟩⟩⟩
  · intro unlinked
    exact absurd unlinked named
  · intro absent
    simp [absent] at linked
  · intro own found leg latest
    exact short own found leg latest.1

/-- The leg that was linked to last never arrived: the row has no end time, and a
duration of minus the start. -/
theorem duration_negative : ¬∀ (env : Env) (start : Int) (c : MergeContainer),
    Run (step env) Always (setStart start) c → ∀ record ∈ c.output, record.Timed env →
      record.SoundlyReported env := by
  intro sound
  obtain ⟨c,run,good⟩ := exists_run (step shortCalls) Always (setStart 0)
    (fun c => c.output.any fun record => record.Timed shortCalls ∧ record.named ≠ [] ∧
      record.linkedLegs.map (·.uniqueid) = []) (answeredCall "x") (by decide)
  obtain ⟨record,out,facts⟩ := List.any_eq_true.mp good
  obtain ⟨timed,named,absent⟩ := decide_eq_true_eq.mp facts
  have measurable := CallRecord.measurable_of_soundlyReported timed (output_formed run out).2
    (sound shortCalls 0 c run record out timed)
  exact (measurable.linked named).1 (List.map_eq_nil_iff.mp absent)

end MergeContainer
end Call45Aggr
