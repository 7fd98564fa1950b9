import Call45Aggr.Model
import Call45Aggr.Library.Walk
import Call45Aggr.Library.Sorting

/-! What `MergeService::run` does to a record it dequeued: the loop that fills `a` and
`b`, and the two sorts. -/
namespace Call45Aggr
open Library

/-- What the members of a new `CallLeg` hold that have no constructor: its strings are
empty, the rest is whatever was there. -/
structure Unset where
  id : Int := 0
  serverId : Int := 0
  orig : Bool := false
  accountId : Int := 0
  vpbxId : Int := 0
  q931Status : Int := 0
  did : Int := 0
  objectId : Int := 0

def Unset.leg (u : Unset) : CallLeg :=
  {(default : CallLeg) with
    id := u.id
    serverId := u.serverId
    orig := u.orig
    accountId := u.accountId
    vpbxId := u.vpbxId
    q931Status := u.q931Status
    did := u.did
    objectId := u.objectId}

/-- A call with the members that are assigned after the merge. -/
structure Assembled extends CallRecord where
  a : CallLeg
  b : List CallLeg

def CallRecord.assembled (record : CallRecord) (u : Unset) : Assembled :=
  {record with a := u.leg,b := []}

namespace Assembled

/-- `record.legs[key]`: an absent leg is inserted with all its members zero or empty. -/
def leg (record : Assembled) (key : String) : Assembled × CallLeg :=
  match record.legs.find? key with
  | some leg => (record,leg)
  | none => ({record with legs := record.legs.insert key default},default)

def linked (record : Assembled) (key : String) : CallLeg := (record.legs.find? key).getD default

def assignA (record : Assembled) (leg : CallLeg) : Assembled :=
  if leg.orig then {record with a := leg} else record

def fillLeg (record : Assembled) (entry : String × CallLeg) : Assembled :=
  let record := record.assignA entry.2
  if entry.2.lastLinkedId = "" then record
  else
    let (record,linked) := record.leg entry.2.lastLinkedId
    {record with b := record.b ++ [linked]}

/-- Every leg visited can add one more. -/
def fill (record : Assembled) : Option Assembled :=
  walk (fun record => record.legs) fillLeg (2 * record.legs.entries.length + 1) none record

def postProcess (byStartTime : Sorting CallLeg.startTime) (byId : Sorting CallLegLink.id)
    (record : Assembled) : Option Assembled :=
  record.fill.map fun filled => {filled with
    b := byStartTime.run filled.b
    links := byId.run filled.links}

@[simp] theorem leg_snd (record : Assembled) (key : String) : (record.leg key).2 = record.linked key := by
  unfold leg linked
  split <;> simp [*]

@[simp] theorem leg_a (record : Assembled) (key : String) : (record.leg key).1.a = record.a := by
  unfold leg
  split <;> rfl

@[simp] theorem leg_b (record : Assembled) (key : String) : (record.leg key).1.b = record.b := by
  unfold leg
  split <;> rfl

@[simp] theorem leg_orig (record : Assembled) (key : String) : (record.leg key).1.orig = record.orig := by
  unfold leg
  split <;> rfl

@[simp] theorem leg_links (record : Assembled) (key : String) : (record.leg key).1.links = record.links := by
  unfold leg
  split <;> rfl

theorem leg_find? (record : Assembled) (key k : String) : (record.leg key).1.legs.find? k =
    if k = key then some (record.linked key) else record.legs.find? k := by
  unfold leg linked
  split
  next leg found =>
    by_cases same : k = key <;> simp [same,found]
  next absent => simp [absent]

theorem leg_present {record : Assembled} {key : String} {leg : CallLeg}
    (found : record.legs.find? key = some leg) : record.leg key = (record,leg) := by
  simp [Assembled.leg,found]

@[simp] theorem leg_linked (record : Assembled) (key k : String) :
    (record.leg key).1.linked k = record.linked k := by
  rw [linked,leg_find?]
  split_ifs with same
  · simp [same]
  · rfl

@[simp] theorem assignA_toCallRecord (record : Assembled) (leg : CallLeg) :
    (record.assignA leg).toCallRecord = record.toCallRecord := by
  unfold assignA
  split <;> rfl

@[simp] theorem assignA_b (record : Assembled) (leg : CallLeg) : (record.assignA leg).b = record.b := by
  unfold assignA
  split <;> rfl

@[simp] theorem assignA_linked (record : Assembled) (leg : CallLeg) (key : String) :
    (record.assignA leg).linked key = record.linked key := by
  simp [linked]

theorem fillLeg_unlinked {record : Assembled} {entry : String × CallLeg}
    (none : entry.2.lastLinkedId = "") : record.fillLeg entry = record.assignA entry.2 := by
  simp [fillLeg,none]

theorem fillLeg_named {record : Assembled} {entry : String × CallLeg}
    (named : entry.2.lastLinkedId ≠ "") :
    record.fillLeg entry = {((record.assignA entry.2).leg entry.2.lastLinkedId).1 with
      b := record.b ++ [record.linked entry.2.lastLinkedId]} := by
  simp [fillLeg,named]

def lastLinkedIds (legs : List CallLeg) : List String :=
  (legs.map CallLeg.lastLinkedId).filter fun key => key ≠ ""

theorem fillLeg_default (record : Assembled) (key : String) : record.fillLeg (key,default) = record := rfl

theorem fillLeg_addsInert : AddsInert (fun record : Assembled => record.legs) fillLeg := by
  intro record entry
  by_cases none : entry.2.lastLinkedId = ""
  · left
    simp [fillLeg_unlinked none]
  · rw [fillLeg_named none]
    cases found : record.legs.find? entry.2.lastLinkedId with
    | some leg =>
      left
      simp [Assembled.leg,found]
    | none =>
      right
      exact ⟨(entry.2.lastLinkedId,default),fun s => s.fillLeg_default _,found,by simp [Assembled.leg,found]⟩

/-- The loop ends, with the effect of one pass over the legs the record came with. -/
theorem fill_eq (record : Assembled) :
    record.fill = some (record.legs.entries.foldl fillLeg record) :=
  walk_entries fillLeg_addsInert record

theorem fillLeg_linked (record : Assembled) (entry : String × CallLeg) (key : String) :
    (record.fillLeg entry).linked key = record.linked key := by
  by_cases none : entry.2.lastLinkedId = ""
  · simp [fillLeg_unlinked none]
  · rw [fillLeg_named none]
    exact (leg_linked _ _ key).trans (assignA_linked record entry.2 key)

theorem fillLeg_find? (record : Assembled) (entry : String × CallLeg) (key : String) :
    (record.fillLeg entry).legs.find? key =
      if key ∈ lastLinkedIds [entry.2] then some (record.linked key) else record.legs.find? key := by
  by_cases none : entry.2.lastLinkedId = ""
  · simp [fillLeg_unlinked none,lastLinkedIds,none]
  · rw [fillLeg_named none]
    simp only [leg_find?,assignA_linked,assignA_toCallRecord]
    by_cases same : key = entry.2.lastLinkedId
    · simp [lastLinkedIds,same,none]
    · simp [lastLinkedIds,same,none]

theorem fillLeg_b (record : Assembled) (entry : String × CallLeg) :
    (record.fillLeg entry).b = record.b ++ (lastLinkedIds [entry.2]).map record.linked := by
  by_cases none : entry.2.lastLinkedId = ""
  · simp [fillLeg_unlinked none,lastLinkedIds,none]
  · simp [fillLeg_named none,lastLinkedIds,none]

theorem fillLeg_a (record : Assembled) (entry : String × CallLeg) :
    (record.fillLeg entry).a = if entry.2.orig then entry.2 else record.a := by
  by_cases none : entry.2.lastLinkedId = ""
  · rw [fillLeg_unlinked none,assignA]
    split <;> rfl
  · rw [fillLeg_named none]
    dsimp only
    rw [leg_a,assignA]
    split <;> rfl

theorem fillLeg_call (record : Assembled) (entry : String × CallLeg) :
    (record.fillLeg entry).orig = record.orig ∧ (record.fillLeg entry).links = record.links := by
  by_cases none : entry.2.lastLinkedId = ""
  · simp [fillLeg_unlinked none]
  · simp [fillLeg_named none]

theorem lastLinkedIds_cons (leg : CallLeg) (legs : List CallLeg) :
    lastLinkedIds (leg :: legs) = lastLinkedIds [leg] ++ lastLinkedIds legs := by
  by_cases none : leg.lastLinkedId = "" <;> simp [lastLinkedIds,none]

structure Filled (record final : Assembled) (legs : List CallLeg) : Prop where
  find? : ∀ key, final.legs.find? key =
    if key ∈ lastLinkedIds legs then some (record.linked key) else record.legs.find? key
  a : final.a = ((legs.filter (·.orig)).getLast?).getD record.a
  b : final.b = record.b ++ (lastLinkedIds legs).map record.linked
  orig : final.orig = record.orig
  links : final.links = record.links

theorem fills (entries : List (String × CallLeg)) (record : Assembled) :
    record.Filled (entries.foldl fillLeg record) (entries.map Prod.snd) := by
  induction entries generalizing record with
  | nil => exact ⟨by simp [lastLinkedIds],rfl,by simp [lastLinkedIds],rfl,rfl⟩
  | cons entry entries ih =>
    have later := ih (record.fillLeg entry)
    have same : (record.fillLeg entry).linked = record.linked := funext (record.fillLeg_linked entry)
    obtain ⟨orig,links⟩ := record.fillLeg_call entry
    have split := lastLinkedIds_cons entry.2 (entries.map Prod.snd)
    rw [List.map_cons,List.foldl_cons]
    refine ⟨?_,?_,?_,later.orig.trans orig,later.links.trans links⟩
    · intro key
      rw [later.find?,fillLeg_find?,same,split]
      by_cases first : key ∈ lastLinkedIds [entry.2] <;>
        by_cases second : key ∈ lastLinkedIds (entries.map Prod.snd) <;> simp [first,second]
    · rw [later.a,fillLeg_a]
      cases orig : entry.2.orig with
      | true =>
        rw [List.filter_cons_of_pos orig,List.getLast?_cons]
        rfl
      | false => rw [List.filter_cons_of_neg (by simp [orig]),if_neg (by simp)]
    · rw [later.b,fillLeg_b,same,split]
      simp

/-- The step always succeeds; its result in terms of the record it got. -/
theorem postProcess_some (byStartTime : Sorting CallLeg.startTime) (byId : Sorting CallLegLink.id)
    (record : Assembled) : ∃ filled, record.Filled filled record.legs.values ∧
      record.postProcess byStartTime byId = some {filled with
        b := byStartTime.run filled.b
        links := byId.run filled.links} :=
  ⟨record.legs.entries.foldl fillLeg record,fills record.legs.entries record,
    by simp [postProcess,fill_eq]⟩

end Assembled
end Call45Aggr
