import Call45Aggr.JsonValue
import Call45Aggr.LegsAggrRawReport
import Call45Aggr.MergeArithmetic

/-! What the JSON values of a leg and of a link keep of them. -/
namespace Call45Aggr

/-- The members are in the order of their names. -/
def CallLegLink.json (link : CallLegLink) : Json :=
  .object [
    ("bridged",.boolean link.bridged),
    ("cf",.string link.cf),
    ("channame_orig",.string link.channameOrig),
    ("channame_term",.string link.channameTerm),
    ("id",.int (toInt32 link.id)),
    ("link_answer_time",.string link.linkAnswerTime),
    ("link_end_time",.string link.linkEndTime),
    ("link_start_time",.string link.linkStartTime),
    ("object_data",link.objectData),
    ("object_type",.string link.objectType),
    ("queue_callid",.string link.queueCallid),
    ("rec_filename",.string link.recFilename),
    ("server_id",.int link.serverId),
    ("status",.string link.status),
    ("trf_by",.string link.trfBy),
    ("uniqueid_orig",.string link.uniqueidOrig),
    ("uniqueid_term",.string link.uniqueidTerm)]

def FitsInt (value : Int) : Prop := -2^31 ≤ value ∧ value < 2^31

instance (value : Int) : Decidable (FitsInt value) := inferInstanceAs (Decidable (_ ∧ _))

theorem toInt32_eq_iff (value : Int) : toInt32 value = value ↔ FitsInt value := by
  refine ⟨fun same => ?_,toInt32_of_fits⟩
  rw [← same]
  exact toInt32_range value

namespace CallLeg

def unnamed (leg : CallLeg) : CallLeg := {leg with number := "", name := ""}

/-- The leg as far as its JSON value holds it. -/
def exported (leg : CallLeg) : CallLeg := {leg with
  id := toInt32 leg.id
  did := toInt32 leg.did
  number := escapeString leg.number
  name := escapeString leg.name}

/-- The members of the ids are those of the leg. -/
def KeepsIds (leg : CallLeg) : Prop :=
  leg.json.get "id" = some (.int leg.id) ∧ leg.json.get "did" = some (.int leg.did)

/-- The JSON values of two legs tell them apart, and keep their ids. -/
def Kept (leg other : CallLeg) : Prop :=
  (leg.unnamed ≠ other.unnamed → leg.json ≠ other.json) ∧ leg.KeepsIds ∧ other.KeepsIds

def Fits (leg : CallLeg) : Prop := FitsInt leg.id ∧ FitsInt leg.did

theorem json_eq_iff (leg other : CallLeg) : leg.json = other.json ↔ leg.exported = other.exported := by
  obtain ⟨⟩ := leg
  obtain ⟨⟩ := other
  simp only [json,exported,Json.object.injEq,List.cons.injEq,Prod.mk.injEq,Json.int.injEq,Json.string.injEq,
    Json.boolean.injEq,mk.injEq,true_and,and_true]
  constructor
  · intro same
    simp only [same,and_self]
  · intro same
    simp only [same,and_self]

theorem keepsIds_iff (leg : CallLeg) : leg.KeepsIds ↔ leg.Fits := by
  have id : leg.json.get "id" = some (.int (toInt32 leg.id)) := rfl
  have did : leg.json.get "did" = some (.int (toInt32 leg.did)) := rfl
  rw [KeepsIds,id,did,Option.some_inj,Option.some_inj,Json.int.injEq,Json.int.injEq,toInt32_eq_iff,toInt32_eq_iff,Fits]

theorem unnamed_of_exported {leg other : CallLeg} (fits : leg.Fits) (fits' : other.Fits)
    (same : leg.exported = other.exported) : leg.unnamed = other.unnamed := by
  have plain {leg : CallLeg} (fits : leg.Fits) : leg.exported.unnamed = leg.unnamed := by
    simp [exported,unnamed,(toInt32_eq_iff _).mpr fits.1,(toInt32_eq_iff _).mpr fits.2]
  rw [← plain fits,← plain fits',same]

theorem kept_iff_fits (leg other : CallLeg) : Kept leg other ↔ leg.Fits ∧ other.Fits := by
  rw [Kept,keepsIds_iff,keepsIds_iff]
  refine ⟨And.right,fun fits => ⟨fun apart same => apart ?_,fits⟩⟩
  exact unnamed_of_exported fits.1 fits.2 ((json_eq_iff leg other).mp same)

end CallLeg

namespace CallLegLink

def exported (link : CallLegLink) : CallLegLink := {link with id := toInt32 link.id}

def KeepsId (link : CallLegLink) : Prop := link.json.get "id" = some (.int link.id)

def Kept (link other : CallLegLink) : Prop :=
  (link ≠ other → link.json ≠ other.json) ∧ link.KeepsId ∧ other.KeepsId

theorem json_eq_iff (link other : CallLegLink) : link.json = other.json ↔ link.exported = other.exported := by
  obtain ⟨⟩ := link
  obtain ⟨⟩ := other
  simp only [json,exported,Json.object.injEq,List.cons.injEq,Prod.mk.injEq,Json.int.injEq,Json.string.injEq,
    Json.boolean.injEq,mk.injEq,true_and,and_true]
  constructor
  · intro same
    simp only [same,and_self]
  · intro same
    simp only [same,and_self]

theorem keepsId_iff (link : CallLegLink) : link.KeepsId ↔ FitsInt link.id := by
  have id : link.json.get "id" = some (.int (toInt32 link.id)) := rfl
  rw [KeepsId,id,Option.some_inj,Json.int.injEq,toInt32_eq_iff]

theorem kept_iff_fits (link other : CallLegLink) : Kept link other ↔ FitsInt link.id ∧ FitsInt other.id := by
  have plain {link : CallLegLink} (fits : FitsInt link.id) : link.exported = link := by
    rw [exported,(toInt32_eq_iff link.id).mpr fits]
  rw [Kept,keepsId_iff,keepsId_iff]
  refine ⟨And.right,fun fits => ⟨fun apart same => apart ?_,fits⟩⟩
  rw [← plain fits.1,← plain fits.2]
  exact (json_eq_iff link other).mp same

end CallLegLink

/-- Legs and links are told apart and keep their ids exactly if these are values of an `int`. -/
theorem json_kept_iff (leg leg' : CallLeg) (link link' : CallLegLink) :
    (leg.Kept leg' ↔ leg.Fits ∧ leg'.Fits) ∧ (link.Kept link' ↔ FitsInt link.id ∧ FitsInt link'.id) :=
  ⟨leg.kept_iff_fits leg',link.kept_iff_fits link'⟩

/-- Two legs whose ids are 2^32 apart are exported as the same. -/
theorem wide_ids : ∃ leg leg' : CallLeg, (leg.id = 1 ∧ leg'.id = 4294967297) ∧ leg.unnamed ≠ leg'.unnamed ∧
    leg.json = leg'.json ∧ ¬leg'.KeepsIds := by
  refine ⟨{(default : CallLeg) with id := 1},{(default : CallLeg) with id := 4294967297},⟨rfl,rfl⟩,?_,?_,?_⟩
  · intro same
    exact absurd (congrArg CallLeg.id same) (by decide)
  · rw [CallLeg.json_eq_iff]
    decide
  · rw [CallLeg.keepsIds_iff]
    exact fun fits => absurd fits.1 (by decide)

end Call45Aggr
