import Call45Aggr.MergeContainer
import Call45Aggr.MergeService
import Call45Aggr.Library.SqlTuple

/-! `DataVoipRecordReport`: the row of a finished call, as a record and as text. -/
namespace Call45Aggr
open Library

structure DataVoipRecord where
  telcoId : Int
  beginConnectionTime : String
  endConnectionTime : String
  clientInfo : String := ""
  serverInfo : String := ""
  pointId : Int
  voipSessionId : String := ""
  voipConferenceId : String := ""
  voipDuration : Int
  voipOriginatorName : String
  voipCallTypeId : Int
  callingOriginalNumber : String
  callingTranslatedNumber : String
  callingE164Number : String
  calledOriginalNumber : String
  calledTranslatedNumber : String
  calledE164Number : String
  voipInBytesCount : Int
  voipOutBytesCount : Int
  voipFax : Bool
  voipTermCause : String
  inboundTrunk : String
  outboundTrunk : String
  voipGateways : String
  voipProtocol : String
  supplementServiceId : Int
  voipAbonentId : String := ""
  voipNatInfo : String := ""
  voipLocation : String := ""
  voipEvent : String
  voipDataContentId : String
  vpbxId : Int
  serverId : Int
  accountId : Int
  accountId2 : Int
  origUniqueid : String
  rawData : String := ""
  deriving DecidableEq

/-- The members of a new `DataVoipRecord` that `build` reads or writes out without
having assigned them. -/
structure DataVoipRecord.Unset where
  supplementServiceId : Int := 0
  accountId2 : Int := 0

def escapeString (str : String) : String :=
  String.ofList (str.toList.filter fun c => c.toNat ∉ [0x27,0x22,0x3f,0x5c])

def concatInt (value : Int) : String := String.ofList (Sql.decimal value)

namespace DataVoipRecord

def literals (r : DataVoipRecord) : List Sql.Literal :=
  [.number r.telcoId,
    .text r.beginConnectionTime,
    .text r.endConnectionTime,
    .text r.clientInfo,
    .text r.serverInfo,
    .number r.pointId,
    .text r.voipSessionId,
    .text r.voipConferenceId,
    .number r.voipDuration,
    .text r.voipOriginatorName,
    .number r.voipCallTypeId,
    .text r.callingOriginalNumber,
    .text r.callingTranslatedNumber,
    .text r.callingE164Number,
    .text r.calledOriginalNumber,
    .text r.calledTranslatedNumber,
    .text r.calledE164Number,
    .number r.voipInBytesCount,
    .number r.voipOutBytesCount,
    .boolean r.voipFax,
    .text r.voipTermCause,
    .text r.inboundTrunk,
    .text r.outboundTrunk,
    .text r.voipGateways,
    .text r.voipProtocol,
    .number r.supplementServiceId,
    .text r.voipAbonentId,
    .text r.voipNatInfo,
    .text r.voipLocation,
    .text r.voipEvent,
    .text r.voipDataContentId,
    .number r.vpbxId,
    .number r.serverId,
    .number r.accountId,
    .number r.accountId2,
    .text r.origUniqueid,
    .text r.rawData]

def dump (r : DataVoipRecord) : List Char := Sql.tuple r.literals

end DataVoipRecord

namespace DataVoipRecordReport

def columns : List String :=
  ["telco_id","begin_connection_time","end_connection_time","client_info","server_info","point_id",
    "voip_session_id","voip_conference_id","voip_duration","voip_originator_name","voip_call_type_id",
    "calling_original_number","calling_translated_number","calling_e164_number",
    "called_original_number","called_translated_number","called_e164_number","voip_in_bytes_count",
    "voip_out_bytes_count","voip_fax","voip_term_cause","inbound_trunk","outbound_trunk",
    "voip_gateways","voip_protocol","supplement_service_id","voip_abonent_id","voip_nat_info",
    "voip_location","voip_event","voip_data_content_id","vpbx_id","server_id","account_id",
    "account_id_2","orig_uniqueid","raw_data"]

def header : String := "INSERT INTO datavoiprecord (" ++ ", ".intercalate columns ++ ") values "

/-- The body of the loop over the links. The first test looks the leg up only where the
type of `a` leaves it undecided. -/
def scanLink (state : Assembled × String) (link : CallLegLink) : Assembled × String :=
  let (record,voipEvent) := state
  if link.uniqueidOrig = record.a.uniqueid then
    let (record,voipEvent) :=
      if record.a.objectType ≠ "pstn" ∧ record.a.objectType ≠ "webcall" ∧
          record.a.objectType ≠ "missed_call_callback" then
        let (record,leg) := record.leg link.uniqueidTerm
        (record,if leg.objectType ≠ "pstn" then "internal" else voipEvent)
      else (record,voipEvent)
    let (record,leg) := record.leg link.uniqueidTerm
    (record,if leg.objectType = "pstn" then "outgoing" else voipEvent)
  else (record,voipEvent)

def scanLinks (record : Assembled) : Assembled × String :=
  record.links.foldl scanLink (record,if record.a.objectType = "pstn" then "incoming" else "")

def endConnectionTime (record : Assembled) : String :=
  match record.b.getLast? with
  | some leg => leg.stopTime
  | none => record.a.stopTime

def number (leg : CallLeg) : String :=
  if leg.number = "" then concatInt leg.did else escapeString leg.number

/-- The called numbers so far, and `account_id_2`. -/
def addCalled (called : String × Int) (leg : CallLeg) : String × Int :=
  (if called.1 = "" then number leg else called.1 ++ ", " ++ number leg,
    if leg.accountId ≠ 0 ∧ called.2 = 0 then leg.accountId else called.2)

def termCause (leg : CallLeg) : String :=
  if leg.hangupCause = "" then leg.finalStatus else leg.hangupCause

/-- The record is changed by the lookups of `scanLinks` only. -/
def build (env : Env) (u : DataVoipRecord.Unset) (record : Assembled) : Assembled × DataVoipRecord :=
  let (record,voipEvent) := scanLinks record
  let (called,accountId2) := record.b.foldl addCalled ("",u.accountId2)
  (record,{
    telcoId := 0
    beginConnectionTime := record.a.startTime
    endConnectionTime := endConnectionTime record
    pointId := 0
    voipDuration := toInt32 (env.stamp (endConnectionTime record) - env.stamp record.a.startTime)
    voipOriginatorName := escapeString record.a.name
    voipCallTypeId := 0
    callingOriginalNumber := number record.a
    callingTranslatedNumber := number record.a
    callingE164Number := number record.a
    calledOriginalNumber := called
    calledTranslatedNumber := called
    calledE164Number := called
    voipInBytesCount := 0
    voipOutBytesCount := 0
    voipFax := false
    voipTermCause := termCause record.a
    inboundTrunk := ""
    outboundTrunk := ""
    voipGateways := ""
    voipProtocol := "SIP"
    supplementServiceId := u.supplementServiceId
    voipEvent := if voipEvent = "" then "uncknown" else voipEvent
    voipDataContentId := ""
    vpbxId := record.a.vpbxId
    serverId := record.a.serverId
    accountId := record.a.accountId
    accountId2 := accountId2
    -- the flag is assigned to a string, as a character
    origUniqueid := String.singleton (if record.a.orig then Char.ofNat 1 else Char.ofNat 0)})

theorem leg_again (record : Assembled) (key : String) :
    ((record.leg key).1.leg key).1 = (record.leg key).1 := by
  have found : (record.leg key).1.legs.find? key = some (record.linked key) := by
    simp [Assembled.leg_find?]
  rw [Assembled.leg_present found]

theorem scanLink_fst (record : Assembled) (voipEvent : String) (link : CallLegLink) :
    (scanLink (record,voipEvent) link).1 =
      if link.uniqueidOrig = record.a.uniqueid then (record.leg link.uniqueidTerm).1 else record := by
  unfold scanLink
  dsimp only
  split
  · split
    · exact leg_again record link.uniqueidTerm
    · rfl
  · rfl

def lookups (a : CallLeg) (links : List CallLegLink) : List String :=
  (links.filter fun link => link.uniqueidOrig = a.uniqueid).map (·.uniqueidTerm)

theorem lookups_cons (a : CallLeg) (link : CallLegLink) (links : List CallLegLink) :
    lookups a (link :: links) =
      if link.uniqueidOrig = a.uniqueid then link.uniqueidTerm :: lookups a links else lookups a links := by
  by_cases own : link.uniqueidOrig = a.uniqueid <;> simp [lookups,own]

structure Scanned (record final : Assembled) (links : List CallLegLink) : Prop where
  find? : ∀ key, final.legs.find? key =
    if key ∈ lookups record.a links then some (record.linked key) else record.legs.find? key
  rest : final = {record with legs := final.legs}

theorem leg_rest (record : Assembled) (key : String) :
    (record.leg key).1 = {record with legs := (record.leg key).1.legs} := by
  unfold Assembled.leg
  split <;> rfl

theorem scans (links : List CallLegLink) (record : Assembled) (voipEvent : String) :
    Scanned record (links.foldl scanLink (record,voipEvent)).1 links := by
  induction links generalizing record voipEvent with
  | nil => exact ⟨by simp [lookups],rfl⟩
  | cons link links ih =>
    rw [List.foldl_cons]
    have later := ih (scanLink (record,voipEvent) link).1 (scanLink (record,voipEvent) link).2
    rw [Prod.mk.eta,scanLink_fst] at later
    split at later
    next own =>
      refine ⟨?_,?_⟩
      · intro key
        rw [later.find?,Assembled.leg_linked,Assembled.leg_find?,Assembled.leg_a,lookups_cons,if_pos own]
        by_cases first : key = link.uniqueidTerm <;> simp [first]
      · rw [later.rest,leg_rest record link.uniqueidTerm]
    next other =>
      refine ⟨?_,later.rest⟩
      intro key
      rw [later.find?,lookups_cons,if_neg other]

/-- The report leaves the record as it is exactly when it finds every leg it looks up. -/
theorem build_unchanged_iff (env : Env) (u : DataVoipRecord.Unset) (record : Assembled) :
    (build env u record).1 = record ↔
      ∀ link ∈ record.links, link.uniqueidOrig = record.a.uniqueid →
        ∃ leg, record.legs.find? link.uniqueidTerm = some leg := by
  have scanned : Scanned record (build env u record).1 record.links := scans record.links record _
  constructor
  · intro same link member own
    have looked : link.uniqueidTerm ∈ lookups record.a record.links :=
      List.mem_map.mpr ⟨link,List.mem_filter.mpr ⟨member,by simpa using own⟩,rfl⟩
    have present := scanned.find? link.uniqueidTerm
    rw [same,if_pos looked] at present
    exact ⟨_,present⟩
  · intro present
    have legs : (build env u record).1.legs = record.legs := by
      ext key : 1
      rw [scanned.find?]
      split_ifs with looked
      · obtain ⟨link,member,rfl⟩ := List.mem_map.mp looked
        obtain ⟨inside,own⟩ := List.mem_filter.mp member
        obtain ⟨leg,found⟩ := present link inside (by simpa using own)
        simp [Assembled.linked,found]
      · rfl
    rw [scanned.rest,legs]

end DataVoipRecordReport
end Call45Aggr
