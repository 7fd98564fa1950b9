import Call45Aggr.DataVoipRecordReport

/-! `LegsAggrRawReport`: the row with the originating leg and the first of the legs it
was linked to, in columns and as JSON. The text of a JSON value is made by a library. -/
namespace Call45Aggr
open Library

def CallLeg.json (leg : CallLeg) : Json :=
  .object [
    ("account_id",.int leg.accountId),
    ("answer_time",.string leg.answerTime),
    ("call_id_md5",.string leg.callIdMd5),
    ("channame",.string leg.channame),
    ("did",.int (toInt32 leg.did)),
    ("did_type",.string leg.didType),
    ("extra_info_id",.string leg.extraInfoId),
    ("final_status",.string leg.finalStatus),
    ("hangup_cause",.string leg.hangupCause),
    ("id",.int (toInt32 leg.id)),
    ("last_linked_id",.string leg.lastLinkedId),
    ("name",.string (escapeString leg.name)),
    ("number",.string (escapeString leg.number)),
    ("object_id",.int leg.objectId),
    ("object_type",.string leg.objectType),
    ("orig",.boolean leg.orig),
    ("q931_status",.int leg.q931Status),
    ("server_id",.int leg.serverId),
    ("sip_call_hash_id",.string leg.sipCallHashId),
    ("sip_ip",.string leg.sipIp),
    ("start_time",.string leg.startTime),
    ("stop_time",.string leg.stopTime),
    ("uniqueid",.string leg.uniqueid),
    ("vpbx_id",.int leg.vpbxId)]

structure LegsAggrRawRecord where
  startTime : String
  stopTime : String
  uniqueid : String
  objectType : String
  objectTypeL : String
  sipIp : String
  sipIpL : String
  status : String
  callIdMd5 : String
  callIdMd5L : String
  toJsonb : Json

namespace LegsAggrRawRecord

def literals (toStyledString : Json → List Char) (r : LegsAggrRawRecord) : List Sql.Literal :=
  [.text r.startTime,
    .text r.stopTime,
    .text r.uniqueid,
    .text r.objectType,
    .text r.objectTypeL,
    .text r.sipIp,
    .text r.sipIpL,
    .text r.status,
    .text r.callIdMd5,
    .text r.callIdMd5L,
    .text (String.ofList (toStyledString r.toJsonb))]

def dump (toStyledString : Json → List Char) (r : LegsAggrRawRecord) : List Char :=
  Sql.tuple (r.literals toStyledString)

end LegsAggrRawRecord

namespace LegsAggrRawReport

def columns : List String :=
  ["start_time","stop_time","uniqueid","object_type","object_type_l","sip_ip","sip_ip_l","status",
    "call_id_md5","call_id_md5_l","to_jsonb"]

def header : String := "INSERT INTO legs_aggr_raw (" ++ ", ".intercalate columns ++ ") values "

/-- Without a linked leg `b.front()` is undefined behaviour. -/
def build (record : Assembled) : Option LegsAggrRawRecord :=
  match record.b with
  | [] => none
  | front :: _ => some {
      startTime := if record.a.startTime = "" then front.startTime else record.a.startTime
      stopTime := if front.stopTime = "" then record.a.stopTime else front.stopTime
      uniqueid := record.a.uniqueid
      objectType := record.a.objectType
      objectTypeL := front.objectType
      sipIp := record.a.sipIp
      sipIpL := front.sipIp
      status := "ANSWERED"
      callIdMd5 := record.a.callIdMd5
      callIdMd5L := front.callIdMd5
      toJsonb := .object [("last",front.json),("orig",record.a.json)]}

end LegsAggrRawReport
end Call45Aggr
