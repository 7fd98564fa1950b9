import Call45Aggr.LegsAggrRawReport

/-! The text of a report row against the columns it is inserted into. -/
namespace Call45Aggr
open Library

/-- The text is one tuple with a literal for each column the header names, in its order;
each literal denotes the value paired with its column. -/
structure RowReads (text : List Char) (table header : String) (row : List (String × Sql.Literal)) : Prop where
  tuple : Sql.lexTuple text = some (row.map Prod.snd)
  columns : header = "INSERT INTO " ++ table ++ " (" ++ ", ".intercalate (row.map Prod.fst) ++ ") values "

theorem rowReads_iff {table header : String} {row : List (String × Sql.Literal)}
    (columns : header = "INSERT INTO " ++ table ++ " (" ++ ", ".intercalate (row.map Prod.fst) ++ ") values ")
    (filled : row ≠ []) : RowReads (Sql.tuple (row.map Prod.snd)) table header row ↔
      ∀ item ∈ row.map Prod.snd, item.Plain := by
  obtain ⟨column,rest,rfl⟩ := List.exists_cons_of_ne_nil filled
  rw [List.map_cons,← Sql.lexTuple_exact]
  exact ⟨fun row => row.tuple,fun tuple => ⟨tuple,columns⟩⟩

/-- No quote in the text. -/
def Unquoted (text : String) : Prop := Sql.quote ∉ text.toList

instance (text : String) : Decidable (Unquoted text) := inferInstanceAs (Decidable (¬_))

theorem unquoted_escapeString (str : String) : Unquoted (escapeString str) := by
  unfold Unquoted escapeString
  rw [String.toList_ofList]
  intro member
  exact absurd (List.mem_filter.mp member).2 (by decide)

theorem unquoted_concatInt (value : Int) : Unquoted (concatInt value) := by
  unfold Unquoted concatInt Sql.decimal
  rw [String.toList_ofList]
  have digits : Sql.quote ∉ Nat.toDigits 10 value.natAbs := by
    intro member
    exact absurd (Sql.digits_all _ _ member) (by decide)
  split
  · intro member
    rcases List.mem_cons.mp member with same | inside
    · exact absurd same (by decide)
    · exact digits inside
  · exact digits

theorem unquoted_append {first second : String} :
    Unquoted (first ++ second) ↔ Unquoted first ∧ Unquoted second := by
  simp [Unquoted]

theorem plain_text (value : String) : (Sql.Literal.text value).Plain ↔ Unquoted value := .rfl

theorem plain_number (value : Int) : (Sql.Literal.number value).Plain ↔ True := .rfl

theorem plain_boolean (value : Bool) : (Sql.Literal.boolean value).Plain ↔ True := .rfl

namespace DataVoipRecordReport

theorem unquoted_number (leg : CallLeg) : Unquoted (number leg) := by
  unfold number
  split
  · exact unquoted_concatInt leg.did
  · exact unquoted_escapeString leg.number

theorem unquoted_called (legs : List CallLeg) (called : String × Int) (before : Unquoted called.1) :
    Unquoted (legs.foldl addCalled called).1 := by
  induction legs generalizing called with
  | nil => exact before
  | cons leg legs ih =>
    refine ih (addCalled called leg) ?_
    unfold addCalled
    dsimp only
    split
    · exact unquoted_number leg
    · exact unquoted_append.mpr ⟨unquoted_append.mpr ⟨before,by decide⟩,unquoted_number leg⟩

theorem unquoted_scan (links : List CallLegLink) (state : Assembled × String) (before : Unquoted state.2) :
    Unquoted (links.foldl scanLink state).2 := by
  induction links generalizing state with
  | nil => exact before
  | cons link links ih =>
    refine ih (scanLink state link) ?_
    have internal : Unquoted "internal" := by decide
    have outgoing : Unquoted "outgoing" := by decide
    unfold scanLink
    dsimp only
    split_ifs <;> assumption

theorem unquoted_flag (orig : Bool) :
    Unquoted (String.singleton (if orig then Char.ofNat 1 else Char.ofNat 0)) := by
  cases orig <;> decide

theorem scanLinks_eq (record : Assembled) : ∃ legs voipEvent, Unquoted voipEvent ∧
    scanLinks record = ({record with legs := legs},voipEvent) := by
  have event : Unquoted (if record.a.objectType = "pstn" then "incoming" else "") := by
    split_ifs <;> decide
  exact ⟨(scanLinks record).1.legs,(scanLinks record).2,unquoted_scan record.links _ event,
    Prod.ext (scans record.links record _).rest rfl⟩

theorem plain_iff (env : Env) (v : DataVoipRecord.Unset) (record : Assembled) :
    (∀ item ∈ (build env v record).2.literals, item.Plain) ↔
      Unquoted record.a.startTime ∧ Unquoted (endConnectionTime record) ∧ Unquoted (termCause record.a) := by
  obtain ⟨legs,voipEvent,event,scanned⟩ := scanLinks_eq record
  have ends : endConnectionTime {record with legs := legs} = endConnectionTime record := rfl
  have name := unquoted_escapeString record.a.name
  have calling := unquoted_number record.a
  have empty : Unquoted "" := by decide
  have sip : Unquoted "SIP" := by decide
  have called := unquoted_called record.b ("",v.accountId2) empty
  have shown : Unquoted (if voipEvent = "" then "uncknown" else voipEvent) := by
    split_ifs
    · decide
    · exact event
  have flag := unquoted_flag record.a.orig
  simp only [build,scanned,ends,DataVoipRecord.literals,List.forall_mem_cons,plain_text,plain_number,
    plain_boolean,name,calling,called,shown,flag,empty,sip,true_and,and_true,List.not_mem_nil,
    false_implies,implies_true]

end DataVoipRecordReport

namespace DataVoipRecord

def byColumn (r : DataVoipRecord) : List (String × Sql.Literal) :=
  [("telco_id",.number r.telcoId),
    ("begin_connection_time",.text r.beginConnectionTime),
    ("end_connection_time",.text r.endConnectionTime),
    ("client_info",.text r.clientInfo),
    ("server_info",.text r.serverInfo),
    ("point_id",.number r.pointId),
    ("voip_session_id",.text r.voipSessionId),
    ("voip_conference_id",.text r.voipConferenceId),
    ("voip_duration",.number r.voipDuration),
    ("voip_originator_name",.text r.voipOriginatorName),
    ("voip_call_type_id",.number r.voipCallTypeId),
    ("calling_original_number",.text r.callingOriginalNumber),
    ("calling_translated_number",.text r.callingTranslatedNumber),
    ("calling_e164_number",.text r.callingE164Number),
    ("called_original_number",.text r.calledOriginalNumber),
    ("called_translated_number",.text r.calledTranslatedNumber),
    ("called_e164_number",.text r.calledE164Number),
    ("voip_in_bytes_count",.number r.voipInBytesCount),
    ("voip_out_bytes_count",.number r.voipOutBytesCount),
    ("voip_fax",.boolean r.voipFax),
    ("voip_term_cause",.text r.voipTermCause),
    ("inbound_trunk",.text r.inboundTrunk),
    ("outbound_trunk",.text r.outboundTrunk),
    ("voip_gateways",.text r.voipGateways),
    ("voip_protocol",.text r.voipProtocol),
    ("supplement_service_id",.number r.supplementServiceId),
    ("voip_abonent_id",.text r.voipAbonentId),
    ("voip_nat_info",.text r.voipNatInfo),
    ("voip_location",.text r.voipLocation),
    ("voip_event",.text r.voipEvent),
    ("voip_data_content_id",.text r.voipDataContentId),
    ("vpbx_id",.number r.vpbxId),
    ("server_id",.number r.serverId),
    ("account_id",.number r.accountId),
    ("account_id_2",.number r.accountId2),
    ("orig_uniqueid",.text r.origUniqueid),
    ("raw_data",.text r.rawData)]

theorem byColumn_snd (r : DataVoipRecord) : r.byColumn.map Prod.snd = r.literals := rfl

theorem byColumn_fst (r : DataVoipRecord) : r.byColumn.map Prod.fst = DataVoipRecordReport.columns := rfl

theorem header_columns (r : DataVoipRecord) : DataVoipRecordReport.header =
    "INSERT INTO " ++ "datavoiprecord" ++ " (" ++ ", ".intercalate (r.byColumn.map Prod.fst) ++
      ") values " := by
  rw [byColumn_fst]
  rfl

end DataVoipRecord

mutual

/-- Every string in the tree: values and the names of members. -/
def Json.texts : Json → List String
  | .string value => [value]
  | .array items => itemTexts items
  | .object members => memberTexts members
  | _ => []

def Json.itemTexts : List Json → List String
  | [] => []
  | item :: items => item.texts ++ itemTexts items

def Json.memberTexts : List (String × Json) → List String
  | [] => []
  | (name,value) :: members => name :: (value.texts ++ memberTexts members)

end

/-- A JSON text has a quote exactly where a string of the tree has one: the characters
that JSON escapes do not include it. -/
def KeepsQuotes (toStyledString : Json → List Char) : Prop :=
  ∀ value, Sql.quote ∈ toStyledString value ↔ ∃ text ∈ value.texts, ¬Unquoted text

namespace LegsAggrRawRecord

def byColumn (toStyledString : Json → List Char) (r : LegsAggrRawRecord) : List (String × Sql.Literal) :=
  [("start_time",.text r.startTime),
    ("stop_time",.text r.stopTime),
    ("uniqueid",.text r.uniqueid),
    ("object_type",.text r.objectType),
    ("object_type_l",.text r.objectTypeL),
    ("sip_ip",.text r.sipIp),
    ("sip_ip_l",.text r.sipIpL),
    ("status",.text r.status),
    ("call_id_md5",.text r.callIdMd5),
    ("call_id_md5_l",.text r.callIdMd5L),
    ("to_jsonb",.text (String.ofList (toStyledString r.toJsonb)))]

variable (toStyledString : Json → List Char) (r : LegsAggrRawRecord)

theorem byColumn_snd : (r.byColumn toStyledString).map Prod.snd = r.literals toStyledString := rfl

theorem byColumn_fst : (r.byColumn toStyledString).map Prod.fst = LegsAggrRawReport.columns := rfl

theorem header_columns : LegsAggrRawReport.header =
    "INSERT INTO " ++ "legs_aggr_raw" ++ " (" ++
      ", ".intercalate ((r.byColumn toStyledString).map Prod.fst) ++ ") values " := by
  rw [byColumn_fst]
  rfl

end LegsAggrRawRecord

/-- The strings of a leg that the reports write as they came. -/
def CallLeg.unescaped (leg : CallLeg) : List String :=
  [leg.answerTime,leg.callIdMd5,leg.channame,leg.didType,leg.extraInfoId,leg.finalStatus,
    leg.hangupCause,leg.lastLinkedId,leg.objectType,leg.sipCallHashId,leg.sipIp,leg.startTime,
    leg.stopTime,leg.uniqueid]

theorem CallLeg.json_unquoted (leg : CallLeg) :
    (∀ text ∈ leg.json.texts, Unquoted text) ↔ ∀ text ∈ leg.unescaped, Unquoted text := by
  have name := unquoted_escapeString leg.name
  have number := unquoted_escapeString leg.number
  have names : ∀ text ∈ ["account_id","answer_time","call_id_md5","channame","did","did_type",
      "extra_info_id","final_status","hangup_cause","id","last_linked_id","name","number","object_id",
      "object_type","orig","q931_status","server_id","sip_call_hash_id","sip_ip","start_time",
      "stop_time","uniqueid","vpbx_id"], Unquoted text := by decide
  simp only [List.forall_mem_cons] at names
  simp only [CallLeg.json,Json.texts,Json.memberTexts,CallLeg.unescaped,List.forall_mem_cons,
    List.nil_append,List.cons_append,name,number,names,true_and]

theorem KeepsQuotes.unquoted_iff {toStyledString : Json → List Char} (keeps : KeepsQuotes toStyledString)
    (value : Json) : Unquoted (String.ofList (toStyledString value)) ↔
      ∀ text ∈ value.texts, Unquoted text := by
  rw [Unquoted,String.toList_ofList,keeps value]
  simp

namespace LegsAggrRawReport

theorem plain_iff {toStyledString : Json → List Char} (keeps : KeepsQuotes toStyledString)
    {record : Assembled} {front : CallLeg} {rest : List CallLeg} (linked : record.b = front :: rest)
    {r : LegsAggrRawRecord} (built : build record = some r) :
    (∀ item ∈ r.literals toStyledString, item.Plain) ↔
      (∀ text ∈ record.a.unescaped, Unquoted text) ∧ ∀ text ∈ front.unescaped, Unquoted text := by
  simp only [build,linked] at built
  cases built
  have json : (∀ text ∈ (Json.object [("last",front.json),("orig",record.a.json)]).texts, Unquoted text) ↔
      (∀ text ∈ record.a.unescaped, Unquoted text) ∧ ∀ text ∈ front.unescaped, Unquoted text := by
    have last : Unquoted "last" := by decide
    have orig : Unquoted "orig" := by decide
    rw [← CallLeg.json_unquoted,← CallLeg.json_unquoted]
    simp only [Json.texts,Json.memberTexts,List.forall_mem_cons,List.forall_mem_append,last,orig,
      List.not_mem_nil,false_implies,implies_true,true_and,and_true]
    exact and_comm
  have answered : Unquoted "ANSWERED" := by decide
  simp only [LegsAggrRawRecord.literals,List.forall_mem_cons,plain_text,keeps.unquoted_iff,json,answered,
    List.not_mem_nil,false_implies,implies_true,true_and,and_true]
  constructor
  · intro ⟨_,_,_,_,_,_,_,_,_,both⟩
    exact both
  · intro ⟨own,other⟩
    have starts : Unquoted (if record.a.startTime = "" then front.startTime else record.a.startTime) := by
      split
      · exact other _ (by simp [CallLeg.unescaped])
      · exact own _ (by simp [CallLeg.unescaped])
    have stops : Unquoted (if front.stopTime = "" then record.a.stopTime else front.stopTime) := by
      split
      · exact own _ (by simp [CallLeg.unescaped])
      · exact other _ (by simp [CallLeg.unescaped])
    refine ⟨starts,stops,?_,?_,?_,?_,?_,?_,?_,own,other⟩
    · exact own _ (by simp [CallLeg.unescaped])
    · exact own _ (by simp [CallLeg.unescaped])
    · exact other _ (by simp [CallLeg.unescaped])
    · exact own _ (by simp [CallLeg.unescaped])
    · exact other _ (by simp [CallLeg.unescaped])
    · exact own _ (by simp [CallLeg.unescaped])
    · exact other _ (by simp [CallLeg.unescaped])

end LegsAggrRawReport

namespace Assembled

/-- The text of `DataVoipRecordReport::build` is a row of its table. -/
def VoipRowReads (env : Env) (v : DataVoipRecord.Unset) (record : Assembled) : Prop :=
  let r := (DataVoipRecordReport.build env v record).2
  RowReads r.dump "datavoiprecord" DataVoipRecordReport.header r.byColumn

/-- `LegsAggrRawReport::build` writes a text, and it is a row of its table. -/
def RawRowReads (toStyledString : Json → List Char) (record : Assembled) : Prop :=
  ∃ r, LegsAggrRawReport.build record = some r ∧
    RowReads (r.dump toStyledString) "legs_aggr_raw" LegsAggrRawReport.header (r.byColumn toStyledString)

/-- Which calls have well-formed rows: the texts that no escaping touches hold no quote,
and the raw row needs a linked leg. -/
theorem rows_read_iff (env : Env) (v : DataVoipRecord.Unset) (toStyledString : Json → List Char)
    (keeps : KeepsQuotes toStyledString) (record : Assembled) :
    (record.VoipRowReads env v ↔
      Unquoted record.a.startTime ∧ Unquoted (DataVoipRecordReport.endConnectionTime record) ∧
        Unquoted (DataVoipRecordReport.termCause record.a)) ∧
    (record.RawRowReads toStyledString ↔
      ∃ front, record.b.head? = some front ∧
        (∀ text ∈ record.a.unescaped, Unquoted text) ∧ ∀ text ∈ front.unescaped, Unquoted text) := by
  constructor
  · rw [← DataVoipRecordReport.plain_iff env v record]
    exact rowReads_iff (DataVoipRecord.header_columns _) (by simp [DataVoipRecord.byColumn])
  · have raw (r : LegsAggrRawRecord) :
        RowReads (r.dump toStyledString) "legs_aggr_raw" LegsAggrRawReport.header (r.byColumn toStyledString) ↔
          ∀ item ∈ r.literals toStyledString, item.Plain :=
      rowReads_iff (r.header_columns toStyledString) (by simp [LegsAggrRawRecord.byColumn])
    simp only [RawRowReads,raw]
    cases linked : record.b with
    | nil => simp [LegsAggrRawReport.build,linked]
    | cons front rest =>
      obtain ⟨r,built⟩ : ∃ r, LegsAggrRawReport.build record = some r := by
        simp [LegsAggrRawReport.build,linked]
      have plain := LegsAggrRawReport.plain_iff keeps linked built
      simp [built,plain]

end Assembled

/-! A writer of objects, strings, integers and booleans as the library lays them out, to
run the reports with. -/

def newline (indent : Nat) : List Char := '\n' :: List.replicate indent '\t'

def doubleQuote : Char := Char.ofNat 0x22

def backslash : Char := Char.ofNat 0x5c

def escapeChar (c : Char) : List Char := if c = doubleQuote ∨ c = backslash then [backslash,c] else [c]

def quotedString (str : String) : List Char :=
  doubleQuote :: str.toList.flatMap escapeChar ++ [doubleQuote]

mutual

def Json.styled (indent : Nat) : Json → List Char
  | .null => ['n','u','l','l']
  | .int value => Sql.decimal value
  | .uint value => Nat.toDigits 10 value
  | .real _ => []
  | .string value => quotedString value
  | .boolean value => if value then ['t','r','u','e'] else ['f','a','l','s','e']
  | .array items => '[' :: styledItems (indent + 1) items ++ [']']
  | .object members => newline indent ++ '\x7b' :: styledMembers (indent + 1) members ++ newline indent ++ ['\x7d']

def Json.styledItems (indent : Nat) : List Json → List Char
  | [] => []
  | item :: items =>
    newline indent ++ item.styled indent ++ (if items.isEmpty then [] else [',']) ++ styledItems indent items

def Json.styledMembers (indent : Nat) : List (String × Json) → List Char
  | [] => []
  | (name,value) :: members =>
    newline indent ++ quotedString name ++ [' ',':',' '] ++ value.styled indent ++
      (if members.isEmpty then [] else [',']) ++ styledMembers indent members

end

/-- The value is not preceded by a line of its own at the top. -/
def Json.toStyledString (value : Json) : List Char := (value.styled 0).dropWhile (· = '\n') ++ ['\n']

theorem quote_newline (indent : Nat) : Sql.quote ∉ newline indent := by
  unfold newline
  intro member
  rcases List.mem_cons.mp member with same | inside
  · exact absurd same (by decide)
  · exact absurd (List.eq_of_mem_replicate inside) (by decide)

theorem quote_quotedString (str : String) : Sql.quote ∈ quotedString str ↔ ¬Unquoted str := by
  have char (c : Char) : Sql.quote ∈ escapeChar c ↔ c = Sql.quote := by
    unfold escapeChar
    split
    next special =>
      constructor
      · intro member
        rcases List.mem_cons.mp member with same | inside
        · exact absurd same (by decide)
        · exact (List.mem_singleton.mp inside).symm
      · intro same
        simp [same]
    next => simp [eq_comm]
  have ends : Sql.quote ≠ doubleQuote := by decide
  simp [quotedString,Unquoted,char,ends]

mutual

theorem Json.quote_styled (indent : Nat) (value : Json) :
    Sql.quote ∈ value.styled indent ↔ ∃ text ∈ value.texts, ¬Unquoted text := by
  cases value with
  | null =>
    have plain : Sql.quote ∉ ['n','u','l','l'] := by decide
    simpa [styled,texts] using plain
  | int value =>
    have plain := unquoted_concatInt value
    rw [Unquoted,concatInt,String.toList_ofList] at plain
    simp [styled,texts,plain]
  | uint value =>
    have plain : Sql.quote ∉ Nat.toDigits 10 value := by
      intro member
      exact absurd (Sql.digits_all _ _ member) (by decide)
    simp [styled,texts,plain]
  | real bits => simp [styled,texts]
  | string value => simp [styled,texts,quote_quotedString]
  | boolean value => cases value <;> simp [styled,texts] <;> decide
  | array items =>
    have inner := Json.quote_styledItems (indent + 1) items
    have opening : Sql.quote ≠ '[' := by decide
    have closing : Sql.quote ≠ ']' := by decide
    simp [styled,texts,inner,opening,closing]
  | object members =>
    have inner := Json.quote_styledMembers (indent + 1) members
    have opening : Sql.quote ≠ '\x7b' := by decide
    have closing : Sql.quote ≠ '\x7d' := by decide
    simp [styled,texts,inner,opening,closing,quote_newline]

theorem Json.quote_styledItems (indent : Nat) (items : List Json) :
    Sql.quote ∈ styledItems indent items ↔ ∃ text ∈ itemTexts items, ¬Unquoted text := by
  cases items with
  | nil => simp [styledItems,itemTexts]
  | cons item items =>
    have first := Json.quote_styled indent item
    have rest := Json.quote_styledItems indent items
    have comma : Sql.quote ∉ (if items.isEmpty then [] else [',']) := by split <;> decide
    simp only [styledItems,itemTexts,List.mem_append,quote_newline,comma,first,rest,false_or,or_false]
    simp [or_and_right,exists_or]

theorem Json.quote_styledMembers (indent : Nat) (members : List (String × Json)) :
    Sql.quote ∈ styledMembers indent members ↔ ∃ text ∈ memberTexts members, ¬Unquoted text := by
  cases members with
  | nil => simp [styledMembers,memberTexts]
  | cons member members =>
    obtain ⟨name,value⟩ := member
    have first := Json.quote_styled indent value
    have rest := Json.quote_styledMembers indent members
    have comma : Sql.quote ∉ (if members.isEmpty then [] else [',']) := by split <;> decide
    have colon : Sql.quote ∉ [' ',':',' '] := by decide
    simp only [styledMembers,memberTexts,List.mem_append,quote_newline,comma,colon,first,rest,
      quote_quotedString,false_or,or_false]
    simp [or_and_right,exists_or,or_assoc]

end

theorem Json.toStyledString_keepsQuotes : KeepsQuotes toStyledString := by
  intro value
  rw [← Json.quote_styled 0 value,toStyledString]
  have blank : Sql.quote ∉ (value.styled 0).takeWhile (· = '\n') := by
    intro member
    have same := List.all_eq_true.mp List.all_takeWhile _ member
    exact absurd same (by decide)
  have last : Sql.quote ∉ ['\n'] := by decide
  have split : Sql.quote ∈ value.styled 0 ↔
      Sql.quote ∈ (value.styled 0).takeWhile (· = '\n') ∨
        Sql.quote ∈ (value.styled 0).dropWhile (· = '\n') := by
    rw [← List.mem_append,List.takeWhile_append_dropWhile]
  rw [split,List.mem_append]
  simp only [blank,last,false_or,or_false]

namespace Assembled

def quotedNumber : Assembled where
  orig := "a"
  startTime := 5
  legs := .empty
  links := []
  a := {(default : CallLeg) with
    uniqueid := "a",number := "+7'495",hangupCause := "busy",startTime := "1970-01-01 00:00:05"}
  b := [{(default : CallLeg) with stopTime := "1970-01-01 00:00:09"}]

theorem rows_read_quotedNumber :
    quotedNumber.VoipRowReads {} {} ∧ quotedNumber.RawRowReads Json.toStyledString := by
  obtain ⟨voip,raw⟩ := rows_read_iff {} {} Json.toStyledString Json.toStyledString_keepsQuotes quotedNumber
  refine ⟨voip.mpr (by decide),raw.mpr ⟨_,rfl,by decide,by decide⟩⟩

/-- A quote in the hangup cause ends the literal. -/
theorem quote_breaks_row : ¬∀ (env : Env) (v : DataVoipRecord.Unset) (record : Assembled),
    record.VoipRowReads env v := by
  intro reads
  let record : Assembled :=
    {quotedNumber with a := {quotedNumber.a with hangupCause := "can't connect"}}
  have row : RowReads _ "datavoiprecord" _ _ := reads {} {} record
  have plain := (rowReads_iff (DataVoipRecord.header_columns _) (by simp [DataVoipRecord.byColumn])).mp row
  have cause := ((DataVoipRecordReport.plain_iff {} {} record).mp plain).2.2
  exact absurd cause (by decide)

end Assembled
end Call45Aggr
