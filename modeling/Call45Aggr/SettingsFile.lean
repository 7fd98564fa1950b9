import Call45Aggr.JsonValue
import Call45Aggr.NumberParsing
import Call45Aggr.Model
import Call45Aggr.Split

/-! The settings as a JSON tree: `dump_object`, `parse_object` and `settings::parse`. -/
namespace Call45Aggr

inductive Parsed
  | value (root : Json)
  | failed
  | thrown

/-- The conversions of a `Json::Value` and `CharReader::parse`; `none` is an exception. -/
structure JsonCpp where
  asUInt : Json → Option Nat
  asUInt64 : Json → Option Nat
  asBool : Json → Option Bool
  asString : Json → Option String
  parse : String → Parsed

namespace Json

/-- The documented conversion to an unsigned integer; a double has one of its own. -/
def unsigned (bound : Nat) (real : UInt64 → Option Nat) : Json → Option Nat
  | .null => some 0
  | .int value => if 0 ≤ value ∧ value < bound then some value.toNat else none
  | .uint value => if value < bound then some value else none
  | .real bits => real bits
  | .boolean value => some value.toNat
  | .string _ | .array _ | .object _ => none

def truth (real : UInt64 → Bool) : Json → Option Bool
  | .null => some false
  | .int value => some (decide (value ≠ 0))
  | .uint value => some (decide (value ≠ 0))
  | .real bits => some (real bits)
  | .boolean value => some value
  | .string _ | .array _ | .object _ => none

def text (number : Json → String) : Json → Option String
  | .null => some ""
  | .string value => some value
  | .boolean value => some (if value then "true" else "false")
  | .array _ | .object _ => none
  | json => some (number json)

end Json

structure JsonCpp.Documented (cpp : JsonCpp) : Prop where
  asUInt : ∃ real, cpp.asUInt = Json.unsigned 4294967296 real
  asUInt64 : ∃ real, cpp.asUInt64 = Json.unsigned 18446744073709551616 real
  asBool : ∃ real, cpp.asBool = Json.truth real
  asString : ∃ number, cpp.asString = Json.text number

/-- The library where no value is a double; of texts it knows a few. -/
def plainCpp : JsonCpp where
  asUInt := Json.unsigned 4294967296 fun _ => none
  asUInt64 := Json.unsigned 18446744073709551616 fun _ => none
  asBool := Json.truth fun _ => true
  asString := Json.text fun json =>
    match json with
    | .int value => toString value
    | .uint value => toString value
    | _ => ""
  parse source :=
    if source = "\x7b\x7d" then .value (.object [])
    else if source = "\x7b\"web_port\":70000\x7d" then .value (.object [("web_port",.int 70000)])
    else if source = "\x7b\"web_port\":81\x7d" then .value (.object [("web_port",.int 81)])
    else .failed

theorem plainCpp_documented : plainCpp.Documented :=
  ⟨⟨_,rfl⟩,⟨_,rfl⟩,⟨_,rfl⟩,⟨_,rfl⟩⟩

inductive FieldType
  | ushort
  | uint
  | size
  | bool
  | string
  | strings
  deriving DecidableEq

abbrev FieldType.Value : FieldType → Type
  | .ushort => UInt16
  | .uint => UInt32
  | .size => UInt64
  | .bool => Bool
  | .string => String
  | .strings => List String

/-- `meta::member`: the path in the tree and the member of the object. -/
structure Member (σ : Type) where
  path : String
  type : FieldType
  get : σ → type.Value
  set : σ → type.Value → σ

def Member.subpaths {σ : Type} (m : Member σ) : List String := splitText m.path "/"

def assignStrings : List String → Nat → Json → Option Json
  | [], _, current => some current
  | value :: v, idx, current => (current.assignAt idx (.string value)).bind (assignStrings v (idx + 1))

/-- `dump_helper` of a list at the end of its path. The 32-bit index never reaches a
greater size, and the loop does not end. -/
def dumpStrings (v : List String) (current : Json) : Option Json :=
  if v.length < 4294967296 then (current.resize v.length).bind (assignStrings v 0) else none

/-- An `unsigned short` is promoted to `int`. -/
def dumpValue : (type : FieldType) → type.Value → Json → Option Json
  | .ushort, v, _ => some (.int v.toNat)
  | .uint, v, _ => some (.uint v.toNat)
  | .size, v, _ => some (.uint v.toNat)
  | .bool, v, _ => some (.boolean v)
  | .string, v, _ => some (.string v)
  | .strings, v, current => dumpStrings v current

/-- `read_json` of an integer type, and the cast after it. -/
def JsonCpp.readUnsigned (cpp : JsonCpp) (as : Json → Option Nat) (bound : Nat) (json : Json) : Option Nat := do
  let tmp ← as json
  if json.isString then
    let text ← cpp.asString json
    toNumber bound text
  else numericCast bound tmp

def JsonCpp.readStrings (cpp : JsonCpp) : Json → Option (List String)
  | .array items => (items.filter Json.isString).mapM cpp.asString
  | _ => some []

def JsonCpp.readMember (cpp : JsonCpp) : (type : FieldType) → Json → Option type.Value
  | .ushort, json => (cpp.readUnsigned cpp.asUInt 65536 json).map UInt16.ofNat
  | .uint, json => (cpp.readUnsigned cpp.asUInt 4294967296 json).map UInt32.ofNat
  | .size, json => (cpp.readUnsigned cpp.asUInt64 18446744073709551616 json).map UInt64.ofNat
  | .bool, json => cpp.asBool json
  | .string, json => cpp.asString json
  | .strings, json => cpp.readStrings json

section
variable {σ : Type}

def dumpMember (obj : σ) (result : Json) (m : Member σ) : Option Json :=
  Json.modifyPath m.subpaths (dumpValue m.type (m.get obj)) result

def dumpObject (members : List (Member σ)) (obj : σ) : Option Json := members.foldlM (dumpMember obj) .null

def parseMember (cpp : JsonCpp) (n : Json) (obj : σ) (m : Member σ) : Option σ := do
  let json ← Json.findJson m.subpaths n
  if json.isNull then return obj else (cpp.readMember m.type json).map (m.set obj)

def parseObject (cpp : JsonCpp) (members : List (Member σ)) (obj : σ) (n : Json) : Option σ :=
  members.foldlM (parseMember cpp n) obj

end

def Settings.sequence : List (Member Settings) := [
  ⟨"threads_count",.uint,(·.threadsCount),fun s v => {s with threadsCount := v}⟩,
  ⟨"web_port",.ushort,(·.webPort),fun s v => {s with webPort := v}⟩,
  ⟨"max_call_time",.uint,(·.maxCallTime),fun s v => {s with maxCallTime := v}⟩,
  ⟨"table_reload_time",.uint,(·.tableReloadTime),fun s v => {s with tableReloadTime := v}⟩,
  ⟨"max_queue_size",.uint,(·.maxQueueSize),fun s v => {s with maxQueueSize := v}⟩,
  ⟨"use_core_dump",.bool,(·.useCoreDump),fun s v => {s with useCoreDump := v}⟩,
  ⟨"db/source_connection_string",.string,(·.sourceConnectionString),
    fun s v => {s with sourceConnectionString := v}⟩,
  ⟨"db/output_connection_string",.string,(·.outputConnectionString),
    fun s v => {s with outputConnectionString := v}⟩,
  ⟨"db/online_connection_string",.strings,(·.onlineConnectionString),
    fun s v => {s with onlineConnectionString := v}⟩,
  ⟨"db/sql_insert_buffer_size",.uint,(·.sqlInsertBufferSize),fun s v => {s with sqlInsertBufferSize := v}⟩,
  ⟨"db/read_threshold_second",.uint,(·.readThresholdSecond),fun s v => {s with readThresholdSecond := v}⟩,
  ⟨"db/read_waiting_second",.uint,(·.readWaitingSecond),fun s v => {s with readWaitingSecond := v}⟩,
  ⟨"log/file",.string,(·.pathToLogFile),fun s v => {s with pathToLogFile := v}⟩,
  ⟨"log/graylog_source",.string,(·.graylogSource),fun s v => {s with graylogSource := v}⟩,
  ⟨"log/graylog_host",.string,(·.graylogHost),fun s v => {s with graylogHost := v}⟩,
  ⟨"log/graylog_port",.ushort,(·.graylogPort),fun s v => {s with graylogPort := v}⟩,
  ⟨"instanceId",.uint,(·.instanceId),fun s v => {s with instanceId := v}⟩,
  ⟨"instanceName",.string,(·.instanceName),fun s v => {s with instanceName := v}⟩,
  ⟨"db/bandwidth",.size,(·.dbBandwidth),fun s v => {s with dbBandwidth := v}⟩,
  ⟨"thread/sync_period",.size,(·.syncThreadPeriod),fun s v => {s with syncThreadPeriod := v}⟩,
  ⟨"thread/max_loader_threads_count",.uint,(·.loaderThreadCount),fun s v => {s with loaderThreadCount := v}⟩,
  ⟨"log/level",.string,(·.logLevel),fun s v => {s with logLevel := v}⟩,
  ⟨"type",.string,(·.type),fun s v => {s with type := v}⟩]

def Settings.dump (s : Settings) : Option Json := dumpObject sequence s

/-- `file` is the content of the file if it can be opened, `current` are the settings of
the program if it has any. -/
def Settings.parse (cpp : JsonCpp) (pathToFile : String) (file : Option String)
    (current : Option Settings) : Option Settings :=
  let result : Settings := {settingsPath := pathToFile}
  if pathToFile = "" then some result
  else
    let backupConfig := current.getD result
    match file with
    | none => some backupConfig
    | some source =>
      match cpp.parse source with
      | .value root => parseObject cpp sequence result root
      | .failed => some backupConfig
      | .thrown => none

end Call45Aggr
