import Call45Aggr.SettingsFile
import Mathlib.Data.List.Basic

/-! Reading back the tree that `dump_object` makes. -/
namespace Call45Aggr

theorem assignStrings_replicate (v : List String) (done : List Json) :
    assignStrings v done.length (.array (done ++ List.replicate v.length .null)) =
      some (.array (done ++ v.map .string)) := by
  induction v generalizing done with
  | nil => simp [assignStrings]
  | cons first v ih =>
    have next := ih (done ++ [.string first])
    rw [List.length_append,List.length_singleton] at next
    have set : (done ++ List.replicate (first :: v).length Json.null).set done.length (.string first) =
        done ++ [.string first] ++ List.replicate v.length .null := by
      simp [List.replicate_succ]
    simp only [assignStrings,Json.assignAt,set,Option.bind_some]
    rw [next]
    simp

theorem dumpStrings_null (v : List String) :
    dumpStrings v .null = if v.length < 4294967296 then some (.array (v.map .string)) else none := by
  unfold dumpStrings
  split
  · simpa [Json.resize] using assignStrings_replicate v []
  · rfl

theorem dumpStrings_null_eq_some {v : List String} {json : Json} :
    dumpStrings v .null = some json ↔ v.length < 4294967296 ∧ json = .array (v.map .string) := by
  rw [dumpStrings_null,Option.ite_none_right_eq_some,Option.some.injEq,@eq_comm _ json]

theorem mapM_asString {cpp : JsonCpp} (documented : cpp.Documented) (v : List String) :
    ((v.map Json.string).filter Json.isString).mapM cpp.asString = some v := by
  obtain ⟨number,text⟩ := documented.asString
  induction v with
  | nil => rfl
  | cons first v ih =>
    simp only [List.map_cons,List.filter_cons,Json.isString,if_true,List.mapM_cons,ih]
    simp [text,Json.text]

theorem readUnsigned_number (cpp : JsonCpp) {as : Json → Option Nat} {bound value : Nat} {json : Json}
    (number : json.isString = false) (tmp : as json = some value) (small : value < bound) :
    cpp.readUnsigned as bound json = some value := by
  simp [JsonCpp.readUnsigned,tmp,number,numericCast_of_lt small]

theorem unsigned_int {range value : Nat} {real : UInt64 → Option Nat} (small : value < range) :
    Json.unsigned range real (.int value) = some value := by
  have inside : (0 : Int) ≤ value ∧ (value : Int) < range := by omega
  rw [Json.unsigned,if_pos inside,Int.toNat_natCast]

theorem readMember_dumpValue {cpp : JsonCpp} (documented : cpp.Documented) {type : FieldType}
    {v : type.Value} {json : Json} (dumped : dumpValue type v .null = some json) :
    json.isNull = false ∧ cpp.readMember type json = some v := by
  obtain ⟨_,asUInt⟩ := documented.asUInt
  obtain ⟨_,asUInt64⟩ := documented.asUInt64
  obtain ⟨_,asBool⟩ := documented.asBool
  obtain ⟨_,asString⟩ := documented.asString
  cases type with
  | ushort =>
    cases dumped
    have small : v.toNat < 65536 := v.toNat_lt
    have tmp : cpp.asUInt (.int v.toNat) = some v.toNat := by
      rw [asUInt]
      exact unsigned_int (Nat.lt_trans small (by decide))
    refine ⟨rfl,?_⟩
    rw [JsonCpp.readMember,readUnsigned_number cpp rfl tmp small]
    simp
  | uint =>
    cases dumped
    have small : v.toNat < 4294967296 := v.toNat_lt
    have tmp : cpp.asUInt (.uint v.toNat) = some v.toNat := by
      rw [asUInt]
      exact if_pos small
    refine ⟨rfl,?_⟩
    rw [JsonCpp.readMember,readUnsigned_number cpp rfl tmp small]
    simp
  | size =>
    cases dumped
    have small : v.toNat < 18446744073709551616 := v.toNat_lt
    have tmp : cpp.asUInt64 (.uint v.toNat) = some v.toNat := by
      rw [asUInt64]
      exact if_pos small
    refine ⟨rfl,?_⟩
    rw [JsonCpp.readMember,readUnsigned_number cpp rfl tmp small]
    simp
  | bool =>
    cases dumped
    exact ⟨rfl,by simp [JsonCpp.readMember,asBool,Json.truth]⟩
  | string =>
    cases dumped
    exact ⟨rfl,by simp [JsonCpp.readMember,asString,Json.text]⟩
  | strings =>
    obtain ⟨_,rfl⟩ := dumpStrings_null_eq_some.mp dumped
    exact ⟨rfl,mapM_asString documented v⟩

section
variable {σ : Type}

/-- The paths lead apart, and a member keeps its value when a later one is set. -/
structure Separate (members : List (Member σ)) : Prop where
  paths : members.Pairwise fun m other => Json.Apart m.subpaths other.subpaths
  fields : members.Pairwise fun m other => ∀ obj v, m.get (other.set obj v) = m.get obj
  own : ∀ m ∈ members, ∀ obj v, m.get (m.set obj v) = v

theorem dump_found {members : List (Member σ)}
    (paths : members.Pairwise fun m other => Json.Apart m.subpaths other.subpaths) (obj : σ) {start tree : Json}
    (dumped : members.foldlM (dumpMember obj) start = some tree) :
    (∀ path, (∀ m ∈ members, Json.Apart m.subpaths path) →
      Json.findJson path tree = Json.findJson path start) ∧
    ∀ m ∈ members, ∃ old value, Json.findJson m.subpaths start = some old ∧
      dumpValue m.type (m.get obj) old = some value ∧ Json.findJson m.subpaths tree = some value := by
  induction members generalizing start with
  | nil =>
    cases dumped
    exact ⟨fun _ _ => rfl,by simp⟩
  | cons first members ih =>
    obtain ⟨apart,paths⟩ := List.pairwise_cons.mp paths
    obtain ⟨next,modified,dumped⟩ := Option.bind_eq_some_iff.mp dumped
    obtain ⟨others,each⟩ := ih paths dumped
    refine ⟨fun path away => ?_,fun m member => ?_⟩
    · rw [others path fun m member => away m (List.mem_cons_of_mem _ member)]
      exact Json.findJson_modifyPath_apart modified (away first List.mem_cons_self)
    · rcases List.mem_cons.mp member with rfl | member
      · obtain ⟨old,value,was,made,here⟩ := Json.findJson_modifyPath modified
        refine ⟨old,value,was,made,?_⟩
        rw [others m.subpaths fun other member => And.symm (apart other member)]
        exact here
      · obtain ⟨old,value,was,made,here⟩ := each m member
        rw [Json.findJson_modifyPath_apart modified (apart m member)] at was
        exact ⟨old,value,was,made,here⟩

theorem dump_exists {members : List (Member σ)}
    (paths : members.Pairwise fun m other => Json.Apart m.subpaths other.subpaths) (obj : σ) {start : Json}
    (ready : ∀ m ∈ members, ∃ old value, Json.findJson m.subpaths start = some old ∧
      dumpValue m.type (m.get obj) old = some value) :
    ∃ tree, members.foldlM (dumpMember obj) start = some tree := by
  induction members generalizing start with
  | nil => exact ⟨start,rfl⟩
  | cons first members ih =>
    obtain ⟨apart,paths⟩ := List.pairwise_cons.mp paths
    obtain ⟨old,value,found,dumped⟩ := ready first List.mem_cons_self
    obtain ⟨next,modified⟩ := Json.modifyPath_some found dumped
    obtain ⟨tree,rest⟩ := ih paths fun m member => by
      rw [Json.findJson_modifyPath_apart modified (apart m member)]
      exact ready m (List.mem_cons_of_mem _ member)
    exact ⟨tree,Option.bind_eq_some_iff.mpr ⟨next,modified,rest⟩⟩

theorem dumpObject_iff {members : List (Member σ)}
    (paths : members.Pairwise fun m other => Json.Apart m.subpaths other.subpaths) (obj : σ) :
    (∃ tree, dumpObject members obj = some tree) ↔
      ∀ m ∈ members, ∃ value, dumpValue m.type (m.get obj) .null = some value := by
  constructor
  · intro dumps m member
    obtain ⟨tree,dumped⟩ := dumps
    obtain ⟨old,value,found,made,_⟩ := (dump_found paths obj dumped).2 m member
    rw [Json.findJson_null] at found
    cases found
    exact ⟨value,made⟩
  · intro values
    refine dump_exists paths obj fun m member => ?_
    obtain ⟨value,made⟩ := values m member
    exact ⟨.null,value,Json.findJson_null _,made⟩

theorem parse_found {cpp : JsonCpp} {members : List (Member σ)} (separate : Separate members) (obj : σ)
    {n : Json} (found : ∀ m ∈ members, ∃ json, Json.findJson m.subpaths n = some json ∧
      json.isNull = false ∧ cpp.readMember m.type json = some (m.get obj)) (start : σ) :
    ∃ parsed, parseObject cpp members start n = some parsed ∧
      (∀ m ∈ members, m.get parsed = m.get obj) ∧
      ∀ m : Member σ, (∀ other ∈ members, ∀ obj v, m.get (other.set obj v) = m.get obj) →
        m.get parsed = m.get start := by
  have fields := separate.fields
  have own := separate.own
  clear separate
  induction members generalizing start with
  | nil => exact ⟨start,rfl,by simp,fun _ _ => rfl⟩
  | cons first members ih =>
    obtain ⟨later,fields⟩ := List.pairwise_cons.mp fields
    obtain ⟨json,read,value,known⟩ := found first List.mem_cons_self
    have set : parseMember cpp n start first = some (first.set start (first.get obj)) := by
      simp [parseMember,read,value,known]
    obtain ⟨parsed,rest,each,others⟩ := ih (fun m member => found m (List.mem_cons_of_mem _ member))
      (first.set start (first.get obj)) fields fun m member => own m (List.mem_cons_of_mem _ member)
    refine ⟨parsed,Option.bind_eq_some_iff.mpr ⟨_,set,rest⟩,fun m member => ?_,fun m apart => ?_⟩
    · rcases List.mem_cons.mp member with rfl | member
      · rw [others m fun other member => later other member]
        exact own m List.mem_cons_self start (m.get obj)
      · exact each m member
    · rw [others m fun other member => apart other (List.mem_cons_of_mem _ member)]
      exact apart first List.mem_cons_self start _

end

namespace Settings

theorem sequence_subpaths : sequence.map Member.subpaths = [["threads_count"],["web_port"],["max_call_time"],
    ["table_reload_time"],["max_queue_size"],["use_core_dump"],["db","source_connection_string"],
    ["db","output_connection_string"],["db","online_connection_string"],["db","sql_insert_buffer_size"],
    ["db","read_threshold_second"],["db","read_waiting_second"],["log","file"],["log","graylog_source"],
    ["log","graylog_host"],["log","graylog_port"],["instanceId"],["instanceName"],["db","bandwidth"],
    ["thread","sync_period"],["thread","max_loader_threads_count"],["log","level"],["type"]] := by
  decide +kernel

theorem sequence_separate : Separate sequence where
  paths := by
    refine List.pairwise_map.mp ?_
    rw [sequence_subpaths]
    decide
  fields := by
    simp only [sequence,List.pairwise_cons,List.forall_mem_cons]
    repeat' apply And.intro
    all_goals first | exact fun _ _ => rfl | simp
  own := by
    simp only [sequence,List.forall_mem_cons]
    repeat' apply And.intro
    all_goals first | exact fun _ _ => rfl | simp

/-- The one list among the members. -/
def onlineMember : Member Settings :=
  ⟨"db/online_connection_string",.strings,(·.onlineConnectionString),
    fun s v => {s with onlineConnectionString := v}⟩

theorem onlineMember_mem : onlineMember ∈ sequence := by
  simp [sequence,onlineMember]

def RoundTrips (cpp : JsonCpp) (s : Settings) : Prop :=
  ∃ tree parsed, s.dump = some tree ∧ parseObject cpp sequence {} tree = some parsed ∧
    ∀ m ∈ sequence, m.get parsed = m.get s

theorem dumpValue_sequence (s : Settings) :
    (∀ m ∈ sequence, ∃ value, dumpValue m.type (m.get s) .null = some value) ↔
      s.onlineConnectionString.length < 4294967296 := by
  constructor
  · intro values
    obtain ⟨value,dumped⟩ := values onlineMember onlineMember_mem
    exact (dumpStrings_null_eq_some.mp dumped).1
  · intro small
    have online : ∃ value, dumpStrings s.onlineConnectionString .null = some value :=
      ⟨_,dumpStrings_null_eq_some.mpr ⟨small,rfl⟩⟩
    simp only [sequence,List.forall_mem_cons]
    repeat' apply And.intro
    all_goals first | exact ⟨_,rfl⟩ | exact online | simp

/-- The settings come back from their dump exactly when the index of `dump_helper` can
reach the end of the list of connections. -/
theorem round_trips_iff {cpp : JsonCpp} (documented : cpp.Documented) (s : Settings) :
    s.RoundTrips cpp ↔ s.onlineConnectionString.length < 4294967296 := by
  rw [← dumpValue_sequence,← dumpObject_iff sequence_separate.paths]
  constructor
  · intro trip
    obtain ⟨tree,_,dumped,_⟩ := trip
    exact ⟨tree,dumped⟩
  · intro dumps
    obtain ⟨tree,dumped⟩ := dumps
    have found : ∀ m ∈ sequence, ∃ json, Json.findJson m.subpaths tree = some json ∧ json.isNull = false ∧
        cpp.readMember m.type json = some (m.get s) := by
      intro m member
      obtain ⟨old,json,was,made,here⟩ := (dump_found sequence_separate.paths s dumped).2 m member
      rw [Json.findJson_null] at was
      cases was
      exact ⟨json,here,readMember_dumpValue documented made⟩
    obtain ⟨parsed,read,each,_⟩ := parse_found sequence_separate s found {}
    exact ⟨tree,parsed,dumped,read,each⟩

theorem round_trips_two : RoundTrips plainCpp {webPort := 65535, onlineConnectionString := ["host=a",""]} :=
  (round_trips_iff plainCpp_documented _).mpr (by decide)

theorem round_trip_endless : ¬∀ s : Settings, s.RoundTrips plainCpp := by
  intro trips
  have small := (round_trips_iff plainCpp_documented
    {onlineConnectionString := List.replicate 4294967296 ""}).mp (trips _)
  rw [List.length_replicate] at small
  exact Nat.lt_irrefl _ small

end Settings

end Call45Aggr
