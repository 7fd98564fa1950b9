import Call45Aggr.SettingsFile
import Mathlib.Data.List.Basic

/-! What `settings::parse` makes of a configuration file, and what the file denotes. -/
namespace Call45Aggr

/-- As `readUnsigned`, but for a text only its number counts. -/
def JsonCpp.denotesUnsigned (cpp : JsonCpp) (as : Json → Option Nat) (bound : Nat) (json : Json) : Option Nat :=
  if json.isString then (cpp.asString json).bind (toNumber bound) else (as json).bind (numericCast bound)

/-- What an entry denotes; `none` where its type is unusable or its value out of range. -/
def JsonCpp.denotes (cpp : JsonCpp) : (type : FieldType) → Json → Option type.Value
  | .ushort, json => (cpp.denotesUnsigned cpp.asUInt 65536 json).map UInt16.ofNat
  | .uint, json => (cpp.denotesUnsigned cpp.asUInt 4294967296 json).map UInt32.ofNat
  | .size, json => (cpp.denotesUnsigned cpp.asUInt64 18446744073709551616 json).map UInt64.ofNat
  | .bool, json => cpp.asBool json
  | .string, json => cpp.asString json
  | .strings, json => cpp.readStrings json

/-- The types and ranges that the conversions take. A text is none for an integer. -/
def UsableUnsigned (as : Json → Option Nat) (bound : Nat) : Json → Prop
  | .null | .boolean _ => True
  | .int value => 0 ≤ value ∧ value < bound
  | .uint value => value < bound
  | .real bits => ∃ value ∈ as (.real bits), value < bound
  | .string _ | .array _ | .object _ => False

def JsonCpp.Usable (cpp : JsonCpp) : FieldType → Json → Prop
  | .ushort, json => UsableUnsigned cpp.asUInt 65536 json
  | .uint, json => UsableUnsigned cpp.asUInt 4294967296 json
  | .size, json => UsableUnsigned cpp.asUInt64 18446744073709551616 json
  | .bool, json =>
    match json with
    | .string _ | .array _ | .object _ => False
    | _ => True
  | .string, json =>
    match json with
    | .array _ | .object _ => False
    | _ => True
  | .strings, _ => True

section
variable {σ : Type}

def denoteMember (cpp : JsonCpp) (n : Json) (obj : σ) (m : Member σ) : Option σ := do
  let json ← Json.findJson m.subpaths n
  if json.isNull then return obj else (cpp.denotes m.type json).map (m.set obj)

/-- No entry is usable below a value that is no object. -/
def denoteObject (cpp : JsonCpp) (members : List (Member σ)) (obj : σ) (n : Json) : Option σ :=
  members.foldlM (denoteMember cpp n) obj

def Readable (cpp : JsonCpp) (n : Json) (m : Member σ) : Prop :=
  ∃ json, Json.findJson m.subpaths n = some json ∧ (json.isNull = true ∨ cpp.Usable m.type json)

end

namespace Settings

/-- What the header promises: the settings of the file, or those from before. -/
def promised (cpp : JsonCpp) (pathToFile : String) (file : Option String) (current : Option Settings) : Settings :=
  let result : Settings := {settingsPath := pathToFile}
  if pathToFile = "" then result
  else
    match file.map cpp.parse with
    | some (.value root) => (denoteObject cpp sequence result root).getD (current.getD result)
    | _ => current.getD result

def ParsesAs (cpp : JsonCpp) (pathToFile : String) (file : Option String) (current : Option Settings) : Prop :=
  parse cpp pathToFile file current = some (promised cpp pathToFile file current)

/-- The file is not read or is no JSON, or every entry in it can be converted as it is. -/
def Converts (cpp : JsonCpp) (pathToFile : String) (file : Option String) : Prop :=
  pathToFile = "" ∨ ∀ source ∈ file,
    match cpp.parse source with
    | .value root => ∀ m ∈ sequence, Readable cpp root m
    | .failed => True
    | .thrown => False

end Settings

theorem readUnsigned_isSome (cpp : JsonCpp) {as : Json → Option Nat} {range bound : Nat}
    {real : UInt64 → Option Nat} (documented : as = Json.unsigned range real) (truth : 1 < bound)
    (within : bound ≤ range) (json : Json) :
    (cpp.readUnsigned as bound json).isSome = true ↔ UsableUnsigned as bound json := by
  have cast (src : Nat) : (numericCast bound src).isSome = true ↔ src < bound := by
    rw [numericCast_eq (Nat.zero_lt_of_lt truth)]
    split <;> simp [*]
  subst documented
  cases json with
  | null =>
    simp only [JsonCpp.readUnsigned,Json.unsigned,Json.isString,UsableUnsigned]
    simp [cast,Nat.zero_lt_of_lt truth]
  | boolean value =>
    have small : value.toNat < bound := Nat.lt_of_lt_of_le (Bool.toNat_lt value) truth
    simp [JsonCpp.readUnsigned,Json.unsigned,Json.isString,UsableUnsigned,cast,small]
  | int value =>
    by_cases inside : 0 ≤ value ∧ value < range
    · simp only [JsonCpp.readUnsigned,Json.unsigned,if_pos inside,Json.isString,UsableUnsigned]
      simp only [Option.bind_eq_bind,Option.bind_some,Bool.false_eq_true,if_false,cast]
      omega
    · simp only [JsonCpp.readUnsigned,Json.unsigned,if_neg inside,UsableUnsigned]
      simp only [Option.bind_eq_bind,Option.bind_none,Option.isSome_none,Bool.false_eq_true,false_iff]
      omega
  | uint value =>
    by_cases inside : value < range
    · simp only [JsonCpp.readUnsigned,Json.unsigned,if_pos inside,Json.isString,UsableUnsigned]
      simp [cast]
    · simp only [JsonCpp.readUnsigned,Json.unsigned,if_neg inside,UsableUnsigned]
      simp only [Option.bind_eq_bind,Option.bind_none,Option.isSome_none,Bool.false_eq_true,false_iff]
      omega
  | real bits =>
    simp only [JsonCpp.readUnsigned,Json.unsigned,Json.isString,UsableUnsigned]
    cases real bits <;> simp [cast]
  | string => simp [JsonCpp.readUnsigned,Json.unsigned,UsableUnsigned]
  | array => simp [JsonCpp.readUnsigned,Json.unsigned,UsableUnsigned]
  | object => simp [JsonCpp.readUnsigned,Json.unsigned,UsableUnsigned]

theorem readStrings_isSome {cpp : JsonCpp} (documented : cpp.Documented) (json : Json) :
    (cpp.readStrings json).isSome = true := by
  obtain ⟨number,text⟩ := documented.asString
  cases json with
  | array items =>
    show ((items.filter Json.isString).mapM cpp.asString).isSome = true
    induction items with
    | nil => rfl
    | cons item items ih =>
      rw [List.filter_cons]
      cases item with
      | string value =>
        obtain ⟨texts,rest⟩ := Option.isSome_iff_exists.mp ih
        have first : cpp.asString (.string value) = some value := by rw [text,Json.text]
        simp [Json.isString,first,rest]
      | _ => exact ih
  | _ => rfl

theorem readMember_isSome {cpp : JsonCpp} (documented : cpp.Documented) (type : FieldType) (json : Json) :
    (cpp.readMember type json).isSome = true ↔ cpp.Usable type json := by
  obtain ⟨_,asUInt⟩ := documented.asUInt
  obtain ⟨_,asUInt64⟩ := documented.asUInt64
  obtain ⟨_,asBool⟩ := documented.asBool
  obtain ⟨_,asString⟩ := documented.asString
  cases type with
  | ushort =>
    simp only [JsonCpp.readMember,Option.isSome_map]
    exact readUnsigned_isSome cpp asUInt (by decide) (by decide) json
  | uint =>
    simp only [JsonCpp.readMember,Option.isSome_map]
    exact readUnsigned_isSome cpp asUInt (by decide) (by decide) json
  | size =>
    simp only [JsonCpp.readMember,Option.isSome_map]
    exact readUnsigned_isSome cpp asUInt64 (by decide) (by decide) json
  | bool =>
    simp only [JsonCpp.readMember,asBool,JsonCpp.Usable]
    cases json <;> simp [Json.truth]
  | string =>
    simp only [JsonCpp.readMember,asString,JsonCpp.Usable]
    cases json <;> simp [Json.text]
  | strings => exact iff_of_true (readStrings_isSome documented json) trivial

theorem denotesUnsigned_of_read {cpp : JsonCpp} {as : Json → Option Nat} {range bound : Nat}
    {real : UInt64 → Option Nat} (documented : as = Json.unsigned range real) {json : Json} {value : Nat}
    (read : cpp.readUnsigned as bound json = some value) : cpp.denotesUnsigned as bound json = some value := by
  obtain ⟨tmp,known,read⟩ := Option.bind_eq_some_iff.mp read
  cases json with
  | string => simp [documented,Json.unsigned] at known
  | _ => simpa [JsonCpp.denotesUnsigned,Json.isString,known] using read

theorem denotes_of_read {cpp : JsonCpp} (documented : cpp.Documented) {type : FieldType} {json : Json}
    {value : type.Value} (read : cpp.readMember type json = some value) :
    cpp.denotes type json = some value := by
  obtain ⟨_,asUInt⟩ := documented.asUInt
  obtain ⟨_,asUInt64⟩ := documented.asUInt64
  cases type with
  | ushort =>
    obtain ⟨number,known,rfl⟩ := Option.map_eq_some_iff.mp read
    simp [JsonCpp.denotes,denotesUnsigned_of_read asUInt known]
  | uint =>
    obtain ⟨number,known,rfl⟩ := Option.map_eq_some_iff.mp read
    simp [JsonCpp.denotes,denotesUnsigned_of_read asUInt known]
  | size =>
    obtain ⟨number,known,rfl⟩ := Option.map_eq_some_iff.mp read
    simp [JsonCpp.denotes,denotesUnsigned_of_read asUInt64 known]
  | bool => exact read
  | string => exact read
  | strings => exact read

section
variable {σ : Type}

theorem parseMember_isSome {cpp : JsonCpp} (documented : cpp.Documented) (n : Json) (obj : σ) (m : Member σ) :
    (∃ next, parseMember cpp n obj m = some next) ↔ Readable cpp n m := by
  unfold parseMember Readable
  cases found : Json.findJson m.subpaths n with
  | none => simp
  | some json =>
    simp only [Option.bind_eq_bind,Option.bind_some,Option.some.injEq,exists_eq_left']
    split
    next null => exact iff_of_true ⟨obj,rfl⟩ (.inl null)
    next full =>
      rw [← readMember_isSome documented,or_iff_right full,← Option.isSome_iff_exists,Option.isSome_map]

theorem denoteMember_of_parse {cpp : JsonCpp} (documented : cpp.Documented) {n : Json} {obj next : σ}
    {m : Member σ} (parsed : parseMember cpp n obj m = some next) : denoteMember cpp n obj m = some next := by
  obtain ⟨json,found,parsed⟩ := Option.bind_eq_some_iff.mp parsed
  refine Option.bind_eq_some_iff.mpr ⟨json,found,?_⟩
  split at parsed
  next null => rw [if_pos null]; exact parsed
  next full =>
    obtain ⟨value,read,rfl⟩ := Option.map_eq_some_iff.mp parsed
    rw [if_neg full,denotes_of_read documented read,Option.map_some]

theorem parseObject_isSome {cpp : JsonCpp} (documented : cpp.Documented) (n : Json) (members : List (Member σ))
    (obj : σ) : (∃ parsed, parseObject cpp members obj n = some parsed) ↔ ∀ m ∈ members, Readable cpp n m := by
  induction members generalizing obj with
  | nil => exact iff_of_true ⟨obj,rfl⟩ (by simp)
  | cons first members ih =>
    rw [List.forall_mem_cons,← parseMember_isSome documented n obj first]
    constructor
    · intro parses
      obtain ⟨parsed,parses⟩ := parses
      obtain ⟨next,here,rest⟩ := Option.bind_eq_some_iff.mp parses
      exact ⟨⟨next,here⟩,(ih next).mp ⟨parsed,rest⟩⟩
    · intro readable
      obtain ⟨⟨next,here⟩,readable⟩ := readable
      obtain ⟨parsed,rest⟩ := (ih next).mpr readable
      exact ⟨parsed,Option.bind_eq_some_iff.mpr ⟨next,here,rest⟩⟩

theorem denoteObject_of_parse {cpp : JsonCpp} (documented : cpp.Documented) {n : Json}
    {members : List (Member σ)} {obj parsed : σ} (parses : parseObject cpp members obj n = some parsed) :
    denoteObject cpp members obj n = some parsed := by
  induction members generalizing obj with
  | nil => exact parses
  | cons first members ih =>
    obtain ⟨next,here,rest⟩ := Option.bind_eq_some_iff.mp parses
    exact Option.bind_eq_some_iff.mpr ⟨next,denoteMember_of_parse documented here,ih rest⟩

end

namespace Settings

/-- The file is taken as the header promises exactly when all that it lists can be
converted as it stands; anything else leaves through an exception. -/
theorem parses_as_iff {cpp : JsonCpp} (documented : cpp.Documented) (pathToFile : String)
    (file : Option String) (current : Option Settings) :
    ParsesAs cpp pathToFile file current ↔ Converts cpp pathToFile file := by
  unfold ParsesAs Converts parse promised
  by_cases unnamed : pathToFile = ""
  · simp [unnamed]
  · simp only [if_neg unnamed,or_iff_right unnamed]
    cases file with
    | none => simp
    | some source =>
      simp only [Option.map_some,Option.mem_some_iff,forall_eq']
      cases cpp.parse source with
      | value root =>
        show parseObject cpp sequence {settingsPath := pathToFile} root = some _ ↔
          ∀ m ∈ sequence, Readable cpp root m
        rw [← parseObject_isSome documented root sequence {settingsPath := pathToFile}]
        constructor
        · intro parses
          exact ⟨_,parses⟩
        · intro parses
          obtain ⟨parsed,parses⟩ := parses
          simp only [parses,denoteObject_of_parse documented parses,Option.getD_some]
      | failed => simp
      | thrown => simp

theorem parses_as_port : ParsesAs plainCpp "aggr.json" (some "\x7b\"web_port\":81\x7d") none := by
  refine (parses_as_iff plainCpp_documented _ _ _).mpr (.inr ?_)
  intro source read
  cases read
  show ∀ m ∈ sequence, Readable plainCpp (.object [("web_port",.int 81)]) m
  have port : UsableUnsigned plainCpp.asUInt 65536 (.int 81) := ⟨by decide,by decide⟩
  simp only [sequence,List.forall_mem_cons]
  repeat' apply And.intro
  all_goals first | exact ⟨_,rfl,.inr port⟩ | exact ⟨_,rfl,.inl rfl⟩ | simp

theorem port_too_great : ¬∀ pathToFile file current, ParsesAs plainCpp pathToFile file current := by
  intro parses
  have parsed := parses "aggr.json" (some "\x7b\"web_port\":70000\x7d") none
  have thrown : parse plainCpp "aggr.json" (some "\x7b\"web_port\":70000\x7d") none = none := by
    show parseObject plainCpp sequence {settingsPath := "aggr.json"} (.object [("web_port",.int 70000)]) = none
    rfl
  rw [ParsesAs,thrown] at parsed
  contradiction

end Settings

end Call45Aggr
