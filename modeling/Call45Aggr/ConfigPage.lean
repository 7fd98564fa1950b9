import Call45Aggr.SettingsRoundTrip

/-! `config_view`: the dump of the settings with their secrets masked. -/
namespace Call45Aggr

/-- The regular expression `word(.*)|word(.*)` is the list of its words, of which none is empty. -/
structure SettingMask where
  path : String
  regexp : List String
  replace : String

namespace Settings

def settingsMasks : List SettingMask := [
  ⟨"db/source_connection_string",["password=","user="],""⟩,
  ⟨"db/output_connection_string",["password=","user="],""⟩,
  ⟨"db/online_connection_string",["password=","user="],""⟩]

end Settings

/-- What the dot of a regular expression does not match. -/
def lineEnd (c : Char) : Bool := c = '\n' || c = '\r'

/-- The leftmost match first; of the words there the first one, with the rest of its line. -/
def replaceFrom (words : List (List Char)) (replace : List Char) : Nat → List Char → List Char
  | 0, text => text
  | _ + 1, [] => []
  | fuel + 1, c :: text =>
    match words.find? fun word => word.isPrefixOf (c :: text) with
    | some word =>
      replace ++ replaceFrom words replace fuel (((c :: text).drop word.length).dropWhile (!lineEnd ·))
    | none => c :: replaceFrom words replace fuel text

/-- `std::regex_replace`; a text of this length has no more matches. -/
def regexReplace (text : String) (regexp : List String) (replace : String) : String :=
  .ofList (replaceFrom (regexp.map String.toList) replace.toList text.toList.length text.toList)

namespace ConfigView

def replaceHelper (cpp : JsonCpp) (mask : SettingMask) (path : List String) (current : Json) : Option Json :=
  Json.modifyPath path
    (fun current => (cpp.asString current).map fun text => .string (regexReplace text mask.regexp mask.replace))
    current

def replace (cpp : JsonCpp) (root : Json) (mask : SettingMask) : Option Json :=
  replaceHelper cpp mask (splitText mask.path "/") root

/-- The tree that `handle` writes on the page. -/
def handle (cpp : JsonCpp) (settings : Settings) : Option Json :=
  settings.dump.bind (Settings.settingsMasks.foldlM (replace cpp))

end ConfigView

/-- A text without what follows the first of the words in each line; `hidden` says that one
has come in this line. -/
def visible (words : List (List Char)) (hidden : Bool) : List Char → List Char
  | [] => []
  | c :: text =>
    if lineEnd c then c :: visible words false text
    else if hidden || words.any fun word => word.isPrefixOf (c :: text) then visible words true text
    else c :: visible words false text

section
variable {words : List (List Char)}

theorem visible_dropWhile (text : List Char) :
    visible words true text = visible words false (text.dropWhile (!lineEnd ·)) := by
  induction text with
  | nil => rfl
  | cons c text ih =>
    rw [List.dropWhile_cons]
    cases ending : lineEnd c with
    | true => simp [visible,ending]
    | false => simpa [visible,ending] using ih

theorem visible_append {word : List Char} (inLine : ∀ c ∈ word, lineEnd c = false) (text : List Char) :
    visible words true (word ++ text) = visible words true text := by
  induction word with
  | nil => rfl
  | cons c word ih =>
    obtain ⟨first,inLine⟩ := List.forall_mem_cons.mp inLine
    simpa [visible,first] using ih inLine

theorem replaceFrom_visible (inLine : ∀ word ∈ words, word ≠ [] ∧ ∀ c ∈ word, lineEnd c = false)
    {fuel : Nat} {text : List Char} (short : text.length ≤ fuel) :
    replaceFrom words [] fuel text = visible words false text := by
  induction fuel generalizing text with
  | zero =>
    cases List.length_eq_zero_iff.mp (Nat.le_zero.mp short)
    rfl
  | succ fuel ih =>
    cases text with
    | nil => rfl
    | cons c text =>
      have shorter : text.length ≤ fuel := Nat.le_of_succ_le_succ short
      unfold replaceFrom
      split
      next word found =>
        obtain ⟨filled,inLine⟩ := inLine word (List.mem_of_find?_eq_some found)
        have marked : (words.any fun word => word.isPrefixOf (c :: text)) = true :=
          List.any_eq_true.mpr ⟨word,List.mem_of_find?_eq_some found,by
            simpa using List.find?_some found⟩
        obtain ⟨rest,whole⟩ : word <+: c :: text := by simpa using List.find?_some found
        cases word with
        | nil => contradiction
        | cons first word =>
          obtain ⟨first_inLine,inLine⟩ := List.forall_mem_cons.mp inLine
          rw [List.cons_append,List.cons.injEq] at whole
          obtain ⟨rfl,rfl⟩ := whole
          have kept : (rest.dropWhile (!lineEnd ·)).length ≤ fuel := by
            have dropped := (List.dropWhile_sublist (l := rest) (!lineEnd ·)).length_le
            rw [List.length_append] at shorter
            omega
          have hidden : visible words false (first :: (word ++ rest)) = visible words true rest := by
            simp only [visible,marked,first_inLine,Bool.or_true,Bool.false_eq_true,if_false,if_true]
            exact visible_append inLine rest
          rw [hidden,visible_dropWhile,← ih kept]
          simp
      next none =>
        have unmarked : (words.any fun word => word.isPrefixOf (c :: text)) = false := by
          simpa using none
        simp only [visible,unmarked,Bool.or_false,Bool.false_eq_true,if_false,ite_self,ih shorter]

end

namespace Settings

def secretWords : List (List Char) := ["password=".toList,"user=".toList]

def visibleString (text : String) : String := .ofList (visible secretWords false text.toList)

theorem regexReplace_mask (text : String) :
    ∀ mask ∈ settingsMasks, regexReplace text mask.regexp mask.replace = visibleString text := by
  have inLine : ∀ word ∈ secretWords, word ≠ [] ∧ ∀ c ∈ word, lineEnd c = false := by
    simp [secretWords,lineEnd]
  have masked : regexReplace text ["password=","user="] "" = visibleString text :=
    congrArg String.ofList (replaceFrom_visible inLine (Nat.le_refl _))
  simp [settingsMasks,masked]

/-- The texts at the end of a path, also as elements of a list. -/
def textsAt (path : List String) (tree : Json) : List String :=
  match Json.findJson path tree with
  | some (.string text) => [text]
  | some (.array items) => items.filterMap fun item =>
    match item with
    | .string text => some text
    | _ => none
  | _ => []

/-- The page comes about, and each connection string on it is one without its secrets. -/
def HidesSecrets (cpp : JsonCpp) (s : Settings) : Prop :=
  ∃ tree, ConfigView.handle cpp s = some tree ∧
    (∀ text ∈ textsAt ["db","source_connection_string"] tree, text = visibleString s.sourceConnectionString) ∧
    (∀ text ∈ textsAt ["db","output_connection_string"] tree, text = visibleString s.outputConnectionString) ∧
    ∀ text ∈ textsAt ["db","online_connection_string"] tree,
      text ∈ s.onlineConnectionString.map visibleString

theorem dump_online {s : Settings} {tree : Json} (dumped : s.dump = some tree) :
    ∃ items, Json.findJson ["db","online_connection_string"] tree = some (.array items) := by
  obtain ⟨old,value,was,made,here⟩ :=
    (dump_found sequence_separate.paths s dumped).2 onlineMember onlineMember_mem
  rw [Json.findJson_null] at was
  cases was
  obtain ⟨_,rfl⟩ := dumpStrings_null_eq_some.mp made
  exact ⟨_,here⟩

theorem handle_none {cpp : JsonCpp} (documented : cpp.Documented) (s : Settings) :
    ConfigView.handle cpp s = none := by
  obtain ⟨number,asString⟩ := documented.asString
  refine Option.eq_none_iff_forall_ne_some.mpr ?_
  intro masked handled
  obtain ⟨tree,dumped,handled⟩ := Option.bind_eq_some_iff.mp handled
  obtain ⟨source,first,handled⟩ := Option.bind_eq_some_iff.mp handled
  obtain ⟨output,second,handled⟩ := Option.bind_eq_some_iff.mp handled
  obtain ⟨online,third,_⟩ := Option.bind_eq_some_iff.mp handled
  obtain ⟨items,list⟩ := dump_online dumped
  have kept : Json.findJson ["db","online_connection_string"] output = some (.array items) := by
    rw [Json.findJson_modifyPath_apart second (by decide),Json.findJson_modifyPath_apart first (by decide)]
    exact list
  obtain ⟨old,value,found,changed,_⟩ := Json.findJson_modifyPath third
  have reached : old = .array items := Option.some.inj (found.symm.trans kept)
  simp [reached,asString,Json.text] at changed

/-- The dump makes an array of the online connections whatever their number, and the mask
takes every value for a text. -/
theorem never_hides_secrets {cpp : JsonCpp} (documented : cpp.Documented) (s : Settings) :
    ¬s.HidesSecrets cpp := by
  intro hides
  obtain ⟨tree,handled,_⟩ := hides
  rw [handle_none documented] at handled
  contradiction

theorem never_hides_secrets_defaults : ¬HidesSecrets plainCpp {} := never_hides_secrets plainCpp_documented {}

theorem connections_not_shown : ¬∀ s : Settings, s.HidesSecrets plainCpp := by
  intro hides
  obtain ⟨tree,handled,_⟩ := hides {
    sourceConnectionString := "host=a user=b"
    onlineConnectionString := ["host=a password=c"]}
  rw [handle_none plainCpp_documented] at handled
  contradiction

end Settings

end Call45Aggr
