import Call45Aggr.NumberParsing
import Call45Aggr.Splitting

/-! `split_to` for `int`, against the fields of a text that are blank or numerals. -/
namespace Call45Aggr
open NumberParsing

namespace Splitting

/-- What is read of a field; `none` is an exception. -/
def read (value : List Char) : Option Int := toInteger .int (String.ofList (trim value))

def splitTo (sourceStr separators : List Char) : Option (List Int) :=
  (splitAny separators .skipBlank sourceStr).mapM read

/-- The texts between the separators. -/
def fields (sourceStr separators : List Char) : List (List Char) := sourceStr.splitOnP (· ∈ text separators)

/-- A numeral of an `int`, with whitespace around it. -/
def Holds (field : List Char) (n : Int) : Prop :=
  IntegerType.int.Contains n ∧ ∃ numeral back : List Char, field = numeral ++ back ∧ Numeral numeral n ∧ Blank back

/-- Fields that are blank or numerals, and the numbers that they hold. -/
inductive Lists : List (List Char) → List Int → Prop
  | nil : Lists [] []
  | blank {field : List Char} {fields : List (List Char)} {values : List Int} (blank : Blank field)
      (others : Lists fields values) : Lists (field :: fields) values
  | numeral {field : List Char} {fields : List (List Char)} {n : Int} {values : List Int} (holds : Holds field n)
      (others : Lists fields values) : Lists (field :: fields) (n :: values)

/-- A list of numbers is read from its text, and a text with a field of another kind is refused. -/
def Parses (sourceStr separators : List Char) : Prop :=
  (∀ values, Lists (fields sourceStr separators) values → splitTo sourceStr separators = some values) ∧
    ((∃ field ∈ fields sourceStr separators, ¬Blank field ∧ ∀ n, ¬Holds field n) →
      splitTo sourceStr separators = none)

/-- The trimmed field up to its first NUL. -/
def trimmed (field : List Char) : List Char := cString (String.ofList (trim field))

/-- Neither empty nor a numeral of an `int`, once it is trimmed. -/
def Refused (field : List Char) : Prop :=
  trimmed field ≠ [] ∧ ∀ n, IntegerType.int.Contains n → ¬Numeral (trimmed field) n

/-- The fields of a joined text are those that were joined. -/
theorem fields_joined {field separators : List Char} (free : ∀ c ∈ field, c ∉ text separators) {sep : Char}
    (separates : sep ∈ text separators) (rest : List Char) :
    fields field separators = [field] ∧ fields (field ++ sep :: rest) separators = field :: fields rest separators := by
  have plain : ∀ c ∈ field, decide (c ∈ text separators) = false := by simpa using free
  exact ⟨List.splitOnP_eq_singleton plain,
    List.splitOnP_append_cons_of_forall_mem plain sep (by simpa using separates) rest⟩

theorem fields_splitAny (sourceStr separators : List Char) :
    fields sourceStr separators = Call45Aggr.splitAny (text separators) sourceStr ∨
      fields sourceStr separators = Call45Aggr.splitAny (text separators) sourceStr ++ [[]] := by
  unfold fields
  induction sourceStr with
  | nil => exact .inr rfl
  | cons c src ih =>
    rw [List.splitOnP_cons_eq_if_modifyHead,Call45Aggr.splitAny]
    by_cases separates : c ∈ text separators
    · simpa [separates] using ih
    · rw [if_neg (by simpa using separates),if_neg separates]
      cases split : Call45Aggr.splitAny (text separators) src with
      | nil =>
        obtain rfl : src = [] := by
          by_contra filled
          exact splitAny_ne_nil _ filled split
        exact .inl rfl
      | cons field others =>
        rw [split] at ih
        rcases ih with same | same
        · simp [same]
        · simp [same]

/-- What the fields that are not empty are read as. -/
def parse (fields : List (List Char)) : Option (List Int) := (fields.filter fun field => field ≠ []).mapM read

theorem splitTo_parse (sourceStr separators : List Char) :
    splitTo sourceStr separators = parse (fields sourceStr separators) := by
  rw [splitTo,splitAny_eq,parse]
  rcases fields_splitAny sourceStr separators with same | same
  · simp [same]
  · simp [same]

/-- What holds a numeral is no blank and has no NUL, and the numeral is what is trimmed. -/
theorem holds_iff (field : List Char) (n : Int) : Holds field n ↔
    IntegerType.int.Contains n ∧ (∀ c ∈ field, c ≠ '\x00') ∧ Numeral (trim field) n := by
  constructor
  · rintro ⟨fits,numeral,back,rfl,written,behind⟩
    have plain := numeral_solid written
    obtain ⟨blanks,core,rfl,before,inner,solid⟩ := numeral_core written
    refine ⟨fits,?_,?_⟩
    · intro c member
      rcases List.mem_append.mp member with inside | space
      · exact plain c inside
      · rintro rfl
        exact absurd (behind _ space) (by decide)
    · rwa [trim_padded before behind (fun c first => solid c (List.mem_of_mem_head? first))
        fun c last => solid c (List.mem_of_mem_getLast? last)]
  · rintro ⟨fits,-,numeral⟩
    obtain ⟨front,back,split,before,behind⟩ := trim_split field
    exact ⟨fits,front ++ trim field,back,split,numeral_pad before numeral,behind⟩

theorem trimmed_numeral {field : List Char} {n : Int} (numeral : Numeral (trim field) n) :
    trimmed field = trim field := cString_ofList numeral

/-- A field without a NUL is read to its end. -/
theorem trimmed_plain {field : List Char} (plain : ∀ c ∈ field, c ≠ '\x00') : trimmed field = trim field := by
  obtain ⟨front,back,split,-⟩ := trim_split field
  rw [trimmed,cString,String.toList_ofList]
  refine List.takeWhile_eq_self_iff.mpr fun c member => ?_
  have inside : c ∈ field := split ▸ List.mem_append_left back (List.mem_append_right front member)
  simpa using plain c inside

theorem read_numeral {field : List Char} {n : Int} (numeral : Numeral (trimmed field) n) :
    read field = if IntegerType.int.Contains n then some n else none := by
  rw [read,toInteger_numeral .int numeral]
  by_cases fits : IntegerType.int.Contains n
  · rw [converted_contained fits]
  · have other : ¬IntegerType.int.Contains (converted .int n) := by
      intro inside
      by_cases same : converted .int n = n
      · exact fits (same ▸ inside)
      · exact absurd ((misread_iff .int n).mpr ⟨inside,same⟩) (by simp [Misread,IntegerType.isSigned,IntegerType.bound])
    rw [if_neg fits,if_neg other]

theorem read_holds {field : List Char} {n : Int} (holds : Holds field n) : read field = some n := by
  obtain ⟨fits,-,numeral⟩ := (holds_iff field n).mp holds
  rw [read_numeral (by rwa [trimmed_numeral numeral]),if_pos fits]

theorem holds_apart {field : List Char} {n : Int} (holds : Holds field n) : ¬Blank field ∧ ¬Refused field := by
  obtain ⟨fits,-,numeral⟩ := (holds_iff field n).mp holds
  constructor
  · intro blank
    rw [trim_blank blank] at numeral
    obtain ⟨_,_,read,-⟩ := subject_numeral numeral
    cases read
  · rintro ⟨-,other⟩
    exact other n fits (by rwa [trimmed_numeral numeral])

theorem read_refused {field : List Char} (refused : Refused field) : read field = none := by
  obtain ⟨filled,other⟩ := refused
  cases result : read field with
  | none => rfl
  | some value =>
    obtain ⟨n,numeral⟩ := (toInteger_some result).resolve_left filled
    rw [read_numeral numeral,if_neg fun fits => other n fits numeral] at result
    cases result

theorem read_accepted {field : List Char} (accepted : ¬Refused field) :
    trimmed field = [] ∧ read field = some 0 ∨
      ∃ n, IntegerType.int.Contains n ∧ Numeral (trimmed field) n ∧ read field = some n := by
  by_cases empty : trimmed field = []
  · exact .inl ⟨empty,toInteger_empty .int empty⟩
  · obtain ⟨n,fits,numeral⟩ : ∃ n, IntegerType.int.Contains n ∧ Numeral (trimmed field) n := by
      by_contra none
      exact accepted ⟨empty,fun n fits numeral => none ⟨n,fits,numeral⟩⟩
    exact .inr ⟨n,fits,numeral,by rw [read_numeral numeral,if_pos fits]⟩

theorem lists_kinds {fields : List (List Char)} {values : List Int} (lists : Lists fields values) :
    ∀ field ∈ fields, Blank field ∨ ∃ n, Holds field n := by
  induction lists with
  | nil => simp
  | blank blank others ih => exact List.forall_mem_cons.mpr ⟨.inl blank,ih⟩
  | numeral holds others ih => exact List.forall_mem_cons.mpr ⟨.inr ⟨_,holds⟩,ih⟩

theorem parse_empty (fields : List (List Char)) : parse ([] :: fields) = parse fields := by
  simp [parse]

theorem parse_cons {field : List Char} (filled : field ≠ []) (fields : List (List Char)) :
    parse (field :: fields) = (read field).bind fun n => (parse fields).map (n :: ·) := by
  rw [parse,List.filter_cons_of_pos (by simpa using filled),List.mapM_cons]
  cases read field with
  | none => rfl
  | some n => cases found : parse fields <;> simp_all [parse]

theorem parse_lists {fields : List (List Char)} {values : List Int} (lists : Lists fields values)
    (solid : ∀ field ∈ fields, Blank field → field = []) : parse fields = some values := by
  induction lists with
  | nil => rfl
  | @blank field fields values blank others ih =>
    obtain ⟨empty,solid⟩ := List.forall_mem_cons.mp solid
    rw [empty blank,parse_empty,ih solid]
  | @numeral field fields n values holds others ih =>
    obtain ⟨-,solid⟩ := List.forall_mem_cons.mp solid
    have filled : field ≠ [] := by
      rintro rfl
      exact (holds_apart holds).1 (fun c member => by cases member)
    rw [parse_cons filled,read_holds holds,ih solid]
    rfl

theorem parse_refused {fields : List (List Char)} {field : List Char} (member : field ∈ fields)
    (refused : Refused field) : parse fields = none := by
  have filled : field ≠ [] := by
    rintro rfl
    exact refused.1 rfl
  induction fields with
  | nil => cases member
  | cons first fields ih =>
    rcases List.mem_cons.mp member with rfl | later
    · rw [parse_cons filled,read_refused refused]
      rfl
    · by_cases empty : first = []
      · rw [empty,parse_empty,ih later]
      · rw [parse_cons empty,ih later]
        cases read first <;> rfl

theorem parse_accepted {fields : List (List Char)} (accepted : ∀ field ∈ fields, ¬Refused field) :
    ∃ values, parse fields = some values ∧ values.length = (fields.filter fun field => field ≠ []).length := by
  induction fields with
  | nil => exact ⟨[],rfl,rfl⟩
  | cons field fields ih =>
    obtain ⟨first,accepted⟩ := List.forall_mem_cons.mp accepted
    obtain ⟨values,parsed,length⟩ := ih accepted
    by_cases empty : field = []
    · refine ⟨values,by rw [empty,parse_empty,parsed],?_⟩
      rw [length,empty]
      rfl
    · obtain ⟨n,found⟩ : ∃ n, read field = some n :=
        (read_accepted first).elim (fun zero => ⟨0,zero.2⟩) fun ⟨n,_,_,found⟩ => ⟨n,found⟩
      refine ⟨n :: values,by rw [parse_cons empty,found,parsed]; rfl,?_⟩
      rw [List.filter_cons_of_pos (by simpa using empty),List.length_cons,List.length_cons,length]

/-- Blank fields and numerals hold a list, which is shorter than the fields that are not empty where one of these
is blank. -/
theorem lists_of {fields : List (List Char)} (kinds : ∀ field ∈ fields, Blank field ∨ ∃ n, Holds field n) :
    ∃ values, Lists fields values ∧ values.length ≤ (fields.filter fun field => field ≠ []).length ∧
      ((fields.filter fun field => field ≠ []).length ≤ values.length → ∀ field ∈ fields, Blank field → field = []) := by
  induction fields with
  | nil => exact ⟨[],.nil,le_rfl,fun _ field member => by cases member⟩
  | cons field fields ih =>
    obtain ⟨first,kinds⟩ := List.forall_mem_cons.mp kinds
    obtain ⟨values,lists,bound,exact⟩ := ih kinds
    rcases first with blank | ⟨n,holds⟩
    · by_cases empty : field = []
      · subst field
        refine ⟨values,.blank blank lists,bound,fun whole other member => ?_⟩
        rcases List.mem_cons.mp member with rfl | later
        · exact fun _ => rfl
        · exact exact whole other later
      · rw [List.filter_cons_of_pos (by simpa using empty),List.length_cons]
        exact ⟨values,.blank blank lists,by omega,fun whole => by omega⟩
    · have filled : field ≠ [] := by
        rintro rfl
        exact (holds_apart holds).1 (fun c member => by cases member)
      rw [List.filter_cons_of_pos (by simpa using filled),List.length_cons]
      refine ⟨n :: values,.numeral holds lists,by simpa using bound,fun whole other member blank => ?_⟩
      rcases List.mem_cons.mp member with rfl | later
      · exact absurd blank (holds_apart holds).1
      · exact exact (by simpa using whole) other later blank

/-- If nothing is refused, a text is parsed only if each of its fields is empty or a numeral. -/
theorem solid_of_parses {sourceStr separators : List Char} (parses : Parses sourceStr separators)
    (accepted : ∀ field ∈ fields sourceStr separators, ¬Refused field) :
    ∀ field ∈ fields sourceStr separators, field ≠ [] → ¬Blank field ∧ ∀ c ∈ field, c ≠ '\x00' := by
  obtain ⟨values,parsed,length⟩ := parse_accepted accepted
  have kinds : ∀ field ∈ fields sourceStr separators, Blank field ∨ ∃ n, Holds field n := by
    intro field member
    by_contra neither
    obtain ⟨filled,other⟩ := not_or.mp neither
    have threw := parses.2 ⟨field,member,filled,fun n holds => other ⟨n,holds⟩⟩
    rw [splitTo_parse,parsed] at threw
    cases threw
  obtain ⟨held,lists,-,exact⟩ := lists_of kinds
  have same := parses.1 held lists
  rw [splitTo_parse,parsed,Option.some_inj] at same
  intro field member filled
  have solid : ¬Blank field := fun blank => filled (exact (by rw [← same,length]) field member blank)
  obtain ⟨n,holds⟩ := (kinds field member).resolve_left solid
  exact ⟨solid,((holds_iff field n).mp holds).2.1⟩

/-- A list is parsed as it should be exactly if a field is refused, or each that is not empty has something else than
whitespace and no NUL. -/
theorem parses_iff (sourceStr separators : List Char) : Parses sourceStr separators ↔
    (∃ field ∈ fields sourceStr separators, Refused field) ∨
      ∀ field ∈ fields sourceStr separators, field ≠ [] → ¬Blank field ∧ ∀ c ∈ field, c ≠ '\x00' := by
  constructor
  · intro parses
    by_cases refused : ∃ field ∈ fields sourceStr separators, Refused field
    · exact .inl refused
    · exact .inr (solid_of_parses parses fun field member rejected => refused ⟨field,member,rejected⟩)
  · intro condition
    rw [Parses,splitTo_parse]
    by_cases refused : ∃ field ∈ fields sourceStr separators, Refused field
    · obtain ⟨field,member,rejected⟩ := refused
      refine ⟨fun values lists => ?_,fun _ => parse_refused member rejected⟩
      rcases lists_kinds lists field member with blank | ⟨n,holds⟩
      · exact absurd (by rw [trimmed,trim_blank blank]; rfl) rejected.1
      · exact absurd rejected (holds_apart holds).2
    · have solid := condition.resolve_left refused
      refine ⟨fun values lists => parse_lists lists fun field member blank => ?_,?_⟩
      · by_contra filled
        exact (solid field member filled).1 blank
      · rintro ⟨field,member,filled,other⟩
        have plain := (solid field member (by rintro rfl; exact filled fun c inside => by cases inside)).2
        have whole := trimmed_plain plain
        rcases read_accepted fun rejected => refused ⟨field,member,rejected⟩ with ⟨empty,-⟩ | ⟨n,fits,numeral,-⟩
        · exact absurd (blank_of_trim (whole ▸ empty)) filled
        · exact absurd ((holds_iff field n).mpr ⟨fits,plain,whole ▸ numeral⟩) (other n)

/-- The whitespace between two separators is read as zero. -/
theorem blank_zero : ¬∀ sourceStr separators : List Char, Parses sourceStr separators := by
  intro parses
  have split : fields "1, ,2".toList ",".toList = ["1".toList," ".toList,"2".toList] := by decide
  have accepted : (fields "1, ,2".toList ",".toList).all (fun field => (read field).isSome) = true := by
    rw [split]
    decide
  have solid := solid_of_parses (parses "1, ,2".toList ",".toList) fun field member refused => by
    have found := List.all_eq_true.mp accepted field member
    rw [read_refused refused] at found
    cases found
  refine (solid " ".toList (by rw [split]; decide) (by decide)).1 fun c member => ?_
  rw [List.mem_singleton.mp member]
  decide

end Splitting
end Call45Aggr
