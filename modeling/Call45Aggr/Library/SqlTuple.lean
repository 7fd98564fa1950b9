import Mathlib.Data.List.Basic
import Mathlib.Data.Int.Notation
import Mathlib.Algebra.Order.Group.Unbundled.Int

/-! Parenthesized lists of SQL literals, in which a doubled quote is the only escape of
a string: how they are read, and when a list written without any escaping reads back as
itself. -/
namespace Call45Aggr.Library.Sql

inductive Literal
  | number (value : Int)
  | boolean (value : Bool)
  | text (value : String)
  deriving DecidableEq

def quote : Char := Char.ofNat 0x27

def decimal (value : Int) : List Char :=
  if value < 0 then '-' :: Nat.toDigits 10 value.natAbs else Nat.toDigits 10 value.natAbs

/-- What remains of a string after its opening quote: its value and the text behind. -/
def lexBody : List Char → Option (List Char × List Char)
  | [] => none
  | [c] => if c = quote then some ([],[]) else none
  | c :: d :: rest =>
    if c = quote then
      if d = quote then (lexBody rest).map fun (value,rest) => (quote :: value,rest)
      else some ([],d :: rest)
    else (lexBody (d :: rest)).map fun (value,rest) => (c :: value,rest)

def lexNumber (negative : Bool) (input : List Char) : Option (Literal × List Char) :=
  match input.takeWhile Char.isDigit with
  | [] => none
  | digits =>
    let magnitude : Int := Nat.ofDigitChars 10 digits 0
    some (.number (if negative then -magnitude else magnitude),input.dropWhile Char.isDigit)

def lexWord (input : List Char) : Option (Literal × List Char) :=
  if input.takeWhile Char.isAlpha = ['t','r','u','e'] then
    some (.boolean true,input.dropWhile Char.isAlpha)
  else if input.takeWhile Char.isAlpha = ['f','a','l','s','e'] then
    some (.boolean false,input.dropWhile Char.isAlpha)
  else none

def lexLiteral : List Char → Option (Literal × List Char)
  | [] => none
  | c :: rest =>
    if c = quote then (lexBody rest).map fun (value,rest) => (.text (String.ofList value),rest)
    else if c = '-' then lexNumber true rest
    else if c.isDigit then lexNumber false (c :: rest)
    else lexWord (c :: rest)

def skip (input : List Char) : List Char := input.dropWhile Char.isWhitespace

def lexItems : Nat → List Char → Option (List Literal × List Char)
  | 0, _ => none
  | fuel + 1, input => do
    let (item,rest) ← lexLiteral (skip input)
    match skip rest with
    | ',' :: rest =>
      let (items,rest) ← lexItems fuel rest
      some (item :: items,rest)
    | ')' :: rest => some ([item],rest)
    | _ => none

/-- Each literal takes at least one character, so the length is fuel enough. -/
def lexTuple (input : List Char) : Option (List Literal) :=
  match skip input with
  | '(' :: rest =>
    match lexItems rest.length rest with
    | some (items,rest) => if skip rest = [] then some items else none
    | none => none
  | _ => none

/-- The literal as it is written when nothing in it is escaped. -/
def Literal.written : Literal → List Char
  | .number value => decimal value
  | .boolean value => if value then ['t','r','u','e'] else ['f','a','l','s','e']
  | .text value => quote :: value.toList ++ [quote]

def tail : List Literal → List Char
  | [] => [')']
  | item :: items => ',' :: ' ' :: (item.written ++ tail items)

/-- The tuple as it is written, with a comma and a blank between two literals. -/
def tuple : List Literal → List Char
  | [] => ['(',')']
  | item :: items => '(' :: (item.written ++ tail items)

def Literal.Plain : Literal → Prop
  | .text value => quote ∉ value.toList
  | _ => True

instance (item : Literal) : Decidable item.Plain := by
  cases item <;> unfold Literal.Plain <;> infer_instance

theorem lexBody_other {c : Char} (other : c ≠ quote) (input : List Char) :
    lexBody (c :: input) = (lexBody input).map fun (value,rest) => (c :: value,rest) := by
  cases input <;> simp [lexBody,other]

theorem lexBody_doubled (input : List Char) :
    lexBody (quote :: quote :: input) = (lexBody input).map fun (value,rest) => (quote :: value,rest) := by
  simp [lexBody]

theorem lexBody_closed {c : Char} (other : c ≠ quote) (rest : List Char) :
    lexBody (quote :: c :: rest) = some ([],c :: rest) := by
  simp [lexBody,other]

theorem lexBody_plain {value : List Char} (plain : quote ∉ value) {c : Char} (other : c ≠ quote)
    (rest : List Char) : lexBody (value ++ quote :: c :: rest) = some (value,c :: rest) := by
  induction value with
  | nil => exact lexBody_closed other rest
  | cons d value ih =>
    have apart : d ≠ quote := fun same => plain (by simp [same])
    have later : quote ∉ value := fun member => plain (List.mem_cons_of_mem d member)
    rw [List.cons_append,lexBody_other apart,ih later]
    rfl

/-- A string written as it is reads back as itself only without a quote. A quote in it
either ends the value early, or is doubled by the next one and leaves the value a quote
behind from there on; `ahead` counts these. -/
theorem lexBody_exact {c : Char} (other : c ≠ quote) (rest behind : List Char) :
    ∀ (value : List Char) (ahead : Nat),
      lexBody (value ++ quote :: c :: rest) = some (List.replicate ahead quote ++ value,behind) →
        ahead = 0 ∧ quote ∉ value
  | [],ahead,read => by
    rw [List.nil_append,lexBody_closed other] at read
    have none : List.replicate ahead quote = [] := by simpa using (Prod.mk.inj (Option.some.inj read)).1.symm
    exact ⟨by simpa using none,by simp⟩
  | d :: value,ahead,read => by
    by_cases apart : d = quote
    · subst apart
      cases value with
      | nil =>
        rw [List.singleton_append,lexBody_doubled,lexBody_other other] at read
        obtain ⟨⟨outer,after⟩,inside,same⟩ := Option.map_eq_some_iff.mp read
        obtain ⟨⟨inner,last⟩,_,begins⟩ := Option.map_eq_some_iff.mp inside
        cases begins
        cases ahead with
        | zero => simp at same
        | succ ahead => cases ahead <;> simp [List.replicate_succ,other] at same
      | cons e value =>
        by_cases twice : e = quote
        · subst twice
          rw [List.cons_append,List.cons_append,lexBody_doubled] at read
          obtain ⟨⟨inner,after⟩,inside,same⟩ := Option.map_eq_some_iff.mp read
          have shifted : List.replicate ahead quote ++ quote :: quote :: value =
              quote :: (List.replicate (ahead + 1) quote ++ value) := by
            rw [List.replicate_succ',List.append_assoc,← List.cons_append,← List.replicate_succ]
            simp [List.replicate_succ']
          rw [shifted] at same
          obtain ⟨first,second⟩ := Prod.mk.inj same
          cases (List.cons.inj first).2
          cases second
          have smaller := lexBody_exact other rest behind value (ahead + 1) inside
          omega
        · rw [List.cons_append,List.cons_append,lexBody_closed twice] at read
          have none := (Prod.mk.inj (Option.some.inj read)).1
          simp at none
    · rw [List.cons_append,lexBody_other apart] at read
      obtain ⟨⟨inner,after⟩,inside,same⟩ := Option.map_eq_some_iff.mp read
      obtain ⟨first,second⟩ := Prod.mk.inj same
      cases ahead with
      | zero =>
        cases (List.cons.inj first).2
        cases second
        have plain := (lexBody_exact other rest behind value 0 inside).2
        exact ⟨rfl,by simp [plain,Ne.symm apart]⟩
      | succ ahead =>
        rw [List.replicate_succ,List.cons_append] at first
        exact absurd (List.cons.inj first).1 apart

/-- What can follow a literal in a tuple. -/
def Delimiter (c : Char) : Prop := c = ',' ∨ c = ')'

theorem Delimiter.facts {c : Char} (delimiter : Delimiter c) :
    c ≠ quote ∧ c.isDigit = false ∧ c.isAlpha = false ∧ c.isWhitespace = false := by
  rcases delimiter with rfl | rfl <;> decide

theorem takes {p : Char → Bool} {word : List Char} (all : ∀ c ∈ word, p c = true) {c : Char}
    (stop : p c = false) (rest : List Char) :
    (word ++ c :: rest).takeWhile p = word ∧ (word ++ c :: rest).dropWhile p = c :: rest := by
  rw [List.takeWhile_append_of_pos all,List.dropWhile_append_of_pos all]
  simp [stop]

theorem digits_all (n : Nat) : ∀ c ∈ Nat.toDigits 10 n, c.isDigit = true :=
  fun _ member => Nat.isDigit_of_mem_toDigits (by decide) (by decide) member

theorem lexNumber_digits (negative : Bool) (n : Nat) {c : Char} (delimiter : Delimiter c)
    (rest : List Char) : lexNumber negative (Nat.toDigits 10 n ++ c :: rest) =
      some (.number (if negative then -n else n),c :: rest) := by
  obtain ⟨taken,dropped⟩ := takes (digits_all n) delimiter.facts.2.1 rest
  unfold lexNumber
  rw [taken,dropped]
  split
  next none => exact absurd none Nat.toDigits_ne_nil
  next => simp [Nat.ofDigitChars_ten_toDigits]

theorem digit_facts {c : Char} (digit : c.isDigit = true) :
    c ≠ quote ∧ c ≠ '-' ∧ c.isWhitespace = false := by
  refine ⟨?_,?_,?_⟩
  · intro same
    subst same
    contradiction
  · intro same
    subst same
    contradiction
  · simp only [Char.isDigit,Bool.and_eq_true,decide_eq_true_eq] at digit
    simp only [Char.isWhitespace,Bool.or_eq_false_iff,decide_eq_false_iff_not]
    refine ⟨⟨⟨?_,?_⟩,?_⟩,?_⟩ <;> intro same <;> subst same <;> exact absurd digit (by decide)

theorem lexLiteral_number (value : Int) {c : Char} (delimiter : Delimiter c) (rest : List Char) :
    lexLiteral (decimal value ++ c :: rest) = some (.number value,c :: rest) := by
  unfold decimal
  split
  next negative =>
    have minus : lexLiteral ('-' :: (Nat.toDigits 10 value.natAbs ++ c :: rest)) =
        lexNumber true (Nat.toDigits 10 value.natAbs ++ c :: rest) := by
      simp [lexLiteral,show ('-' : Char) ≠ quote by decide]
    rw [List.cons_append,minus,lexNumber_digits true _ delimiter]
    simp only [if_true,Option.some.injEq,Prod.mk.injEq,Literal.number.injEq,and_true]
    omega
  next natural =>
    have number := lexNumber_digits false value.natAbs delimiter rest
    have all := digits_all value.natAbs
    cases digits : Nat.toDigits 10 value.natAbs with
    | nil => exact absurd digits Nat.toDigits_ne_nil
    | cons d ds =>
      rw [digits] at number all
      obtain ⟨other,unsigned,_⟩ := digit_facts (all d (by simp))
      have digit := all d (by simp)
      rw [List.cons_append] at number ⊢
      simp only [lexLiteral,other,unsigned,digit,if_true,if_false,number]
      simp only [Bool.false_eq_true,if_false,Option.some.injEq,Prod.mk.injEq,Literal.number.injEq,and_true]
      omega

theorem lexLiteral_word {first : Char} (unquoted : first ≠ quote) (unsigned : first ≠ '-')
    (letter : first.isDigit = false) (rest : List Char) :
    lexLiteral (first :: rest) = lexWord (first :: rest) := by
  simp only [lexLiteral,unquoted,unsigned,letter,Bool.false_eq_true,if_false]

theorem lexLiteral_boolean (value : Bool) {c : Char} (delimiter : Delimiter c) (rest : List Char) :
    lexLiteral ((Literal.boolean value).written ++ c :: rest) = some (.boolean value,c :: rest) := by
  have stop := delimiter.facts.2.2.1
  cases value with
  | true =>
    obtain ⟨taken,dropped⟩ := @takes Char.isAlpha ['t','r','u','e'] (List.all_eq_true.mp (by decide)) c stop rest
    have word : lexLiteral (['t','r','u','e'] ++ c :: rest) = lexWord (['t','r','u','e'] ++ c :: rest) :=
      lexLiteral_word (by decide) (by decide) (by decide) _
    exact word.trans (by rw [lexWord,taken,dropped]; simp)
  | false =>
    obtain ⟨taken,dropped⟩ := @takes Char.isAlpha ['f','a','l','s','e'] (List.all_eq_true.mp (by decide)) c stop rest
    have word : lexLiteral (['f','a','l','s','e'] ++ c :: rest) =
        lexWord (['f','a','l','s','e'] ++ c :: rest) :=
      lexLiteral_word (by decide) (by decide) (by decide) _
    exact word.trans (by rw [lexWord,taken,dropped]; simp)

theorem lexLiteral_text (value : String) (input : List Char) :
    lexLiteral ((Literal.text value).written ++ input) =
      (lexBody (value.toList ++ quote :: input)).map fun (value,rest) => (.text (String.ofList value),rest) := by
  simp [Literal.written,lexLiteral]

theorem lexLiteral_exact (item : Literal) {c : Char} (delimiter : Delimiter c) (rest behind : List Char) :
    lexLiteral (item.written ++ c :: rest) = some (item,behind) ↔ item.Plain ∧ behind = c :: rest := by
  cases item with
  | number value => simp [Literal.written,lexLiteral_number value delimiter,Literal.Plain,eq_comm]
  | boolean value => simp [lexLiteral_boolean value delimiter,Literal.Plain,eq_comm]
  | text value =>
    have other := delimiter.facts.1
    rw [lexLiteral_text]
    constructor
    · intro read
      obtain ⟨⟨inner,after⟩,inside,same⟩ := Option.map_eq_some_iff.mp read
      obtain ⟨first,rfl⟩ := Prod.mk.inj same
      have exactly : inner = value.toList := by
        have text := Literal.text.inj first
        simpa using congrArg String.toList text
      subst exactly
      have plain := (lexBody_exact other rest after value.toList 0 inside).2
      rw [lexBody_plain plain other] at inside
      exact ⟨plain,((Prod.mk.inj (Option.some.inj inside)).2).symm⟩
    · intro ⟨plain,same⟩
      rw [lexBody_plain plain other]
      simp [same]

theorem skip_of_head {c : Char} (solid : c.isWhitespace = false) (rest : List Char) :
    skip (c :: rest) = c :: rest := by
  simp [skip,solid]

theorem skip_blank (input : List Char) : skip (' ' :: input) = skip input := by
  simp [skip,show Char.isWhitespace ' ' = true by decide]

theorem skip_written (item : Literal) (input : List Char) :
    skip (item.written ++ input) = item.written ++ input := by
  cases item with
  | number value =>
    simp only [Literal.written,decimal]
    split
    · exact skip_of_head (by decide) _
    · have all := digits_all value.natAbs
      cases digits : Nat.toDigits 10 value.natAbs with
      | nil => exact absurd digits Nat.toDigits_ne_nil
      | cons d ds =>
        rw [digits] at all
        exact skip_of_head (digit_facts (all d (by simp))).2.2 _
  | boolean value => cases value <;> exact skip_of_head (by decide) _
  | text value => exact skip_of_head (by decide) _

theorem lexItems_blank (fuel : Nat) (input : List Char) :
    lexItems fuel (' ' :: input) = lexItems fuel input := by
  cases fuel with
  | zero => rfl
  | succ fuel => simp only [lexItems,skip_blank]

theorem lexItems_cons {fuel : Nat} {input rest : List Char} {item : Literal} {items : List Literal} :
    lexItems (fuel + 1) input = some (item :: items,rest) ↔
      ∃ behind, lexLiteral (skip input) = some (item,behind) ∧
        ((∃ after, skip behind = ',' :: after ∧ lexItems fuel after = some (items,rest)) ∨
          skip behind = ')' :: rest ∧ items = []) := by
  simp only [lexItems,Option.bind_eq_bind,Option.bind_eq_some_iff]
  constructor
  · intro ⟨⟨first,behind⟩,literal,after⟩
    dsimp only at after
    split at after
    next after' comma =>
      obtain ⟨⟨others,last⟩,inner,joined⟩ := Option.bind_eq_some_iff.mp after
      cases joined
      exact ⟨behind,literal,.inl ⟨after',comma,inner⟩⟩
    next closed =>
      cases after
      exact ⟨behind,literal,.inr ⟨closed,rfl⟩⟩
    next => contradiction
  · intro ⟨behind,literal,either⟩
    refine ⟨(item,behind),literal,?_⟩
    rcases either with ⟨after,comma,inner⟩ | ⟨closed,rfl⟩
    · simp [comma,inner]
    · simp [closed]

theorem lexItems_exact (items : List Literal) (item : Literal) (fuel : Nat) (rest : List Char)
    (enough : items.length < fuel) :
    lexItems fuel (item.written ++ tail items) = some (item :: items,rest) ↔
      (∀ other ∈ item :: items, other.Plain) ∧ rest = [] := by
  induction items generalizing item fuel with
  | nil =>
    obtain ⟨fuel,rfl⟩ := Nat.exists_eq_succ_of_ne_zero (by omega : fuel ≠ 0)
    have literal := lexLiteral_exact item (.inr rfl) []
    have closed : skip [')'] = [')'] := skip_of_head (by decide) []
    rw [lexItems_cons,skip_written,tail]
    constructor
    · intro ⟨behind,read,either⟩
      obtain ⟨plain,rfl⟩ := (literal behind).mp read
      rw [closed] at either
      rcases either with ⟨_,same,_⟩ | ⟨same,_⟩
      · simp at same
      · exact ⟨by simpa using plain,by simpa using same.symm⟩
    · intro ⟨plain,ended⟩
      subst ended
      exact ⟨[')'],(literal [')']).mpr ⟨plain item (by simp),rfl⟩,.inr ⟨closed,rfl⟩⟩
  | cons next items ih =>
    obtain ⟨fuel,rfl⟩ := Nat.exists_eq_succ_of_ne_zero (by omega : fuel ≠ 0)
    have literal := lexLiteral_exact item (.inl rfl) (' ' :: (next.written ++ tail items))
    have comma : skip (',' :: ' ' :: (next.written ++ tail items)) =
        ',' :: ' ' :: (next.written ++ tail items) := skip_of_head (by decide) _
    have later := ih next fuel (by simpa using enough)
    rw [← lexItems_blank] at later
    rw [lexItems_cons,skip_written,tail,List.forall_mem_cons,and_assoc,← later]
    constructor
    · intro ⟨behind,read,either⟩
      obtain ⟨plain,rfl⟩ := (literal behind).mp read
      rw [comma] at either
      rcases either with ⟨after,same,inner⟩ | ⟨_,none⟩
      · cases same
        exact ⟨plain,inner⟩
      · contradiction
    · intro ⟨plain,inner⟩
      exact ⟨_,(literal _).mpr ⟨plain,rfl⟩,.inl ⟨_,comma,inner⟩⟩

theorem length_tail (items : List Literal) : items.length < (tail items).length := by
  induction items with
  | nil => simp [tail]
  | cons item items ih =>
    simp only [tail,List.length_cons,List.length_append]
    omega

theorem tail_delimited (items : List Literal) : ∃ c rest, tail items = c :: rest ∧ Delimiter c := by
  cases items with
  | nil => exact ⟨_,_,rfl,.inr rfl⟩
  | cons item items => exact ⟨_,_,rfl,.inl rfl⟩

/-- What is written after the same literals can be told from the whole. -/
theorem tail_append_inj (items : List Literal) {first second : List Literal} :
    tail (items ++ first) = tail (items ++ second) ↔ tail first = tail second := by
  induction items with
  | nil => rfl
  | cons item items ih => simp [tail,ih]

theorem tail_number_inj {m n : Int} {first second : List Literal} :
    tail (.number m :: first) = tail (.number n :: second) ↔ m = n ∧ tail first = tail second := by
  constructor
  · intro same
    obtain ⟨c,rest,first_eq,c_delimits⟩ := tail_delimited first
    obtain ⟨d,rest',second_eq,d_delimits⟩ := tail_delimited second
    have written : decimal m ++ c :: rest = decimal n ++ d :: rest' := by
      simpa [tail,Literal.written,first_eq,second_eq] using same
    have read := lexLiteral_number m c_delimits rest
    rw [written,lexLiteral_number n d_delimits rest'] at read
    obtain ⟨number,behind⟩ := Prod.mk.inj (Option.some.inj read)
    exact ⟨(Literal.number.inj number).symm,by rw [first_eq,second_eq,behind]⟩
  · rintro ⟨rfl,same⟩
    simp [tail,same]

theorem tuple_cons_inj (item : Literal) {first second : List Literal} :
    tuple (item :: first) = tuple (item :: second) ↔ tail first = tail second := by
  simp [tuple]

/-- A tuple written without escapes reads as one tuple of its own literals exactly when
none of them holds a quote. -/
theorem lexTuple_exact (item : Literal) (items : List Literal) :
    lexTuple (tuple (item :: items)) = some (item :: items) ↔ ∀ other ∈ item :: items, other.Plain := by
  have enough : items.length < (item.written ++ tail items).length := by
    have bound := length_tail items
    rw [List.length_append]
    omega
  have opened : skip (tuple (item :: items)) = '(' :: (item.written ++ tail items) :=
    skip_of_head (by decide) _
  have exactly (rest : List Char) := lexItems_exact items item _ rest enough
  simp only [lexTuple,opened]
  cases read : lexItems (item.written ++ tail items).length (item.written ++ tail items) with
  | none =>
    have open' := exactly []
    rw [read] at open'
    simpa using open'
  | some result =>
    obtain ⟨found,rest⟩ := result
    have final := exactly rest
    rw [read] at final
    constructor
    · intro whole
      dsimp only at whole
      split at whole
      · cases whole
        exact (final.mp rfl).1
      · contradiction
    · intro plain
      have ended := exactly []
      rw [read] at ended
      cases ended.mpr ⟨plain,rfl⟩
      simp [skip]

end Call45Aggr.Library.Sql
