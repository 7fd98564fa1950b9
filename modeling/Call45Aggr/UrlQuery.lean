import Call45Aggr.Common
import Call45Aggr.Library.SortedMap
import Call45Aggr.Split
import Mathlib.Data.List.Lex

/-! `parse_url`: the path of a request and its parameters. -/
namespace Call45Aggr
open Library

abbrev Bytes := List UInt8

instance byteOrder : LinearOrder UInt8 where
  le_refl := UInt8.le_refl
  le_trans _ _ _ := UInt8.le_trans
  le_antisymm _ _ := UInt8.le_antisymm
  le_total := UInt8.le_total
  lt_iff_le_not_ge a b := by
    rw [UInt8.not_le]
    exact ⟨fun less => ⟨UInt8.le_of_lt less,less⟩,And.right⟩
  toDecidableLE := inferInstance

def hexValue (c : UInt8) : Option Nat :=
  let code := c.toNat
  if 48 ≤ code ∧ code ≤ 57 then some (code - 48)
  else if 65 ≤ code ∧ code ≤ 70 then some (code - 55)
  else if 97 ≤ code ∧ code ≤ 102 then some (code - 87)
  else none

def scanHexDigits (text : Bytes) : Option Int :=
  match text.map hexValue |>.takeWhile Option.isSome with
  | [] => none
  | digits => some (digits.foldl (fun value digit => value * 16 + digit.getD 0) 0)

/-- A prefix `0x` is passed over. -/
def scanHexNumber : Bytes → Option Int
  | zero :: x :: text =>
    if zero = '0'.toUInt8 ∧ (x = 'x'.toUInt8 ∨ x = 'X'.toUInt8) then scanHexDigits text
    else scanHexDigits (zero :: x :: text)
  | text => scanHexDigits text

/-- `is >> std::hex >> value` on a text too short for an overflow. -/
def scanHex (text : Bytes) : Option Int :=
  match text.dropWhile fun c => isspace (Char.ofUInt8 c) with
  | [] => none
  | sign :: text =>
    if sign = '-'.toUInt8 then (scanHexNumber text).map (- ·)
    else if sign = '+'.toUInt8 then scanHexNumber text
    else scanHexNumber (sign :: text)

/-- The result, and what `out` holds then. -/
def urlDecode : Bytes → Bool × Bytes
  | [] => (true,[])
  | c :: text =>
    if c = '%'.toUInt8 then
      match text with
      | high :: low :: text =>
        match scanHex [high,low] with
        | some value =>
          let (decoded,out) := urlDecode text
          (decoded,UInt8.ofInt value :: out)
        | none => (false,[])
      | _ => (false,[])
    else
      let (decoded,out) := urlDecode text
      (decoded,(if c = '+'.toUInt8 then ' '.toUInt8 else c) :: out)

def splitBy (url : Bytes) (separator : UInt8) : Bytes × Bytes :=
  (url.takeWhile (· ≠ separator),(url.dropWhile (· ≠ separator)).tail)

def assignParameter (params : SortedMap Bytes Bytes) (kvRaw : Bytes) : SortedMap Bytes Bytes :=
  let kv := splitBy kvRaw '='.toUInt8
  params.insert (urlDecode kv.1).2 (urlDecode kv.2).2

def parseUrl (url : Bytes) : Bytes × SortedMap Bytes Bytes :=
  if '?'.toUInt8 ∈ url then
    let (path,keyPairValues) := splitBy url '?'.toUInt8
    (path,(splitAny ['&'.toUInt8] keyPairValues).foldl assignParameter .empty)
  else (url,.empty)

def isAlphanumeric (c : UInt8) : Bool :=
  let code := c.toNat
  48 ≤ code && code ≤ 57 || 65 ≤ code && code ≤ 90 || 97 ≤ code && code ≤ 122

/-- The second text is the first one with every byte that is not alphanumeric as `%` and
two hex digits. -/
inductive Escaped : Bytes → Bytes → Prop
  | nil : Escaped [] []
  | plain {c : UInt8} {text written : Bytes} (alphanumeric : isAlphanumeric c = true)
      (rest : Escaped text written) : Escaped (c :: text) (c :: written)
  | percent {c high low : UInt8} {text written : Bytes} (other : isAlphanumeric c = false)
      (high_digit : hexValue high = some (c.toNat / 16)) (low_digit : hexValue low = some (c.toNat % 16))
      (rest : Escaped text written) : Escaped (c :: text) ('%'.toUInt8 :: high :: low :: written)

def EscapedPair (pair : Bytes × Bytes) (part : Bytes) : Prop :=
  ∃ key value, Escaped pair.1 key ∧ Escaped pair.2 value ∧ part = key ++ '='.toUInt8 :: value

theorem isAlphanumeric_ne {c other : UInt8} (alphanumeric : isAlphanumeric c = true)
    (special : isAlphanumeric other = false) : c ≠ other := by
  rintro rfl
  rw [special] at alphanumeric
  contradiction

theorem isAlphanumeric_not_space {c : UInt8} (alphanumeric : isAlphanumeric c = true) :
    isspace (Char.ofUInt8 c) = false := by
  have code : (Char.ofUInt8 c).toNat = c.toNat := rfl
  have space : Char.ofUInt8 c ≠ ' ' := by
    intro same
    have blank := code.symm.trans (congrArg Char.toNat same)
    simp [isAlphanumeric,blank] at alphanumeric
  simp only [isAlphanumeric,Bool.or_eq_true,Bool.and_eq_true,decide_eq_true_eq] at alphanumeric
  simp only [isspace,code,space,decide_false,Bool.false_or,decide_eq_false_iff_not]
  omega

theorem hexValue_alphanumeric {c : UInt8} {value : Nat} (digit : hexValue c = some value) :
    isAlphanumeric c = true := by
  simp only [isAlphanumeric,Bool.or_eq_true,Bool.and_eq_true,decide_eq_true_eq]
  unfold hexValue at digit
  grind

theorem scanHex_digits {high low : UInt8} {first second : Nat} (high_digit : hexValue high = some first)
    (low_digit : hexValue low = some second) : scanHex [high,low] = some ((first * 16 + second : Nat) : Int) := by
  have alphanumeric := hexValue_alphanumeric high_digit
  have minus : high ≠ '-'.toUInt8 := isAlphanumeric_ne alphanumeric (by decide)
  have plus : high ≠ '+'.toUInt8 := isAlphanumeric_ne alphanumeric (by decide)
  have none : hexValue 'x'.toUInt8 = none ∧ hexValue 'X'.toUInt8 = none := by decide
  have small : low ≠ 'x'.toUInt8 := by
    rintro rfl
    simp [none] at low_digit
  have great : low ≠ 'X'.toUInt8 := by
    rintro rfl
    simp [none] at low_digit
  simp [scanHex,isAlphanumeric_not_space alphanumeric,minus,plus,scanHexNumber,small,great,scanHexDigits,
    high_digit,low_digit]

theorem urlDecode_escaped {text written : Bytes} (escaped : Escaped text written) :
    urlDecode written = (true,text) := by
  induction escaped with
  | nil => rfl
  | plain alphanumeric _ ih =>
    have percent := @isAlphanumeric_ne _ '%'.toUInt8 alphanumeric (by decide)
    have plus := @isAlphanumeric_ne _ '+'.toUInt8 alphanumeric (by decide)
    rw [urlDecode.eq_def]
    simp only [if_neg percent,if_neg plus,ih]
  | @percent c _ _ _ _ _ high_digit low_digit _ ih =>
    have code : c.toNat / 16 * 16 + c.toNat % 16 = c.toNat := Nat.div_add_mod' _ _
    have read := scanHex_digits high_digit low_digit
    rw [code] at read
    have byte : UInt8.ofInt c.toNat = c := by
      have small : ((c.toNat : Int) % 256).toNat = c.toNat := by
        have bound := c.toNat_lt
        omega
      exact (congrArg UInt8.ofNat small).trans UInt8.ofNat_toNat
    simp only [urlDecode,if_true,read,ih,byte]

theorem escaped_free {text written : Bytes} (escaped : Escaped text written) :
    ∀ c ∈ written, isAlphanumeric c = true ∨ c = '%'.toUInt8 := by
  induction escaped with
  | nil => simp
  | plain alphanumeric _ ih => exact List.forall_mem_cons.mpr ⟨.inl alphanumeric,ih⟩
  | percent _ high_digit low_digit _ ih =>
    refine List.forall_mem_cons.mpr ⟨.inr rfl,?_⟩
    simp only [List.forall_mem_cons]
    exact ⟨.inl (hexValue_alphanumeric high_digit),.inl (hexValue_alphanumeric low_digit),ih⟩

theorem escaped_ne {text written : Bytes} (escaped : Escaped text written) {separator : UInt8}
    (special : isAlphanumeric separator = false) (percent : separator ≠ '%'.toUInt8) :
    ∀ c ∈ written, c ≠ separator := by
  intro c member
  rcases escaped_free escaped c member with alphanumeric | rfl
  · exact isAlphanumeric_ne alphanumeric special
  · exact percent.symm

theorem splitBy_append {first : Bytes} {separator : UInt8} (free : ∀ c ∈ first, c ≠ separator)
    (second : Bytes) : splitBy (first ++ separator :: second) separator = (first,second) := by
  have passed : ∀ c ∈ first, decide (c ≠ separator) = true := by simpa using free
  unfold splitBy
  rw [List.takeWhile_append_of_pos passed,List.dropWhile_append_of_pos passed]
  simp

theorem escapedPair_part {pair : Bytes × Bytes} {part : Bytes} (escaped : EscapedPair pair part) :
    part ≠ [] ∧ ∀ c ∈ part, c ≠ '&'.toUInt8 := by
  obtain ⟨key,value,escaped_key,escaped_value,rfl⟩ := escaped
  refine ⟨by simp,?_⟩
  intro c member
  rcases List.mem_append.mp member with member | member
  · exact escaped_ne escaped_key (by decide) (by decide) c member
  · rcases List.mem_cons.mp member with rfl | member
    · decide
    · exact escaped_ne escaped_value (by decide) (by decide) c member

theorem escapedPairs_parts {pairs : List (Bytes × Bytes)} {parts : List Bytes}
    (escaped : List.Forall₂ EscapedPair pairs parts) : ∀ part ∈ parts, part ≠ [] ∧ ∀ c ∈ part, c ≠ '&'.toUInt8 := by
  induction escaped with
  | nil => simp
  | cons first _ ih => exact List.forall_mem_cons.mpr ⟨escapedPair_part first,ih⟩

theorem assignParameter_escaped {pair : Bytes × Bytes} {part : Bytes} (escaped : EscapedPair pair part)
    (params : SortedMap Bytes Bytes) : assignParameter params part = params.insert pair.1 pair.2 := by
  obtain ⟨key,value,escaped_key,escaped_value,rfl⟩ := escaped
  have free := @escaped_ne _ _ escaped_key '='.toUInt8 (by decide) (by decide)
  simp only [assignParameter,splitBy_append free,urlDecode_escaped escaped_key,urlDecode_escaped escaped_value]

theorem foldl_assignParameter {pairs : List (Bytes × Bytes)} {parts : List Bytes}
    (escaped : List.Forall₂ EscapedPair pairs parts) (params : SortedMap Bytes Bytes) :
    parts.foldl assignParameter params = pairs.foldl (fun params pair => params.insert pair.1 pair.2) params := by
  induction escaped generalizing params with
  | nil => rfl
  | cons first _ ih => rw [List.foldl_cons,List.foldl_cons,assignParameter_escaped first,ih]

/-- The query of a map, with its pairs in any order and the digits in either case, leads
back to it. -/
theorem parseUrl_query {path : Bytes} (free : '?'.toUInt8 ∉ path) {params : SortedMap Bytes Bytes}
    {pairs : List (Bytes × Bytes)} (order : pairs.Perm params.entries) {parts : List Bytes}
    (escaped : List.Forall₂ EscapedPair pairs parts) :
    parseUrl (path ++ '?'.toUInt8 :: ['&'.toUInt8].intercalate parts) = (path,params) := by
  have before : ∀ c ∈ path, c ≠ '?'.toUInt8 := fun c member same => free (same ▸ member)
  unfold parseUrl
  rw [if_pos (by simp),splitBy_append before]
  simp only [splitAny_intercalate (escapedPairs_parts escaped),foldl_assignParameter escaped,SortedMap.foldl_insert order]

/-- `/x?id=a%2Fb` -/
theorem parseUrl_query_slash :
    parseUrl ([47,120] ++ '?'.toUInt8 :: ['&'.toUInt8].intercalate [[105,100,61,97,37,50,70,98]]) =
      ([47,120],SortedMap.empty.insert [105,100] [97,47,98]) := by
  have escaped : EscapedPair ([105,100],[97,47,98]) [105,100,61,97,37,50,70,98] :=
    ⟨[105,100],[97,37,50,70,98],.plain rfl (.plain rfl .nil),
      .plain rfl (.percent rfl rfl rfl (.plain rfl .nil)),rfl⟩
  exact parseUrl_query (by decide) (.refl _) (.cons escaped .nil)

end Call45Aggr
