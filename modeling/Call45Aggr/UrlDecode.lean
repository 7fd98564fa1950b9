import Call45Aggr.UrlQuery

/-! `url_decode` against the grammar of percent encoding. -/
namespace Call45Aggr
namespace UrlDecode

def IsHex (c : UInt8) : Prop := (hexValue c).isSome = true

instance (c : UInt8) : Decidable (IsHex c) := inferInstanceAs (Decidable (_ = true))

/-- Every `%` is followed by two hex digits. -/
def Followed (text : Bytes) : Prop :=
  ∀ before rest : Bytes, text = before ++ '%'.toUInt8 :: rest →
    ∃ high low behind, rest = high :: low :: behind ∧ IsHex high ∧ IsHex low

/-- The second text is the first one with every `%` and two hex digits replaced by their byte and every `+` by a
space. -/
inductive Decoded : Bytes → Bytes → Prop
  | nil : Decoded [] []
  | percent {high low : UInt8} {first second : Nat} {text out : Bytes} (high_digit : hexValue high = some first)
      (low_digit : hexValue low = some second) (rest : Decoded text out) :
      Decoded ('%'.toUInt8 :: high :: low :: text) (UInt8.ofNat (first * 16 + second) :: out)
  | plus {text out : Bytes} (rest : Decoded text out) : Decoded ('+'.toUInt8 :: text) (' '.toUInt8 :: out)
  | other {c : UInt8} {text out : Bytes} (percent : c ≠ '%'.toUInt8) (plus : c ≠ '+'.toUInt8) (rest : Decoded text out) :
      Decoded (c :: text) (c :: out)

/-- It succeeds on the texts of the grammar alone, and decodes these. -/
def Exact (text : Bytes) : Prop :=
  ((urlDecode text).1 = true ↔ Followed text) ∧ (Followed text → Decoded text (urlDecode text).2)

/-- The two bytes behind each `%`, or fewer at the end, with the text read from the left. -/
def escapes : Bytes → List Bytes
  | [] => []
  | c :: text =>
    if c = '%'.toUInt8 then
      match text with
      | high :: low :: text => [high,low] :: escapes text
      | cut => [cut]
    else escapes text

def HexPair (escape : Bytes) : Prop := ∃ high low, escape = [high,low] ∧ IsHex high ∧ IsHex low

/-- What the stream reads a number from: a hex digit, alone or behind a blank or a sign, but no `0x`. -/
def Readable (high low : UInt8) : Prop :=
  (isspace (Char.ofUInt8 high) = true ∨ high = '-'.toUInt8 ∨ high = '+'.toUInt8) ∧ IsHex low ∨
    IsHex high ∧ ¬(high = '0'.toUInt8 ∧ (low = 'x'.toUInt8 ∨ low = 'X'.toUInt8))

def Refused (escape : Bytes) : Prop := ∀ high low, escape = [high,low] → ¬Readable high low

theorem hex_facts {c : UInt8} (hex : IsHex c) : isspace (Char.ofUInt8 c) = false ∧ c ≠ '-'.toUInt8 ∧ c ≠ '+'.toUInt8 ∧
    c ≠ '%'.toUInt8 ∧ c ≠ 'x'.toUInt8 ∧ c ≠ 'X'.toUInt8 := by
  obtain ⟨value,digit⟩ := Option.isSome_iff_exists.mp hex
  have alphanumeric := hexValue_alphanumeric digit
  refine ⟨isAlphanumeric_not_space alphanumeric,isAlphanumeric_ne alphanumeric (by decide),
    isAlphanumeric_ne alphanumeric (by decide),isAlphanumeric_ne alphanumeric (by decide),?_,?_⟩
  · rintro rfl
    exact absurd hex (by decide)
  · rintro rfl
    exact absurd hex (by decide)

theorem scanHexDigits_isSome (c : UInt8) (text : Bytes) : (scanHexDigits (c :: text)).isSome = true ↔ IsHex c := by
  unfold scanHexDigits IsHex
  cases digit : hexValue c with
  | none => simp [digit]
  | some value => simp [digit]

theorem scanHexNumber_pair (high low : UInt8) : (scanHexNumber [high,low]).isSome = true ↔
    IsHex high ∧ ¬(high = '0'.toUInt8 ∧ (low = 'x'.toUInt8 ∨ low = 'X'.toUInt8)) := by
  rw [scanHexNumber]
  split
  next zero => simp [zero,scanHexDigits]
  next other => rw [scanHexDigits_isSome,and_iff_left other]

theorem scanHex_blank {c : UInt8} (blank : isspace (Char.ofUInt8 c) = true) (text : Bytes) :
    scanHex (c :: text) = scanHex text := by
  simp [scanHex,blank]

theorem scanHex_solid {c : UInt8} (solid : isspace (Char.ofUInt8 c) = false) (text : Bytes) : scanHex (c :: text) =
    if c = '-'.toUInt8 then (scanHexNumber text).map (- ·)
    else if c = '+'.toUInt8 then scanHexNumber text
    else scanHexNumber (c :: text) := by
  simp [scanHex,solid]

theorem scanHex_single (c : UInt8) : (scanHex [c]).isSome = true ↔ IsHex c := by
  cases blank : isspace (Char.ofUInt8 c) with
  | true =>
    rw [scanHex_blank blank]
    refine iff_of_false (by decide) fun hex => ?_
    rw [(hex_facts hex).1] at blank
    cases blank
  | false =>
    rw [scanHex_solid blank]
    by_cases minus : c = '-'.toUInt8
    · rw [if_pos minus]
      exact iff_of_false (by decide) fun hex => (hex_facts hex).2.1 minus
    · by_cases plus : c = '+'.toUInt8
      · rw [if_neg minus,if_pos plus]
        exact iff_of_false (by decide) fun hex => (hex_facts hex).2.2.1 plus
      · rw [if_neg minus,if_neg plus]
        exact scanHexDigits_isSome c []

theorem scanHex_isSome (high low : UInt8) : (scanHex [high,low]).isSome = true ↔ Readable high low := by
  rw [Readable]
  cases blank : isspace (Char.ofUInt8 high) with
  | true =>
    have unread : ¬IsHex high := fun hex => by simp [(hex_facts hex).1] at blank
    rw [scanHex_blank blank,scanHex_single]
    simp [unread]
  | false =>
    rw [scanHex_solid blank]
    by_cases minus : high = '-'.toUInt8
    · have unread : ¬IsHex high := fun hex => (hex_facts hex).2.1 minus
      rw [if_pos minus,Option.isSome_map]
      rw [or_iff_left fun pair => unread pair.1,and_iff_right (.inr (.inl minus))]
      exact scanHexDigits_isSome low []
    · by_cases plus : high = '+'.toUInt8
      · have unread : ¬IsHex high := fun hex => (hex_facts hex).2.2.1 plus
        rw [if_neg minus,if_pos plus]
        rw [or_iff_left fun pair => unread pair.1,and_iff_right (.inr (.inr plus))]
        exact scanHexDigits_isSome low []
      · rw [if_neg minus,if_neg plus,scanHexNumber_pair]
        simp [minus,plus]

theorem hex_readable {high low : UInt8} (first : IsHex high) (second : IsHex low) : Readable high low :=
  .inr ⟨first,fun zero => zero.2.elim (hex_facts second).2.2.2.2.1 (hex_facts second).2.2.2.2.2⟩

theorem hexPair_accepted {escape : Bytes} (pair : HexPair escape) : ¬Refused escape := by
  obtain ⟨high,low,rfl,first,second⟩ := pair
  exact fun refused => refused high low rfl (hex_readable first second)

theorem urlDecode_percent (high low : UInt8) (text : Bytes) : urlDecode ('%'.toUInt8 :: high :: low :: text) =
    match scanHex [high,low] with
    | some value => ((urlDecode text).1,UInt8.ofInt value :: (urlDecode text).2)
    | none => (false,[]) := by
  cases read : scanHex [high,low] with
  | none => simp only [urlDecode,if_true,read]
  | some value => simp only [urlDecode,if_true,read]

theorem urlDecode_cut {cut : Bytes} (short : ∀ high low text, cut ≠ high :: low :: text) :
    urlDecode ('%'.toUInt8 :: cut) = (false,[]) := by
  rw [urlDecode.eq_def]
  dsimp only
  rw [if_pos rfl]
  split
  next => exact absurd rfl (short _ _ _)
  next => rfl

theorem urlDecode_other {c : UInt8} (other : c ≠ '%'.toUInt8) (text : Bytes) : urlDecode (c :: text) =
    ((urlDecode text).1,(if c = '+'.toUInt8 then ' '.toUInt8 else c) :: (urlDecode text).2) := by
  rw [urlDecode.eq_def]
  simp only [if_neg other]

/-- The decoding goes on up to the first escape that is refused. -/
theorem urlDecode_true (text : Bytes) : (urlDecode text).1 = true ↔ ∀ escape ∈ escapes text, ¬Refused escape := by
  fun_induction escapes text with
  | case1 => simp [urlDecode]
  | case2 high low text ih =>
    have readable : (scanHex [high,low]).isSome = true ↔ ¬Refused [high,low] := by
      rw [scanHex_isSome]
      exact ⟨fun reads refused => refused high low rfl reads,fun accepted => by
        by_contra unread
        exact accepted fun _ _ same => by cases same; exact unread⟩
    rw [List.forall_mem_cons,← ih,← readable,urlDecode_percent]
    cases scanHex [high,low] <;> simp
  | case3 cut short =>
    rw [urlDecode_cut fun _ _ _ same => short _ _ _ same]
    refine iff_of_false (by decide) fun accepted => ?_
    exact accepted cut (List.mem_singleton_self cut) fun high low same => absurd same (short high low [])
  | case4 c text other ih => rw [urlDecode_other other,ih]

theorem followed_other {c : UInt8} (other : c ≠ '%'.toUInt8) {text : Bytes} :
    Followed (c :: text) ↔ Followed text := by
  constructor
  · intro followed before rest same
    exact followed (c :: before) rest (by rw [same,List.cons_append])
  · intro followed before rest same
    cases before with
    | nil => exact absurd (List.cons.inj same).1 other
    | cons first before => exact followed before rest (List.cons.inj same).2

theorem followed_percent {high low : UInt8} {text : Bytes} :
    Followed ('%'.toUInt8 :: high :: low :: text) ↔ HexPair [high,low] ∧ Followed text := by
  constructor
  · intro followed
    obtain ⟨_,_,_,same,first,second⟩ := followed [] _ rfl
    cases same
    refine ⟨⟨high,low,rfl,first,second⟩,fun before rest same => ?_⟩
    exact followed ('%'.toUInt8 :: high :: low :: before) rest (by rw [same]; rfl)
  · rintro ⟨⟨_,_,same,first,second⟩,followed⟩ before rest split
    cases same
    cases before with
    | nil => exact ⟨high,low,text,(List.cons.inj split).2.symm,first,second⟩
    | cons percent before =>
      have behind : Followed (high :: low :: text) :=
        (followed_other (hex_facts first).2.2.2.1).mpr ((followed_other (hex_facts second).2.2.2.1).mpr followed)
      exact behind before rest (List.cons.inj split).2

theorem followed_cut {cut : Bytes} (short : ∀ high low text, cut ≠ high :: low :: text) :
    ¬Followed ('%'.toUInt8 :: cut) := by
  intro followed
  obtain ⟨high,low,behind,same,-⟩ := followed [] cut rfl
  exact short high low behind same

theorem followed_iff (text : Bytes) : Followed text ↔ ∀ escape ∈ escapes text, HexPair escape := by
  fun_induction escapes text with
  | case1 => simp [Followed]
  | case2 high low text ih => rw [followed_percent,List.forall_mem_cons,ih]
  | case3 cut short =>
    refine iff_of_false (followed_cut fun _ _ _ same => short _ _ _ same) fun pairs => ?_
    obtain ⟨high,low,same,-⟩ := pairs cut (List.mem_singleton_self cut)
    exact short high low [] same
  | case4 c text other ih => rw [followed_other other,ih]

theorem ofInt_natCast (n : Nat) : UInt8.ofInt n = UInt8.ofNat n := by
  have low : ((n : Int) % 2 ^ 8).toNat = n % 2 ^ 8 := by omega
  rw [UInt8.ofInt,low,UInt8.ofNat_mod_size]

theorem decoded_followed {text : Bytes} (pairs : ∀ escape ∈ escapes text, HexPair escape) :
    Decoded text (urlDecode text).2 := by
  fun_induction escapes text with
  | case1 => exact .nil
  | case2 high low text ih =>
    obtain ⟨⟨_,_,same,first,second⟩,pairs⟩ := List.forall_mem_cons.mp pairs
    cases same
    obtain ⟨m,high_digit⟩ := Option.isSome_iff_exists.mp first
    obtain ⟨n,low_digit⟩ := Option.isSome_iff_exists.mp second
    rw [urlDecode_percent,scanHex_digits high_digit low_digit]
    dsimp only
    rw [ofInt_natCast]
    exact .percent high_digit low_digit (ih pairs)
  | case3 cut short =>
    obtain ⟨high,low,same,-⟩ := pairs cut (List.mem_singleton_self cut)
    exact absurd same (short high low [])
  | case4 c text other ih =>
    rw [urlDecode_other other]
    by_cases plus : c = '+'.toUInt8
    · rw [if_pos plus,plus]
      exact .plus (ih pairs)
    · rw [if_neg plus]
      exact .other other plus (ih pairs)

/-- The decoding is exact if all escapes are pairs of hex digits, and otherwise only if one of them is refused. -/
theorem exact_iff_escapes (text : Bytes) : Exact text ↔
    (∀ escape ∈ escapes text, HexPair escape) ∨ ∃ escape ∈ escapes text, Refused escape := by
  rw [Exact,followed_iff,urlDecode_true]
  constructor
  · rintro ⟨same,-⟩
    by_cases refused : ∃ escape ∈ escapes text, Refused escape
    · exact .inr refused
    · exact .inl (same.mp fun escape member rejected => refused ⟨escape,member,rejected⟩)
  · intro condition
    refine ⟨⟨fun accepted => ?_,fun pairs escape member => hexPair_accepted (pairs escape member)⟩,decoded_followed⟩
    rcases condition with pairs | ⟨escape,member,refused⟩
    · exact pairs
    · exact absurd refused (accepted escape member)

/-- A hex digit and something else are read as the digit alone. -/
theorem lax_escape : ¬∀ text : Bytes, Exact text := by
  intro exact
  have accepted : (urlDecode ['%'.toUInt8,'4'.toUInt8,'g'.toUInt8]).1 = true := by decide
  obtain ⟨_,_,_,same,-,second⟩ := ((exact _).1.mp accepted) [] _ rfl
  cases same
  exact absurd second (by decide)

end UrlDecode
end Call45Aggr
