import Call45Aggr.Common
import Call45Aggr.Library.BitStream

/-! `encode_base64` and `decode_base64`. -/
namespace Call45Aggr
open Library BitStream

namespace Base64

def alphabet : List Char := "ABCDEFGHIJKLMNOPQRSTUVWXYZabcdefghijklmnopqrstuvwxyz0123456789+/".toList

/-- The symbol of the low six bits. -/
def symbol (n : Int) : Char := alphabet.getD (n % 64).toNat 'A'

structure Encoder where
  out : List Char := []
  val : Int := 0
  valb : Int := -6

/-- `while (valb>=0)`. -/
def drain : Nat → Encoder → Encoder
  | turns + 1, s =>
    if 0 ≤ s.valb then drain turns {s with out := s.out ++ [symbol (s.val / 2 ^ s.valb.toNat)],valb := s.valb - 6}
    else s
  | 0, s => s

/-- The accumulator is never masked and wraps. -/
def put (s : Encoder) (c : UInt8) : Encoder :=
  let s := {s with val := toInt32 (s.val * 256 + c.toNat),valb := s.valb + 8}
  drain (s.valb.toNat + 1) s

def finish (s : Encoder) : List Char :=
  if -6 < s.valb then s.out ++ [symbol (toInt32 (s.val * 256) / 2 ^ (s.valb + 8).toNat)] else s.out

def encodeBase64 (input : List UInt8) : List Char :=
  let out := finish (input.foldl put {})
  out ++ List.replicate ((4 - out.length % 4) % 4) '='

example : String.ofList (encodeBase64 [77,97,110,255]) = "TWFu/w==" := by decide

def symbolBits (c : Char) : List Bool := bits 6 (alphabet.idxOf c)

def solid (text : List Char) : List Char := text.filter fun c => !isspace c

/-- Six bits for each symbol, and a byte for each eight of them. -/
def symbolBytes (symbols : List Char) : List UInt8 :=
  (cut 8 (symbols.flatMap symbolBits)).map fun group => UInt8.ofNat (number group)

/-- The iterators come to the end of the text with the last byte. Behind blanks, and for the bits
that one more symbol leaves, they look for another symbol. -/
def Ended (text : List Char) : Prop := (∀ c ∈ text.getLast?, isspace c = false) ∧ (solid text).length % 4 ≠ 1

instance (text : List Char) : Decidable (Ended text) :=
  @instDecidableAnd _ _ (Option.decidableForallMem text.getLast?) inferInstance

def OfSymbols (text : List Char) : Prop := ∀ c ∈ text, c ∈ alphabet ∨ isspace c = true

instance (text : List Char) : Decidable (OfSymbols text) := List.decidableBAll _ _

/-- Whitespace is skipped and the symbols are turned into bytes. `iterators` stands for
`transform_width<binary_from_base64<remove_whitespace<…>>, 8, 6>` of the library. -/
def SkipsWhitespace (iterators : List Char → Option (List UInt8)) : Prop :=
  ∀ text, OfSymbols text → Ended text → iterators text = some (symbolBytes (solid text))

/-- They know no end of the text: where they look for a symbol behind it, there is no result. -/
def LeavesText (iterators : List Char → Option (List UInt8)) : Prop :=
  ∀ text, OfSymbols text → ¬Ended text → iterators text = none

/-- What is missing to a multiple of four characters. -/
def numPadChars (input : List Char) : Nat := (4 - input.length % 4) % 4

def unpadded (c : Char) : Char := if c = '=' then 'A' else c

def padded (input : List Char) : List Char := input ++ List.replicate (numPadChars input) '='

/-- `unread` is an exception of the iterators, or where they leave the text. -/
inductive DecodeError
  | unread
  | eraseBeforeBegin
  deriving DecidableEq

def decodeBase64 (iterators : List Char → Option (List UInt8)) (input : List Char) : Except DecodeError (List UInt8) :=
  let padChars := (padded input).count '='
  match iterators ((padded input).map unpadded) with
  | none => .error .unread
  | some output =>
    if padChars ≤ output.length then .ok (output.take (output.length - padChars)) else .error .eraseBeforeBegin

/-- Iterators that do this. -/
def transform (text : List Char) : Option (List UInt8) :=
  if Ended text ∧ OfSymbols text then some (symbolBytes (solid text)) else none

theorem transform_skips : SkipsWhitespace transform := fun _ spelled ended => if_pos ⟨ended,spelled⟩

theorem transform_leaves : LeavesText transform := fun _ _ left => if_neg fun both => left both.1

example : decodeBase64 transform "TWFu/w==".toList = .ok [77,97,110,255] := by decide

theorem alphabet_getD {i : Nat} (inside : i < 64) :
    alphabet.getD i 'A' ∈ alphabet ∧ alphabet.idxOf (alphabet.getD i 'A') = i :=
  (by decide +kernel : ∀ i < 64, alphabet.getD i 'A' ∈ alphabet ∧ alphabet.idxOf (alphabet.getD i 'A') = i) i inside

theorem alphabet_solid {c : Char} (known : c ∈ alphabet) : isspace c = false ∧ c ≠ '=' := by
  have all : (alphabet.all fun c => !isspace c && c != '=') = true := by decide +kernel
  simpa using List.all_eq_true.mp all c known

theorem symbol_mem (n : Int) : symbol n ∈ alphabet := (alphabet_getD (by omega)).1

theorem symbol_appended {out : List Char} (symbols : ∀ c ∈ out, c ∈ alphabet) (n : Int) :
    ∀ c ∈ out ++ [symbol n], c ∈ alphabet := by
  intro c member
  rcases List.mem_append.mp member with before | last
  · exact symbols c before
  · rw [List.mem_singleton.mp last]
    exact symbol_mem n

theorem symbolBits_symbol (n : Int) : symbolBits (symbol n) = bits 6 n := by
  have index : alphabet.idxOf (symbol n) = (n % 64).toNat := (alphabet_getD (by omega)).2
  rw [symbolBits,index,Int.toNat_of_nonneg (by omega),bits_emod (by decide)]

/-- What is emitted and what is pending is what was read. -/
structure Reads (s : Encoder) (stream : List Bool) : Prop where
  symbols : ∀ c ∈ s.out, c ∈ alphabet
  pending : -6 ≤ s.valb
  stream : s.out.flatMap symbolBits ++ bits (s.valb + 6).toNat s.val = stream

theorem drain_reads (turns : Nat) {s : Encoder} {stream : List Bool} (reads : Reads s stream)
    (enough : s.valb < turns) : Reads (drain turns s) stream ∧ (drain turns s).valb < 0 := by
  induction turns generalizing s with
  | zero => exact ⟨reads,enough⟩
  | succ turns ih =>
    rw [drain]
    split
    next ready =>
      refine ih ⟨symbol_appended reads.symbols _,?_,?_⟩ ?_
      · dsimp only
        omega
      · have width : (s.valb + 6).toNat = 6 + s.valb.toNat := by omega
        rw [← reads.stream,width,bits_append]
        simp [symbolBits_symbol]
      · dsimp only
        omega
    next done => exact ⟨reads,by omega⟩

def byteBits (c : UInt8) : List Bool := bits 8 c.toNat

theorem put_reads {s : Encoder} {stream : List Bool} (reads : Reads s stream) (waiting : s.valb < 0) (c : UInt8) :
    Reads (put s c) (stream ++ byteBits c) ∧ (put s c).valb < 0 := by
  have pending := reads.pending
  refine drain_reads _ ⟨reads.symbols,by dsimp only; omega,?_⟩ (by dsimp only; omega)
  have width : (s.valb + 8 + 6).toNat = (s.valb + 6).toNat + 8 := by omega
  have small : (s.valb + 6).toNat + 8 ≤ 32 := by omega
  have byte := c.toNat_lt
  have quotient : (s.val * 256 + c.toNat) / 2 ^ 8 = s.val := by omega
  have wrapped : bits ((s.valb + 6).toNat + 8) (toInt32 (s.val * 256 + c.toNat)) =
      bits (s.valb + 6).toNat s.val ++ bits 8 (s.val * 256 + c.toNat) := by
    rw [toInt32,bits_bmod (Nat.pow_dvd_pow 2 small),bits_append,quotient]
  have low : bits 8 (s.val * 256 + c.toNat) = bits 8 c.toNat := by
    rw [← bits_add_mul 8 c.toNat s.val]
    congr 1
    omega
  dsimp only
  rw [width,wrapped,low,← List.append_assoc,reads.stream]
  rfl

theorem foldl_put {input : List UInt8} {s : Encoder} {stream : List Bool} (reads : Reads s stream)
    (waiting : s.valb < 0) : Reads (input.foldl put s) (stream ++ input.flatMap byteBits) ∧
      (input.foldl put s).valb < 0 := by
  induction input generalizing s stream with
  | nil => exact ⟨by simpa using reads,waiting⟩
  | cons c input ih =>
    obtain ⟨next,waiting⟩ := put_reads reads waiting c
    have rest := ih next waiting
    rwa [List.append_assoc,← List.flatMap_cons] at rest

/-- The last symbol holds the pending bits, filled up with zeros. -/
theorem last_symbol {val valb : Int} (pending : -6 ≤ valb) (waiting : valb < 0) :
    bits 6 (toInt32 (val * 256) / 2 ^ (valb + 8).toNat) =
      bits (valb + 6).toNat val ++ List.replicate (-valb).toNat false := by
  have widths : 6 + (valb + 8).toNat = (valb + 6).toNat + 8 := by omega
  have zeros : 8 = (-valb).toNat + (valb + 8).toNat := by omega
  have whole := bits_append 6 (valb + 8).toNat (toInt32 (val * 256))
  have quotient : val * 256 / 2 ^ 8 = val := by omega
  have low : bits 8 (val * 256) = List.replicate 8 false := by
    rw [← bits_zero,← bits_add_mul 8 0 val]
    congr 1
    omega
  have fits : (valb + 6).toNat + 8 ≤ 32 := by omega
  rw [widths,toInt32,bits_bmod (Nat.pow_dvd_pow 2 fits),bits_append,quotient,low] at whole
  have cut : bits (valb + 6).toNat val ++ List.replicate 8 false =
      bits (valb + 6).toNat val ++ List.replicate (-valb).toNat false ++ List.replicate (valb + 8).toNat false := by
    rw [List.append_assoc,List.replicate_append_replicate,← zeros]
  rw [cut] at whole
  refine (List.append_inj whole.symm ?_).1
  simp only [length_bits,List.length_append,List.length_replicate]
  omega

/-- The symbols of a text, which stand for its bytes and for less than one symbol of zeros. -/
theorem finish_stream (input : List UInt8) : ∃ zeros < 6,
    (∀ c ∈ finish (input.foldl put {}), c ∈ alphabet) ∧
    (finish (input.foldl put {})).flatMap symbolBits =
      input.flatMap byteBits ++ List.replicate zeros false := by
  have start : Reads {} [] := ⟨by simp,by decide,rfl⟩
  obtain ⟨reads,waiting⟩ := @foldl_put input _ _ start (by decide)
  generalize input.foldl put {} = s at *
  have pending := reads.pending
  unfold finish
  split
  next some' =>
    refine ⟨(-s.valb).toNat,by omega,symbol_appended reads.symbols _,?_⟩
    rw [List.flatMap_append,List.flatMap_singleton,symbolBits_symbol,last_symbol pending waiting,
      ← List.append_assoc,reads.stream,List.nil_append]
  next none' =>
    have empty : (s.valb + 6).toNat = 0 := by omega
    refine ⟨0,by decide,reads.symbols,?_⟩
    rw [← List.nil_append (input.flatMap _),← reads.stream,empty]
    simp [bits]

def spaces (input : List Char) : Nat := input.countP isspace

/-- A text of symbols, padding and whitespace. -/
def Spelled (input : List Char) : Prop := ∀ c ∈ input, c ∈ alphabet ∨ c = '=' ∨ isspace c = true

instance (input : List Char) : Decidable (Spelled input) := List.decidableBAll _ _

theorem isspace_unpadded (c : Char) : isspace (unpadded c) = isspace c := by
  unfold unpadded
  split
  next same =>
    subst same
    decide
  next => rfl

theorem length_solid (input : List Char) : (solid input).length + spaces input = input.length := by
  have split := @List.length_eq_countP_add_countP _ isspace input
  rw [solid,← List.countP_eq_length_filter,spaces]
  simp only [Bool.not_eq_true] at split
  simp only [Bool.decide_eq_false] at *
  omega

theorem solid_unpadded (input : List Char) : solid (input.map unpadded) = (solid input).map unpadded := by
  simp [solid,List.filter_map,isspace_unpadded,Function.comp_def]

theorem ended_unpadded (input : List Char) : Ended (input.map unpadded) ↔ Ended input := by
  rw [Ended,Ended,solid_unpadded,List.length_map,List.getLast?_map]
  refine and_congr_left fun _ => ?_
  cases input.getLast? with
  | none => simp
  | some c => simp [isspace_unpadded]

theorem unpadded_spelled {input : List Char} (spelled : Spelled input) : OfSymbols (input.map unpadded) := by
  intro c member
  obtain ⟨d,inside,rfl⟩ := List.mem_map.mp member
  rw [isspace_unpadded]
  rcases spelled d inside with known | rfl | space
  · exact .inl (by rwa [unpadded,if_neg (alphabet_solid known).2])
  · exact .inl (by decide)
  · exact .inr space

theorem solid_padded (input : List Char) :
    solid (padded input) = solid input ++ List.replicate (numPadChars input) '=' := by
  have kept : solid (List.replicate (numPadChars input) '=') = List.replicate (numPadChars input) '=' :=
    List.filter_eq_self.mpr fun c member => by
      rw [List.eq_of_mem_replicate member]
      decide
  rw [padded,solid,List.filter_append]
  exact congrArg _ kept

theorem padded_spelled {input : List Char} (spelled : Spelled input) : Spelled (padded input) := by
  intro c member
  rcases List.mem_append.mp member with given | added
  · exact spelled c given
  · exact .inr (.inl (List.eq_of_mem_replicate added))

/-- The bits of a text and of what is appended to it. -/
def paddedBits (input : List Char) : List Bool :=
  ((solid input).map unpadded).flatMap symbolBits ++ List.replicate (6 * numPadChars input) false

theorem flatMap_zeros (n : Nat) : (List.replicate n 'A').flatMap symbolBits = List.replicate (6 * n) false := by
  have zeros : symbolBits 'A' = List.replicate 6 false := by decide
  induction n with
  | zero => rfl
  | succ n ih =>
    rw [List.replicate_succ,List.flatMap_cons,ih,zeros,List.replicate_append_replicate]
    congr 1
    omega

theorem length_symbolBits (symbols : List Char) : (symbols.flatMap symbolBits).length = 6 * symbols.length :=
  length_flatMap symbolBits (fun _ => length_bits 6 _) symbols

variable {iterators : List Char → Option (List UInt8)}

theorem decode_ended (skips : SkipsWhitespace iterators) {input : List Char} (spelled : Spelled input)
    (ended : Ended (padded input)) :
    let output := (cut 8 (paddedBits input)).map fun group => UInt8.ofNat (number group)
    let padChars := input.count '=' + numPadChars input
    decodeBase64 iterators input = if padChars ≤ output.length then .ok (output.take (output.length - padChars))
      else .error .eraseBeforeBegin := by
  have read := skips _ (unpadded_spelled (padded_spelled spelled)) ((ended_unpadded _).mpr ended)
  have stream : (solid ((padded input).map unpadded)).flatMap symbolBits = paddedBits input := by
    rw [solid_unpadded,solid_padded,List.map_append,List.flatMap_append,List.map_replicate]
    exact congrArg _ (flatMap_zeros _)
  have count : (padded input).count '=' = input.count '=' + numPadChars input := by
    rw [padded,List.count_append,List.count_replicate_self]
  rw [symbolBytes,stream] at read
  unfold decodeBase64
  simp only [read,count]

theorem decode_left (leaves : LeavesText iterators) {input : List Char} (spelled : Spelled input)
    (left : ¬Ended (padded input)) : decodeBase64 iterators input = .error .unread := by
  have unread := leaves _ (unpadded_spelled (padded_spelled spelled)) ((ended_unpadded _).not.mpr left)
  unfold decodeBase64
  simp only [unread]

theorem decode_ok_iff (skips : SkipsWhitespace iterators) (leaves : LeavesText iterators) {input : List Char}
    (spelled : Spelled input) : (∃ output, decodeBase64 iterators input = .ok output) ↔ Ended (padded input) ∧
      input.count '=' + numPadChars input ≤ 3 * (input.length + numPadChars input - spaces input) / 4 := by
  have solid := length_solid input
  have length : (cut 8 (paddedBits input)).length = 3 * (input.length + numPadChars input - spaces input) / 4 := by
    rw [length_cut,paddedBits,List.length_append,length_symbolBits,List.length_map,List.length_replicate]
    omega
  by_cases ended : Ended (padded input)
  · rw [decode_ended skips spelled ended,List.length_map,length]
    split
    next fits => exact iff_of_true ⟨_,rfl⟩ ⟨ended,fits⟩
    next more => exact iff_of_false (by simp) fun both => more both.2
  · rw [decode_left leaves spelled ended]
    exact iff_of_false (by simp) fun both => ended both.1

/-- A text encodes whole bytes and zeros, by which its padding is determined. -/
theorem encode_shape (b : List UInt8) : ∃ symbols zeros padding,
    encodeBase64 b = symbols ++ List.replicate padding '=' ∧ (∀ c ∈ symbols, c ∈ alphabet) ∧
    symbols.flatMap symbolBits = b.flatMap byteBits ++ List.replicate zeros false ∧
    6 * symbols.length = 8 * b.length + zeros ∧ zeros < 6 ∧ padding = (4 - symbols.length % 4) % 4 := by
  obtain ⟨zeros,few,known,stream⟩ := finish_stream b
  refine ⟨finish (b.foldl put {}),zeros,_,rfl,known,stream,?_,few,rfl⟩
  have lengths := congrArg List.length stream
  have bytes := length_flatMap byteBits (fun c => length_bits 8 _) b
  rwa [length_symbolBits,List.length_append,bytes,List.length_replicate] at lengths

theorem byte_read (c : UInt8) : UInt8.ofNat (number (byteBits c)) = c := by
  rw [byteBits,number_bits c.toNat_lt,UInt8.ofNat_toNat]

theorem unpadded_symbols {symbols : List Char} (known : ∀ c ∈ symbols, c ∈ alphabet) :
    symbols.map unpadded = symbols := by
  have same : ∀ c ∈ symbols, unpadded c = id c := fun c member => if_neg (alphabet_solid (known c member)).2
  rw [List.map_congr_left same,List.map_id]

theorem inserted_spelled {b : List UInt8} {input : List Char}
    (inserted : solid input = encodeBase64 b) : Spelled input := by
  obtain ⟨symbols,zeros,padding,encoded,known,-⟩ := encode_shape b
  intro c member
  by_cases space : isspace c = true
  · exact .inr (.inr space)
  · have inside : c ∈ encodeBase64 b := by
      rw [← inserted]
      exact List.mem_filter.mpr ⟨member,by simpa using space⟩
    rw [encoded] at inside
    rcases List.mem_append.mp inside with symbol | pad
    · exact .inl (known c symbol)
    · exact .inr (.inl (List.eq_of_mem_replicate pad))

/-- Four symbols stand for three bytes. -/
theorem fill_length {symbols bytes zeros padding : Nat} (lengths : 6 * symbols = 8 * bytes + zeros) (few : zeros < 6)
    (fill : padding = (4 - symbols % 4) % 4) :
    3 * (symbols + padding) = 4 * (bytes + padding) ∧ zeros = 2 * padding := by
  rcases (by omega : symbols % 4 = 0 ∨ symbols % 4 = 1 ∨ symbols % 4 = 2 ∨ symbols % 4 = 3) with
    none' | one | two | three <;> omega

/-- The stream of an encoding with whitespace put into it: the bytes, and zeros for each `=`. -/
theorem inserted_bits {b : List UInt8} {input : List Char}
    (inserted : solid input = encodeBase64 b) :
    (b.length + input.count '=') % 3 = 0 ∧ input.count '=' < 3 ∧
      input.length = 4 * ((b.length + input.count '=') / 3) + spaces input ∧
      paddedBits input = b.flatMap byteBits ++ List.replicate (8 * input.count '=' + 6 * numPadChars input) false := by
  obtain ⟨symbols,zeros,padding,encoded,known,stream,lengths,few,fill⟩ := encode_shape b
  have length := length_solid input
  rw [inserted,encoded,List.length_append,List.length_replicate] at length
  have count : input.count '=' = padding := by
    have kept : (solid input).count '=' = input.count '=' := List.count_filter (by decide)
    have none' : symbols.count '=' = 0 :=
      List.count_eq_zero.mpr fun member => (alphabet_solid (known _ member)).2 rfl
    rw [← kept,inserted,encoded,List.count_append,List.count_replicate_self,none',Nat.zero_add]
  rw [count]
  obtain ⟨whole,twice⟩ := fill_length lengths few fill
  refine ⟨by omega,by omega,by omega,?_⟩
  have filled : (List.replicate padding (unpadded '=')).flatMap symbolBits = List.replicate (6 * padding) false :=
    flatMap_zeros padding
  rw [paddedBits,inserted,encoded,List.map_append,unpadded_symbols known,List.map_replicate,List.flatMap_append,
    filled,stream,twice,List.append_assoc,List.append_assoc,List.replicate_append_replicate,
    List.replicate_append_replicate]
  congr 2
  omega

/-- An encoding with whitespace put into it has whole groups of symbols, so its iterators end where nothing
blank ends it. -/
theorem inserted_ended {b : List UInt8} {input : List Char} (inserted : solid input = encodeBase64 b)
    (divides : 4 ∣ spaces input) : Ended (padded input) ↔ ∀ c ∈ input.getLast?, isspace c = false := by
  obtain ⟨-,-,length,-⟩ := inserted_bits inserted
  have whole := length_solid input
  have none' : numPadChars input = 0 := by
    unfold numPadChars
    omega
  have same : padded input = input := by
    rw [padded,none']
    exact List.append_nil input
  rw [same,Ended]
  exact and_iff_left (by omega)

theorem decoded_ended (skips : SkipsWhitespace iterators) {b : List UInt8} {input : List Char}
    (inserted : solid input = encodeBase64 b) (ended : Ended (padded input)) :
    decodeBase64 iterators input = .ok b ↔ 4 ∣ spaces input := by
  obtain ⟨whole,few,length,stream⟩ := inserted_bits inserted
  have output : (cut 8 (paddedBits input)).map (fun group => UInt8.ofNat (number group)) = b ++
      (cut 8 (List.replicate (8 * input.count '=' + 6 * numPadChars input) false)).map
        (fun group => UInt8.ofNat (number group)) := by
    rw [stream,cut_flatMap (by decide) byteBits (fun c => length_bits 8 _),List.map_append,List.map_map]
    congr 1
    have same : ∀ c ∈ b, ((fun group => UInt8.ofNat (number group)) ∘ byteBits) c = id c := fun c _ => byte_read c
    rw [List.map_congr_left same,List.map_id]
  have tail : ((cut 8 (List.replicate (8 * input.count '=' + 6 * numPadChars input) false)).map
      (fun group => UInt8.ofNat (number group))).length = (8 * input.count '=' + 6 * numPadChars input) / 8 := by
    rw [List.length_map,length_cut,List.length_replicate]
  rw [decode_ended skips (inserted_spelled inserted) ended,output]
  generalize (cut 8 (List.replicate (8 * input.count '=' + 6 * numPadChars input) false)).map
    (fun group => UInt8.ofNat (number group)) = zeros at *
  have missing : numPadChars input = (4 - input.length % 4) % 4 := rfl
  rw [List.length_append,tail]
  constructor
  · intro decoded
    split at decoded
    next fits =>
      have lengths := congrArg List.length (Except.ok.inj decoded)
      rw [List.length_take,List.length_append,tail] at lengths
      omega
    next => cases decoded
  · intro divides
    have none' : numPadChars input = 0 := by omega
    rw [if_pos (by omega)]
    congr 1
    refine List.take_left' ?_
    omega

/-- An encoding with whitespace put into it decodes to its bytes exactly where there is a multiple of four of it
and none at its end. -/
theorem decode_encoded (skips : SkipsWhitespace iterators) (leaves : LeavesText iterators) {b : List UInt8}
    {input : List Char} (inserted : solid input = encodeBase64 b) :
    decodeBase64 iterators input = .ok b ↔ 4 ∣ spaces input ∧ ∀ c ∈ input.getLast?, isspace c = false := by
  by_cases ended : Ended (padded input)
  case neg =>
    rw [decode_left leaves (inserted_spelled inserted) ended]
    exact iff_of_false nofun fun both => ended ((inserted_ended inserted both.1).mpr both.2)
  rw [and_iff_left_of_imp fun divides => (inserted_ended inserted divides).mp ended]
  exact decoded_ended skips inserted ended

/-- The encoder puts no whitespace into its text. -/
theorem encode_solid (b : List UInt8) : solid (encodeBase64 b) = encodeBase64 b ∧ 4 ∣ spaces (encodeBase64 b) ∧
    ∀ c ∈ (encodeBase64 b).getLast?, isspace c = false := by
  obtain ⟨symbols,zeros,padding,encoded,known,-⟩ := encode_shape b
  have plain : ∀ c ∈ encodeBase64 b, isspace c = false := by
    intro c member
    rw [encoded] at member
    rcases List.mem_append.mp member with symbol | pad
    · exact (alphabet_solid (known c symbol)).1
    · rw [List.eq_of_mem_replicate pad]
      decide
  have none' : spaces (encodeBase64 b) = 0 := List.countP_eq_zero.mpr fun c member => by simp [plain c member]
  refine ⟨List.filter_eq_self.mpr fun c member => by simp [plain c member],?_,fun c last =>
    plain c (List.mem_of_getLast? last)⟩
  rw [none']
  exact Nat.dvd_zero 4

theorem decode_encode (iterators : List Char → Option (List UInt8)) (skips : SkipsWhitespace iterators)
    (b : List UInt8) : decodeBase64 iterators (encodeBase64 b) = .ok b := by
  obtain ⟨same,unspaced,last⟩ := encode_solid b
  exact (decoded_ended skips same ((inserted_ended same unspaced).mpr last)).mpr unspaced

theorem decode_encode_man : decodeBase64 transform (encodeBase64 [77,97,110,255]) = .ok [77,97,110,255] :=
  decode_encode transform transform_skips _

/-- The text is decoded exactly if the iterators end in it and its `=` and the appended ones are at most as many
as the bytes that its symbols make up, and whitespace in an encoding changes nothing exactly if there is a
multiple of four of it and none at the end. -/
theorem decode_safe_iff (iterators : List Char → Option (List UInt8)) (skips : SkipsWhitespace iterators)
    (leaves : LeavesText iterators) (input : List Char) :
    (Spelled input → ((∃ output, decodeBase64 iterators input = .ok output) ↔ Ended (padded input) ∧
      input.count '=' + numPadChars input ≤ 3 * (input.length + numPadChars input - spaces input) / 4)) ∧
    ∀ b, solid input = encodeBase64 b →
      (decodeBase64 iterators input = decodeBase64 iterators (encodeBase64 b) ↔
        4 ∣ spaces input ∧ ∀ c ∈ input.getLast?, isspace c = false) := by
  refine ⟨decode_ok_iff skips leaves,fun b inserted => ?_⟩
  obtain ⟨same,unspaced,last⟩ := encode_solid b
  rw [(decode_encoded skips leaves same).mpr ⟨unspaced,last⟩]
  exact decode_encoded skips leaves inserted

theorem decode_four_spaces : (∃ output, decodeBase64 transform "Q\tQ=".toList = .ok output) ∧
    decodeBase64 transform "Q\t  \nQ==".toList = decodeBase64 transform (encodeBase64 [65]) := by
  have ends : ∀ c ∈ "Q\t  \nQ==".toList.getLast?, isspace c = false := by
    intro c last
    cases Option.mem_some.mp (last : c ∈ some '=')
    rfl
  exact ⟨((decode_safe_iff transform transform_skips transform_leaves _).1 (by decide)).mpr (by decide),
    ((decode_safe_iff transform transform_skips transform_leaves _).2 [65] (by decide)).mpr ⟨by decide,ends⟩⟩

theorem padding_erased :
    (¬∀ iterators, SkipsWhitespace iterators → LeavesText iterators →
      ∀ input, Spelled input → ∃ output, decodeBase64 iterators input = .ok output) ∧
    ¬∀ iterators, SkipsWhitespace iterators → LeavesText iterators → ∀ b input, solid input = encodeBase64 b →
      decodeBase64 iterators input = decodeBase64 iterators (encodeBase64 b) := by
  constructor
  · intro safe
    obtain ⟨output,decoded⟩ := safe transform transform_skips transform_leaves "====".toList (by decide)
    have beyond : decodeBase64 transform "====".toList = .error .eraseBeforeBegin := by decide
    rw [beyond] at decoded
    cases decoded
  · intro unchanged
    exact absurd (unchanged transform transform_skips transform_leaves [65] "Q Q==".toList (by decide)) (by decide)

end Base64
end Call45Aggr
