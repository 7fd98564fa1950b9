import Mathlib.Data.List.Basic
import Mathlib.Algebra.Order.Ring.Int
import Mathlib.Tactic.Ring

/-! Numbers as streams of bits, the most significant first, and streams cut into groups. -/
namespace Call45Aggr.Library.BitStream

/-- The low bits of a number; a negative one is in two's complement. -/
def bits : Nat → Int → List Bool
  | 0, _ => []
  | width + 1, n => bits width (n / 2) ++ [decide (n % 2 = 1)]

def number (stream : List Bool) : Nat := stream.foldl (fun value bit => 2 * value + bit.toNat) 0

/-- The full groups of a stream; bits left over are dropped. -/
def cut (width : Nat) (stream : List Bool) : List (List Bool) :=
  (List.range (stream.length / width)).map fun i => (stream.drop (width * i)).take width

@[simp] theorem length_bits (width : Nat) (n : Int) : (bits width n).length = width := by
  induction width generalizing n with
  | zero => rfl
  | succ width ih => simp [bits,ih]

theorem bits_append (high low : Nat) (n : Int) : bits (high + low) n = bits high (n / 2 ^ low) ++ bits low n := by
  induction low generalizing n with
  | zero => simp [bits]
  | succ low ih =>
    have quotient : n / 2 / 2 ^ low = n / 2 ^ (low + 1) := by
      rw [Int.ediv_ediv_of_nonneg (by decide),pow_succ,mul_comm]
    rw [← Nat.add_assoc,bits,bits,ih,quotient,List.append_assoc]

/-- Multiples of a power of two do not reach the bits below it. -/
theorem bits_add_mul (width : Nat) (n k : Int) : bits width (n + 2 ^ width * k) = bits width n := by
  induction width generalizing n with
  | zero => rfl
  | succ width ih =>
    have half : (n + 2 ^ (width + 1) * k) / 2 = n / 2 + 2 ^ width * k := by
      rw [pow_succ]
      have twice : (2 : Int) ^ width * 2 * k = 2 * (2 ^ width * k) := by ring
      omega
    have parity : (n + 2 ^ (width + 1) * k) % 2 = n % 2 := by
      rw [pow_succ]
      have twice : (2 : Int) ^ width * 2 * k = 2 * (2 ^ width * k) := by ring
      omega
    rw [bits,bits,half,parity,ih]

theorem bits_emod {width : Nat} {modulus : Int} (divides : 2 ^ width ∣ modulus) (n : Int) :
    bits width (n % modulus) = bits width n := by
  obtain ⟨k,rfl⟩ := divides
  have split : n % (2 ^ width * k) = n + 2 ^ width * -(k * (n / (2 ^ width * k))) := by
    rw [Int.emod_def]
    ring
  rw [split,bits_add_mul]

theorem bits_bmod {width modulus : Nat} (divides : 2 ^ width ∣ modulus) (n : Int) :
    bits width (n.bmod modulus) = bits width n := by
  obtain ⟨k,rfl⟩ := divides
  rw [Int.bmod_eq_self_sub_mul_bdiv]
  have split : n - ((2 ^ width * k : Nat) : Int) * n.bdiv (2 ^ width * k) =
      n + 2 ^ width * -(k * n.bdiv (2 ^ width * k)) := by
    push_cast
    ring
  rw [split,bits_add_mul]

theorem bits_zero (width : Nat) : bits width 0 = List.replicate width false := by
  induction width with
  | zero => rfl
  | succ width ih => simp [bits,ih,List.replicate_succ']

theorem number_concat (stream : List Bool) (bit : Bool) : number (stream ++ [bit]) = 2 * number stream + bit.toNat := by
  simp [number]

theorem number_bits {width n : Nat} (fits : n < 2 ^ width) : number (bits width n) = n := by
  induction width generalizing n with
  | zero =>
    have zero : n = 0 := by simpa using fits
    rw [zero]
    rfl
  | succ width ih =>
    rw [pow_succ] at fits
    have half : ((n : Int) / 2) = ((n / 2 : Nat) : Int) := by omega
    rw [bits,number_concat,half,ih (by omega)]
    by_cases odd : (n : Int) % 2 = 1
    · simp only [odd,decide_true,Bool.toNat_true]
      omega
    · simp only [odd,decide_false,Bool.toNat_false]
      omega

theorem length_flatMap {α : Type} {width : Nat} (group : α → List Bool) (full : ∀ item, (group item).length = width)
    (items : List α) : (items.flatMap group).length = width * items.length := by
  induction items with
  | nil => rfl
  | cons item items ih => rw [List.flatMap_cons,List.length_append,full,ih,List.length_cons,Nat.mul_succ,Nat.add_comm]

theorem length_cut (width : Nat) (stream : List Bool) : (cut width stream).length = stream.length / width := by
  simp [cut]

theorem cut_append {width : Nat} (positive : 0 < width) {group : List Bool} (full : group.length = width)
    (rest : List Bool) : cut width (group ++ rest) = group :: cut width rest := by
  subst full
  have count : (group ++ rest).length / group.length = rest.length / group.length + 1 := by
    rw [List.length_append,Nat.add_div_left _ positive]
  rw [cut,count,List.range_succ_eq_map,List.map_cons,List.map_map]
  congr 1
  · simp
  · refine List.map_congr_left fun i _ => ?_
    have passed : group.drop (group.length + group.length * i) = [] :=
      List.drop_eq_nil_of_le (Nat.le_add_right _ _)
    simp [Nat.mul_succ,Nat.add_comm _ group.length,List.drop_append,passed]

theorem cut_flatMap {α : Type} {width : Nat} (positive : 0 < width) (group : α → List Bool)
    (full : ∀ item, (group item).length = width) (items : List α) (rest : List Bool) :
    cut width (items.flatMap group ++ rest) = items.map group ++ cut width rest := by
  induction items with
  | nil => rfl
  | cons item items ih => rw [List.flatMap_cons,List.append_assoc,cut_append positive (full item),ih]; rfl

end Call45Aggr.Library.BitStream
