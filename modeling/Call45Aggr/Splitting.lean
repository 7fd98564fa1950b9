import Call45Aggr.Split
import Mathlib.Data.List.TakeWhile

/-! `split_any` with its options, and `join_through` as its inverse. Separators are C strings: what is behind
a NUL is not read. -/
namespace Call45Aggr

inductive SplitOpts
  | allowBlank
  | skipBlank
  deriving DecidableEq

namespace Splitting

/-- `matches`. -/
def matchesAny (findable : Char) : List Char → Bool
  | [] => false
  | sep :: seps =>
    if sep = '\x00' then false else if findable = sep then true else matchesAny findable seps

def splitAny (separators : List Char) (opts : SplitOpts) : List Char → List (List Char)
  | [] => []
  | c :: src =>
    let field := (c :: src).takeWhile fun c => !matchesAny c separators
    let rest := ((c :: src).dropWhile fun c => !matchesAny c separators).drop 1
    if field = [] ∧ opts = .skipBlank then splitAny separators opts rest
    else field :: splitAny separators opts rest
termination_by src => src.length
decreasing_by
  all_goals
    have shorter := (List.dropWhile_suffix (l := c :: src) fun c => !matchesAny c separators).length_le
    simp only [List.length_drop,List.length_cons] at shorter ⊢
    omega

/-- The separators up to the first NUL. -/
def text (separators : List Char) : List Char := separators.takeWhile (· ≠ '\x00')

def joinThrough (container : List (List Char)) (separator : List Char) : List Char :=
  (text separator).intercalate container

theorem matchesAny_iff (c : Char) (separators : List Char) : matchesAny c separators = true ↔ c ∈ text separators := by
  induction separators with
  | nil => simp [matchesAny,text]
  | cons sep seps ih =>
    rw [matchesAny,text]
    by_cases ended : sep = '\x00'
    · simp [ended]
    · rw [List.takeWhile_cons_of_pos (by simpa using ended),List.mem_cons,if_neg ended]
      by_cases same : c = sep
      · simp [same]
      · rw [if_neg same,ih,text]
        simp [same]

/-- The field up to the first separator, and the fields of what is behind it. -/
theorem splitAny_field (separators : List Char) {src : List Char} (filled : src ≠ []) :
    Call45Aggr.splitAny (text separators) src = (src.takeWhile fun c => !matchesAny c separators) ::
      Call45Aggr.splitAny (text separators) ((src.dropWhile fun c => !matchesAny c separators).drop 1) := by
  induction src with
  | nil => contradiction
  | cons c src ih =>
    rw [Call45Aggr.splitAny]
    by_cases separates : c ∈ text separators
    · have found := (matchesAny_iff c separators).mpr separates
      simp [separates,found]
    · have missed := mt (matchesAny_iff c separators).mp separates
      rw [if_neg separates,List.takeWhile_cons_of_pos (by simpa using missed),
        List.dropWhile_cons_of_pos (by simpa using missed)]
      cases src with
      | nil => simp [Call45Aggr.splitAny]
      | cons next src => rw [ih (by simp)]

/-- The loop gives the fields, the empty ones only if they are allowed. -/
theorem splitAny_eq (separators : List Char) (opts : SplitOpts) (src : List Char) :
    splitAny separators opts src =
      (Call45Aggr.splitAny (text separators) src).filter fun field => field ≠ [] ∨ opts = .allowBlank := by
  fun_induction splitAny separators opts src with
  | case1 => rfl
  | case2 c src field rest skipped ih =>
    obtain ⟨empty,skip⟩ := skipped
    rw [splitAny_field separators (List.cons_ne_nil c src),List.filter_cons_of_neg,ih]
    rw [decide_eq_true_eq]
    rintro (filled | allowed)
    · exact filled empty
    · cases skip.symm.trans allowed
  | case3 c src field rest kept ih =>
    rw [splitAny_field separators (List.cons_ne_nil c src),List.filter_cons_of_pos,ih]
    rw [decide_eq_true_eq]
    by_contra neither
    obtain ⟨empty,skip⟩ := not_or.mp neither
    apply kept
    cases opts with
    | allowBlank => exact absurd rfl skip
    | skipBlank => exact ⟨not_not.mp empty,rfl⟩

theorem splitAny_allowBlank (separators src : List Char) :
    splitAny separators .allowBlank src = Call45Aggr.splitAny (text separators) src := by
  simp [splitAny_eq]

/-- What a splitting should keep: all fields to join the text again, and all that are not blank. -/
def Kept (c : Char) (s : List Char) : Prop :=
  joinThrough (splitAny [c] .allowBlank s) [c] = s ∧
    splitAny [c] .skipBlank s = (splitAny [c] .allowBlank s).filter fun field => field ≠ []

theorem skipBlank_filter (separators src : List Char) : splitAny separators .skipBlank src =
    (splitAny separators .allowBlank src).filter fun field => field ≠ [] := by
  simp [splitAny_eq]

/-- A blank field behind the last separator is lost; NUL separates nothing. -/
theorem joinThrough_splitAny (c : Char) (s : List Char) :
    joinThrough (splitAny [c] .allowBlank s) [c] =
      if s.getLast? = some c ∧ c ≠ '\x00' then s.dropLast else s := by
  rw [joinThrough,splitAny_allowBlank]
  by_cases ended : c = '\x00'
  · have none : text [c] = [] := by simp [text,ended]
    rw [none,if_neg fun lost => lost.2 ended]
    exact intercalate_splitAny_nil s
  · have one : text [c] = [c] := by simp [text,ended]
    rw [one,intercalate_splitAny]
    simp [ended]

/-- No field is lost exactly in a text that the separator does not end. -/
theorem kept_iff (c : Char) (s : List Char) : Kept c s ↔ (s.getLast? = some c → c = '\x00') := by
  rw [Kept,joinThrough_splitAny,and_iff_left (skipBlank_filter [c] s)]
  constructor
  · intro joined last
    by_contra separates
    rw [if_pos ⟨last,separates⟩] at joined
    have shorter := congrArg List.length joined
    have filled : 0 < s.length := List.length_pos_of_mem (List.mem_of_getLast? last)
    rw [List.length_dropLast] at shorter
    omega
  · intro unlost
    rw [if_neg fun lost => lost.2 (unlost lost.1)]

theorem trailing_blank : ¬∀ (c : Char) (s : List Char), Kept c s := by
  intro kept
  have joined := (kept ',' "a,".toList).1
  rw [joinThrough_splitAny] at joined
  exact absurd joined (by decide)

end Splitting
end Call45Aggr
