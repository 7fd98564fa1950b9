import Call45Aggr.Common
import Mathlib.Data.List.TakeWhile

/-! `split_any` with blank fields allowed, and `trim`. -/
namespace Call45Aggr
variable {α : Type} [DecidableEq α]

/-- A blank field after the last separator is none. -/
def splitAny (separators : List α) : List α → List (List α)
  | [] => []
  | c :: src =>
    if c ∈ separators then [] :: splitAny separators src
    else
      match splitAny separators src with
      | [] => [[c]]
      | field :: fields => (c :: field) :: fields

def splitText (src separators : String) : List String :=
  (splitAny separators.toList src.toList).map String.ofList

example : splitText "db//host/" "/" = ["db","","host"] := by decide

theorem splitAny_append {part : List α} {separator : α} (free : ∀ c ∈ part, c ≠ separator) (rest : List α) :
    splitAny [separator] (part ++ separator :: rest) = part :: splitAny [separator] rest := by
  induction part with
  | nil => simp [splitAny]
  | cons c part ih =>
    obtain ⟨first,free⟩ := List.forall_mem_cons.mp free
    simp [splitAny,first,ih free]

theorem splitAny_single {part : List α} {separator : α} (free : ∀ c ∈ part, c ≠ separator)
    (filled : part ≠ []) : splitAny [separator] part = [part] := by
  induction part with
  | nil => contradiction
  | cons c part ih =>
    obtain ⟨first,free⟩ := List.forall_mem_cons.mp free
    cases part with
    | nil => simp [splitAny,first]
    | cons next part =>
      rw [splitAny,if_neg (by simpa using first),ih free (by simp)]

theorem splitAny_intercalate {parts : List (List α)} {separator : α}
    (free : ∀ part ∈ parts, part ≠ [] ∧ ∀ c ∈ part, c ≠ separator) :
    splitAny [separator] ([separator].intercalate parts) = parts := by
  induction parts with
  | nil => rfl
  | cons part parts ih =>
    obtain ⟨⟨filled,first⟩,free⟩ := List.forall_mem_cons.mp free
    cases parts with
    | nil =>
      rw [List.intercalate_singleton]
      exact splitAny_single first filled
    | cons next parts =>
      rw [List.intercalate_cons_cons,List.append_assoc,List.singleton_append,splitAny_append first,ih free]

theorem splitAny_ne_nil (separators : List α) {src : List α} (filled : src ≠ []) : splitAny separators src ≠ [] := by
  cases src with
  | nil => contradiction
  | cons c src =>
    rw [splitAny]
    split
    · simp
    · split <;> simp

/-- Joined again, the fields give the text up to one separator at its end. -/
theorem intercalate_splitAny (separator : α) (src : List α) : [separator].intercalate (splitAny [separator] src) =
    if src.getLast? = some separator then src.dropLast else src := by
  induction src with
  | nil => rfl
  | cons c src ih =>
    cases src with
    | nil =>
      by_cases same : c = separator
      · simp [splitAny,same]
      · simp [splitAny,same]
    | cons next src =>
      have joined : [separator].intercalate (splitAny [separator] (c :: next :: src)) =
          c :: [separator].intercalate (splitAny [separator] (next :: src)) := by
        obtain ⟨field,fields,split⟩ := List.exists_cons_of_ne_nil (splitAny_ne_nil [separator] (List.cons_ne_nil next src))
        rw [splitAny,split]
        by_cases same : c = separator
        · simp [same]
        · simp [same]
      rw [joined,ih,List.getLast?_cons_cons,List.dropLast_cons_cons]
      split <;> rfl

theorem splitAny_whole {src : List α} (filled : src ≠ []) : splitAny [] src = [src] := by
  induction src with
  | nil => contradiction
  | cons c src ih =>
    rw [splitAny,if_neg (List.not_mem_nil)]
    cases src with
    | nil => rfl
    | cons next src => rw [ih (List.cons_ne_nil next src)]

theorem intercalate_splitAny_nil (src : List α) : ([] : List α).intercalate (splitAny [] src) = src := by
  by_cases empty : src = []
  · rw [empty]
    rfl
  · rw [splitAny_whole empty,List.intercalate_singleton]

def trim (str : List Char) : List Char := ((str.dropWhile isspace).reverse.dropWhile isspace).reverse

theorem dropWhile_stays {str : List Char} (first : ∀ c ∈ str.head?, isspace c = false) : str.dropWhile isspace = str := by
  cases str with
  | nil => rfl
  | cons c str => exact List.dropWhile_cons_of_neg (by simp [first c rfl])

theorem trim_solid {str : List Char} (solid : ∀ c ∈ str, isspace c = false) : trim str = str := by
  rw [trim,dropWhile_stays fun c first => solid c (List.mem_of_mem_head? first),
    dropWhile_stays fun c first => solid c (List.mem_reverse.mp (List.mem_of_mem_head? first)),List.reverse_reverse]

def Blank (field : List Char) : Prop := ∀ c ∈ field, isspace c = true

/-- What is trimmed off is blank. -/
theorem trim_split (str : List Char) : ∃ front back : List Char, str = front ++ trim str ++ back ∧ Blank front ∧ Blank back := by
  have behind := @List.takeWhile_append_dropWhile _ isspace (str.dropWhile isspace).reverse
  refine ⟨str.takeWhile isspace,((str.dropWhile isspace).reverse.takeWhile isspace).reverse,?_,?_,?_⟩
  · rw [List.append_assoc,trim,← List.reverse_append,behind,List.reverse_reverse,List.takeWhile_append_dropWhile]
  · exact fun c member => List.mem_takeWhile_imp member
  · exact fun c member => List.mem_takeWhile_imp (List.mem_reverse.mp member)

theorem trim_blank {str : List Char} (blank : Blank str) : trim str = [] := by
  rw [trim,List.dropWhile_eq_nil_iff.mpr blank]
  rfl

theorem blank_of_trim {str : List Char} (trimmed : trim str = []) : Blank str := by
  obtain ⟨front,back,split,before,behind⟩ := trim_split str
  rw [split,trimmed,List.append_nil]
  exact fun c member => (List.mem_append.mp member).elim (before c) (behind c)

theorem trim_padded {front core back : List Char} (before : Blank front) (behind : Blank back)
    (first : ∀ c ∈ core.head?, isspace c = false) (last : ∀ c ∈ core.getLast?, isspace c = false) :
    trim (front ++ core ++ back) = core := by
  rw [List.append_assoc,trim,List.dropWhile_append_of_pos before]
  cases core with
  | nil => exact trim_blank behind
  | cons c core =>
    have kept : (c :: core ++ back).dropWhile isspace = c :: core ++ back := dropWhile_stays first
    rw [kept,List.reverse_append,List.dropWhile_append_of_pos fun c member => behind c (List.mem_reverse.mp member),
      dropWhile_stays (by rwa [List.head?_reverse]),List.reverse_reverse]

end Call45Aggr
