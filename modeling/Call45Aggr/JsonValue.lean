import Mathlib.Data.List.Basic
import Mathlib.Data.String.Basic

/-! `Json::Value`: the tree that it holds, and its use by the settings: members by key, elements by index, and the
conversions of a value, which belong to the library and are a parameter. `none` stands
for the exception that it throws. -/
namespace Call45Aggr

/-- A double is kept as its bit pattern. -/
inductive Json
  | null
  | int (value : Int)
  | uint (value : Nat)
  | real (bits : UInt64)
  | string (value : String)
  | boolean (value : Bool)
  | array (items : List Json)
  | object (members : List (String × Json))
  deriving Inhabited

namespace Json

def isNull : Json → Bool
  | .null => true
  | _ => false

def isString : Json → Bool
  | .string _ => true
  | _ => false

def lookup (key : String) (members : List (String × Json)) : Json :=
  ((members.find? fun member => decide (member.1 = key)).map (·.2)).getD .null

def assign (key : String) (value : Json) : List (String × Json) → List (String × Json)
  | [] => [(key,value)]
  | member :: members =>
    if member.1 = key then (key,value) :: members
    else if key < member.1 then (key,value) :: member :: members
    else member :: assign key value members

/-- The constant `operator[]`. -/
def get (json : Json) (key : String) : Option Json :=
  match json with
  | .null => some .null
  | .object members => some (lookup key members)
  | _ => none

/-- What is done to the member that `operator[]` refers to, a new one if there is none. -/
def modify (json : Json) (key : String) (change : Json → Option Json) : Option Json :=
  match json with
  | .null => (change .null).map fun value => .object [(key,value)]
  | .object members => (change (lookup key members)).map fun value => .object (assign key value members)
  | _ => none

def resize (json : Json) (size : Nat) : Option Json :=
  match json with
  | .null => some (.array (List.replicate size .null))
  | .array items => some (.array (items.take size ++ List.replicate (size - items.length) .null))
  | _ => none

/-- Assignment to an element within the size. -/
def assignAt (json : Json) (index : Nat) (value : Json) : Option Json :=
  match json with
  | .array items => some (.array (items.set index value))
  | _ => none

/-- `find_json` -/
def findJson : List String → Json → Option Json
  | [], current => some current
  | key :: subpaths, current => do
    let current ← current.get key
    if current.isNull then some .null else findJson subpaths current

/-- The way `dump_helper` and `replace_helper` go down a path to the value they change. -/
def modifyPath : List String → (Json → Option Json) → Json → Option Json
  | [], change, current => change current
  | key :: path, change, current => current.modify key (modifyPath path change)

theorem lookup_assign (key other : String) (value : Json) (members : List (String × Json)) :
    lookup other (assign key value members) = if key = other then value else lookup other members := by
  induction members with
  | nil => by_cases same : key = other <;> simp [assign,lookup,same]
  | cons member members ih =>
    unfold assign
    split
    next here =>
      by_cases same : key = other <;> simp [lookup,here,same]
    next =>
      split
      · by_cases same : key = other <;> simp [lookup,same]
      next here _ =>
        by_cases found : member.1 = other
        · have apart : key ≠ other := fun same => here (found.trans same.symm)
          simp [lookup,found,apart]
        · have skip (rest : List (String × Json)) : lookup other (member :: rest) = lookup other rest := by
            simp [lookup,found]
          rw [skip,skip]
          exact ih

theorem get_modify {json next : Json} {key : String} {change : Json → Option Json}
    (modified : json.modify key change = some next) :
    ∃ old value, json.get key = some old ∧ change old = some value ∧
      ∀ other, next.get other = if key = other then some value else json.get other := by
  unfold modify at modified
  split at modified
  next =>
    obtain ⟨value,changed,rfl⟩ := Option.map_eq_some_iff.mp modified
    refine ⟨.null,value,rfl,changed,?_⟩
    intro other
    by_cases same : key = other <;> simp [get,lookup,same]
  next members =>
    obtain ⟨value,changed,rfl⟩ := Option.map_eq_some_iff.mp modified
    refine ⟨_,value,rfl,changed,?_⟩
    intro other
    simp only [get,lookup_assign]
    split <;> rfl
  next => contradiction

theorem findJson_null (path : List String) : findJson path .null = some .null := by
  cases path <;> rfl

theorem findJson_cons {json value : Json} {key : String} (found : json.get key = some value)
    (path : List String) : findJson (key :: path) json = findJson path value := by
  simp only [findJson,found,Option.bind_eq_bind,Option.bind_some]
  split
  next null =>
    cases value <;> simp [isNull] at null
    exact (findJson_null path).symm
  next => rfl

theorem findJson_modifyPath {path : List String} {json next : Json} {change : Json → Option Json}
    (modified : modifyPath path change json = some next) :
    ∃ old value, findJson path json = some old ∧ change old = some value ∧
      findJson path next = some value := by
  induction path generalizing json next with
  | nil => exact ⟨json,next,rfl,modified,rfl⟩
  | cons key path ih =>
    obtain ⟨before,after,found,changed,read⟩ := get_modify modified
    obtain ⟨old,value,was,made,here⟩ := ih changed
    refine ⟨old,value,?_,made,?_⟩
    · rw [findJson_cons found]
      exact was
    · rw [findJson_cons ((read key).trans (if_pos rfl))]
      exact here

theorem modify_some {json old value : Json} {key : String} {change : Json → Option Json}
    (found : json.get key = some old) (changed : change old = some value) :
    ∃ next, json.modify key change = some next := by
  unfold get at found
  split at found
  next => cases found; exact ⟨.object [(key,value)],by simp [modify,changed]⟩
  next members =>
    cases found
    exact ⟨.object (assign key value members),by simp [modify,changed]⟩
  next => contradiction

theorem modifyPath_some {path : List String} {json old value : Json} {change : Json → Option Json}
    (found : findJson path json = some old) (changed : change old = some value) :
    ∃ next, modifyPath path change json = some next := by
  induction path generalizing json value change with
  | nil =>
    cases found
    exact ⟨value,changed⟩
  | cons key path ih =>
    obtain ⟨current,here,_⟩ := Option.bind_eq_some_iff.mp found
    rw [findJson_cons here] at found
    obtain ⟨next,deeper⟩ := ih found changed
    exact modify_some here deeper

/-- Neither of the paths goes on from the other. -/
def Apart (path other : List String) : Prop := ¬path <+: other ∧ ¬other <+: path

instance (path other : List String) : Decidable (Apart path other) := inferInstanceAs (Decidable (_ ∧ _))

theorem findJson_modifyPath_apart {path other : List String} {json next : Json}
    {change : Json → Option Json} (modified : modifyPath path change json = some next)
    (apart : Apart path other) : findJson other next = findJson other json := by
  induction path generalizing other json next with
  | nil => exact absurd List.nil_prefix apart.1
  | cons key path ih =>
    cases other with
    | nil => exact absurd List.nil_prefix apart.2
    | cons first other =>
      obtain ⟨before,after,found,changed,read⟩ := get_modify modified
      by_cases same : key = first
      · subst same
        have deeper : Apart path other := by
          simpa [Apart,List.cons_prefix_cons] using apart
        rw [findJson_cons found,findJson_cons ((read key).trans (if_pos rfl))]
        exact ih changed deeper
      · have kept := (read first).trans (if_neg same)
        simp only [findJson,kept]

end Json
end Call45Aggr
