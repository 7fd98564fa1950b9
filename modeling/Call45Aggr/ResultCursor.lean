import Call45Aggr.Library.Run
import Call45Aggr.Split

/-! `BDbResult` and its test double `MockBDbResult`: a cursor over the rows of a result. -/
namespace Call45Aggr
open Library

namespace ResultCursor

inductive Move
  | next
  | previous
  | first
  | last

inductive Call
  | move (move : Move)
  | set (posid : Int32)

/-- `index` is an `int`: a move over the end of the type is undefined. -/
structure BDbResult (Row : Type) where
  res : List Row
  index : Int := -1

namespace BDbResult
variable {Row : Type}

def count (result : BDbResult Row) : Int := result.res.length

/-- The row that the getters read. -/
def row? (result : BDbResult Row) : Option Row := if 0 ≤ result.index then result.res[result.index.toNat]? else none

/-- The answer and the result after it. -/
def next (result : BDbResult Row) : Option (Bool × BDbResult Row) :=
  if result.index = Int32.maxValue.toInt then none
  else
    let index := result.index + 1
    some (0 < result.count ∧ index < result.count,{result with index})

def set (result : BDbResult Row) (posid : Int32) : BDbResult Row :=
  if result.index < result.count then {result with index := posid.toInt} else result

def previous (result : BDbResult Row) : Option (Bool × BDbResult Row) :=
  if result.index = Int32.minValue.toInt then none
  else
    let index := result.index - 1
    some (0 < result.count ∧ index < result.count,{result with index})

def first (result : BDbResult Row) : Bool × BDbResult Row :=
  if 0 < result.count then (true,{result with index := 0}) else (false,result)

def last (result : BDbResult Row) : Bool × BDbResult Row :=
  if 0 < result.count then (true,{result with index := result.count - 1}) else (false,result)

def move (result : BDbResult Row) : Move → Option (Bool × BDbResult Row)
  | .next => result.next
  | .previous => result.previous
  | .first => some result.first
  | .last => some result.last

def step (result : BDbResult Row) : Call → Option (BDbResult Row)
  | .move move => (result.move move).map Prod.snd
  | .set posid => some (result.set posid)

/-- The move is defined, and where it answers true there is a row at the index. -/
def Sound (result : BDbResult Row) : Call → Prop
  | .move move => ∃ answer after, result.move move = some (answer,after) ∧
      (answer = true → (0 ≤ after.index ∧ after.index < after.count) ∧ after.row?.isSome = true)
  | .set _ => True

/-- No move leaves the rows over their beginning, and none leaves the type. -/
def Guarded (result : BDbResult Row) : Call → Prop
  | .move .next => result.index ≠ Int32.maxValue.toInt ∧ (result.res = [] ∨ -1 ≤ result.index)
  | .move .previous => result.index ≠ Int32.minValue.toInt ∧ (result.res = [] ∨ 0 < result.index)
  | .move .first | .move .last | .set _ => True

instance (result : BDbResult Row) : ∀ call, Decidable (result.Guarded call)
  | .move .next => inferInstanceAs (Decidable (_ ∧ _))
  | .move .previous => inferInstanceAs (Decidable (_ ∧ _))
  | .move .first | .move .last | .set _ => inferInstanceAs (Decidable True)

theorem count_pos {result : BDbResult Row} : 0 < result.count ↔ result.res ≠ [] := by
  rw [count,Int.natCast_pos,List.length_pos_iff]

theorem row_isSome {result : BDbResult Row} (inside : 0 ≤ result.index ∧ result.index < result.count) :
    result.row?.isSome = true := by
  have bound : result.index.toNat < result.res.length := (Int.toNat_lt inside.1).mpr inside.2
  rw [row?,if_pos inside.1,List.getElem?_eq_getElem bound]
  rfl

/-- A move by the test of the upper bound alone is sound where it does not fall below the first row. -/
theorem sound_of_moved {result : BDbResult Row} {move : Move} {index : Int}
    (moved : result.move move = some (decide (0 < result.count ∧ index < result.count),{result with index})) :
    result.Sound (.move move) ↔ result.res = [] ∨ 0 ≤ index := by
  constructor
  · rintro ⟨answer,after,run,sound⟩
    cases moved.symm.trans run
    by_cases empty : result.res = []
    · exact .inl empty
    · right
      by_contra below
      have filled := count_pos.mpr empty
      have inside := sound (decide_eq_true ⟨filled,by omega⟩)
      exact below inside.1.1
  · intro above
    refine ⟨_,_,moved,fun answered => ?_⟩
    obtain ⟨filled,within⟩ := of_decide_eq_true answered
    have inside := above.resolve_left (count_pos.mp filled)
    exact ⟨⟨inside,within⟩,row_isSome ⟨inside,within⟩⟩

theorem sound_of_jumped {result : BDbResult Row} {move : Move} {index : Int}
    (moved : result.move move = some (if 0 < result.count then (true,{result with index}) else (false,result)))
    (inside : 0 < result.count → 0 ≤ index ∧ index < result.count) : result.Sound (.move move) := by
  by_cases filled : 0 < result.count
  · rw [if_pos filled] at moved
    exact ⟨_,_,moved,fun _ => ⟨inside filled,row_isSome (inside filled)⟩⟩
  · rw [if_neg filled] at moved
    exact ⟨_,_,moved,fun answered => absurd answered Bool.false_ne_true⟩

theorem sound_iff_guarded (result : BDbResult Row) (call : Call) : result.Sound call ↔ result.Guarded call := by
  match call with
  | .move .next =>
    by_cases over' : result.index = Int32.maxValue.toInt
    · simp [Sound,Guarded,move,next,over']
    · have moved : result.move .next = _ := if_neg over'
      rw [sound_of_moved moved,Guarded,and_iff_right over']
      exact or_congr_right (by omega)
  | .move .previous =>
    by_cases below : result.index = Int32.minValue.toInt
    · simp [Sound,Guarded,move,previous,below]
    · have moved : result.move .previous = _ := if_neg below
      rw [sound_of_moved moved,Guarded,and_iff_right below]
      exact or_congr_right (by omega)
  | .move .first => exact iff_of_true (sound_of_jumped rfl fun filled => ⟨Int.le_refl 0,filled⟩) trivial
  | .move .last => exact iff_of_true (sound_of_jumped rfl fun filled => by omega) trivial
  | .set posid => exact Iff.rfl

end BDbResult

structure MockBDbResult where
  data : List String
  currentState : List (List Char) := []
  index : Int := -1

namespace MockBDbResult

/-- `none` is the exception of `at`. -/
def parseCurrentState (result : MockBDbResult) : Option MockBDbResult :=
  if result.index < 0 then none
  else result.data[result.index.toNat]?.map fun src =>
    {result with currentState := (splitAny ['|'] src.toList).map trim}

def next (result : MockBDbResult) : Option (Bool × MockBDbResult) :=
  if result.index = result.data.length - 1 then some (false,result)
  else ({result with index := result.index + 1}).parseCurrentState.map (true,·)

def previous (result : MockBDbResult) : Option (Bool × MockBDbResult) :=
  if result.index = 0 then some (false,result)
  else ({result with index := result.index - 1}).parseCurrentState.map (true,·)

def first (result : MockBDbResult) : Option (Bool × MockBDbResult) :=
  if result.data.length = 0 then some (false,result)
  else ({result with index := 0}).parseCurrentState.map (true,·)

/-- It moves as the others do but answers false. -/
def last (result : MockBDbResult) : Option (Bool × MockBDbResult) :=
  if result.data.length = 0 then some (false,result)
  else ({result with index := result.data.length - 1}).parseCurrentState.map (false,·)

def move (result : MockBDbResult) : Move → Option (Bool × MockBDbResult)
  | .next => result.next
  | .previous => result.previous
  | .first => result.first
  | .last => result.last

/-- A move to a row that is there reads it. -/
theorem moves_inside (result : MockBDbResult) (answer : Bool) (index : Int)
    (inside : 0 ≤ index ∧ index < result.data.length) : ∃ currentState,
      ({result with index}).parseCurrentState.map (answer,·) = some (answer,{result with index,currentState}) := by
  have bound : index.toNat < result.data.length := (Int.toNat_lt inside.1).mpr inside.2
  rw [parseCurrentState,if_neg (Int.not_lt.mpr inside.1),List.getElem?_eq_getElem bound]
  exact ⟨_,rfl⟩

theorem parse_below {result : MockBDbResult} (below : result.index < 0) : result.parseCurrentState = none :=
  if_pos below

end MockBDbResult

section
variable {Row : Type}

def both (pair : BDbResult Row × MockBDbResult) (move : Move) : Option (BDbResult Row × MockBDbResult) := do
  let (_,result) ← pair.1.move move
  let (_,mock) ← pair.2.move move
  return (result,mock)

/-- The same answer, and where it is true the same position. -/
def Alike (pair : BDbResult Row × MockBDbResult) (move : Move) : Prop :=
  ∃ answer result mock, pair.1.move move = some (answer,result) ∧ pair.2.move move = some (answer,mock) ∧
    (answer = true → result.index = mock.index)

/-- `previous` starts behind the first row and not right behind the last, and `last` finds no row. -/
def Within (pair : BDbResult Row × MockBDbResult) : Move → Prop
  | .next => pair.1.index ≠ Int32.maxValue.toInt
  | .previous => pair.1.res ≠ [] ∧ 0 < pair.1.index ∧
      (pair.1.index < pair.1.count ∨ pair.1.count = 1 ∧ 1 < pair.1.index)
  | .first => True
  | .last => pair.1.res = []

instance (pair : BDbResult Row × MockBDbResult) : ∀ move, Decidable (Within pair move)
  | .next => inferInstanceAs (Decidable (_ ≠ _))
  | .previous => inferInstanceAs (Decidable (_ ∧ _))
  | .first => inferInstanceAs (Decidable True)
  | .last => inferInstanceAs (Decidable (_ = []))

/-- The double stops at the last row, where the result runs on. -/
structure Paired (pair : BDbResult Row × MockBDbResult) : Prop where
  size : (pair.2.data.length : Int) = pair.1.count
  start : -1 ≤ pair.1.index
  position : pair.2.index = min pair.1.index (pair.1.count - 1)

/-- The move is alike exactly where it is within, and then the two stay paired. -/
def Settled (pair : BDbResult Row × MockBDbResult) (move : Move) : Prop :=
  Within pair move ∧ Alike pair move ∧ (∀ after ∈ both pair move, Paired after) ∨ ¬Within pair move ∧ ¬Alike pair move

theorem alike_of {pair : BDbResult Row × MockBDbResult} (paired : Paired pair) {move : Move} {answer : Bool} {index : Int}
    {mock : MockBDbResult} (moved : pair.1.move move = some (answer,{pair.1 with index}))
    (mocked : pair.2.move move = some (answer,mock)) (data : mock.data = pair.2.data) (start : -1 ≤ index)
    (position : mock.index = min index (pair.1.count - 1)) (same : answer = true → index < pair.1.count) :
    Alike pair move ∧ ∀ after ∈ both pair move, Paired after := by
  refine ⟨⟨answer,_,mock,moved,mocked,fun answered => ?_⟩,fun after reached => ?_⟩
  · have inside := same answered
    show index = mock.index
    omega
  · have ran : both pair move = some ({pair.1 with index},mock) := by
      rw [both,moved,mocked]
      rfl
    cases ran.symm.trans reached
    exact ⟨data ▸ paired.size,start,position⟩

theorem not_alike {pair : BDbResult Row × MockBDbResult} {move : Move} {answer other : Bool} {result : BDbResult Row}
    {mock : MockBDbResult} (moved : pair.1.move move = some (answer,result)) (mocked : pair.2.move move = some (other,mock))
    (differ : other = answer → answer = true ∧ result.index ≠ mock.index) : ¬Alike pair move := by
  rintro ⟨both',_,_,moved',mocked',same⟩
  cases moved.symm.trans moved'
  cases mocked.symm.trans mocked'
  obtain ⟨answered,apart⟩ := differ rfl
  exact apart (same answered)

theorem next_settled {pair : BDbResult Row × MockBDbResult} (paired : Paired pair) : Settled pair .next := by
  obtain ⟨size,start,position⟩ := id paired
  by_cases top : pair.1.index = Int32.maxValue.toInt
  · refine .inr ⟨not_not_intro top,?_⟩
    rintro ⟨answer,result,mock,moved,-⟩
    cases (if_pos top : pair.1.next = none).symm.trans moved
  refine .inl ⟨top,?_⟩
  have moved : pair.1.move .next = _ := if_neg top
  by_cases last : pair.2.index = pair.2.data.length - 1
  · have stays : pair.2.move .next = some (false,pair.2) := if_pos last
    have answer : decide (0 < pair.1.count ∧ pair.1.index + 1 < pair.1.count) = false := decide_eq_false (by omega)
    rw [answer] at moved
    exact alike_of paired moved stays rfl (by omega) (by omega) (fun answered => absurd answered Bool.false_ne_true)
  · have answer : decide (0 < pair.1.count ∧ pair.1.index + 1 < pair.1.count) = true := decide_eq_true (by omega)
    rw [answer] at moved
    obtain ⟨currentState,parsed⟩ := pair.2.moves_inside true (pair.2.index + 1) (by omega)
    have follows : pair.2.move .next = _ := (if_neg last).trans parsed
    exact alike_of paired moved follows rfl (by omega) (by dsimp only; omega) (fun _ => by omega)

theorem previous_settled {pair : BDbResult Row × MockBDbResult} (paired : Paired pair) : Settled pair .previous := by
  obtain ⟨size,start,position⟩ := id paired
  have bottom : pair.1.index ≠ Int32.minValue.toInt := by
    have least : Int32.minValue.toInt = -2147483648 := rfl
    omega
  have moved : pair.1.move .previous = _ := if_neg bottom
  by_cases first : pair.2.index = 0
  · have stays : pair.2.move .previous = some (false,pair.2) := if_pos first
    by_cases inside : 1 < pair.1.index
    · have answer : decide (0 < pair.1.count ∧ pair.1.index - 1 < pair.1.count) = false := decide_eq_false (by omega)
      rw [answer] at moved
      refine .inl ⟨⟨BDbResult.count_pos.mp (by omega),by omega,by omega⟩,?_⟩
      exact alike_of paired moved stays rfl (by omega) (by omega) (fun answered => absurd answered Bool.false_ne_true)
    · have answer : decide (0 < pair.1.count ∧ pair.1.index - 1 < pair.1.count) = true := decide_eq_true (by omega)
      rw [answer] at moved
      refine .inr ⟨fun within => ?_,not_alike moved stays (fun same => absurd same Bool.false_ne_true)⟩
      have behind := within.2
      omega
  · by_cases below : pair.2.index < 0
    · have thrown : pair.2.move .previous = none :=
        (if_neg first).trans (congrArg (Option.map (true,·)) (MockBDbResult.parse_below (by dsimp only; omega)))
      refine .inr ⟨fun within => ?_,fun ⟨_,_,_,_,mocked,_⟩ => absurd (thrown.symm.trans mocked) (by simp)⟩
      have filled := BDbResult.count_pos.mpr within.1
      have behind := within.2.1
      omega
    · obtain ⟨currentState,parsed⟩ := pair.2.moves_inside true (pair.2.index - 1) (by omega)
      have follows : pair.2.move .previous = _ := (if_neg first).trans parsed
      by_cases inside : pair.1.index < pair.1.count
      · have answer : decide (0 < pair.1.count ∧ pair.1.index - 1 < pair.1.count) = true := decide_eq_true (by omega)
        rw [answer] at moved
        refine .inl ⟨⟨BDbResult.count_pos.mp (by omega),by omega,.inl inside⟩,?_⟩
        exact alike_of paired moved follows rfl (by omega) (by dsimp only; omega) (fun _ => by omega)
      · -- right behind the last row the double is already one further back
        refine .inr ⟨fun within => ?_,not_alike moved follows fun same => ⟨same.symm,?_⟩⟩
        · have behind := within.2
          omega
        · have answered := of_decide_eq_true same.symm
          show pair.1.index - 1 ≠ pair.2.index - 1
          omega

theorem first_settled {pair : BDbResult Row × MockBDbResult} (paired : Paired pair) : Settled pair .first := by
  refine .inl ⟨trivial,?_⟩
  obtain ⟨size,start,position⟩ := id paired
  by_cases filled : 0 < pair.1.count
  · have moved : pair.1.move .first = _ := congrArg some (if_pos filled)
    obtain ⟨currentState,parsed⟩ := pair.2.moves_inside true 0 (by omega)
    have follows : pair.2.move .first = _ := (if_neg (by omega : pair.2.data.length ≠ 0)).trans parsed
    exact alike_of paired moved follows rfl (by omega) (by dsimp only; omega) (fun _ => filled)
  · have moved : pair.1.move .first = _ := congrArg some (if_neg filled)
    have stays : pair.2.move .first = _ := if_pos (by omega : pair.2.data.length = 0)
    exact alike_of paired moved stays rfl start position (fun answered => absurd answered Bool.false_ne_true)

theorem last_settled {pair : BDbResult Row × MockBDbResult} (paired : Paired pair) : Settled pair .last := by
  obtain ⟨size,start,position⟩ := id paired
  by_cases filled : 0 < pair.1.count
  · have moved : pair.1.move .last = _ := congrArg some (if_pos filled)
    obtain ⟨currentState,parsed⟩ := pair.2.moves_inside false (pair.2.data.length - 1) (by omega)
    have follows : pair.2.move .last = _ := (if_neg (by omega : pair.2.data.length ≠ 0)).trans parsed
    exact .inr ⟨BDbResult.count_pos.mp filled,not_alike moved follows (fun same => absurd same Bool.false_ne_true)⟩
  · have moved : pair.1.move .last = _ := congrArg some (if_neg filled)
    have stays : pair.2.move .last = _ := if_pos (by omega : pair.2.data.length = 0)
    refine .inl ⟨not_not.mp (mt BDbResult.count_pos.mpr filled),?_⟩
    exact alike_of paired moved stays rfl start position (fun answered => absurd answered Bool.false_ne_true)

theorem move_settled {pair : BDbResult Row × MockBDbResult} (paired : Paired pair) : ∀ move, Settled pair move
  | .next => next_settled paired
  | .previous => previous_settled paired
  | .first => first_settled paired
  | .last => last_settled paired

/-- The moves of a result are sound exactly if each is guarded, and those of its double are
alike exactly if each is within. -/
theorem cursors_iff (res : List Row) (data : List String) (same : data.length = res.length) (calls : List Call)
    (moves : List Move) :
    (Along BDbResult.step BDbResult.Sound calls {res} ↔ Along BDbResult.step BDbResult.Guarded calls {res}) ∧
      (Along both Alike moves ({res},{data}) ↔ Along both Within moves ({res},{data})) := by
  constructor
  · exact along_iff (fun _ => True) (fun result call _ => result.sound_iff_guarded call)
      (fun _ _ _ _ _ _ => trivial) trivial calls
  · refine along_iff Paired (fun pair move paired => ?_) (fun pair move after paired alike ran => ?_) ?_ moves
    · rcases move_settled paired move with ⟨within,alike,-⟩ | ⟨outside,differs⟩
      · exact iff_of_true alike within
      · exact iff_of_false differs outside
    · rcases move_settled paired move with ⟨-,-,kept⟩ | ⟨-,differs⟩
      · exact kept after ran
      · exact absurd alike differs
    · refine ⟨congrArg Nat.cast same,Int.le_refl (-1),?_⟩
      show -1 = min (-1) ((res.length : Int) - 1)
      omega

theorem cursors_walk : Along BDbResult.step BDbResult.Sound [.move .next,.move .next,.move .previous] {res := ["a","b"]} ∧
    Along both Alike [.next,.next,.previous] ({res := ["a","b"]},{data := ["c","d"]}) :=
  have exact' := cursors_iff ["a","b"] ["c","d"] rfl [.move .next,.move .next,.move .previous] [.next,.next,.previous]
  ⟨exact'.1.mpr (by decide),exact'.2.mpr (by decide)⟩

/-- `previous` answers true in front of the first row, and `last` of the double answers false. -/
theorem cursors_astray : (¬∀ (res : List String) (calls : List Call), Along BDbResult.step BDbResult.Sound calls {res}) ∧
    ¬∀ (rows : List String) (moves : List Move), Along both Alike moves ({res := rows},{data := rows}) := by
  constructor
  · intro sound
    have behind := (sound ["a"] [.move .first,.move .previous]).2 {res := ["a"],index := 0} rfl
    have guarded := (BDbResult.sound_iff_guarded _ _).mp behind.1
    simp [BDbResult.Guarded] at guarded
  · intro alike
    rcases @last_settled String ({res := ["a"]},{data := ["a"]})
      ⟨rfl,by decide,by decide⟩ with ⟨empty,-⟩ | ⟨-,differs⟩
    · exact absurd empty (List.cons_ne_nil "a" [])
    · exact differs (alike ["a"] [.last]).1

end

end ResultCursor
end Call45Aggr
