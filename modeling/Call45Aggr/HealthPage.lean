import Call45Aggr.HealthRegister
import Call45Aggr.JsonValue
import Call45Aggr.Model

/-! The JSON that `healthcheck_view` makes of the register. It is in no build file and at no
URL: `/health` is `health_view`, a fixed text. -/
namespace Call45Aggr
open Library

namespace Json

/-- An assignment through a chain of `operator[]`. -/
def assignPath (path : List String) (value json : Json) : Option Json :=
  modifyPath path (fun _ => some value) json

/-- What is done to the element that `operator[]` refers to with the index 0. -/
def modifyFirst (change : Json → Option Json) : Json → Option Json
  | .null => (change .null).map fun value => .array [value]
  | .array [] => (change .null).map fun value => .array [value]
  | .array (first :: rest) => (change first).map fun value => .array (value :: rest)
  | _ => none

theorem assignPath_some {path : List String} {json old : Json} (value : Json)
    (found : findJson path json = some old) : ∃ next, assignPath path value json = some next ∧
      findJson path next = some value ∧
      ∀ other, Apart path other → findJson other next = findJson other json := by
  obtain ⟨next,assigned⟩ := @modifyPath_some path json old value (fun _ => some value) found rfl
  obtain ⟨_,_,_,made,read⟩ := findJson_modifyPath assigned
  cases Option.some.inj made
  exact ⟨next,assigned,read,fun other apart => findJson_modifyPath_apart assigned apart⟩

end Json

namespace HealthPage
open Json

def itemName (i : Nat) : String := "item" ++ toString i

def addItem (i : Nat) (itemId itemVal statusId statusMessage : String) (val : Json) : Option Json := do
  let val ← assignPath [itemName i,"itemId"] (.string itemId) val
  let val ← assignPath [itemName i,"itemVal"] (.string itemVal) val
  let val ← assignPath [itemName i,"statusId"] (.string statusId) val
  assignPath [itemName i,"statusMessage"] (.string statusMessage) val

/-- The part of the page that does not depend on the register. -/
def fixed (instanceId : UInt32) (instanceName : String) (uptime : Int) : Option Json := do
  let val ← assignPath ["autoLockFinance"] (.boolean true) .null
  let val ← assignPath ["currentCalls"] (.int 1) val
  let val ← assignPath ["instanceId"] (.uint instanceId.toNat) val
  let val ← addItem 0 "call45aggr" "No errors" "STATUS_OK" "No errors" val
  let val ← modifyPath ["regionList"] (modifyFirst (assignPath ["regionId"] (.uint instanceId.toNat))) val
  let val ← modifyPath ["regionList"] (modifyFirst (assignPath ["regionName"] (.string instanceName))) val
  assignPath ["runTime"] (.int uptime) val

def addStates : Nat → List HealthState → Json → Option Json
  | _, [], val => some val
  | i, ht :: rest, val =>
    (addItem i ht.item "" ht.statusType.text ht.statusMessage val).bind (addStates (i + 1) rest)

/-- `healthcheck_view::handle` -/
def page (instanceId : UInt32) (instanceName : String) (uptime : Int) (states : List HealthState) : Option Json :=
  (fixed instanceId instanceName uptime).bind (addStates 1 states)

theorem itemName_injective {i j : Nat} (same : itemName i = itemName j) : i = j := by
  have digits : Nat.toDigits 10 i = Nat.toDigits 10 j := by
    have texts := congrArg String.toList ((String.append_right_inj "item").mp same)
    simpa using texts
  have back (n : Nat) : Nat.ofDigitChars 10 (Nat.toDigits 10 n) 0 = n :=
    Nat.ofDigitChars_toDigits (by decide) (by decide)
  rw [← back i,digits,back j]

theorem itemName_ne (i : Nat) {key : String} (other : ¬"item".toList <+: key.toList) : itemName i ≠ key := by
  rintro rfl
  apply other
  rw [itemName,String.toList_append]
  exact List.prefix_append _ _

/-- The page has an item under this number. -/
structure Reported (json : Json) (i : Nat) (itemId statusId statusMessage : String) : Prop where
  item : findJson [itemName i,"itemId"] json = some (.string itemId)
  status : findJson [itemName i,"statusId"] json = some (.string statusId)
  message : findJson [itemName i,"statusMessage"] json = some (.string statusMessage)

theorem apart_of_ne {key other : String} (apart : key ≠ other) (path rest : List String) :
    Apart (key :: path) (other :: rest) :=
  ⟨fun before => apart (List.cons_prefix_cons.mp before).1,
    fun before => apart (List.cons_prefix_cons.mp before).1.symm⟩

theorem apart_within (key : String) {name other : String} (apart : name ≠ other) :
    Apart [key,name] [key,other] := by
  constructor
  · intro before
    exact apart (by simpa using before)
  · intro before
    exact apart.symm (by simpa using before)

theorem findJson_blank {json : Json} {key : String} (blank : findJson [key] json = some .null) (name : String) :
    findJson [key,name] json = some .null := by
  obtain ⟨current,here,_⟩ := Option.bind_eq_some_iff.mp blank
  rw [findJson_cons here] at blank ⊢
  cases Option.some.inj blank
  exact findJson_null [name]

theorem addItem_some {i : Nat} {val : Json} (fresh : findJson [itemName i] val = some .null)
    (itemId itemVal statusId statusMessage : String) :
    ∃ next, addItem i itemId itemVal statusId statusMessage val = some next ∧
      Reported next i itemId statusId statusMessage ∧
      ∀ key path, key ≠ itemName i → findJson (key :: path) next = findJson (key :: path) val := by
  have blank (name : String) := findJson_blank fresh name
  have apart {name other : String} (different : name ≠ other) := apart_within (itemName i) different
  obtain ⟨first,made₁,read₁,kept₁⟩ := assignPath_some (.string itemId) (blank "itemId")
  have blank₁ {name : String} (later : "itemId" ≠ name) : findJson [itemName i,name] first = some .null :=
    (kept₁ _ (apart later)).trans (blank name)
  obtain ⟨second,made₂,_,kept₂⟩ := assignPath_some (.string itemVal) (@blank₁ "itemVal" (by decide))
  have blank₂ {name : String} (later : "itemId" ≠ name ∧ "itemVal" ≠ name) :
      findJson [itemName i,name] second = some .null := (kept₂ _ (apart later.2)).trans (blank₁ later.1)
  obtain ⟨third,made₃,read₃,kept₃⟩ := assignPath_some (.string statusId) (@blank₂ "statusId" (by decide))
  have blank₃ : findJson [itemName i,"statusMessage"] third = some .null :=
    (kept₃ _ (apart (by decide))).trans (blank₂ (by decide))
  obtain ⟨next,made₄,read₄,kept₄⟩ := assignPath_some (.string statusMessage) blank₃
  refine ⟨next,?_,⟨?_,?_,read₄⟩,?_⟩
  · simp only [addItem,made₁,made₂,made₃,made₄,Option.bind_eq_bind,Option.bind_some]
  · rw [kept₄ _ (apart (by decide)),kept₃ _ (apart (by decide)),kept₂ _ (apart (by decide))]
    exact read₁
  · rw [kept₄ _ (apart (by decide))]
    exact read₃
  · intro key path other
    have outside (rest : List String) : Apart (itemName i :: rest) (key :: path) := apart_of_ne other.symm rest path
    rw [kept₄ _ (outside _),kept₃ _ (outside _),kept₂ _ (outside _),kept₁ _ (outside _)]

theorem Reported.kept {json next : Json} {i : Nat} {itemId statusId statusMessage : String}
    (reported : Reported json i itemId statusId statusMessage)
    (kept : ∀ path, findJson (itemName i :: path) next = findJson (itemName i :: path) json) :
    Reported next i itemId statusId statusMessage :=
  ⟨(kept _).trans reported.item,(kept _).trans reported.status,(kept _).trans reported.message⟩

/-- Each state is reported under its own number, and no other key changes. -/
theorem addStates_some (states : List HealthState) {i : Nat} {val : Json}
    (fresh : ∀ n, i ≤ n → findJson [itemName n] val = some .null) :
    ∃ next, addStates i states val = some next ∧
      (∀ n ht, states[n]? = some ht → Reported next (i + n) ht.item ht.statusType.text ht.statusMessage) ∧
      (∀ n, i + states.length ≤ n → findJson [itemName n] next = some .null) ∧
      ∀ key path, (∀ n, i ≤ n → key ≠ itemName n) →
        findJson (key :: path) next = findJson (key :: path) val := by
  induction states generalizing i val with
  | nil => exact ⟨val,rfl,nofun,fresh,fun _ _ _ => rfl⟩
  | cons first rest ih =>
    obtain ⟨middle,added,reported,kept⟩ := addItem_some (fresh i (le_refl i)) first.item "" first.statusType.text
      first.statusMessage
    have apart {n : Nat} (later : i + 1 ≤ n) : itemName n ≠ itemName i := by
      intro same
      have equal := itemName_injective same
      omega
    obtain ⟨next,done,others,beyond,unchanged⟩ := @ih (i + 1) middle fun n later =>
      (kept _ _ (apart later)).trans (fresh n (Nat.le_of_succ_le later))
    refine ⟨next,?_,?_,?_,?_⟩
    · rw [addStates,added]
      exact done
    · intro n ht here
      cases n with
      | zero =>
        cases Option.some.inj here
        exact reported.kept fun path => unchanged _ path fun n later => (apart later).symm
      | succ n =>
        have number : i + (n + 1) = i + 1 + n := by omega
        rw [number]
        exact others n ht here
    · intro n later
      rw [List.length_cons] at later
      exact beyond n (by omega)
    · intro key path outside
      rw [unchanged key path fun n later => outside n (Nat.le_of_succ_le later),kept key path (outside i (le_refl i))]

/-- A tree whose members have these names. -/
def Only (keys : List String) (json : Json) : Prop := ∀ key, key ∉ keys → findJson [key] json = some .null

theorem Only.modify {keys : List String} {json old value : Json} {change : Json → Option Json}
    (only : Only keys json) (key : String) (found : findJson [key] json = some old)
    (changed : change old = some value) :
    ∃ next, modifyPath [key] change json = some next ∧ Only (key :: keys) next ∧
      findJson [key] next = some value ∧
      ∀ other path, key ≠ other → findJson (other :: path) next = findJson (other :: path) json := by
  obtain ⟨next,modified⟩ := modifyPath_some found changed
  obtain ⟨before,after,was,made,read⟩ := findJson_modifyPath modified
  cases Option.some.inj (was.symm.trans found)
  cases Option.some.inj (made.symm.trans changed)
  have kept (other : String) (path : List String) (apart : key ≠ other) :=
    findJson_modifyPath_apart modified (apart_of_ne apart [] path)
  refine ⟨next,modified,?_,read,kept⟩
  intro other outside
  obtain ⟨apart,absent⟩ := not_or.mp (List.mem_cons.not.mp outside)
  exact (kept other [] (Ne.symm apart)).trans (only other absent)

theorem Only.assign {keys : List String} {json : Json} (only : Only keys json) (key : String) (absent : key ∉ keys)
    (value : Json) : ∃ next, assignPath [key] value json = some next ∧ Only (key :: keys) next ∧
      ∀ other path, key ≠ other → findJson (other :: path) next = findJson (other :: path) json := by
  obtain ⟨next,modified,still,_,kept⟩ :=
    @Only.modify keys json .null value (fun _ => some value) only key (only key absent) rfl
  exact ⟨next,modified,still,kept⟩

theorem Only.addItem {keys : List String} {json : Json} (only : Only keys json) (absent : itemName 0 ∉ keys)
    (itemId itemVal statusId statusMessage : String) :
    ∃ next, addItem 0 itemId itemVal statusId statusMessage json = some next ∧ Only (itemName 0 :: keys) next ∧
      Reported next 0 itemId statusId statusMessage := by
  obtain ⟨next,added,reported,kept⟩ :=
    addItem_some (only (itemName 0) absent) itemId itemVal statusId statusMessage
  refine ⟨next,added,?_,reported⟩
  intro other outside
  obtain ⟨apart,absent⟩ := not_or.mp (List.mem_cons.not.mp outside)
  exact (kept other [] apart).trans (only other absent)

theorem fixed_some (instanceId : UInt32) (instanceName : String) (uptime : Int) :
    ∃ val, fixed instanceId instanceName uptime = some val ∧
      Reported val 0 "call45aggr" "STATUS_OK" "No errors" ∧
      ∀ n, 0 < n → findJson [itemName n] val = some .null := by
  have none : Only [] .null := fun key _ => findJson_null [key]
  obtain ⟨v₁,made₁,only₁,_⟩ := none.assign "autoLockFinance" (by decide) (.boolean true)
  obtain ⟨v₂,made₂,only₂,_⟩ := only₁.assign "currentCalls" (by decide) (.int 1)
  obtain ⟨v₃,made₃,only₃,_⟩ := only₂.assign "instanceId" (by decide) (.uint instanceId.toNat)
  obtain ⟨v₄,made₄,only₄,reported⟩ :=
    only₃.addItem (by decide) "call45aggr" "No errors" "STATUS_OK" "No errors"
  obtain ⟨v₅,made₅,only₅,read₅,kept₅⟩ := only₄.modify "regionList" (only₄ "regionList" (by decide))
    (rfl : modifyFirst (assignPath ["regionId"] (.uint instanceId.toNat)) .null = some _)
  obtain ⟨v₆,made₆,only₆,_,kept₆⟩ := only₅.modify "regionList" read₅
    (rfl : modifyFirst (assignPath ["regionName"] (.string instanceName)) _ = some _)
  obtain ⟨v₇,made₇,only₇,kept₇⟩ := only₆.assign "runTime" (by decide) (.int uptime)
  refine ⟨v₇,?_,?_,?_⟩
  · simp only [fixed,made₁,made₂,made₃,made₄,made₅,made₆,made₇,Option.bind_eq_bind,Option.bind_some]
  · refine reported.kept fun path => ?_
    rw [kept₇ _ _ (by decide),kept₆ _ _ (by decide),kept₅ _ _ (by decide)]
  · intro n positive
    apply only₇
    have zero : itemName n ≠ itemName 0 := fun same => absurd (itemName_injective same) (Nat.ne_of_gt positive)
    simp [zero,itemName_ne n (by decide : ¬"item".toList <+: "runTime".toList),
      itemName_ne n (by decide : ¬"item".toList <+: "regionList".toList),
      itemName_ne n (by decide : ¬"item".toList <+: "instanceId".toList),
      itemName_ne n (by decide : ¬"item".toList <+: "currentCalls".toList),
      itemName_ne n (by decide : ¬"item".toList <+: "autoLockFinance".toList)]

theorem mem_states {register : HealthRegister} (filed : register.Filed) {time : Int} {ht : HealthState} :
    ht ∈ (register.states time).2 ↔ register.shown ht.item time = some ht := by
  have kept := HealthRegister.eraseOldMessages_filed filed time
  rw [← register.eraseOldMessages_find? ht.item time]
  constructor
  · intro member
    obtain ⟨item,found⟩ := SortedMap.mem_values.mp member
    rw [(kept item ht found).1]
    exact found
  · intro found
    exact SortedMap.mem_values.mpr ⟨ht.item,found⟩

theorem shown_item {register : HealthRegister} (filed : register.Filed) {time : Int} {item : String}
    {ht : HealthState} (shown : register.shown item time = some ht) : ht.item = item := by
  rw [← register.eraseOldMessages_find? item time] at shown
  exact (HealthRegister.eraseOldMessages_filed filed time item ht shown).1

theorem states_items {register : HealthRegister} (filed : register.Filed) (time : Int) :
    ((register.states time).2.map (·.item)).Nodup := by
  have keys : (register.states time).2.map (·.item) =
      (register.eraseOldMessages time).values.entries.map (·.1) := by
    rw [HealthRegister.states,SortedMap.values,List.map_map]
    refine List.map_congr_left fun entry member => ?_
    exact (HealthRegister.eraseOldMessages_filed filed time _ _ (SortedMap.find?_of_mem member)).1
  rw [keys]
  refine List.pairwise_map.mpr ((register.eraseOldMessages time).values.sorted.imp ?_)
  exact fun less => less.ne

/-- In every run of a register `healthcheck_view` can make its JSON, which has each unexpired
state under exactly one number with its severity and message, no other ones, and the item of
the service itself. -/
theorem health_reported (instanceId : UInt32) (instanceName : String) (uptime start time : Int) (s : Monitored)
    (run : Run Monitored.step Always {clock := start} s) :
    ∃ json, page instanceId instanceName uptime (s.register.states time).2 = some json ∧
      Reported json 0 "call45aggr" "STATUS_OK" "No errors" ∧
      (∀ item ht, s.register.shown item time = some ht →
        ∃ n, 0 < n ∧ Reported json n item ht.statusType.text ht.statusMessage ∧
          ∀ m, 0 < m → findJson [itemName m,"itemId"] json = some (.string item) → m = n) ∧
      ∀ n, 0 < n → findJson [itemName n] json = some .null ∨ ∃ item ht, s.register.shown item time = some ht ∧
        Reported json n item ht.statusType.text ht.statusMessage := by
  have filed := Monitored.run_filed run
  obtain ⟨base,made,own,blank⟩ := fixed_some instanceId instanceName uptime
  obtain ⟨json,added,reported,beyond,kept⟩ := @addStates_some (s.register.states time).2 1 base blank
  refine ⟨json,?_,?_,?_,?_⟩
  · rw [page,made]
    exact added
  · refine own.kept fun path => kept _ _ fun n later same => ?_
    rw [← itemName_injective same] at later
    omega
  · intro item ht shown
    have named := shown_item filed shown
    subst named
    obtain ⟨place,located⟩ := List.mem_iff_getElem?.mp ((mem_states filed).mpr shown)
    refine ⟨1 + place,by omega,reported place ht located,fun m positive same => ?_⟩
    obtain ⟨other,rfl⟩ := Nat.exists_eq_add_of_le positive
    cases there : (s.register.states time).2[other]? with
    | none =>
      have absent := findJson_blank (beyond (1 + other) (by simpa using there)) "itemId"
      rw [absent] at same
      cases same
    | some found =>
      have text := (reported other found there).item
      rw [same] at text
      have equal : found.item = ht.item := by simpa using text.symm
      have items (n : Nat) (state : HealthState) (here : (s.register.states time).2[n]? = some state) :
          ((s.register.states time).2.map (·.item))[n]? = some state.item := by
        rw [List.getElem?_map,here]
        rfl
      have first := items place ht located
      have second := items other found there
      rw [equal,← first] at second
      have bound := (List.getElem?_eq_some_iff.mp (items other found there)).1
      rw [(List.getElem?_inj bound (states_items filed time)).mp second]
  · intro n positive
    obtain ⟨place,rfl⟩ := Nat.exists_eq_add_of_le positive
    cases there : (s.register.states time).2[place]? with
    | none => exact .inl (beyond (1 + place) (by simpa using there))
    | some ht =>
      exact .inr ⟨ht.item,ht,(mem_states filed).mp (List.mem_of_getElem? there),reported place ht there⟩

theorem health_reported_loader : ∃ json, ∃ s : Monitored,
    page 9000 "Unknown" 60 (s.register.states 10).2 = some json ∧
      ∃ n, 0 < n ∧ Reported json n "loader" "STATUS_ERROR" "table lost" := by
  obtain ⟨s,run,good⟩ := exists_run Monitored.step Always {clock := 0}
    (fun s => s.register.shown "loader" 10 == some ⟨"loader","STATUS_ERROR","table lost",.error,5⟩)
    [.register .warning "pool" "slow" 4 4,.register .error "loader" "table lost" 5 5] (by decide)
  obtain ⟨json,made,_,reported,_⟩ := health_reported 9000 "Unknown" 60 0 10 s run
  obtain ⟨n,positive,here,_⟩ := reported "loader" _ (beq_iff_eq.mp good)
  exact ⟨json,s,made,n,positive,here⟩

end HealthPage

end Call45Aggr
