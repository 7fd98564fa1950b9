import Call45Aggr.DataVoipRecordReport

/-! `voip_event` against the order of the links it is made from. -/
namespace Call45Aggr
open Library

namespace DataVoipRecordReport

/-- Types of `a` under which no link makes the call internal. -/
def FromOutside (a : CallLeg) : Prop :=
  a.objectType = "pstn" ∨ a.objectType = "webcall" ∨ a.objectType = "missed_call_callback"

instance (a : CallLeg) : Decidable (FromOutside a) := inferInstanceAs (Decidable (_ ∨ _))

def ownLinks (record : Assembled) : List CallLegLink :=
  record.links.filter fun link => link.uniqueidOrig = record.a.uniqueid

/-- The link leads to the telephone network; an absent leg has no type. -/
def ToPstn (record : Assembled) (link : CallLegLink) : Prop :=
  (record.linked link.uniqueidTerm).objectType = "pstn"

instance (record : Assembled) (link : CallLegLink) : Decidable (ToPstn record link) :=
  inferInstanceAs (Decidable (_ = _))

/-- The event after one more link of `a`. -/
def nextEvent (record : Assembled) (voipEvent : String) (link : CallLegLink) : String :=
  if ToPstn record link then "outgoing" else if FromOutside record.a then voipEvent else "internal"

theorem scanLink_own {record : Assembled} {link : CallLegLink}
    (own : link.uniqueidOrig = record.a.uniqueid) (voipEvent : String) :
    (scanLink (record,voipEvent) link).2 = nextEvent record voipEvent link := by
  by_cases outside : FromOutside record.a
  · have undecided : ¬(record.a.objectType ≠ "pstn" ∧ record.a.objectType ≠ "webcall" ∧
        record.a.objectType ≠ "missed_call_callback") := by
      unfold FromOutside at outside
      tauto
    simp only [scanLink,own,undecided,if_true,if_false,Assembled.leg_snd]
    simp only [nextEvent,outside,if_true]
    rfl
  · have inside : record.a.objectType ≠ "pstn" ∧ record.a.objectType ≠ "webcall" ∧
        record.a.objectType ≠ "missed_call_callback" := by
      unfold FromOutside at outside
      tauto
    by_cases pstn : (record.linked link.uniqueidTerm).objectType = "pstn"
    · simp [scanLink,own,inside,nextEvent,ToPstn,pstn]
    · simp [scanLink,own,inside,nextEvent,ToPstn,pstn,outside]

theorem scanLink_other {record : Assembled} {link : CallLegLink}
    (other : link.uniqueidOrig ≠ record.a.uniqueid) (voipEvent : String) :
    (scanLink (record,voipEvent) link).2 = voipEvent := by
  simp [scanLink,other]

/-- Lookups do not change what the event is made from. -/
theorem nextEvent_leg (record : Assembled) (key : String) :
    nextEvent (record.leg key).1 = nextEvent record := by
  funext voipEvent link
  have same : ToPstn (record.leg key).1 link ↔ ToPstn record link := by simp [ToPstn]
  simp only [nextEvent,same,Assembled.leg_a]

theorem scan_event (links : List CallLegLink) (record : Assembled) (voipEvent : String) :
    (links.foldl scanLink (record,voipEvent)).2 =
      (links.filter fun link => link.uniqueidOrig = record.a.uniqueid).foldl (nextEvent record) voipEvent := by
  induction links generalizing record voipEvent with
  | nil => rfl
  | cons link links ih =>
    have later := ih (scanLink (record,voipEvent) link).1 (scanLink (record,voipEvent) link).2
    rw [Prod.mk.eta,scanLink_fst] at later
    rw [List.foldl_cons,later]
    by_cases own : link.uniqueidOrig = record.a.uniqueid
    · simp [own,nextEvent_leg,scanLink_own own]
    · simp [own,scanLink_other own]

theorem voipEvent_eq (env : Env) (u : DataVoipRecord.Unset) (record : Assembled) :
    (build env u record).2.voipEvent =
      let voipEvent := (ownLinks record).foldl (nextEvent record)
        (if record.a.objectType = "pstn" then "incoming" else "")
      if voipEvent = "" then "uncknown" else voipEvent := by
  rw [ownLinks,← scan_event]
  rfl

/-- From outside the network one link that leads there makes the call outgoing, in any place. -/
theorem foldl_outside {record : Assembled} (outside : FromOutside record.a) (links : List CallLegLink)
    (voipEvent : String) : links.foldl (nextEvent record) voipEvent =
      if ∃ link ∈ links, ToPstn record link then "outgoing" else voipEvent := by
  induction links generalizing voipEvent with
  | nil => simp
  | cons link links ih =>
    rw [List.foldl_cons,ih]
    by_cases first : ToPstn record link <;> by_cases later : ∃ link ∈ links, ToPstn record link <;>
      simp [nextEvent,outside,first,later]

/-- From inside it the last link decides. -/
theorem foldl_inside {record : Assembled} (inside : ¬FromOutside record.a) (links : List CallLegLink)
    (voipEvent : String) : links.foldl (nextEvent record) voipEvent =
      match links.getLast? with
      | some link => if ToPstn record link then "outgoing" else "internal"
      | none => voipEvent := by
  rcases List.eq_nil_or_concat links with rfl | ⟨links,link,rfl⟩
  · rfl
  · simp [nextEvent,inside]

/-- The last link of `a` leads to the telephone network. -/
def LastToPstn (record : Assembled) : Prop := ∃ link ∈ (ownLinks record).getLast?, ToPstn record link

def reordered (record : Assembled) (links : List CallLegLink) : Assembled := {record with links := links}

@[simp] theorem toPstn_reordered (record : Assembled) (links : List CallLegLink) (link : CallLegLink) :
    ToPstn (reordered record links) link ↔ ToPstn record link := .rfl

theorem ownLinks_perm {record : Assembled} {links : List CallLegLink} (permuted : links.Perm record.links) :
    (ownLinks (reordered record links)).Perm (ownLinks record) :=
  permuted.filter _

/-- The event from inside, where `a` has a link. -/
theorem voipEvent_inside (env : Env) (u : DataVoipRecord.Unset) (record : Assembled)
    (inside : ¬FromOutside record.a) {link : CallLegLink} (last : (ownLinks record).getLast? = some link) :
    (build env u record).2.voipEvent = if ToPstn record link then "outgoing" else "internal" := by
  rw [voipEvent_eq,foldl_inside inside,last]
  by_cases pstn : ToPstn record link <;> simp [pstn]

theorem voipEvent_outside (env : Env) (u : DataVoipRecord.Unset) (record : Assembled)
    (outside : FromOutside record.a) : (build env u record).2.voipEvent =
      if ∃ link ∈ ownLinks record, ToPstn record link then "outgoing"
      else if record.a.objectType = "pstn" then "incoming" else "uncknown" := by
  rw [voipEvent_eq,foldl_outside outside]
  by_cases leads : ∃ link ∈ ownLinks record, ToPstn record link <;>
    by_cases pstn : record.a.objectType = "pstn" <;> simp [leads,pstn]

/-- Two orders of the links give the same event just where the call comes from outside, or their last
links of `a` lead alike. -/
theorem voipEvent_same_iff (env : Env) (u : DataVoipRecord.Unset) {record : Assembled}
    {links : List CallLegLink} (permuted : links.Perm record.links) :
    (build env u (reordered record links)).2.voipEvent = (build env u record).2.voipEvent ↔
      FromOutside record.a ∨ (LastToPstn (reordered record links) ↔ LastToPstn record) := by
  have own := ownLinks_perm permuted
  by_cases outside : FromOutside record.a
  · have leads : (∃ link ∈ ownLinks (reordered record links), ToPstn record link) ↔
        ∃ link ∈ ownLinks record, ToPstn record link :=
      exists_congr fun link => and_congr_left' own.mem_iff
    refine iff_of_true ?_ (.inl outside)
    rw [voipEvent_outside env u record outside,voipEvent_outside env u (reordered record links) outside]
    simp only [toPstn_reordered,leads]
    rfl
  · rw [or_iff_right outside]
    cases last : (ownLinks record).getLast? with
    | none =>
      have empty := List.getLast?_eq_none_iff.mp last
      have empty' : ownLinks (reordered record links) = [] := by
        rw [empty] at own
        exact own.eq_nil
      refine iff_of_true ?_ ?_
      · rw [voipEvent_eq,voipEvent_eq,empty,empty']
        rfl
      · simp [LastToPstn,empty,empty']
    | some link =>
      cases last' : (ownLinks (reordered record links)).getLast? with
      | none =>
        rw [List.getLast?_eq_none_iff.mp last'] at own
        simp [own.nil_eq.symm] at last
      | some link' =>
        rw [voipEvent_inside env u record outside last,
          voipEvent_inside env u (reordered record links) outside last']
        simp only [LastToPstn,last,last',Option.mem_def,Option.some.injEq,exists_eq_left',toPstn_reordered]
        by_cases first : ToPstn record link' <;> by_cases second : ToPstn record link <;>
          simp [first,second]

/-- Every link of `a` leads to the telephone network, or none does, unless the call comes from
outside. -/
def Uniform (record : Assembled) : Prop :=
  FromOutside record.a ∨ (∀ link ∈ ownLinks record, ToPstn record link) ∨
    ∀ link ∈ ownLinks record, ¬ToPstn record link

theorem lastToPstn_all {record : Assembled} (all : ∀ link ∈ ownLinks record, ToPstn record link) :
    LastToPstn record ↔ ownLinks record ≠ [] := by
  constructor
  · rintro ⟨link,last,-⟩ empty
    simp [empty] at last
  · intro filled
    have last := List.getLast?_eq_some_getLast filled
    exact ⟨_,last,all _ (List.mem_of_getLast? last)⟩

theorem lastToPstn_none {record : Assembled} (none : ∀ link ∈ ownLinks record, ¬ToPstn record link) :
    ¬LastToPstn record := by
  rintro ⟨link,last,leads⟩
  exact none link (List.mem_of_getLast? last) leads

/-- A link of `a` can be put last. -/
theorem last_exists {record : Assembled} {link : CallLegLink} (member : link ∈ ownLinks record) :
    ∃ links, links.Perm record.links ∧ (ownLinks (reordered record links)).getLast? = some link := by
  obtain ⟨inside,own⟩ := List.mem_filter.mp member
  obtain ⟨before,after,split⟩ := List.append_of_mem inside
  refine ⟨before ++ after ++ [link],?_,?_⟩
  · rw [split]
    exact (List.perm_append_singleton _ _).trans List.perm_middle.symm
  · have kept : link.uniqueidOrig = record.a.uniqueid := by simpa using own
    simp [ownLinks,reordered,kept]

/-- The direction is that of every order of the links just where the call is uniform. -/
theorem direction_order_iff (env : Env) (u : DataVoipRecord.Unset) (record : Assembled) :
    (∀ links, links.Perm record.links →
      (build env u (reordered record links)).2.voipEvent = (build env u record).2.voipEvent) ↔
        Uniform record := by
  constructor
  · intro same
    by_contra mixed
    obtain ⟨inside,first,second⟩ : ¬FromOutside record.a ∧ (∃ link ∈ ownLinks record, ¬ToPstn record link) ∧
        ∃ link ∈ ownLinks record, ToPstn record link := by simpa [Uniform] using mixed
    obtain ⟨inner,member,stays⟩ := first
    obtain ⟨links,permuted,last⟩ := last_exists member
    obtain ⟨outer,member',leaves⟩ := second
    obtain ⟨links',permuted',last'⟩ := last_exists member'
    have agree := (same links permuted).trans (same links' permuted').symm
    rw [voipEvent_inside env u (reordered record links) inside last,
      voipEvent_inside env u (reordered record links') inside last'] at agree
    simp only [toPstn_reordered,stays,leaves,if_true,if_false] at agree
    exact absurd agree (by decide)
  · intro uniform links permuted
    rw [voipEvent_same_iff env u permuted]
    have own := ownLinks_perm permuted
    rcases uniform with outside | all | none
    · exact .inl outside
    · right
      have all' : ∀ link ∈ ownLinks (reordered record links), ToPstn (reordered record links) link :=
        fun link member => all link (own.mem_iff.mp member)
      rw [lastToPstn_all all,lastToPstn_all all',← List.length_pos_iff,← List.length_pos_iff,own.length_eq]
    · right
      have none' : ∀ link ∈ ownLinks (reordered record links), ¬ToPstn (reordered record links) link :=
        fun link member => none link (own.mem_iff.mp member)
      exact iff_of_false (lastToPstn_none none') (lastToPstn_none none)

/-- An internal call that is then put through to the telephone network, or the other way round. -/
def transferred : Assembled :=
  {(CallRecord.ofLeg (.row "1.1" true "2026-01-01 00:00:00") 1767225600) with
    legs := ((SortedMap.empty.insert "1.1" (.row "1.1" true "2026-01-01 00:00:00")).insert "1.2"
      (.row "1.2" false "2026-01-01 00:00:01")).insert "1.3"
        {CallLeg.row "1.3" false "2026-01-01 00:00:02" with objectType := "pstn"}
    links := [.row "1.1" "1.2" "2026-01-01 00:00:01",.row "1.1" "1.3" "2026-01-01 00:00:02"]
    a := .row "1.1" true "2026-01-01 00:00:00"
    b := []}

theorem direction_depends : ¬∀ links, links.Perm transferred.links →
    (build {} {} (reordered transferred links)).2.voipEvent = (build {} {} transferred).2.voipEvent := by
  intro same
  have outgoing : (build {} {} transferred).2.voipEvent = "outgoing" := by decide
  have internal : (build {} {} (reordered transferred transferred.links.reverse)).2.voipEvent =
      "internal" := by decide
  have agree := same _ (List.reverse_perm _)
  rw [outgoing,internal] at agree
  exact absurd agree (by decide)

end DataVoipRecordReport
end Call45Aggr
