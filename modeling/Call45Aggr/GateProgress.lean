import Call45Aggr.OnlineGate

/-! The links that pass through `ReadCallLegLink::getSQLData`: none is lost, doubled or
overtaken, and one whose call is over has only so many checks still before it. -/
namespace Call45Aggr
open Library

namespace OnlineGate

def taken : GateAction → Option CallLegLink
  | .take link => some link
  | _ => none

/-- The steps of the reader itself. -/
def own : GateAction → Bool
  | .take _ | .scan | .enqueue => true
  | _ => false

/-- No row of the call of the link comes. -/
def Spares (link : CallLegLink) (action : GateAction) : Prop :=
  ∀ entry ∈ brought action, ∀ row ∈ entry.2, ¬Clash .orig link row ∧ ¬Clash .term link row

instance (link : CallLegLink) (action : GateAction) : Decidable (Spares link action) :=
  inferInstanceAs (Decidable (∀ _ ∈ brought action, ∀ _ ∈ _, ¬_ ∧ ¬_))

inductive Step (settings : Settings) (s : OnlineGate) : GateAction → OnlineGate → Prop
  | take (link : CallLegLink) (phase : s.phase = .next) :
      Step settings s (.take link) {s with phase := .scan .orig link 0}
  | passed (column : Column) (link : CallLegLink) (place : Nat) (phase : s.phase = .scan column link place) :
      Step settings s .scan {s with phase := column.passed link}
  | again (column : Column) (link : CallLegLink) (place : Nat) (watcher : OnlineWatcher)
      (phase : s.phase = .scan column link place) (current : s.watchers[place]? = some watcher)
      (found : column.check watcher (column.ofLink link) = true) :
      Step settings s .scan {s with phase := .scan column link 0}
  | further (column : Column) (link : CallLegLink) (place : Nat) (inside : place < s.watchers.length)
      (phase : s.phase = .scan column link place) :
      Step settings s .scan {s with phase := .scan column link (place + 1)}
  | enqueue (link : CallLegLink) (phase : s.phase = .room link) :
      Step settings s .enqueue {s with phase := .next,output := s.output.enqueue link}
  | dequeue (count : Nat) : Step settings s (.dequeue count) {s with output := s.output.dequeueBulk count}
  | fill (id : Nat) (rows : List CallLegLinkOnline) :
      Step settings s (.fill id rows) {s with watchers := s.watchers.set id ⟨true,rows⟩}
  | deliver (id : Nat) (notify : Notification) (watcher : OnlineWatcher) (data : List CallLegLinkOnline)
      (found : s.watchers[id]? = some watcher) (applied : notify.apply watcher.data = some data) :
      Step settings s (.deliver id notify) {s with watchers := s.watchers.set id {watcher with data}}

variable {settings : Settings} {s next : OnlineGate} {action : GateAction}

theorem step_cases (stepped : s.step settings action = some next) : Step settings s action next := by
  cases action with
  | take link =>
    simp only [step] at stepped
    split at stepped
    next phase =>
      cases Option.some.inj stepped
      exact .take link phase
    next => contradiction
  | scan =>
    simp only [step] at stepped
    split at stepped
    next column link place phase =>
      split at stepped
      next =>
        cases Option.some.inj stepped
        exact .passed column link place phase
      next =>
        split at stepped
        next =>
          cases Option.some.inj stepped
          exact .passed column link place phase
        next watcher current =>
          split at stepped
          next => contradiction
          next =>
            split at stepped
            next found =>
              cases Option.some.inj stepped
              exact .again column link place watcher phase current found
            next =>
              cases Option.some.inj stepped
              exact .further column link place (List.getElem?_eq_some_iff.mp current).1 phase
    next => contradiction
  | enqueue =>
    simp only [step] at stepped
    split at stepped
    next link phase =>
      split at stepped
      next =>
        cases Option.some.inj stepped
        exact .enqueue link phase
      next => contradiction
    next => contradiction
  | dequeue count =>
    cases Option.some.inj stepped
    exact .dequeue count
  | fill id rows =>
    simp only [step] at stepped
    split at stepped
    next =>
      cases Option.some.inj stepped
      exact .fill id rows
    next => contradiction
  | deliver id notify =>
    simp only [step] at stepped
    split at stepped
    next watcher found =>
      obtain ⟨data,applied,rfl⟩ := Option.map_eq_some_iff.mp stepped
      exact .deliver id notify watcher data found applied
    next => contradiction

/-- All links that the gate has seen, in their order. -/
def seen (s : OnlineGate) : List CallLegLink := s.output.log ++ (inHand s.phase).toList

theorem step_seen (stepped : s.step settings action = some next) :
    next.seen = s.seen ++ (taken action).toList := by
  cases step_cases stepped with
  | take link phase => simp [seen,taken,phase]
  | passed column link place phase => cases column <;> simp [seen,taken,phase,Column.passed]
  | again column link place watcher phase | further column link place inside phase => simp [seen,taken,phase]
  | enqueue link phase => simp [seen,taken,phase]
  | dequeue count => simp [seen,taken]
  | fill id rows | deliver id notify => simp [seen,taken]

theorem execute_seen {actions : List GateAction} {s final : OnlineGate}
    (ran : execute (step settings) Always actions s = some final) :
    final.seen = s.seen ++ actions.filterMap taken := by
  induction actions generalizing s with
  | nil =>
    cases Option.some.inj ran
    simp
  | cons action actions ih =>
    obtain ⟨next,_,stepped,later⟩ := execute_cons.mp ran
    rw [ih later,step_seen stepped,List.filterMap_cons]
    cases taken action <;> simp

/-- The link is in hand and nothing holds it up. -/
structure Free (link : CallLegLink) (s : OnlineGate) : Prop where
  hand : inHand s.phase = some link
  ready : ∀ watcher ∈ s.watchers, watcher.ready = true
  clear : ∀ watcher ∈ s.watchers, ∀ row ∈ watcher.data, ¬Clash .orig link row ∧ ¬Clash .term link row

theorem free_of_offline {link : CallLegLink} (hand : inHand s.phase = some link)
    (ready : ∀ watcher ∈ s.watchers, watcher.ready = true) (offline : Offline s.watchers link) : Free link s := by
  refine ⟨hand,ready,fun watcher member row inside => ?_⟩
  obtain ⟨orig,term⟩ := offline watcher member row inside
  exact ⟨fun clash => orig clash.1 clash.2,fun clash => term clash.1 clash.2⟩

theorem Free.unseen {link : CallLegLink} (free : Free link s) (column : Column) {watcher : OnlineWatcher}
    (member : watcher ∈ s.watchers) : column.check watcher (column.ofLink link) = false := by
  rw [← Bool.not_eq_true,check_iff]
  intro clash
  obtain ⟨row,inside,clash⟩ := clash
  cases column with
  | orig => exact (free.clear watcher member row inside).1 clash
  | term => exact (free.clear watcher member row inside).2 clash

/-- How many steps the reader still has to take, if no check finds the link. -/
def left (s : OnlineGate) : Nat :=
  match s.phase with
  | .scan .orig _ place => (s.watchers.length - place) + s.watchers.length + 3
  | .scan .term _ place => (s.watchers.length - place) + 2
  | .room _ => 1
  | .next => 0

theorem left_le (s : OnlineGate) : s.left ≤ 2 * s.watchers.length + 3 := by
  unfold left
  split <;> omega

/-- A watcher that changes keeps the link free if it is ready and has no row of its call. -/
theorem Free.set {link : CallLegLink} (free : Free link s) {id : Nat} {changed : OnlineWatcher}
    (ready : changed.ready = true)
    (clear : ∀ row ∈ changed.data, ¬Clash .orig link row ∧ ¬Clash .term link row) :
    Free link {s with watchers := s.watchers.set id changed} := by
  refine ⟨free.hand,fun watcher member => ?_,fun watcher member => ?_⟩
  · rcases List.mem_or_eq_of_mem_set member with old | rfl
    · exact free.ready watcher old
    · exact ready
  · rcases List.mem_or_eq_of_mem_set member with old | rfl
    · exact free.clear watcher old
    · exact clear

theorem left_set (s : OnlineGate) (id : Nat) (changed : OnlineWatcher) :
    left {s with watchers := s.watchers.set id changed} = s.left := by
  simp [left]

theorem clash_of_pair {column : Column} {link : CallLegLink} {row other : CallLegLinkOnline}
    (same : row.pair = other.pair) (clash : Clash column link other) : Clash column link row := by
  rw [Clash,Column.ofRow_eq column same]
  exact clash

theorem step_free {link : CallLegLink} (free : Free link s) (spares : Spares link action)
    (stepped : s.step settings action = some next) :
    next.output.log = s.output.log ++ [link] ∨
      Free link next ∧ next.output.log = s.output.log ∧
        next.left + (if own action then 1 else 0) ≤ s.left := by
  have hand := free.hand
  cases step_cases stepped with
  | take link phase => simp [phase] at hand
  | passed column other place phase =>
    simp only [phase,inHand,Option.some.injEq] at hand
    subst hand
    refine .inr ⟨⟨by cases column <;> rfl,free.ready,free.clear⟩,rfl,?_⟩
    cases column with
    | orig =>
      simp only [left,phase,own,Column.passed,if_true]
      omega
    | term =>
      simp only [left,phase,own,Column.passed,if_true]
      omega
  | again column other place watcher phase current found =>
    simp only [phase,inHand,Option.some.injEq] at hand
    subst hand
    have unseen := free.unseen column (List.mem_of_getElem? current)
    exact absurd (found.symm.trans unseen) (by decide)
  | further column other place inside phase =>
    simp only [phase,inHand,Option.some.injEq] at hand
    subst hand
    refine .inr ⟨⟨rfl,free.ready,free.clear⟩,rfl,?_⟩
    cases column with
    | orig =>
      simp only [left,phase,own,if_true]
      omega
    | term =>
      simp only [left,phase,own,if_true]
      omega
  | enqueue other phase =>
    simp only [phase,inHand,Option.some.injEq] at hand
    subst hand
    exact .inl (s.output.log_enqueue other)
  | dequeue count => exact .inr ⟨⟨hand,free.ready,free.clear⟩,s.output.log_dequeueBulk count,Nat.le_refl _⟩
  | fill id rows =>
    have clear := spares (id,rows) rfl
    exact .inr ⟨free.set rfl clear,rfl,Nat.le_of_eq (left_set s id _)⟩
  | deliver id notify watcher data found applied =>
    have member := List.mem_of_getElem? found
    refine .inr ⟨free.set (free.ready watcher member) fun row inside => ?_,rfl,
      Nat.le_of_eq (left_set s id _)⟩
    rcases notify.apply_mem applied inside with ⟨old,there,same⟩ | ⟨event,same⟩
    · have before := free.clear watcher member old there
      exact ⟨fun clash => before.1 (clash_of_pair same clash),fun clash => before.2 (clash_of_pair same clash)⟩
    · obtain ⟨_,inserted⟩ := notify
      cases event
      have fresh := spares (id,[inserted]) rfl inserted (List.mem_singleton_self inserted)
      exact ⟨fun clash => fresh.1 (clash_of_pair same clash),fun clash => fresh.2 (clash_of_pair same clash)⟩

/-- The reader of a free link is held up by nothing but a full queue. -/
theorem free_moves {link : CallLegLink} (free : Free link s) :
    (∃ action, own action = true ∧ (s.step settings action).isSome = true) ∨
      settings.maxQueueSize.toNat ≤ s.output.pending.length := by
  have hand := free.hand
  cases phase : s.phase with
  | next => simp [phase] at hand
  | scan column other place =>
    refine .inl ⟨.scan,rfl,?_⟩
    simp only [step,phase]
    split
    next => rfl
    next =>
      split
      next => rfl
      next watcher current =>
        have ready := free.ready watcher (List.mem_of_getElem? current)
        simp only [ready,Bool.not_true,Bool.false_eq_true,if_false]
        split <;> rfl
  | room other =>
    by_cases full : settings.maxQueueSize.toNat ≤ s.output.pending.length
    · exact .inr full
    · refine .inl ⟨.enqueue,rfl,?_⟩
      simp only [step,phase,if_pos (Nat.lt_of_not_le full)]
      rfl

theorem Free.left_pos {link : CallLegLink} (free : Free link s) : 0 < s.left := by
  have hand := free.hand
  unfold left
  split
  next => omega
  next => omega
  next => omega
  next phase => simp [phase] at hand

theorem execute_log {actions : List GateAction} {s final : OnlineGate}
    (ran : execute (step settings) Always actions s = some final) : s.output.log <+: final.output.log := by
  induction actions generalizing s with
  | nil =>
    cases Option.some.inj ran
    exact List.prefix_rfl
  | cons action actions ih =>
    obtain ⟨next,_,stepped,later⟩ := execute_cons.mp ran
    refine List.IsPrefix.trans ?_ (ih later)
    cases step_cases stepped with
    | enqueue link => simp
    | dequeue count => simp
    | _ => exact List.prefix_rfl

theorem execute_free {link : CallLegLink} {actions : List GateAction} {s final : OnlineGate}
    (free : Free link s) (spares : ∀ action ∈ actions, Spares link action)
    (ran : execute (step settings) Always actions s = some final) :
    s.output.log ++ [link] <+: final.output.log ∨
      Free link final ∧ final.left + actions.countP own ≤ s.left := by
  induction actions generalizing s with
  | nil =>
    cases Option.some.inj ran
    exact .inr ⟨free,Nat.le_refl _⟩
  | cons action actions ih =>
    obtain ⟨next,_,stepped,later⟩ := execute_cons.mp ran
    rcases step_free free (spares action List.mem_cons_self) stepped with log | ⟨still,log,less⟩
    · rw [← log]
      exact .inl (execute_log later)
    · rcases ih still (fun action member => spares action (List.mem_cons_of_mem _ member)) later with passed | held
      · exact .inl (log ▸ passed)
      · refine .inr ⟨held.1,?_⟩
        have count := held.2
        rw [List.countP_cons]
        omega

/-- The links go out in the order in which the rows were read. Once every watcher is ready, a
link in hand whose call none of them has any more goes out too, within a number of the
reader's own steps that the number of watchers bounds, whatever they do to other calls
meanwhile; then only a full queue holds the reader up. -/
theorem links_pass (settings : Settings) (watchers : List OnlineWatcher) (actions : List GateAction)
    (s : OnlineGate) (ran : execute (step settings) Always actions {watchers} = some s) :
    actions.filterMap taken = s.output.log ++ (inHand s.phase).toList ∧
    ∀ link ∈ inHand s.phase, (∀ watcher ∈ s.watchers, watcher.ready = true) → Offline s.watchers link →
      ∀ (more : List GateAction) (final : OnlineGate), (∀ action ∈ more, Spares link action) →
        execute (step settings) Always more s = some final →
        s.output.log ++ [link] <+: final.output.log ∨
          more.countP own ≤ 2 * s.watchers.length + 2 ∧
            ((∃ action, own action = true ∧ (final.step settings action).isSome = true) ∨
              settings.maxQueueSize.toNat ≤ final.output.pending.length) := by
  constructor
  · have all := execute_seen ran
    simpa [seen,Fifo.log] using all.symm
  · intro link hand ready offline more final spares further
    refine (execute_free (free_of_offline hand ready offline) spares further).imp_right fun held => ?_
    have ahead := held.1.left_pos
    have bound := s.left_le
    exact ⟨by omega,free_moves held.1⟩

/-- The link is checked against a watcher that has another call, and goes out. -/
theorem links_pass_passage : ∃ s final : OnlineGate, ∃ link : CallLegLink,
    execute (step {}) Always (passage.take 1) {watchers := [⟨true,[Watching.onlineRow "b" "u"]⟩]} = some s ∧
    execute (step {}) Always (passage.drop 1 ++ [.enqueue]) s = some final ∧
    s.output.log ++ [link] <+: final.output.log := by
  obtain ⟨s,ran,hand,ready,offline⟩ : ∃ s : OnlineGate,
      execute (step {}) Always (passage.take 1) {watchers := [⟨true,[Watching.onlineRow "b" "u"]⟩]} = some s ∧
      inHand s.phase = some (.row "a" "t" "1970-01-01 00:00:05") ∧
      s.watchers = [⟨true,[Watching.onlineRow "b" "u"]⟩] ∧
      Offline s.watchers (.row "a" "t" "1970-01-01 00:00:05") := by
    refine ⟨_,rfl,rfl,rfl,?_⟩
    simp [Offline,Watching.onlineRow,CallLegLink.row]
  obtain ⟨final,further⟩ : ∃ final, execute (step {}) Always (passage.drop 1 ++ [.enqueue]) s = some final := by
    cases Option.some.inj ran
    exact ⟨_,rfl⟩
  have pass := (links_pass {} _ _ s ran).2 _ hand (by simp [ready]) offline (passage.drop 1 ++ [.enqueue]) final
    (by decide) further
  refine ⟨s,final,_,ran,further,pass.resolve_right fun slow => ?_⟩
  rw [ready] at slow
  exact absurd slow.1 (by decide)

end OnlineGate
end Call45Aggr
