import Call45Aggr.Common
import Call45Aggr.Model
import Call45Aggr.Library.Run

/-! `MergeContainer::run` as a machine. One action is one step another thread can
observe or influence: a bulk dequeue, a read of the link reader's clock, or a piece
of private work. Sleeping and waiting for room in the output queue only delay the
next action, so they are no actions. -/
namespace Call45Aggr
open Library

/-- The settings of the run, and the unspecified local of `parseDateTime`. -/
structure Env where
  settings : Settings := {}
  ttt : Tm := {}

def Env.stamp (env : Env) (text : String) : Int := parseDateTime env.ttt text

def Env.maxCallTime (env : Env) : Int := seconds env.settings.maxCallTime

def Env.maxQueueSize (env : Env) : Nat := env.settings.maxQueueSize.toNat

inductive Phase
  | poll
  | polled (legsIn : List CallLeg)
  | accept (legsIn : List CallLeg) (linksIn : List CallLegLink)
  | walk (recordSaveTime : Int)
  | enqueue (recordSaveTime : Int) (record : CallRecord)
  | purge (recordSaveTime : Int) (cursor : Option String)

@[simp] def Phase.legsIn : Phase → List CallLeg
  | .polled legsIn => legsIn
  | .accept legsIn _ => legsIn
  | _ => []

@[simp] def Phase.linksIn : Phase → List CallLegLink
  | .accept _ linksIn => linksIn
  | _ => []

/-- The record that passed the test and waits for room in the output queue. -/
@[simp] def Phase.record : Phase → List CallRecord
  | .enqueue _ record => [record]
  | _ => []

@[simp] def Phase.settled : Phase → Bool
  | .accept _ _ => false
  | _ => true

@[simp] def Phase.walking : Phase → Bool
  | .walk _ => true
  | .enqueue _ _ => true
  | _ => false

@[simp] def Phase.idle : Phase → Bool
  | .poll => true
  | _ => false

theorem Phase.idle_iff {phase : Phase} : phase.idle = true ↔ phase = .poll := by
  cases phase <;> simp

@[simp] def Phase.iterated : Phase → Bool
  | .poll => true
  | .purge _ _ => true
  | _ => false

/-- What was dequeued, and what left the containers other than by an emitted record:
the code keeps none of it. `replaced` pairs an overwritten leg with its successor. -/
structure History where
  legs : List CallLeg := []
  links : List CallLegLink := []
  purgedLegs : List CallLeg := []
  purgedLinks : List CallLegLink := []
  replaced : List (CallLeg × CallLeg) := []

/-- `data_` is `data` followed by `rest`: while the record loop runs, `rest` starts at
its iterator, and outside the loop `rest` is empty. `output` lists every record
enqueued so far. -/
structure MergeContainer where
  phase : Phase := .poll
  data : List CallRecord := []
  rest : List CallRecord := []
  legs : SortedMap String CallLeg := .empty
  links : SortedMap String Bucket := .empty
  maxLegTime : Int
  maxLinkTime : Int
  legPaused : Bool := false
  linkPaused : Bool := false
  output : List CallRecord := []
  past : History := {}

/-- A step of the merging thread, with what other threads decide about it. -/
inductive Action
  | dequeueLegs (batch : List CallLeg)
  | dequeueLinks (batch : List CallLegLink)
  | getTime (now : Int)
  | work

def Action.legs : Action → List CallLeg
  | .dequeueLegs batch => batch
  | _ => []

def Action.links : Action → List CallLegLink
  | .dequeueLinks batch => batch
  | _ => []

def overwritten (old : Option CallLeg) (leg : CallLeg) : List (CallLeg × CallLeg) :=
  old.toList.map (·,leg)

@[simp] theorem overwritten_fst (old : Option CallLeg) (leg : CallLeg) :
    (overwritten old leg).map Prod.fst = old.toList := by
  simp [overwritten,Function.comp_def]

/-- A record's legs and `legs_` while the inner loop over its links runs. -/
structure Claim where
  own : SortedMap String CallLeg
  legs : SortedMap String CallLeg
  replaced : List (CallLeg × CallLeg)

def Claim.take (claim : Claim) (link : CallLegLink) : Claim :=
  match claim.legs.find? link.uniqueidTerm with
  | some leg => {
      own := claim.own.insert leg.uniqueid leg
      legs := claim.legs.erase link.uniqueidTerm
      replaced := claim.replaced ++ overwritten (claim.own.find? leg.uniqueid) leg}
  | none => claim

namespace MergeContainer

def setStart (start : Int) : MergeContainer := {maxLegTime := start,maxLinkTime := start}

def held (c : MergeContainer) : List CallRecord := c.data ++ c.phase.record ++ c.rest

def records (c : MergeContainer) : List CallRecord := c.held ++ c.output

def addLeg (env : Env) (c : MergeContainer) (leg : CallLeg) : MergeContainer :=
  let stamp := env.stamp leg.startTime
  let stored : MergeContainer :=
    if leg.orig then {c with data := c.data ++ [CallRecord.ofLeg leg stamp]}
    else {c with
      legs := c.legs.insert leg.uniqueid leg
      past := {c.past with
        replaced := c.past.replaced ++ overwritten (c.legs.find? leg.uniqueid) leg}}
  {stored with maxLegTime := if c.maxLegTime < stamp then stamp else c.maxLegTime}

@[simp] theorem addLeg_rest (env : Env) (c : MergeContainer) (leg : CallLeg) :
    (c.addLeg env leg).rest = c.rest := by
  unfold addLeg
  cases leg.orig <;> rfl

@[simp] theorem addLeg_output (env : Env) (c : MergeContainer) (leg : CallLeg) :
    (c.addLeg env leg).output = c.output := by
  unfold addLeg
  cases leg.orig <;> rfl

@[simp] theorem addLeg_links (env : Env) (c : MergeContainer) (leg : CallLeg) :
    (c.addLeg env leg).links = c.links := by
  unfold addLeg
  cases leg.orig <;> rfl

@[simp] theorem addLeg_past (env : Env) (c : MergeContainer) (leg : CallLeg) :
    (c.addLeg env leg).past = {c.past with
      replaced := c.past.replaced ++
        (if leg.orig then [] else overwritten (c.legs.find? leg.uniqueid) leg)} := by
  unfold addLeg
  cases leg.orig <;> simp

theorem addLeg_legs (env : Env) (c : MergeContainer) (leg : CallLeg) :
    (c.addLeg env leg).legs = if leg.orig then c.legs else c.legs.insert leg.uniqueid leg := by
  unfold addLeg
  cases leg.orig <;> rfl

theorem addLeg_maxLegTime (env : Env) (c : MergeContainer) (leg : CallLeg) :
    (c.addLeg env leg).maxLegTime = max c.maxLegTime (env.stamp leg.startTime) := by
  unfold addLeg
  cases leg.orig <;> dsimp only <;> split <;> omega

theorem addLeg_data (env : Env) (c : MergeContainer) (leg : CallLeg) :
    (c.addLeg env leg).data = c.data ++
      (if leg.orig then [CallRecord.ofLeg leg (env.stamp leg.startTime)] else []) := by
  unfold addLeg
  cases leg.orig <;> simp

/-- The vector under the link's orig once the link is pushed. -/
def pushed (c : MergeContainer) (link : CallLegLink) : Bucket :=
  match c.links.find? link.uniqueidOrig with
  | none => ⟨link,[]⟩
  | some cll => cll.pushBack link

def addLink (env : Env) (c : MergeContainer) (link : CallLegLink) : MergeContainer :=
  let stamp := env.stamp link.linkStartTime
  {c with
    links := c.links.insert link.uniqueidOrig (c.pushed link)
    maxLinkTime := if c.maxLinkTime < stamp then stamp else c.maxLinkTime}

def recordSaveTime (env : Env) (c : MergeContainer) : Int :=
  toInt32 (c.maxLegTime - env.maxCallTime)

/-- The doubled setting is an `unsigned` product. -/
def gapExceeded (env : Env) (c : MergeContainer) : Bool :=
  decide (((c.maxLegTime - c.maxLinkTime).natAbs : Int) > seconds (env.settings.maxCallTime * 2))

def regulate (env : Env) (c : MergeContainer) : MergeContainer :=
  if c.gapExceeded env then
    if !c.legPaused && !c.linkPaused then
      if c.maxLegTime > c.maxLinkTime then {c with legPaused := true}
      else {c with linkPaused := true}
    else c
  else {c with legPaused := false,linkPaused := false}

theorem regulate_eq (env : Env) (c : MergeContainer) : c.regulate env =
    {c with legPaused := (c.regulate env).legPaused,linkPaused := (c.regulate env).linkPaused} := by
  unfold regulate
  split
  · split
    · split <;> rfl
    · rfl
  · rfl

@[simp] theorem regulate_legs (env : Env) (c : MergeContainer) : (c.regulate env).legs = c.legs := by
  rw [regulate_eq]

@[simp] theorem regulate_links (env : Env) (c : MergeContainer) : (c.regulate env).links = c.links := by
  rw [regulate_eq]

@[simp] theorem regulate_output (env : Env) (c : MergeContainer) :
    (c.regulate env).output = c.output := by
  rw [regulate_eq]

@[simp] theorem regulate_past (env : Env) (c : MergeContainer) : (c.regulate env).past = c.past := by
  rw [regulate_eq]

@[simp] theorem regulate_maxLegTime (env : Env) (c : MergeContainer) :
    (c.regulate env).maxLegTime = c.maxLegTime := by
  rw [regulate_eq]

def attachLinks (c : MergeContainer) (record : CallRecord) : CallRecord :=
  match c.links.find? record.orig with
  | some cll => {record with links := record.links ++ cll.toList}
  | none => record

def claim (c : MergeContainer) (record : CallRecord) : Claim :=
  (c.attachLinks record).links.foldl Claim.take ⟨record.legs,c.legs,c.past.replaced⟩

def matched (c : MergeContainer) (record : CallRecord) : CallRecord :=
  {c.attachLinks record with legs := (c.claim record).own}

def withoutMatched (c : MergeContainer) (record : CallRecord) : MergeContainer :=
  {c with
    links := c.links.erase record.orig
    legs := (c.claim record).legs
    past := {c.past with replaced := (c.claim record).replaced}}

/-- Both conditions of the record test and of the leg purge. -/
def expired (env : Env) (save now stamp : Int) : Bool :=
  decide (stamp < save) && decide (now > stamp + env.maxCallTime)

def stale (env : Env) (save : Int) (entry : String × Bucket) : Bool :=
  decide (env.stamp entry.2.front.linkStartTime < save)

def purgeLinks (env : Env) (save : Int) (c : MergeContainer) : MergeContainer :=
  {c with
    links := c.links.filter (fun entry => !stale env save entry)
    past := {c.past with
      purgedLinks := c.past.purgedLinks ++
        (c.links.filter (stale env save)).values.flatMap Bucket.toList}}

/-- The clock is read for every record and every leg; where the first condition of
`expired` fails the code skips the read, and the value is not used here either. -/
def step (env : Env) (c : MergeContainer) : Action → Option MergeContainer
  | .dequeueLegs batch =>
    match c.phase with
    | .poll =>
      if batch.length ≤ env.maxQueueSize then
        some {c with phase := .polled batch,past := {c.past with legs := c.past.legs ++ batch}}
      else none
    | _ => none
  | .dequeueLinks batch =>
    match c.phase with
    | .polled legsIn =>
      if batch.length ≤ env.maxQueueSize then
        -- with nothing to put away the thread sleeps and polls again
        if legsIn.isEmpty && batch.isEmpty then some {c with phase := .poll}
        else some {c with
          phase := .accept legsIn batch
          past := {c.past with links := c.past.links ++ batch}}
      else none
    | _ => none
  | .getTime now =>
    match c.phase with
    | .walk save =>
      match c.rest with
      | record :: rest =>
        -- the searches come before the test: a record that stays keeps what it found
        if expired env save now record.startTime then
          some {c.withoutMatched record with
            phase := .enqueue save (c.matched record)
            rest := rest}
        else some {c.withoutMatched record with
          phase := .walk save
          data := c.data ++ [c.matched record]
          rest := rest}
      | [] => none
    | .purge save cursor =>
      match c.legs.next? cursor with
      | some (key,leg) =>
        if expired env save now (env.stamp leg.startTime) then
          some {c with
            phase := .purge save (some key)
            legs := c.legs.erase key
            past := {c.past with purgedLegs := c.past.purgedLegs ++ [leg]}}
        else some {c with phase := .purge save (some key)}
      | none => none
    | _ => none
  | .work =>
    match c.phase with
    | .accept (leg :: legsIn) linksIn => some {c.addLeg env leg with phase := .accept legsIn linksIn}
    | .accept [] (link :: linksIn) => some {c.addLink env link with phase := .accept [] linksIn}
    | .accept [] [] =>
      some {c.regulate env with
        phase := .walk (c.recordSaveTime env)
        data := []
        rest := c.data ++ c.rest}
    | .walk save =>
      match c.rest with
      | [] => some {c with phase := .purge save none}
      | _ :: _ => none
    | .enqueue save record => some {c with phase := .walk save,output := c.output ++ [record]}
    | .purge save cursor =>
      match c.legs.next? cursor with
      | none => some {c.purgeLinks env save with phase := .poll}
      | some _ => none
    | _ => none

/-- The step function read as its possible moves. -/
inductive Step (env : Env) (c : MergeContainer) : Action → MergeContainer → Prop
  | dequeueLegs (batch : List CallLeg) (phase : c.phase = .poll)
      (bound : batch.length ≤ env.maxQueueSize) :
      Step env c (.dequeueLegs batch)
        {c with phase := .polled batch,past := {c.past with legs := c.past.legs ++ batch}}
  | nothing (phase : c.phase = .polled []) : Step env c (.dequeueLinks []) {c with phase := .poll}
  | dequeueLinks (legsIn : List CallLeg) (batch : List CallLegLink)
      (phase : c.phase = .polled legsIn) (bound : batch.length ≤ env.maxQueueSize) :
      Step env c (.dequeueLinks batch)
        {c with phase := .accept legsIn batch,past := {c.past with links := c.past.links ++ batch}}
  | addLeg (leg : CallLeg) (legsIn : List CallLeg) (linksIn : List CallLegLink)
      (phase : c.phase = .accept (leg :: legsIn) linksIn) :
      Step env c .work {c.addLeg env leg with phase := .accept legsIn linksIn}
  | addLink (link : CallLegLink) (linksIn : List CallLegLink)
      (phase : c.phase = .accept [] (link :: linksIn)) :
      Step env c .work {c.addLink env link with phase := .accept [] linksIn}
  | regulate (phase : c.phase = .accept [] []) :
      Step env c .work {c.regulate env with
        phase := .walk (c.recordSaveTime env)
        data := []
        rest := c.data ++ c.rest}
  | pass (save now : Int) (record : CallRecord) (rest : List CallRecord)
      (phase : c.phase = .walk save) (next : c.rest = record :: rest)
      (due : expired env save now record.startTime = true) :
      Step env c (.getTime now) {c.withoutMatched record with
        phase := .enqueue save (c.matched record)
        rest := rest}
  | keep (save now : Int) (record : CallRecord) (rest : List CallRecord)
      (phase : c.phase = .walk save) (next : c.rest = record :: rest)
      (early : expired env save now record.startTime = false) :
      Step env c (.getTime now) {c.withoutMatched record with
        phase := .walk save
        data := c.data ++ [c.matched record]
        rest := rest}
  | enqueue (save : Int) (record : CallRecord) (phase : c.phase = .enqueue save record) :
      Step env c .work {c with phase := .walk save,output := c.output ++ [record]}
  | walked (save : Int) (phase : c.phase = .walk save) (done : c.rest = []) :
      Step env c .work {c with phase := .purge save none}
  | purgeLeg (save now : Int) (cursor : Option String) (key : String) (leg : CallLeg)
      (phase : c.phase = .purge save cursor) (next : c.legs.next? cursor = some (key,leg))
      (due : expired env save now (env.stamp leg.startTime) = true) :
      Step env c (.getTime now) {c with
        phase := .purge save (some key)
        legs := c.legs.erase key
        past := {c.past with purgedLegs := c.past.purgedLegs ++ [leg]}}
  | keepLeg (save now : Int) (cursor : Option String) (key : String) (leg : CallLeg)
      (phase : c.phase = .purge save cursor) (next : c.legs.next? cursor = some (key,leg))
      (early : expired env save now (env.stamp leg.startTime) = false) :
      Step env c (.getTime now) {c with phase := .purge save (some key)}
  | purgeLinks (save : Int) (cursor : Option String) (phase : c.phase = .purge save cursor)
      (done : c.legs.next? cursor = none) :
      Step env c .work {c.purgeLinks env save with phase := .poll}

theorem step_cases {env : Env} {c next : MergeContainer} {action : Action}
    (stepped : step env c action = some next) : Step env c action next := by
  cases action with
  | dequeueLegs batch =>
    simp only [step] at stepped
    split at stepped
    next phase =>
      split at stepped
      next bound =>
        cases Option.some.inj stepped
        exact .dequeueLegs batch phase bound
      next => contradiction
    next => contradiction
  | dequeueLinks batch =>
    simp only [step] at stepped
    split at stepped
    next legsIn phase =>
      split at stepped
      next bound =>
        split at stepped
        next empty =>
          simp only [Bool.and_eq_true,List.isEmpty_iff] at empty
          obtain ⟨rfl,rfl⟩ := empty
          cases Option.some.inj stepped
          exact .nothing phase
        next =>
          cases Option.some.inj stepped
          exact .dequeueLinks legsIn batch phase bound
      next => contradiction
    next => contradiction
  | getTime now =>
    simp only [step] at stepped
    split at stepped
    next save phase =>
      split at stepped
      next record rest next =>
        split at stepped
        next due =>
          cases Option.some.inj stepped
          exact .pass save now record rest phase next due
        next early =>
          cases Option.some.inj stepped
          exact .keep save now record rest phase next (by simpa using early)
      next => contradiction
    next save cursor phase =>
      split at stepped
      next key leg next =>
        split at stepped
        next due =>
          cases Option.some.inj stepped
          exact .purgeLeg save now cursor key leg phase next due
        next early =>
          cases Option.some.inj stepped
          exact .keepLeg save now cursor key leg phase next (by simpa using early)
      next => contradiction
    next => contradiction
  | work =>
    simp only [step] at stepped
    split at stepped
    next leg legsIn linksIn phase =>
      cases Option.some.inj stepped
      exact .addLeg leg legsIn linksIn phase
    next link linksIn phase =>
      cases Option.some.inj stepped
      exact .addLink link linksIn phase
    next phase =>
      cases Option.some.inj stepped
      exact .regulate phase
    next save phase =>
      split at stepped
      next done =>
        cases Option.some.inj stepped
        exact .walked save phase done
      next => contradiction
    next save record phase =>
      cases Option.some.inj stepped
      exact .enqueue save record phase
    next save cursor phase =>
      split at stepped
      next done =>
        cases Option.some.inj stepped
        exact .purgeLinks save cursor phase done
      next => contradiction
    next => contradiction

theorem find?_purgeLinks (env : Env) (save : Int) {c : MergeContainer} {key : String} {cll : Bucket}
    (found : c.links.find? key = some cll) : (c.purgeLinks env save).links.find? key =
      if stale env save (key,cll) then none else some cll := by
  rw [purgeLinks,SortedMap.find?_filter_eq,found,Option.filter_some]
  cases stale env save (key,cll) <;> rfl

theorem step_dequeued {env : Env} {c next : MergeContainer} {action : Action}
    (stepped : step env c action = some next) :
    next.past.legs = c.past.legs ++ action.legs ∧ next.past.links = c.past.links ++ action.links := by
  cases step_cases stepped with
  | addLink link linksIn phase => simp [Action.legs,Action.links,MergeContainer.addLink]
  | pass | keep => simp [Action.legs,Action.links,withoutMatched]
  | purgeLinks save cursor phase done => simp [Action.legs,Action.links,MergeContainer.purgeLinks]
  | _ => simp [Action.legs,Action.links]

theorem step_grown {env : Env} {c next : MergeContainer} {action : Action}
    (stepped : step env c action = some next) :
    c.past.legs <+: next.past.legs ∧ c.past.links <+: next.past.links := by
  obtain ⟨legs,links⟩ := step_dequeued stepped
  exact ⟨⟨action.legs,legs.symm⟩,⟨action.links,links.symm⟩⟩

/-- One iteration over a call with one link and one terminating leg, followed by a
leg late enough for the call to be emitted. -/
def oneCall : List Action :=
  [.dequeueLegs [.row "a" true "1970-01-01 00:00:05",.row "t" false "1970-01-01 00:00:06",
      .row "m" true "1970-01-01 00:01:40"],
    .dequeueLinks [.row "a" "t" "1970-01-01 00:00:05"],
    .work,.work,.work,.work,.work,.getTime 1000,.work,.getTime 1000,.work,.work]

def shortCalls : Env := {settings := {maxCallTime := 10}}

end MergeContainer
end Call45Aggr
