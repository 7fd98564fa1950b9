import Call45Aggr.Split
import Mathlib.Data.List.Basic

/-! The trace tree of one thread and the stack of its open nodes. A `trace_node *` is the path to the
node: `children_` only grows at its end, so an index names the same child for good. -/
namespace Call45Aggr

inductive LeafType
  | info
  | inputData
  | resultData
  | error
  | debug
  deriving DecidableEq

inductive NodeType
  | leaf
  | node
  deriving DecidableEq

inductive TraceNode where
  | mk (type : NodeType) (nameOrMessage : String) (leafNodeType : LeafType) (color : String)
      (children : List TraceNode)

namespace TraceNode

abbrev Path := List Nat

def children : TraceNode → List TraceNode
  | mk _ _ _ _ children => children

def nameOrMessage : TraceNode → String
  | mk _ nameOrMessage _ _ _ => nameOrMessage

/-- The constructor: a node without children and without a colour. -/
def make (message : String) : TraceNode := mk .node message .info "" []

def grow (more : List TraceNode) : TraceNode → TraceNode
  | mk type nameOrMessage leafNodeType color children =>
    mk type nameOrMessage leafNodeType color (children ++ more)

def addLeaf (type : LeafType) (multimessage color : String) : TraceNode → TraceNode :=
  grow ((splitText multimessage "\n").map fun message => mk .leaf message type color [])

def addNode (name : String) : TraceNode → TraceNode :=
  grow [make name]

def find? : TraceNode → Path → Option TraceNode
  | node, [] => some node
  | node, index :: path => node.children[index]?.bind (·.find? path)

def modify (change : TraceNode → TraceNode) : TraceNode → Path → TraceNode
  | node, [] => change node
  | mk type nameOrMessage leafNodeType color children, index :: path =>
    mk type nameOrMessage leafNodeType color (children.modify index (modify change · path))

@[simp] theorem children_grow (more : List TraceNode) (node : TraceNode) :
    (node.grow more).children = node.children ++ more := by
  cases node
  rfl

@[simp] theorem children_modify (change : TraceNode → TraceNode) (node : TraceNode) (index : Nat)
    (path : Path) : (node.modify change (index :: path)).children =
      node.children.modify index (modify change · path) := by
  cases node
  rfl

theorem find?_modify (change : TraceNode → TraceNode) (node : TraceNode) (path rest : Path) :
    (node.modify change path).find? (path ++ rest) =
      (node.find? path).bind fun found => (change found).find? rest := by
  induction path generalizing node with
  | nil => rfl
  | cons index path ih =>
    simp only [List.cons_append,find?,children_modify,List.getElem?_modify_eq]
    cases node.children[index]? with
    | none => rfl
    | some child => exact ih child

/-- What is reached stays reached where nodes only gain children. -/
theorem find?_grow (more : List TraceNode) (node : TraceNode) (place path : Path)
    (found : (node.find? path).isSome) : ((node.modify (grow more) place).find? path).isSome := by
  induction path generalizing node place with
  | nil => simp [find?]
  | cons index path ih =>
    simp only [find?] at found ⊢
    cases child_eq : node.children[index]? with
    | none => simp [child_eq] at found
    | some child =>
    have reached : (child.find? path).isSome := by simpa [child_eq] using found
    cases place with
    | nil =>
      have bound : index < node.children.length := (List.getElem?_eq_some_iff.mp child_eq).1
      simp only [modify,children_grow,List.getElem?_append_left bound,child_eq,Option.bind_some]
      simpa using reached
    | cons index' place =>
      simp only [children_modify,List.getElem?_modify,child_eq]
      by_cases same : index' = index
      · simpa [same] using ih child place reached
      · simpa [same] using reached

end TraceNode

namespace Trace
open TraceNode (Path)

structure Instance where
  stack : List Path
  root : Option TraceNode

/-- What the language leaves open or the assertion stops. -/
inductive Fault
  | emptyStack
  | dangling
  | assertion
  deriving DecidableEq

def fresh : Instance := ⟨[],none⟩

/-- `stack_.back()`. -/
def back (cur : Instance) : Except Fault Path :=
  match cur.stack.getLast? with
  | some path => .ok path
  | none => .error .emptyStack

def currentTraceNode (cur : Instance) : Except Fault (Option Path) :=
  match cur.root with
  | some _ => (back cur).map some
  | none => .ok none

def start (message : String) (cur : Instance) : Option Instance :=
  match cur.root with
  | some _ => none
  | none => some ⟨[[]],some (.make message)⟩

def stop (_cur : Instance) : Instance := ⟨[],none⟩

def addNode (message : String) (cur : Instance) : Except Fault Instance :=
  match cur.root with
  | none => .ok cur
  | some root =>
    match back cur with
    | .error fault => .error fault
    | .ok path =>
      match root.find? path with
      | none => .error .dangling
      | some node =>
        .ok ⟨cur.stack ++ [path ++ [node.children.length]],some (root.modify (.addNode message) path)⟩

def remNode (cur : Instance) : Except Fault Instance :=
  if cur.stack = [] then .error .emptyStack
  else if cur.stack.dropLast = [] then .error .assertion
  else .ok {cur with stack := cur.stack.dropLast}

def serialize (type : LeafType) (message color : String) (cur : Instance) : Except Fault Instance :=
  match currentTraceNode cur with
  | .error fault => .error fault
  | .ok none => .ok cur
  | .ok (some path) =>
    match cur.root with
    | none => .error .dangling
    | some root =>
      match root.find? path with
      | none => .error .dangling
      | some _ => .ok {cur with root := some (root.modify (.addLeaf type message color) path)}

/-- How a scope is left. -/
inductive Exit
  | normal
  | thrown
  deriving DecidableEq

/-- Code that opens scopes. A guard stands for the rest of its block, so a scope is its macro and the
code after it. -/
inductive Code
  | pass
  | throw
  | serialize (type : LeafType) (message color : String)
  | seq (first second : Code)
  | tryCatch (body handler : Code)
  | startTrace (message : String) (body : Code)
  | addTraceNode (message : String) (body : Code)

/-- An open scope: the stack it found and the node it opened. -/
structure Frame where
  entry : List Path
  node : Option Path

inductive Moment
  | current (frames : List Frame) (node : Option Path)
  | left (frame : Frame) (stack : List Path)

structure Passage where
  moments : List Moment
  ending : Except Fault (Exit × Instance)

def Passage.andThen (passage : Passage) (next : Exit → Instance → Passage) : Passage :=
  match passage.ending with
  | .error _ => passage
  | .ok (exit,cur) => ⟨passage.moments ++ (next exit cur).moments,(next exit cur).ending⟩

/-- The guard's destructor ran `task`. -/
def leave (frame : Frame) (exit : Exit) (task : Except Fault Instance) : Passage :=
  match task with
  | .error fault => ⟨[],.error fault⟩
  | .ok cur => ⟨[.left frame cur.stack],.ok (exit,cur)⟩

/-- The open scopes are listed from the innermost one. -/
def Code.run : Code → List Frame → Instance → Passage
  | pass, _, cur => ⟨[],.ok (.normal,cur)⟩
  | throw, _, cur => ⟨[],.ok (.thrown,cur)⟩
  | serialize type message color, frames, cur =>
    match currentTraceNode cur with
    | .error fault => ⟨[],.error fault⟩
    | .ok node =>
      ⟨[.current frames node],(Trace.serialize type message color cur).map fun cur => (.normal,cur)⟩
  | seq first second, frames, cur => (first.run frames cur).andThen fun exit cur =>
    match exit with
    | .normal => second.run frames cur
    | .thrown => ⟨[],.ok (.thrown,cur)⟩
  | tryCatch body handler, frames, cur => (body.run frames cur).andThen fun exit cur =>
    match exit with
    | .normal => ⟨[],.ok (.normal,cur)⟩
    | .thrown => handler.run frames cur
  | startTrace message body, frames, cur =>
    match start message cur with
    -- the guard is not built yet
    | none => ⟨[],.ok (.thrown,cur)⟩
    | some opened =>
      let frame : Frame := ⟨cur.stack,opened.stack.getLast?⟩
      (body.run (frame :: frames) opened).andThen fun exit cur => leave frame exit (.ok (stop cur))
  | addTraceNode message body, frames, cur =>
    match addNode message cur with
    | .error fault => ⟨[],.error fault⟩
    | .ok opened =>
      let frame : Frame := ⟨cur.stack,if cur.root.isSome then opened.stack.getLast? else none⟩
      (body.run (frame :: frames) opened).andThen fun exit cur => leave frame exit (remNode cur)

/-- The node of the innermost scope that was opened under the active root. -/
def innermost (frames : List Frame) : Option Path := frames.findSome? (·.node)

def Moment.Fine : Moment → Prop
  | current frames node => node = innermost frames
  | left frame stack => stack = frame.entry

def Passage.Balanced (passage : Passage) : Prop :=
  (∀ fault, passage.ending ≠ .error fault) ∧ ∀ moment ∈ passage.moments, moment.Fine

/-- How the code ends, by its control flow alone: `START_TRACE` throws under an active trace. -/
def Code.exit (active : Bool) : Code → Exit
  | pass => .normal
  | throw => .thrown
  | serialize .. => .normal
  | seq first second =>
    match first.exit active with
    | .normal => second.exit active
    | .thrown => .thrown
  | tryCatch body handler =>
    match body.exit active with
    | .normal => .normal
    | .thrown => handler.exit active
  | startTrace _ body => if active then .thrown else body.exit true
  | addTraceNode _ body => body.exit active

/-- No `ADD_TRACE_NODE` that the control comes to stands outside an active trace. -/
def Code.Rooted (active : Bool) : Code → Prop
  | pass => True
  | throw => True
  | serialize .. => True
  | seq first second =>
    first.Rooted active ∧ (first.exit active = .normal → second.Rooted active)
  | tryCatch body handler =>
    body.Rooted active ∧ (body.exit active = .thrown → handler.Rooted active)
  | startTrace _ body => active = false → body.Rooted true
  | addTraceNode _ body => active = true ∧ body.Rooted true

/-- No root, no open node; under a root the nodes on the stack are there. -/
structure Instance.Sound (cur : Instance) : Prop where
  clear : cur.root = none → cur.stack = []
  pushed : cur.root ≠ none → cur.stack ≠ []
  live : ∀ root, cur.root = some root → ∀ path ∈ cur.stack, (root.find? path).isSome

theorem fresh_sound : fresh.Sound :=
  ⟨fun _ => rfl,fun rooted => absurd rfl rooted,fun _ rooted => by cases rooted⟩

theorem addNode_clear {cur : Instance} (message : String) (clear : cur.root = none) :
    addNode message cur = .ok cur := by
  simp [addNode,clear]

theorem back_eq {cur : Instance} {path : Path} (last : cur.stack.getLast? = some path) :
    back cur = .ok path := by
  simp [back,last]

namespace Instance.Sound
variable {cur : Instance} (sound : cur.Sound)
include sound

theorem last (rooted : cur.root ≠ none) : ∃ path, cur.stack.getLast? = some path :=
  ⟨_,List.getLast?_eq_some_getLast (sound.pushed rooted)⟩

theorem currentTraceNode : Trace.currentTraceNode cur = .ok cur.stack.getLast? := by
  cases rooted : cur.root with
  | none => simp [Trace.currentTraceNode,rooted,sound.clear rooted]
  | some root =>
    obtain ⟨path,last⟩ := sound.last (by simp [rooted])
    simp [Trace.currentTraceNode,rooted,back_eq last,last,Except.map]

/-- A change below the root that keeps what is there keeps the instance sound. -/
theorem grow (more : List TraceNode) (root : TraceNode) (place : Path) (rooted : cur.root = some root) :
    Instance.Sound {cur with root := some (root.modify (.grow more) place)} where
  clear none_eq := by cases none_eq
  pushed _ := sound.pushed (by simp [rooted])
  live := by
    intro root' root_eq path member
    cases root_eq
    exact TraceNode.find?_grow more root place path (sound.live root rooted path member)

theorem serialize (type : LeafType) (message color : String) :
    ∃ after, Trace.serialize type message color cur = .ok after ∧ after.Sound ∧
      after.stack = cur.stack ∧ after.root.isSome = cur.root.isSome := by
  simp only [Trace.serialize,sound.currentTraceNode]
  cases rooted : cur.root with
  | none => exact ⟨cur,by simp [sound.clear rooted],sound,rfl,by simp [rooted]⟩
  | some root =>
    obtain ⟨path,last⟩ := sound.last (by simp [rooted])
    have found := sound.live root rooted path (List.mem_of_getLast? last)
    obtain ⟨node,node_eq⟩ := Option.isSome_iff_exists.mp found
    simp only [last,node_eq]
    exact ⟨_,rfl,sound.grow _ root path rooted,rfl,rfl⟩

/-- `add_node` under a root pushes one node, which is in the tree. -/
theorem addNode_rooted (message : String) (rooted : cur.root ≠ none) :
    ∃ path after, addNode message cur = .ok after ∧ after.Sound ∧
      after.stack = cur.stack ++ [path] ∧ after.root.isSome := by
  obtain ⟨root,root_eq⟩ := Option.ne_none_iff_exists'.mp rooted
  obtain ⟨path,last⟩ := sound.last rooted
  have found := sound.live root root_eq path (List.mem_of_getLast? last)
  obtain ⟨node,node_eq⟩ := Option.isSome_iff_exists.mp found
  simp only [Trace.addNode,root_eq,back_eq last,node_eq]
  refine ⟨path ++ [node.children.length],_,rfl,?_,rfl,rfl⟩
  constructor
  · intro none_eq
    cases none_eq
  · intro _
    simp
  · intro root' root'_eq path' member
    cases root'_eq
    rcases List.mem_append.mp member with member | member
    · exact TraceNode.find?_grow _ root path path' (sound.live root root_eq path' member)
    · rw [List.mem_singleton.mp member]
      simp [TraceNode.addNode,TraceNode.find?_modify,node_eq,TraceNode.find?]

end Instance.Sound

/-- The instance with these scopes open and this trace active. -/
structure Proper (active : Bool) (frames : List Frame) (cur : Instance) : Prop where
  sound : cur.Sound
  active : cur.root.isSome = active
  top : cur.stack.getLast? = innermost frames

/-- The code ran to its end with this stack left, and with the trace as active. -/
structure Restored (active : Bool) (exit : Exit) (stack : List Path) (passage : Passage) : Prop where
  fine : ∀ moment ∈ passage.moments, moment.Fine
  ends : ∃ after, passage.ending = .ok (exit,after) ∧ after.Sound ∧ after.root.isSome = active ∧
    after.stack = stack

theorem Restored.balanced {active : Bool} {exit : Exit} {stack : List Path} {passage : Passage}
    (restored : Restored active exit stack passage) : passage.Balanced := by
  obtain ⟨after,ending,-⟩ := restored.ends
  constructor
  · intro fault failed
    rw [ending] at failed
    cases failed
  · exact restored.fine

theorem Proper.after {active : Bool} {frames : List Frame} {cur after : Instance}
    (proper : Proper active frames cur) (sound : after.Sound) (rooted : after.root.isSome = active)
    (stack : after.stack = cur.stack) : Proper active frames after :=
  ⟨sound,rooted,by rw [stack]; exact proper.top⟩

theorem andThen_ok {passage : Passage} {exit : Exit} {cur : Instance}
    (next : Exit → Instance → Passage) (ending : passage.ending = .ok (exit,cur)) :
    passage.andThen next = ⟨passage.moments ++ (next exit cur).moments,(next exit cur).ending⟩ := by
  simp [Passage.andThen,ending]

theorem Restored.andThen {active active' : Bool} {exit exit' : Exit} {stack stack' : List Path}
    {passage : Passage} {next : Exit → Instance → Passage} (restored : Restored active exit stack passage)
    (goes : ∀ after, after.Sound → after.root.isSome = active → after.stack = stack →
      Restored active' exit' stack' (next exit after)) :
    Restored active' exit' stack' (passage.andThen next) := by
  obtain ⟨after,ending,sound,rooted,kept⟩ := restored.ends
  have later := goes after sound rooted kept
  rw [andThen_ok next ending]
  refine ⟨?_,later.ends⟩
  intro moment member
  rcases List.mem_append.mp member with member | member
  · exact restored.fine moment member
  · exact later.fine moment member

theorem leave_restored {active : Bool} (frame : Frame) (exit : Exit) {cur : Instance}
    (sound : cur.Sound) (rooted : cur.root.isSome = active) (stack : cur.stack = frame.entry) :
    Restored active exit frame.entry (leave frame exit (.ok cur)) := by
  refine ⟨?_,cur,rfl,sound,rooted,stack⟩
  intro moment member
  rw [List.mem_singleton.mp member]
  exact stack

theorem rooted_ne {active : Bool} {root : Option TraceNode} (rooted : root.isSome = active) :
    active = true ↔ root ≠ none := by
  rw [← rooted]
  exact Option.isSome_iff_ne_none

/-- The guard of a node's scope pops what the scope pushed. -/
theorem remNode_pushed {cur : Instance} {stack : List Path} {path : Path} (sound : cur.Sound)
    (pushed : stack ≠ []) (stacked : cur.stack = stack ++ [path]) :
    remNode cur = .ok {cur with stack := stack} ∧ Instance.Sound {cur with stack := stack} := by
  refine ⟨by simp [remNode,stacked,pushed],?_,fun _ => pushed,?_⟩
  · intro clear
    have empty := sound.clear clear
    simp [stacked] at empty
  · intro root root_eq path member
    exact sound.live root root_eq path (by rw [stacked]; exact List.mem_append_left _ member)

/-- The scope of a node under a trace is open with that node on top. -/
theorem Proper.push {frames : List Frame} {cur : Instance} (proper : Proper true frames cur) (message : String) :
    ∃ path opened, addNode message cur = .ok opened ∧ opened.stack = cur.stack ++ [path] ∧
      Proper true (⟨cur.stack,opened.stack.getLast?⟩ :: frames) opened := by
  obtain ⟨path,opened,added,sound,stack,root⟩ :=
    proper.sound.addNode_rooted message ((rooted_ne proper.active).mp rfl)
  exact ⟨path,opened,added,stack,sound,root,by simp [innermost,stack]⟩

theorem start_clear {cur : Instance} (message : String) (clear : cur.root = none) :
    start message cur = some ⟨[[]],some (.make message)⟩ := by
  simp [start,clear]

theorem start_rooted {cur : Instance} (message : String) (rooted : cur.root ≠ none) :
    start message cur = none := by
  obtain ⟨root,root_eq⟩ := Option.ne_none_iff_exists'.mp rooted
  simp [start,root_eq]

theorem started_proper (message : String) (entry : List Path) (frames : List Frame) :
    Proper true (⟨entry,some []⟩ :: frames) ⟨[[]],some (.make message)⟩ := by
  refine ⟨⟨?_,?_,?_⟩,rfl,rfl⟩
  · intro none_eq
    cases none_eq
  · intro _
    simp
  · intro root _ path member
    rw [List.mem_singleton.mp member]
    rfl

/-- Code whose nodes all stand under a trace ends as its control flow says and restores the stack. -/
theorem run_rooted (code : Code) {active : Bool} {frames : List Frame} {cur : Instance}
    (rooted : code.Rooted active) (proper : Proper active frames cur) :
    Restored active (code.exit active) cur.stack (code.run frames cur) := by
  induction code generalizing active frames cur with
  | pass => exact ⟨by simp [Code.run],cur,rfl,proper.sound,proper.active,rfl⟩
  | throw => exact ⟨by simp [Code.run],cur,rfl,proper.sound,proper.active,rfl⟩
  | serialize type message color =>
    obtain ⟨after,ran,sound,stack,root⟩ := proper.sound.serialize type message color
    simp only [Code.run,proper.sound.currentTraceNode,ran]
    refine ⟨?_,after,rfl,sound,root.trans proper.active,stack⟩
    intro moment member
    rw [List.mem_singleton.mp member]
    exact proper.top
  | seq first second firstRun secondRun =>
    apply (firstRun rooted.1 proper).andThen
    intro after sound root stack
    simp only [Code.exit]
    cases flow : first.exit active with
    | normal =>
      rw [← stack]
      exact secondRun (rooted.2 flow) (proper.after sound root stack)
    | thrown => exact ⟨by simp,after,rfl,sound,root,stack⟩
  | tryCatch body handler bodyRun handlerRun =>
    apply (bodyRun rooted.1 proper).andThen
    intro after sound root stack
    simp only [Code.exit]
    cases flow : body.exit active with
    | normal => exact ⟨by simp,after,rfl,sound,root,stack⟩
    | thrown =>
      rw [← stack]
      exact handlerRun (rooted.2 flow) (proper.after sound root stack)
  | startTrace message body bodyRun =>
    cases active with
    | true =>
      have blocked := start_rooted message ((rooted_ne proper.active).mp rfl)
      simp only [Code.run,blocked]
      exact ⟨by simp,cur,rfl,proper.sound,proper.active,rfl⟩
    | false =>
      have clear : cur.root = none := by simpa using proper.active
      simp only [Code.run,start_clear message clear]
      apply (bodyRun (rooted rfl) (started_proper message cur.stack frames)).andThen
      intro after _ _ _
      have sound : (stop after).Sound := fresh_sound
      exact leave_restored ⟨cur.stack,_⟩ _ sound rfl (proper.sound.clear clear).symm
  | addTraceNode message body bodyRun =>
    obtain ⟨rfl,rooted⟩ := rooted
    obtain ⟨path,opened,added,stack,inner⟩ := proper.push message
    simp only [Code.run,added,proper.active]
    apply (bodyRun rooted inner).andThen
    intro after sound root stack'
    have pushed := proper.sound.pushed ((rooted_ne proper.active).mp rfl)
    obtain ⟨removed,sound'⟩ := remNode_pushed sound pushed (stack'.trans stack)
    rw [removed]
    exact leave_restored ⟨cur.stack,_⟩ _ sound' root rfl

/-- A node opened outside a trace is left by a pop of the empty stack. -/
theorem unrooted_node {passage : Passage} {exit : Exit} (frame : Frame)
    (restored : Restored false exit [] passage) :
    ¬(passage.andThen fun exit cur => leave frame exit (remNode cur)).Balanced := by
  obtain ⟨after,ending,-,-,empty⟩ := restored.ends
  rw [andThen_ok _ ending]
  intro balanced
  apply balanced.1 .emptyStack
  simp [remNode,empty,leave]

theorem andThen_unbalanced {passage : Passage} (next : Exit → Instance → Passage)
    (unbalanced : ¬passage.Balanced) : ¬(passage.andThen next).Balanced := by
  intro balanced
  apply unbalanced
  unfold Passage.andThen at balanced
  cases ending : passage.ending with
  | error fault => simpa [ending] using balanced
  | ok result =>
    simp only [ending] at balanced
    constructor
    · intro fault failed
      rw [ending] at failed
      cases failed
    · intro moment member
      exact balanced.2 moment (List.mem_append_left _ member)

/-- What is unbalanced after restored code makes the whole unbalanced. -/
theorem Restored.andThen_unbalanced {active : Bool} {exit : Exit} {stack : List Path}
    {passage : Passage} {next : Exit → Instance → Passage} (restored : Restored active exit stack passage)
    (goes : ∀ after, after.Sound → after.root.isSome = active → after.stack = stack →
      ¬(next exit after).Balanced) : ¬(passage.andThen next).Balanced := by
  obtain ⟨after,ending,sound,rooted,kept⟩ := restored.ends
  rw [andThen_ok next ending]
  intro balanced
  apply goes after sound rooted kept
  refine ⟨balanced.1,?_⟩
  intro moment member
  exact balanced.2 moment (List.mem_append_right _ member)

theorem run_unrooted (code : Code) {active : Bool} {frames : List Frame} {cur : Instance}
    (unrooted : ¬code.Rooted active) (proper : Proper active frames cur) :
    ¬(code.run frames cur).Balanced := by
  induction code generalizing active frames cur with
  | pass => exact absurd trivial unrooted
  | throw => exact absurd trivial unrooted
  | serialize => exact absurd trivial unrooted
  | seq first second firstRun secondRun =>
    by_cases rooted : first.Rooted active
    · obtain ⟨flow,unrooted⟩ := by simpa [Code.Rooted,rooted] using unrooted
      have restored := run_rooted first rooted proper
      rw [flow] at restored
      apply restored.andThen_unbalanced
      intro after sound root stack
      exact secondRun unrooted (proper.after sound root stack)
    · exact andThen_unbalanced _ (firstRun rooted proper)
  | tryCatch body handler bodyRun handlerRun =>
    by_cases rooted : body.Rooted active
    · obtain ⟨flow,unrooted⟩ := by simpa [Code.Rooted,rooted] using unrooted
      have restored := run_rooted body rooted proper
      rw [flow] at restored
      apply restored.andThen_unbalanced
      intro after sound root stack
      exact handlerRun unrooted (proper.after sound root stack)
    · exact andThen_unbalanced _ (bodyRun rooted proper)
  | startTrace message body bodyRun =>
    obtain ⟨rfl,inside⟩ : active = false ∧ ¬body.Rooted true := by
      simpa [Code.Rooted] using unrooted
    have clear : cur.root = none := by simpa using proper.active
    simp only [Code.run,start_clear message clear]
    exact andThen_unbalanced _ (bodyRun inside (started_proper message cur.stack frames))
  | addTraceNode message body bodyRun =>
    cases active with
    | true =>
      have unrooted : ¬body.Rooted true := by simpa [Code.Rooted] using unrooted
      obtain ⟨path,opened,added,_,inner⟩ := proper.push message
      simp only [Code.run,added,proper.active]
      exact andThen_unbalanced _ (bodyRun unrooted inner)
    | false =>
      have clear : cur.root = none := by simpa using proper.active
      simp only [Code.run,addNode_clear message clear,proper.active]
      have inner : Proper false (⟨cur.stack,none⟩ :: frames) cur :=
        ⟨proper.sound,proper.active,by simpa [innermost] using proper.top⟩
      by_cases rooted : body.Rooted false
      · have restored := run_rooted body rooted inner
        rw [proper.sound.clear clear] at restored ⊢
        exact unrooted_node _ restored
      · exact andThen_unbalanced _ (bodyRun rooted inner)

/-- From a thread without a trace the stack stays balanced just where every `ADD_TRACE_NODE` that is
come to stands under a `START_TRACE`. -/
theorem balanced_iff (code : Code) : (code.run [] fresh).Balanced ↔ code.Rooted false := by
  have proper : Proper false [] fresh := ⟨fresh_sound,rfl,rfl⟩
  constructor
  · intro balanced
    by_contra unrooted
    exact run_unrooted code unrooted proper balanced
  · intro rooted
    exact (run_rooted code rooted proper).balanced

/-- The scope pushes nothing and its guard pops all the same. -/
theorem node_without_trace : ¬((Code.addTraceNode "task" .pass).run [] fresh).Balanced := by
  intro balanced
  exact balanced.1 .emptyStack rfl

end Trace

end Call45Aggr
