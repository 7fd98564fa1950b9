import Call45Aggr.Trace

/-! What a trace shows: the tree that the stack of open nodes builds against the nesting of
the scopes it was built in. -/
namespace Call45Aggr

namespace TraceNode

theorem modify_modify (first second : TraceNode → TraceNode) (node : TraceNode) (path : Path) :
    (node.modify first path).modify second path = node.modify (fun found => second (first found)) path := by
  induction path generalizing node with
  | nil => rfl
  | cons index path ih =>
    cases node with
    | mk type nameOrMessage leafNodeType color children =>
      simp only [modify,List.modify_modify_eq,Function.comp_def,ih]

theorem modify_append (change : TraceNode → TraceNode) (node : TraceNode) (path rest : Path) :
    node.modify change (path ++ rest) = node.modify (fun found => found.modify change rest) path := by
  induction path generalizing node with
  | nil => rfl
  | cons index path ih =>
    cases node with
    | mk type nameOrMessage leafNodeType color children =>
      simp only [List.cons_append,modify,ih]

/-- A change at a path is what it does to the node there. -/
theorem modify_congr {first second : TraceNode → TraceNode} {node found : TraceNode} {path : Path}
    (there : node.find? path = some found) (same : first found = second found) :
    node.modify first path = node.modify second path := by
  induction path generalizing node with
  | nil =>
    cases Option.some.inj there
    exact same
  | cons index path ih =>
    cases node with
    | mk type nameOrMessage leafNodeType color children =>
      obtain ⟨child,at_index,deeper⟩ := Option.bind_eq_some_iff.mp there
      simp only [modify]
      congr 1
      apply List.ext_getElem?
      intro place
      simp only [List.getElem?_modify]
      by_cases here : index = place
      · subst here
        have located : children[index]? = some child := at_index
        simp [located,ih deeper]
      · simp [here]

theorem grow_grow (first second : List TraceNode) (node : TraceNode) :
    (node.grow first).grow second = node.grow (first ++ second) := by
  cases node
  simp [grow]

theorem grow_nil (node : TraceNode) : node.grow [] = node := by
  cases node
  simp [grow]

theorem modify_id (node : TraceNode) (path : Path) : node.modify (grow []) path = node := by
  induction path generalizing node with
  | nil => exact grow_nil node
  | cons index path ih =>
    cases node with
    | mk type nameOrMessage leafNodeType color children =>
      simp only [modify,ih]
      congr 1
      exact List.modify_id index children

/-- A node added as the last child and grown there is added grown. -/
theorem grow_last (name : String) (more : List TraceNode) (node : TraceNode) :
    (node.addNode name).modify (grow more) [node.children.length] = node.grow [.mk .node name .info "" more] := by
  cases node with
  | mk type nameOrMessage leafNodeType color children =>
    simp only [addNode,grow,modify,TraceNode.children]
    congr 1
    apply List.ext_getElem?
    intro place
    rw [List.getElem?_modify]
    rcases Nat.lt_trichotomy place children.length with before | rfl | after
    · simp [List.getElem?_append_left before,Nat.ne_of_gt before]
    · simp [make]
    · have outside : children.length + 1 ≤ place := after
      rw [List.getElem?_eq_none (by simpa using outside),List.getElem?_eq_none (by simpa using outside)]
      rfl

end TraceNode

namespace Trace
open TraceNode (Path)

/-- The children that the code adds to the innermost node while a trace is active: one node
for each scope, with what its body adds, and the leaves of the messages. -/
def Code.nodes : Code → List TraceNode
  | pass => []
  | throw => []
  | serialize type message color => (splitText message "\n").map fun line => .mk .leaf line type color []
  | seq first second => first.nodes ++
    match first.exit true with
    | .normal => second.nodes
    | .thrown => []
  | tryCatch body handler => body.nodes ++
    match body.exit true with
    | .normal => []
    | .thrown => handler.nodes
  | startTrace _ _ => []
  | addTraceNode message body => [.mk .node message .info "" body.nodes]

/-- The trace is active with this node on top of the stack. -/
structure Tops (root : TraceNode) (path : Path) (cur : Instance) : Prop where
  rooted : cur.root = some root
  last : cur.stack.getLast? = some path
  found : (root.find? path).isSome

/-- The passage ended so, with only these children added at the node. -/
def Grown (root : TraceNode) (path : Path) (stack : List Path) (exit : Exit) (more : List TraceNode)
    (passage : Passage) : Prop :=
  passage.ending = .ok (exit,⟨stack,some (root.modify (.grow more) path)⟩)

theorem Tops.grow {root : TraceNode} {path : Path} {cur : Instance} (tops : Tops root path cur)
    (more : List TraceNode) :
    Tops (root.modify (.grow more) path) path ⟨cur.stack,some (root.modify (.grow more) path)⟩ :=
  ⟨rfl,tops.last,TraceNode.find?_grow more root path path tops.found⟩

theorem Grown.refl {root : TraceNode} {path : Path} {cur : Instance} (tops : Tops root path cur) (exit : Exit)
    (moments : List Moment) : Grown root path cur.stack exit [] ⟨moments,.ok (exit,cur)⟩ := by
  have kept : cur = ⟨cur.stack,some root⟩ := by
    rw [← tops.rooted]
  rw [Grown,TraceNode.modify_id,← kept]

theorem Grown.then {root : TraceNode} {path : Path} {stack stack' : List Path} {exit exit' : Exit}
    {more later : List TraceNode} {passage : Passage} {next : Exit → Instance → Passage}
    (grown : Grown root path stack exit more passage)
    (goes : Grown (root.modify (.grow more) path) path stack' exit' later
      (next exit ⟨stack,some (root.modify (.grow more) path)⟩)) :
    Grown root path stack' exit' (more ++ later) (passage.andThen next) := by
  rw [Grown,andThen_ok next grown]
  refine goes.trans ?_
  rw [TraceNode.modify_modify]
  simp only [TraceNode.grow_grow]

theorem addNode_tops {root : TraceNode} {path : Path} {cur : Instance} (tops : Tops root path cur)
    (message : String) : ∃ node, root.find? path = some node ∧
      addNode message cur = .ok ⟨cur.stack ++ [path ++ [node.children.length]],
        some (root.modify (.addNode message) path)⟩ ∧
      Tops (root.modify (.addNode message) path) (path ++ [node.children.length])
        ⟨cur.stack ++ [path ++ [node.children.length]],some (root.modify (.addNode message) path)⟩ := by
  obtain ⟨node,found⟩ := Option.isSome_iff_exists.mp tops.found
  refine ⟨node,found,?_,rfl,by simp,?_⟩
  · simp only [addNode,tops.rooted,back_eq tops.last,found]
  · simp [TraceNode.find?_modify,found,TraceNode.addNode,TraceNode.find?]

/-- Code under an active trace adds its nodes at the innermost one and nothing elsewhere. -/
theorem run_grows (code : Code) {frames : List Frame} {cur : Instance} {root : TraceNode} {path : Path}
    (tops : Tops root path cur) :
    Grown root path cur.stack (code.exit true) code.nodes (code.run frames cur) := by
  induction code generalizing frames cur root path with
  | pass => exact .refl tops .normal []
  | throw => exact .refl tops .thrown []
  | serialize type message color =>
    obtain ⟨node,found⟩ := Option.isSome_iff_exists.mp tops.found
    have current : currentTraceNode cur = .ok (some path) := by
      simp [currentTraceNode,tops.rooted,back_eq tops.last,Except.map]
    rw [Grown,Code.run,current]
    simp only [Trace.serialize,current,tops.rooted,found,Except.map]
    rfl
  | seq first second firstRun secondRun =>
    refine (firstRun tops).then ?_
    simp only [Code.exit]
    cases first.exit true with
    | normal => exact secondRun (tops.grow _)
    | thrown => exact .refl (tops.grow _) .thrown []
  | tryCatch body handler bodyRun handlerRun =>
    refine (bodyRun tops).then ?_
    simp only [Code.exit]
    cases body.exit true with
    | normal => exact .refl (tops.grow _) .normal []
    | thrown => exact handlerRun (tops.grow _)
  | startTrace message body =>
    have rooted : cur.root ≠ none := by
      rw [tops.rooted]
      exact Option.some_ne_none root
    rw [Code.run,start_rooted message rooted]
    exact .refl tops .thrown []
  | addTraceNode message body bodyRun =>
    obtain ⟨node,found,added,inner⟩ := addNode_tops tops message
    have pushed : cur.stack ≠ [] := by
      rintro empty
      have last := tops.last
      rw [empty] at last
      contradiction
    have popped (tree : Option TraceNode) (path' : Path) :
        remNode ⟨cur.stack ++ [path'],tree⟩ = .ok ⟨cur.stack,tree⟩ := by
      simp [remNode,pushed]
    have tree : (root.modify (.addNode message) path).modify (.grow body.nodes) (path ++ [node.children.length]) =
        root.modify (.grow [.mk .node message .info "" body.nodes]) path := by
      rw [TraceNode.modify_append,TraceNode.modify_modify]
      exact TraceNode.modify_congr found (TraceNode.grow_last message body.nodes node)
    rw [Code.run,added]
    refine (congrArg Passage.ending (andThen_ok _ (bodyRun inner))).trans ?_
    rw [popped,tree]
    rfl

/-- The tree of a trace is the nesting of its scopes and messages in the order they were
come to, with nothing after a point that threw. -/
theorem tree_mirrors (message : String) (body : Code) : ∃ opened after, start message fresh = some opened ∧
    (body.run [⟨fresh.stack,opened.stack.getLast?⟩] opened).ending = .ok (body.exit true,after) ∧
    after.stack = opened.stack ∧ after.root = some (.mk .node message .info "" body.nodes) := by
  have tops : Tops (.make message) [] ⟨[[]],some (.make message)⟩ := ⟨rfl,rfl,rfl⟩
  exact ⟨_,_,start_clear message rfl,run_grows body tops,rfl,rfl⟩

end Trace

end Call45Aggr
