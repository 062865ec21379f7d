import ItexDemo.Http.Router
import ItexDemo.Lib.TransitionSystem

/-!
# The nodes of routers as objects

`Router::Node` owns its children through raw pointers. Here a node is an object with an address, and
what a router does to its nodes can be seen by others that have the same address. A `Router` is the
address of its `root_`. Nodes are not freed: a copy assignment leaks the copies of children that it
does not store.
-/

namespace Http

/-- A `Router::Node` object. -/
structure NodeObject (H : Type*) where
  name_ : Str
  children_ : List (Str × Nat)
  handlers_ : List (Nat × H)

namespace NodeObject

variable {H : Type*}

/-- `Node(std::string name)`, and `Node()` for the empty name. -/
def new (name : Str) : NodeObject H := { name_ := name, children_ := [], handlers_ := [] }

end NodeObject

/-- The nodes that have been made, under their addresses. -/
abbrev NodeHeap (H : Type*) : Type _ := List (NodeObject H)

namespace NodeHeap

variable {H : Type*}

/-- The loop of `Router::set` from the node at `node` on. -/
def set (heap : NodeHeap H) (node : Nat) (tokens : List Str) (method : Method) (handler : H) :
    Option (NodeHeap H) :=
  match tokens with
  | [] =>
    heap[node]?.map fun n =>
      List.set heap node { n with handlers_ := AssocMap.assign n.handlers_ method.toSize handler }
  | token :: rest =>
    if token = [] then set heap node rest method handler
    else
      heap[node]?.bind fun n =>
        match AssocMap.find n.children_ (childKey token) with
        | some child => set heap child rest method handler
        | none =>
          let child := heap.length
          let n' := { n with children_ := AssocMap.emplace n.children_ (childKey token) child }
          set (List.set heap node n' ++ [.new (childName token)]) child rest method handler

/-- The loop of `Router::get` from the node at `node` on. -/
def get (heap : NodeHeap H) (node : Nat) (tokens : List Str) (params : List (Str × Str))
    (method : Method) : Option (H × List (Str × Str)) :=
  match tokens with
  | [] =>
    heap[node]?.bind fun n =>
      (AssocMap.find n.handlers_ method.toSize).map fun h => (h, params)
  | token :: rest =>
    if token = [] then get heap node rest params method
    else
      heap[node]?.bind fun n =>
        let key := if (AssocMap.find n.children_ token).isSome then token else paramKey
        match AssocMap.find n.children_ key with
        | none => none
        | some child =>
          heap[child]?.bind fun c =>
            let params' := if key = paramKey then AssocMap.assign params c.name_ token else params
            get heap child rest params' method

/-- The loop of `Node::operator=(const Node&)` over the children: each of them is copied with `copy`
into a new node, which is stored unless there is a child with its key. -/
def copyChildren (copy : NodeHeap H → Nat → Nat → Option (NodeHeap H)) (node : Nat) :
    List (Str × Nat) → NodeHeap H → Option (NodeHeap H)
  | [], heap => some heap
  | (key, child) :: rest, heap =>
    (copy (heap ++ [.new []]) heap.length child).bind fun heap' =>
      heap'[node]?.bind fun n =>
        copyChildren copy node rest
          (List.set heap' node { n with children_ := AssocMap.emplace n.children_ key heap.length })

/-- `Node::operator=(const Node&)`, which the copy constructor also calls, for tries that are not
deeper than `depth`. -/
def assign : Nat → NodeHeap H → Nat → Nat → Option (NodeHeap H)
  | 0, _, _, _ => none
  | depth + 1, heap, node, other =>
    heap[other]?.bind fun o =>
      heap[node]?.bind fun n =>
        (copyChildren (assign depth) node o.children_
          (List.set heap node { n with name_ := o.name_ })).bind fun heap' =>
            heap'[node]?.map fun n' => List.set heap' node { n' with handlers_ := o.handlers_ }

end NodeHeap

/-- The routers of a program. -/
structure Routers (H : Type*) where
  heap : NodeHeap H
  routers : List Nat

/-- What is done with routers. -/
inductive RouterOp (H : Type*) where
  | construct
  | set (router : Nat) (urlPathRule : Str) (method : Method) (handler : H)
  | copyConstruct (router : Nat)
  | moveConstruct (router : Nat)
  | copyAssign (router other : Nat)

namespace Routers

variable {H : Type*}

/-- No routers. -/
def new : Routers H := { heap := [], routers := [] }

/-- `Router()`. -/
def construct (w : Routers H) : Routers H :=
  { heap := w.heap ++ [.new []], routers := w.routers ++ [w.heap.length] }

/-- `Router::operator=(const Router&)`. A trie is not deeper than the number of nodes. -/
def copyAssign (w : Routers H) (router other : Nat) : Option (Routers H) :=
  (w.heap.assign w.heap.length router other).map fun heap => { w with heap := heap }

/-- `Router(const Router&)`: the new router is assigned to. -/
def copyConstruct (w : Routers H) (other : Nat) : Option (Routers H) :=
  w.construct.copyAssign w.heap.length other

/-- `Router(Router&&)`: its parameter is an lvalue, so that the copy assignment is called. -/
def moveConstruct (w : Routers H) (other : Nat) : Option (Routers H) :=
  w.construct.copyAssign w.heap.length other

/-- `Router::set`. -/
def set (w : Routers H) (router : Nat) (urlPathRule : Str) (method : Method) (handler : H) :
    Option (Routers H) :=
  (w.heap.set router (splitUrlPath urlPathRule) method handler).map fun heap =>
    { w with heap := heap }

/-- `Router::get`. -/
def get (w : Routers H) (router : Nat) (urlPath : Str) (method : Method) :
    Except RouterException (H × List (Str × Str)) :=
  match w.heap.get router (splitUrlPath urlPath) [] method with
  | some result => .ok result
  | none => .error ⟨"HTTP: Could not find route for URL [" ++ String.ofList urlPath ++
      "] by HTTP method [" ++ toString method.toSize ++ "]"⟩

/-- One operation, on routers that there are. -/
def step (w : Routers H) : RouterOp H → Option (Routers H)
  | .construct => some w.construct
  | .set r rule method handler => if r ∈ w.routers then w.set r rule method handler else none
  | .copyConstruct r => if r ∈ w.routers then w.copyConstruct r else none
  | .moveConstruct r => if r ∈ w.routers then w.moveConstruct r else none
  | .copyAssign r s =>
    if r ∈ w.routers ∧ s ∈ w.routers ∧ r ≠ s then w.copyAssign r s else none

/-- The child of the root of `router` under this key. -/
def hasChild (w : Routers H) (router : Nat) (key : Str) : Bool :=
  w.heap[router]?.any fun n => (AssocMap.find n.children_ key).isSome

/-- The first segment of the path leads to a child that `router` has before `other` is assigned to it:
its own one, or the one for parameters when `other` has no child for the segment. -/
def LeadsToOldChild (w : Routers H) (router other : Nat) (path : Str) : Prop :=
  ∃ s, (segments path).head? = some s ∧
    (w.hasChild router s ∨ (¬w.hasChild other s ∧ w.hasChild router paramKey))

end Routers

end Http
