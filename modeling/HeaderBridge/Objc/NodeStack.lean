/-
  The nodes that are still being built. The innermost open node receives every node that is
  made; closing it attaches it to the one around it. Numbers are given once and never again,
  also not after a rewind. They are counted without a bound here; how many there are in 32 bits is
  `maxNodes`.
-/
import HeaderBridge.Fault
import HeaderBridge.Objc.Node

namespace HeaderBridge

/-- The open nodes, innermost first, and the number of the next node. -/
structure NodeStack where
  opened : List Node := []
  nextId : Nat := 0

namespace NodeStack

/-- Where the innermost open node stands, for a rewind. -/
structure Checkpoint where
  depth : Nat
  children : Nat
  deriving DecidableEq

def depth (s : NodeStack) : Nat := s.opened.length

def current? (s : NodeStack) : Option Node := s.opened.head?

/-- A new node that is not attached anywhere. -/
def fresh (s : NodeStack) (kind : NodeKind) : Node × NodeStack :=
  (⟨s.nextId, kind, none, []⟩, { s with nextId := s.nextId + 1 })

/-- Makes a node the innermost open one. -/
def push (s : NodeStack) (n : Node) : NodeStack := { s with opened := n :: s.opened }

/-- Opens a new node. -/
def begin (s : NodeStack) (kind : NodeKind) : NodeStack :=
  let (n, s) := s.fresh kind
  s.push n

/-- Changes the innermost open node, if there is one. -/
def update (s : NodeStack) (change : Node → Node) : NodeStack :=
  match s.opened with
  | [] => s
  | n :: outer => { s with opened := change n :: outer }

/-- A node with one more child at the end. -/
def withChild (n child : Node) : Node := { n with children := n.children ++ [child] }

/-- Attaches a node to the innermost open one. -/
def attach (s : NodeStack) (child : Node) : Except Fault NodeStack :=
  match s.opened with
  | [] => .error .nothingToExtend
  | n :: outer => .ok { s with opened := withChild n child :: outer }

/-- Closes the innermost open node. The outermost one is handed back; every other one goes to
    the node around it. -/
def close (s : NodeStack) : Except Fault (Option Node × NodeStack) :=
  match s.opened with
  | [] => .error .nothingToClose
  | [n] => .ok (some n, { s with opened := [] })
  | n :: parent :: outer => .ok (none, { s with opened := withChild parent n :: outer })

def checkpoint (s : NodeStack) : Checkpoint :=
  ⟨s.depth, (s.current?.map (·.children.length)).getD 0⟩

/-- Drops what the innermost open node received since the checkpoint. As many nodes must be open
    as then. -/
def restore (s : NodeStack) (c : Checkpoint) : Except Fault NodeStack :=
  if s.depth = c.depth then
    .ok (s.update fun n => { n with children := n.children.take c.children })
  else .error .depthChanged

end NodeStack

end HeaderBridge
