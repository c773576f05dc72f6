import LosslessTree.Tree.Cache

/-! Building a tree from events. Open nodes are kept on a stack over one list of finished elements;
a checkpoint lets a node be opened in retrospect. The first rejected call is remembered and stops the
session until it is finished. -/
namespace LosslessTree

inductive BuildError where
  | tokenOutside
  | nothingOpen
  | checkpointDepth (taken now : Nat)
  | checkpointPast (position count : Nat)
  | checkpointBefore (position : Nat)
  | unfinished (count : Nat)
  | noRoot
  | manyRoots (count : Nat)
  deriving DecidableEq, Repr

namespace BuildError

/-- Whether a checkpoint was at fault rather than the nesting of calls. -/
def isCheckpoint : BuildError → Bool
  | .checkpointDepth .. | .checkpointPast .. | .checkpointBefore _ => true
  | _ => false

def operation : BuildError → Bytes
  | .tokenOutside => "token"
  | .nothingOpen => "finish_node"
  | .checkpointDepth .. | .checkpointPast .. | .checkpointBefore _ => "start_node_at"
  | .unfinished _ | .noRoot | .manyRoots _ => "finish"

def reason : BuildError → Bytes
  | .tokenOutside => "token outside of any node"
  | .nothingOpen => "no open node"
  | .checkpointDepth taken now =>
    "checkpoint taken at depth " ++ Bytes.ofNat taken ++ ", builder is at depth " ++ Bytes.ofNat now
  | .checkpointPast position count =>
    "checkpoint position " ++ Bytes.ofNat position ++ " is past " ++ Bytes.ofNat count ++
      " emitted elements"
  | .checkpointBefore position =>
    "checkpoint position " ++ Bytes.ofNat position ++ " precedes the current node"
  | .unfinished count => Bytes.ofNat count ++ " unfinished node(s)"
  | .noRoot => "no root node"
  | .manyRoots count => Bytes.ofNat count ++ " root nodes"

def message (e : BuildError) : Bytes :=
  e.operation ++ ": " ++ e.reason ++ ": " ++
    (if e.isCheckpoint then "invalid checkpoint" else "unbalanced tree")

end BuildError

/-- An open node: its kind and the position of its first child among the finished elements. -/
structure OpenNode where
  kind : Kind
  start : Nat
  deriving DecidableEq, Repr

/-- A position in the node that was open when the checkpoint was taken. -/
structure Checkpoint where
  depth : Nat
  position : Nat
  deriving DecidableEq, Repr

structure Builder where
  cache : Cache := {}
  /-- Open nodes, innermost first. -/
  opened : List OpenNode := []
  elements : Array Tree := #[]
  failure : Option BuildError := none

namespace Builder

def depth (b : Builder) : Nat := b.opened.length

def fail (b : Builder) (e : BuildError) : Builder := { b with failure := some e }

def start (b : Builder) (kind : Kind) : Builder :=
  if b.failure.isSome then b
  else { b with opened := ⟨kind, b.elements.size⟩ :: b.opened }

def token (b : Builder) (kind : Kind) (text : Bytes) : Builder :=
  if b.failure.isSome then b
  else match b.opened with
    | [] => b.fail .tokenOutside
    | _ :: _ =>
      let (entry, cache) := b.cache.internToken kind text
      { b with
        cache := cache
        elements := b.elements.push (.token entry.kind entry.text) }

/-- Closes the innermost open node over everything added since it was opened. -/
def finishNode (b : Builder) : Builder :=
  if b.failure.isSome then b
  else match b.opened with
    | [] => b.fail .nothingOpen
    | top :: rest =>
      let children := (b.elements.extract top.start b.elements.size).toList
      let (entry, cache) := b.cache.internNode top.kind (children.map some)
      { b with
        cache := cache
        opened := rest
        elements := (b.elements.extract 0 top.start).push (.ofSlots entry.kind entry.slots) }

def checkpoint (b : Builder) : Checkpoint := ⟨b.depth, b.elements.size⟩

/-- Opens a node that adopts every element added to the current node since the checkpoint. -/
def startAt (b : Builder) (cp : Checkpoint) (kind : Kind) : Builder :=
  if b.failure.isSome then b
  else if cp.depth ≠ b.depth then b.fail (.checkpointDepth cp.depth b.depth)
  else if b.elements.size < cp.position then
    b.fail (.checkpointPast cp.position b.elements.size)
  else if b.opened.head?.any fun top => cp.position < top.start then
    b.fail (.checkpointBefore cp.position)
  else { b with opened := ⟨kind, cp.position⟩ :: b.opened }

/-- The root, if exactly one node was finished and none is left open. -/
def root (b : Builder) : Except BuildError Tree :=
  match b.failure with
  | some e => .error e
  | none =>
    if b.depth ≠ 0 then .error (.unfinished b.depth)
    else match b.elements.toList with
      | [] => .error .noRoot
      | [tree] => .ok tree
      | _ :: _ :: _ => .error (.manyRoots b.elements.size)

/-- Ends the session. The cache lives on, and the builder can start another tree. -/
def finish (b : Builder) : Except BuildError Tree × Builder :=
  (b.root, { cache := b.cache })

end Builder

/-- The calls of a building session; checkpoints are numbered in the order they are taken. -/
inductive BuildEvent where
  | start (kind : Kind)
  | token (kind : Kind) (text : Bytes)
  | finishNode
  | checkpoint
  | startAt (checkpoint : Nat) (kind : Kind)

/-- A builder with the checkpoints taken so far. -/
structure BuildSession where
  builder : Builder := {}
  checkpoints : Array Checkpoint := #[]

namespace BuildSession

/-- One call; a checkpoint that was never taken is no call at all. -/
def step? (s : BuildSession) : BuildEvent → Option BuildSession
  | .start k => some { s with builder := s.builder.start k }
  | .token k text => some { s with builder := s.builder.token k text }
  | .finishNode => some { s with builder := s.builder.finishNode }
  | .checkpoint => some { s with checkpoints := s.checkpoints.push s.builder.checkpoint }
  | .startAt cp k => s.checkpoints[cp]?.map fun cp => { s with builder := s.builder.startAt cp k }

end BuildSession
end LosslessTree
