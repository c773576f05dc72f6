import LosslessTree.Tree.Builder
import LosslessTree.Tree.Element

/-! Interning of elements as they are kept, and building with them. An entry stands under its fingerprint; who asks
for an equal element is handed the entry itself. -/
namespace LosslessTree

structure Interner where
  tokens : List (UInt64 × Element) := []
  nodes : List (UInt64 × Element) := []
  stats : CacheStats := {}

namespace Interner

def size (c : Interner) : Nat := c.stats.tokens + c.stats.nodes

variable (f : Fingerprint)

/-- Requests a token, which is made on the first request. -/
def token (c : Interner) (kind : Kind) (text : Bytes) : Element × Interner :=
  let hash := f.token kind text
  match c.tokens.find? fun (h, e) => h == hash && e.isTokenOf kind text with
  | some (_, e) => (e, { c with stats := { c.stats with tokenHits := c.stats.tokenHits + 1 } })
  | none =>
    let e : Element := .token hash kind text
    (e, { c with
      tokens := (hash, e) :: c.tokens
      stats := { c.stats with
        tokenMisses := c.stats.tokenMisses + 1
        tokens := c.stats.tokens + 1 } })

/-- Requests a node over children as they are, which is made on the first request. -/
def node (c : Interner) (identity : Element.Identity) (kind : Kind) (children : List Element) :
    Element × Interner :=
  let hash := Element.nodeHash f kind children
  match c.nodes.find? fun (h, e) => h == hash && e.isNodeOver identity kind children with
  | some (_, e) => (e, { c with stats := { c.stats with nodeHits := c.stats.nodeHits + 1 } })
  | none =>
    let e := Element.laid hash kind children
    (e, { c with
      nodes := (hash, e) :: c.nodes
      stats := { c.stats with
        nodeMisses := c.stats.nodeMisses + 1
        nodes := c.stats.nodes + 1 } })

end Interner

/-- A builder that keeps the elements its interner hands out. -/
structure Assembler where
  interner : Interner := {}
  /-- Open nodes, innermost first. -/
  opened : List OpenNode := []
  elements : Array Element := #[]
  failure : Option BuildError := none

namespace Assembler

def depth (b : Assembler) : Nat := b.opened.length

def fail (b : Assembler) (e : BuildError) : Assembler := { b with failure := some e }

def start (b : Assembler) (kind : Kind) : Assembler :=
  if b.failure.isSome then b
  else { b with opened := ⟨kind, b.elements.size⟩ :: b.opened }

def token (f : Fingerprint) (b : Assembler) (kind : Kind) (text : Bytes) : Assembler :=
  if b.failure.isSome then b
  else match b.opened with
    | [] => b.fail .tokenOutside
    | _ :: _ =>
      let (e, interner) := b.interner.token f kind text
      { b with interner := interner, elements := b.elements.push e }

/-- Closes the innermost open node over everything added since it was opened. -/
def finishNode (f : Fingerprint) (identity : Element.Identity) (b : Assembler) : Assembler :=
  if b.failure.isSome then b
  else match b.opened with
    | [] => b.fail .nothingOpen
    | top :: rest =>
      let children := (b.elements.extract top.start b.elements.size).toList
      let (e, interner) := b.interner.node f identity top.kind children
      { b with
        interner := interner
        opened := rest
        elements := (b.elements.extract 0 top.start).push e }

def checkpoint (b : Assembler) : Checkpoint := ⟨b.depth, b.elements.size⟩

/-- Opens a node that adopts every element added to the current node since the checkpoint. -/
def startAt (b : Assembler) (cp : Checkpoint) (kind : Kind) : Assembler :=
  if b.failure.isSome then b
  else if cp.depth ≠ b.depth then b.fail (.checkpointDepth cp.depth b.depth)
  else if b.elements.size < cp.position then b.fail (.checkpointPast cp.position b.elements.size)
  else if b.opened.head?.any fun top => cp.position < top.start then
    b.fail (.checkpointBefore cp.position)
  else { b with opened := ⟨kind, cp.position⟩ :: b.opened }

/-- The root, if exactly one node was finished and none is left open. -/
def root (b : Assembler) : Except BuildError Element :=
  match b.failure with
  | some e => .error e
  | none =>
    if b.depth ≠ 0 then .error (.unfinished b.depth)
    else match b.elements.toList with
      | [] => .error .noRoot
      | [e] => .ok e
      | _ :: _ :: _ => .error (.manyRoots b.elements.size)

/-- Ends the session. The interner lives on, and the builder can start another tree. -/
def finish (b : Assembler) : Except BuildError Element × Assembler := (b.root, { interner := b.interner })

end Assembler
end LosslessTree
