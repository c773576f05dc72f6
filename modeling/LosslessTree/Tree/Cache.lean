import LosslessTree.Tree.Fingerprint
import LosslessTree.Tree.Update

/-! Interning. A cache holds one entry per distinct token and node and counts how often a request
met an entry. Entries are found by fingerprint and then compared exactly. -/
namespace LosslessTree

structure CacheStats where
  tokenHits : Nat := 0
  tokenMisses : Nat := 0
  nodeHits : Nat := 0
  nodeMisses : Nat := 0
  /-- Distinct tokens held. -/
  tokens : Nat := 0
  /-- Distinct nodes held. -/
  nodes : Nat := 0
  deriving DecidableEq, Repr

namespace CacheStats

def lookups (s : CacheStats) : Nat := s.tokenHits + s.tokenMisses + s.nodeHits + s.nodeMisses

def hits (s : CacheStats) : Nat := s.tokenHits + s.nodeHits

/-- The share of lookups that met an entry. -/
def rate (hits lookups : Int) : Float :=
  if lookups = 0 then 0 else Float.ofInt hits / Float.ofInt lookups

def hitRate (s : CacheStats) : Float := rate s.hits s.lookups

def add (a b : CacheStats) : CacheStats where
  tokenHits := a.tokenHits + b.tokenHits
  tokenMisses := a.tokenMisses + b.tokenMisses
  nodeHits := a.nodeHits + b.nodeHits
  nodeMisses := a.nodeMisses + b.nodeMisses
  tokens := a.tokens + b.tokens
  nodes := a.nodes + b.nodes

end CacheStats

/-- What a node is made from; slots that are empty are kept. -/
structure NodeKey where
  kind : Kind
  slots : List Slot
  deriving DecidableEq

/-- Whether two slots hold equal trees, or nothing. -/
def Slot.equal (f : Fingerprint) : Slot → Slot → Bool
  | some a, some b => a.equal f b
  | none, none => true
  | _, _ => false

namespace NodeKey

def fingerprint (f : Fingerprint) (key : NodeKey) : UInt64 :=
  f.node key.kind (key.slots.map fun slot => (slot.map (Tree.fingerprint f)).getD 0)

/-- Whether two nodes have one kind and equal children, one by one. -/
def equal (f : Fingerprint) (a b : NodeKey) : Bool :=
  a.kind == b.kind && a.slots.length == b.slots.length &&
    (a.slots.zip b.slots).all fun (x, y) => Slot.equal f x y

end NodeKey

structure Cache where
  fingerprint : Fingerprint := .standard
  tokens : List (UInt64 × Leaf) := []
  nodes : List (UInt64 × NodeKey) := []
  stats : CacheStats := {}

namespace Cache

/-- Requests a token. The answer is the entry for it, which is made on the first request. -/
def internToken (c : Cache) (kind : Kind) (text : Bytes) : Leaf × Cache :=
  let hash := c.fingerprint.token kind text
  match c.tokens.find? fun (h, entry) => h == hash && entry.kind == kind && entry.text == text with
  | some (_, entry) =>
    (entry, { c with stats := { c.stats with tokenHits := c.stats.tokenHits + 1 } })
  | none =>
    let entry : Leaf := ⟨kind, text⟩
    (entry, { c with
      tokens := (hash, entry) :: c.tokens
      stats := { c.stats with
        tokenMisses := c.stats.tokenMisses + 1
        tokens := c.stats.tokens + 1 } })

/-- Requests a node over a list of slots. The answer is the entry for it, which is made on the first
request. -/
def internNode (c : Cache) (kind : Kind) (slots : List Slot) : NodeKey × Cache :=
  let key : NodeKey := ⟨kind, slots⟩
  let hash := key.fingerprint c.fingerprint
  match c.nodes.find? fun (h, entry) => h == hash && entry.equal c.fingerprint key with
  | some (_, entry) =>
    (entry, { c with stats := { c.stats with nodeHits := c.stats.nodeHits + 1 } })
  | none =>
    (key, { c with
      nodes := (hash, key) :: c.nodes
      stats := { c.stats with
        nodeMisses := c.stats.nodeMisses + 1
        nodes := c.stats.nodes + 1 } })

/-- The cache after a request for a token. -/
def token (c : Cache) (kind : Kind) (text : Bytes) : Cache := (c.internToken kind text).2

/-- The cache after a request for a node. -/
def node (c : Cache) (kind : Kind) (slots : List Slot) : Cache := (c.internNode kind slots).2

end Cache
end LosslessTree
