import LosslessTree.Tree.Fingerprint
import LosslessTree.Tree.Update

/-! Elements as they are kept in memory. A token or node carries its fingerprint, and a node the start of each
child and the length of its text as well. What is written in a node is computed once, when it is made, from what
is written in its children; later it is only read. An element can also be empty. -/
namespace LosslessTree

inductive Element where
  | empty
  | token (hash : UInt64) (kind : Kind) (text : Bytes)
  | node (hash : UInt64) (kind : Kind) (children : List Element) (offsets : List Nat) (length : Nat)

namespace Element

instance : Inhabited Element := ⟨.empty⟩

def isFilled : Element → Bool
  | .empty => false
  | _ => true

def isNode : Element → Bool
  | .node .. => true
  | _ => false

def isToken : Element → Bool
  | .token .. => true
  | _ => false

def kind : Element → Kind
  | .empty => 0
  | .token _ k _ => k
  | .node _ k _ _ _ => k

/-- The fingerprint written in an element. -/
def hash : Element → UInt64
  | .empty => 0
  | .token h _ _ => h
  | .node h _ _ _ _ => h

/-- The length of a token's text, or the length written in a node. -/
def length : Element → Nat
  | .empty => 0
  | .token _ _ s => s.length
  | .node _ _ _ _ n => n

def children : Element → List Element
  | .node _ _ cs _ _ => cs
  | _ => []

/-- The starts written in a node. -/
def offsets : Element → List Nat
  | .node _ _ _ offsets _ => offsets
  | _ => []

/-- The start of child `i` relative to the node. -/
def childOffset? (e : Element) (i : Nat) : Option Nat := e.offsets[i]?

/-- Where elements that follow one another start if the first of them starts at `start`, and where they end. -/
def layOut (start : Nat) : List Element → List Nat × Nat
  | [] => ([], start)
  | e :: es =>
    let later := layOut (start + e.length) es
    (start :: later.1, later.2)

/-- A node with this fingerprint over children as they are. -/
def laid (hash : UInt64) (kind : Kind) (children : List Element) : Element :=
  .node hash kind children (layOut 0 children).1 (layOut 0 children).2

section Making
variable (f : Fingerprint)

def ofToken (kind : Kind) (text : Bytes) : Element := .token (f.token kind text) kind text

/-- The fingerprint of a node, from those written in its children. -/
def nodeHash (kind : Kind) (children : List Element) : UInt64 := f.node kind (children.map hash)

/-- A node over children as they are, empty ones included. -/
def ofChildren (kind : Kind) (children : List Element) : Element := laid (nodeHash f kind children) kind children

/-- A node over those elements that are not empty. -/
def ofFilled (kind : Kind) (elements : List Element) : Element := ofChildren f kind (elements.filter isFilled)

/-- Puts an element in the place of the child at an index. -/
def replaceChild (kind : Kind) (children : List Element) (index : Int) (e : Element) :
    Except UpdateError Element :=
  if index < 0 ∨ children.length ≤ index then .error (.index index children.length)
  else if !e.isFilled then .error .emptySlot
  else .ok (ofChildren f kind (children.set index.toNat e))

/-- Puts elements in the place of the children from `start` up to `stop`. -/
def splice (kind : Kind) (children : List Element) (start stop : Int) (elements : List Element) :
    Except UpdateError Element :=
  if start < 0 ∨ stop < start ∨ children.length < stop then
    .error (.range start stop children.length)
  else if elements.any (!·.isFilled) then .error .emptySlot
  else .ok (ofChildren f kind (children.take start.toNat ++ elements ++ children.drop stop.toNat))

/-- Puts an element before the child at an index; the index after the last child appends. -/
def insertChild (kind : Kind) (children : List Element) (index : Int) (e : Element) :
    Except UpdateError Element :=
  splice f kind children index index [e]

def removeChild (kind : Kind) (children : List Element) (index : Int) : Except UpdateError Element :=
  if index < 0 ∨ children.length ≤ index then .error (.index index children.length)
  else splice f kind children index (index + 1) []

end Making

mutual
/-- The number of steps a traversal of the element takes. -/
def weight : Element → Nat
  | .node _ _ cs _ _ => 2 + weightAll cs
  | _ => 1
def weightAll : List Element → Nat
  | [] => 0
  | c :: cs => c.weight + weightAll cs
end

theorem weightAll_eq_total (cs : List Element) : weightAll cs = totalWeight weight cs := by
  induction cs with
  | nil => rfl
  | cons c cs ih => rw [weightAll, ih, totalWeight]

@[simp] theorem weight_token (h : UInt64) (k : Kind) (s : Bytes) : (token h k s).weight = 1 := rfl

@[simp] theorem weight_node (h : UInt64) (k : Kind) (cs : List Element) (offsets : List Nat) (n : Nat) :
    (node h k cs offsets n).weight = 2 + totalWeight weight cs := by
  rw [weight, weightAll_eq_total]

/-- The tokens still ahead of a traversal that keeps the unfinished child lists, innermost first. There is no way
past an empty child. -/
def leavesFrom? (stack : List (List Element)) : Option (List Leaf) :=
  match stack with
  | [] => some []
  | [] :: stack => leavesFrom? stack
  | (.empty :: _) :: _ => none
  | (.token _ k s :: cs) :: stack => (leavesFrom? (cs :: stack)).map (⟨k, s⟩ :: ·)
  | (.node _ _ ds _ _ :: cs) :: stack => leavesFrom? (ds :: cs :: stack)
termination_by stackWeight weight stack
decreasing_by all_goals simp <;> omega

/-- The tokens of an element in source order. -/
def leaves? : Element → Option (List Leaf)
  | .empty => some []
  | .token _ k s => some [⟨k, s⟩]
  | .node _ _ cs _ _ => leavesFrom? [cs]

/-- The source text of an element. -/
def text? (e : Element) : Option Bytes := e.leaves?.map (·.flatMap Leaf.text)

/-- Hands over the tokens ahead of a traversal one by one, until what receives them wants no more. An empty child
that comes after that does no harm. -/
def yieldFrom? {σ : Type} (receive : σ → Leaf → σ × Bool) (s : σ) (stack : List (List Element)) : Option σ :=
  match stack with
  | [] => some s
  | [] :: stack => yieldFrom? receive s stack
  | (.empty :: _) :: _ => none
  | (.token _ k text :: cs) :: stack =>
    let next := receive s ⟨k, text⟩
    if next.2 then yieldFrom? receive next.1 (cs :: stack) else some next.1
  | (.node _ _ ds _ _ :: cs) :: stack => yieldFrom? receive s (ds :: cs :: stack)
termination_by stackWeight weight stack
decreasing_by all_goals simp <;> omega

/-- What is known of two elements being one and the same in memory. -/
structure Identity where
  same : Element → Element → Bool
  eq_of_same : ∀ {a b : Element}, same a b = true → a = b

/-- Nothing is known. -/
def Identity.unknown : Identity := ⟨fun _ _ => false, by simp⟩

mutual
/-- Structural equality. Elements known to be the same are equal; of others, fingerprints, lengths and child counts
are compared before the children. -/
def equal (identity : Identity) : Element → Element → Bool
  | .empty, b => !b.isFilled
  | a@(.token h k s), b@(.token i l t) => identity.same a b || (h == i && k == l && s == t)
  | a@(.node h k cs _ n), b@(.node i l ds _ m) => identity.same a b ||
      (h == i && k == l && n == m && cs.length == ds.length && equalAll identity cs ds)
  | _, _ => false
def equalAll (identity : Identity) : List Element → List Element → Bool
  | c :: cs, d :: ds => equal identity c d && equalAll identity cs ds
  | _, _ => true
end

/-- Whether an element is the token of this kind and text. -/
def isTokenOf (kind : Kind) (text : Bytes) : Element → Bool
  | .token _ k s => k == kind && s == text
  | _ => false

/-- Whether an element is a node of this kind over equal children. -/
def isNodeOver (identity : Identity) (kind : Kind) (children : List Element) : Element → Bool
  | .node _ k cs _ _ => k == kind && (cs.length == children.length && equalAll identity cs children)
  | _ => false

end Element

/-! Writing to an output, which may fail before it has taken everything. -/

/-- What comes of writing to an output: the number of bytes written, why it failed if it did, and the output after
that. -/
structure Written (σ ε : Type) where
  count : Nat
  failure : Option ε
  state : σ

/-- Writes a token after what has been written, and tells whether to go on. -/
def Written.push {σ ε : Type} (write : σ → Bytes → Written σ ε) (w : Written σ ε) (l : Leaf) : Written σ ε × Bool :=
  let next := write w.state l.text
  ({ next with count := w.count + next.count }, next.failure.isNone)

/-- An output that has room for so many bytes more. -/
structure BoundedOutput where
  room : Nat
  taken : Bytes := []

/-- Of a text that does not fit, the part that fits is taken. -/
def BoundedOutput.write (o : BoundedOutput) (text : Bytes) : Written BoundedOutput Unit where
  count := min o.room text.length
  failure := if o.room < text.length then some () else none
  state := ⟨o.room - text.length, o.taken ++ text.take o.room⟩

/-- Writes the source text of a node token by token, up to the first failure. -/
def Element.writeTo? {σ ε : Type} (write : σ → Bytes → Written σ ε) (s : σ) (e : Element) : Option (Written σ ε) :=
  Element.yieldFrom? (Written.push write) ⟨0, none, s⟩ [e.children]

end LosslessTree
