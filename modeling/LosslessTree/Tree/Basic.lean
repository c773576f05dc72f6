import LosslessTree.Bytes.Basic

/-! Kinds of tokens and nodes. What a kind means belongs to the language that made the tree; here
kinds are only compared and named. -/
namespace LosslessTree

abbrev Kind := Nat

/-- The names of the kinds `0, 1, …`; an empty name counts as none. -/
abbrev KindNames := List String

/-- The name of a kind, or its number where the table gives no name. -/
def KindNames.name (names : KindNames) (kind : Kind) : String :=
  match names[kind]? with
  | some name => if name.isEmpty then "KIND_" ++ kind.repr else name
  | none => "KIND_" ++ kind.repr

/-! Syntax trees. A tree is a token with its source text or a node over a list of trees; the text of
a tree is the concatenation of its tokens, so nothing of the source is lost. -/

inductive Tree where
  | token (kind : Kind) (text : Bytes)
  | node (kind : Kind) (children : List Tree)

/-- A token on its own. -/
structure Leaf where
  kind : Kind
  text : Bytes
  deriving DecidableEq, Repr

section Weight

variable {α β : Type} (weight : α → Nat)

/-- What the members of a list weigh together. -/
@[simp] def totalWeight : List α → Nat
  | [] => 0
  | x :: xs => weight x + totalWeight xs

/-- The steps left in a stack of unfinished lists, where a member of a list takes as many as it weighs. -/
@[simp] def stackWeight : List (List α) → Nat
  | [] => 0
  | xs :: stack => 1 + totalWeight weight xs + stackWeight stack

theorem totalWeight_map (f : β → α) (xs : List β) : totalWeight weight (xs.map f) = totalWeight (weight ∘ f) xs := by
  induction xs with
  | nil => rfl
  | cons x xs ih => rw [List.map_cons, totalWeight, totalWeight, ih, Function.comp]

theorem weight_le_totalWeight {x : α} {xs : List α} (h : x ∈ xs) : weight x ≤ totalWeight weight xs := by
  induction h with
  | head xs => exact Nat.le_add_right _ _
  | tail y _ ih => exact Nat.le_add_left_of_le ih

@[simp] theorem stackWeight_append (stack below : List (List α)) :
    stackWeight weight (stack ++ below) = stackWeight weight stack + stackWeight weight below := by
  induction stack with
  | nil => simp
  | cons xs stack ih => simp [ih, Nat.add_assoc]

/-- It does not matter in which order the lists stand. -/
@[simp] theorem stackWeight_reverse (stack : List (List α)) :
    stackWeight weight stack.reverse = stackWeight weight stack := by
  induction stack with
  | nil => rfl
  | cons xs stack ih => simp [ih, Nat.add_comm]

end Weight

namespace Tree

instance : Inhabited Tree := ⟨.node 0 []⟩

def kind : Tree → Kind
  | .token k _ => k
  | .node k _ => k

def isNode : Tree → Bool
  | .token .. => false
  | .node .. => true

def isToken (t : Tree) : Bool := !t.isNode

/-- The children of a node; a token has none. -/
def children : Tree → List Tree
  | .token .. => []
  | .node _ cs => cs

mutual
def decEq : (a b : Tree) → Decidable (a = b)
  | .token k s, .token l t =>
    if h : k = l ∧ s = t then isTrue (by rw [h.1, h.2])
    else isFalse fun e => h (by injection e with e₁ e₂; exact ⟨e₁, e₂⟩)
  | .token .., .node .. => isFalse Tree.noConfusion
  | .node .., .token .. => isFalse Tree.noConfusion
  | .node k as, .node l bs =>
    if h : k = l then
      match decEqList as bs with
      | isTrue e => isTrue (by rw [h, e])
      | isFalse n => isFalse fun e => n (by injection e)
    else isFalse fun e => h (by injection e)
def decEqList : (as bs : List Tree) → Decidable (as = bs)
  | [], [] => isTrue rfl
  | [], _ :: _ => isFalse (fun e => nomatch e)
  | _ :: _, [] => isFalse (fun e => nomatch e)
  | a :: as, b :: bs =>
    match decEq a b with
    | isTrue h =>
      match decEqList as bs with
      | isTrue e => isTrue (by rw [h, e])
      | isFalse n => isFalse fun e => n (by injection e)
    | isFalse n => isFalse fun e => n (by injection e)
end

instance : DecidableEq Tree := decEq

mutual
/-- The number of bytes below a tree. -/
def length : Tree → Nat
  | .token _ s => s.length
  | .node _ cs => lengthAll cs
def lengthAll : List Tree → Nat
  | [] => 0
  | c :: cs => c.length + lengthAll cs
end

/-- The start of each child relative to the node. -/
def offsetsFrom (offset : Nat) : List Tree → List Nat
  | [] => []
  | c :: cs => offset :: offsetsFrom (offset + c.length) cs

def offsets (t : Tree) : List Nat := offsetsFrom 0 t.children

mutual
/-- The number of steps a traversal of the tree takes. -/
def weight : Tree → Nat
  | .token .. => 1
  | .node _ cs => 2 + weightAll cs
def weightAll : List Tree → Nat
  | [] => 0
  | c :: cs => c.weight + weightAll cs
end

theorem weightAll_eq_total (cs : List Tree) : weightAll cs = totalWeight weight cs := by
  induction cs with
  | nil => rfl
  | cons c cs ih => rw [weightAll, ih, totalWeight]

@[simp] theorem weight_token (k : Kind) (s : Bytes) : (token k s).weight = 1 := rfl

@[simp] theorem weight_node (k : Kind) (cs : List Tree) : (node k cs).weight = 2 + totalWeight weight cs := by
  rw [weight, weightAll_eq_total]

theorem weight_lt_of_mem_children {t u : Tree} (h : u ∈ t.children) : u.weight < t.weight := by
  cases t with
  | token _ _ => cases h
  | node k cs =>
    have := weight_le_totalWeight weight h
    rw [weight_node]
    simp only [children] at this
    omega

/-- The tokens still ahead of a traversal that keeps the unfinished child lists, innermost first. -/
def leavesFrom (stack : List (List Tree)) : List Leaf :=
  match stack with
  | [] => []
  | [] :: stack => leavesFrom stack
  | (.token k s :: cs) :: stack => ⟨k, s⟩ :: leavesFrom (cs :: stack)
  | (.node _ ds :: cs) :: stack => leavesFrom (ds :: cs :: stack)
termination_by stackWeight weight stack
decreasing_by all_goals simp <;> omega

/-- The tokens of a tree in source order. -/
def leaves (t : Tree) : List Leaf := leavesFrom [[t]]

/-- The source text of a tree. -/
def text (t : Tree) : Bytes := t.leaves.flatMap Leaf.text

end Tree
end LosslessTree
