import LosslessTree.Proofs.Cursor.Deepest
import LosslessTree.Proofs.Tree.Kept
import LosslessTree.Runner.Measure
import Mathlib.Data.List.Perm.Lattice
import Mathlib.Algebra.BigOperators.Group.List.Basic

/-! Traversals without recursion, round by round. A traversal for the tokens or for all elements keeps the nodes that it
has entered on a stack, each with the index of the child that comes next. Measuring keeps a list of nodes to work off,
and comes to the last child of a node before the others. Either loop ends, after a number of rounds that can be told
from the tree, and leaves what a recursion over the tree gives. -/
namespace LosslessTree

/-- What a traversal has entered: its children, and the index of the one that comes next. -/
structure Frame (α : Type) where
  children : List α
  next : Nat
  next_le : next ≤ children.length

namespace Frame

variable {α : Type} {f g : Frame α} {x : α}

/-- In front of the first child. -/
def enter (children : List α) : Frame α := ⟨children, 0, Nat.zero_le _⟩

/-- The children still to come. -/
def rest (f : Frame α) : List α := f.children.drop f.next

/-- The child that comes next, and the frame behind it; nothing if there is no child left. -/
def take? (f : Frame α) : Option (α × Frame α) :=
  if h : f.next = f.children.length then none
  else
    have hlt : f.next < f.children.length := Nat.lt_of_le_of_ne f.next_le h
    some (f.children[f.next], ⟨f.children, f.next + 1, hlt⟩)

lemma rest_eq_nil (h : f.take? = none) : f.rest = [] := by
  unfold take? at h
  split_ifs at h with hnext
  exact List.drop_eq_nil_of_le (Nat.le_of_eq hnext.symm)

lemma rest_eq_cons (h : f.take? = some (x, g)) : f.rest = x :: g.rest := by
  unfold take? at h
  split_ifs at h with hnext
  cases h
  exact List.drop_eq_getElem_cons _

end Frame

/-- A traversal from the outside in: what can be entered and holds what, and what is yielded on meeting something at
some depth. -/
structure Traversal (α β : Type) where
  enter? : α → Option (List α)
  yield? : Nat → α → Option β

namespace Traversal

variable {α β : Type}

/-- A traversal under way. -/
structure State (α β : Type) where
  /-- What has been entered, innermost first. -/
  stack : List (Frame α) := []
  yielded : List β := []

/-- Meets something as deep as the stack is high, and enters it if that can be done. -/
def meet (l : Traversal α β) (x : α) (s : State α β) : State α β where
  stack :=
    match l.enter? x with
    | none => s.stack
    | some children => .enter children :: s.stack
  yielded := s.yielded ++ (l.yield? s.stack.length x).toList

def start (l : Traversal α β) (x : α) : State α β := l.meet x {}

/-- One round of the loop: meets the next child of what was entered last, or leaves that if it has no child left. -/
def round (l : Traversal α β) (s : State α β) : State α β :=
  match s.stack with
  | [] => s
  | top :: stack =>
    match top.take? with
    | none => { s with stack := stack }
    | some (x, resumed) => l.meet x { s with stack := resumed :: stack }

/-- The loop ends after this many rounds and no sooner, and this is what has been yielded by then. -/
def Halts (l : Traversal α β) (x : α) (rounds : Nat) (listed : List β) : Prop :=
  ∀ n, ((l.round^[n] (l.start x)).stack = [] ↔ rounds ≤ n) ∧
    (rounds ≤ n → (l.round^[n] (l.start x)).yielded = listed)

/-- A recursion for a traversal: what is yielded at something and in it, and the rounds that takes. -/
structure Unfolds (l : Traversal α β) (listed : Nat → α → List β) (rounds : α → Nat) : Prop where
  leaf : ∀ {x}, l.enter? x = none → ∀ depth, listed depth x = (l.yield? depth x).toList ∧ rounds x = 1
  inner : ∀ {x children}, l.enter? x = some children → ∀ depth,
    listed depth x = (l.yield? depth x).toList ++ children.flatMap (listed (depth + 1)) ∧
      rounds x = 2 + totalWeight rounds children

section Loop

variable {l : Traversal α β} {listed : Nat → α → List β} {rounds : α → Nat} {s : State α β}

/-- What is still to be yielded: the children in a frame are as deep as the stack is high with it. -/
def ahead (listed : Nat → α → List β) : List (Frame α) → List β
  | [] => []
  | f :: stack => f.rest.flatMap (listed (stack.length + 1)) ++ ahead listed stack

/-- The rounds that are left: one to leave each frame, and those for the children still to come. -/
def left (rounds : α → Nat) (stack : List (Frame α)) : Nat := stackWeight rounds (stack.map Frame.rest)

lemma left_cons (rounds : α → Nat) (f : Frame α) (stack : List (Frame α)) :
    left rounds (f :: stack) = 1 + totalWeight rounds f.rest + left rounds stack := rfl

lemma left_eq_zero_iff (rounds : α → Nat) {stack : List (Frame α)} : left rounds stack = 0 ↔ stack = [] := by
  cases stack with
  | nil => exact iff_of_true rfl rfl
  | cons f stack =>
    refine iff_of_false ?_ nofun
    rw [left_cons]
    omega

lemma meet_of_none {x : α} (hx : l.enter? x = none) :
    l.meet x s = ⟨s.stack, s.yielded ++ (l.yield? s.stack.length x).toList⟩ := by
  simp only [meet, hx]

lemma meet_of_some {x : α} {children : List α} (hx : l.enter? x = some children) :
    l.meet x s = ⟨.enter children :: s.stack, s.yielded ++ (l.yield? s.stack.length x).toList⟩ := by
  simp only [meet, hx]

/-- Meeting something yields what the recursion says of it, now or later. -/
lemma Unfolds.meet (h : l.Unfolds listed rounds) (x : α) (s : State α β) :
    (l.meet x s).yielded ++ ahead listed (l.meet x s).stack =
        s.yielded ++ listed s.stack.length x ++ ahead listed s.stack ∧
      left rounds (l.meet x s).stack + 1 = rounds x + left rounds s.stack := by
  cases hx : l.enter? x with
  | none =>
    obtain ⟨hlisted, hrounds⟩ := h.leaf hx s.stack.length
    rw [meet_of_none hx, hlisted, hrounds]
    exact ⟨rfl, Nat.add_comm _ _⟩
  | some children =>
    obtain ⟨hlisted, hrounds⟩ := h.inner hx s.stack.length
    have hrest : (Frame.enter children).rest = children := rfl
    rw [meet_of_some hx, hlisted, hrounds, ahead, left_cons, hrest]
    refine ⟨?_, by omega⟩
    simp only [List.append_assoc]

lemma round_of_none {top : Frame α} {stack : List (Frame α)} {yielded : List β} (htop : top.take? = none) :
    l.round ⟨top :: stack, yielded⟩ = ⟨stack, yielded⟩ := by
  simp only [round, htop]

lemma round_of_some {top resumed : Frame α} {x : α} {stack : List (Frame α)} {yielded : List β}
    (htop : top.take? = some (x, resumed)) :
    l.round ⟨top :: stack, yielded⟩ = l.meet x ⟨resumed :: stack, yielded⟩ := by
  simp only [round, htop]

/-- A round moves what it yields from what lies ahead, and is one round less. -/
lemma Unfolds.round (h : l.Unfolds listed rounds) (s : State α β) :
    (l.round s).yielded ++ ahead listed (l.round s).stack = s.yielded ++ ahead listed s.stack ∧
      left rounds (l.round s).stack = left rounds s.stack - 1 := by
  obtain ⟨stack, yielded⟩ := s
  cases stack with
  | nil => exact ⟨rfl, rfl⟩
  | cons top stack =>
    cases htop : top.take? with
    | none =>
      rw [round_of_none htop, ahead, left_cons, Frame.rest_eq_nil htop]
      exact ⟨rfl, by simp⟩
    | some next =>
      obtain ⟨x, resumed⟩ := next
      obtain ⟨hyielded, hleft⟩ := h.meet x ⟨resumed :: stack, yielded⟩
      rw [round_of_some htop, hyielded, ahead, ahead, left_cons, Frame.rest_eq_cons htop, List.flatMap_cons,
        totalWeight]
      refine ⟨by simp only [List.append_assoc, List.length_cons], ?_⟩
      rw [left_cons] at hleft
      omega

lemma Unfolds.iterate_round (h : l.Unfolds listed rounds) (s : State α β) (n : Nat) :
    (l.round^[n] s).yielded ++ ahead listed (l.round^[n] s).stack = s.yielded ++ ahead listed s.stack ∧
      left rounds (l.round^[n] s).stack = left rounds s.stack - n := by
  induction n with
  | zero => exact ⟨rfl, rfl⟩
  | succ n ih =>
    rw [Function.iterate_succ_apply']
    obtain ⟨hyielded, hleft⟩ := h.round (l.round^[n] s)
    refine ⟨hyielded.trans ih.1, ?_⟩
    rw [hleft, ih.2]
    omega

/-- At the start all that the recursion lists lies ahead. -/
lemma Unfolds.start (h : l.Unfolds listed rounds) (x : α) :
    (l.start x).yielded ++ ahead listed (l.start x).stack = listed 0 x ∧
      left rounds (l.start x).stack + 1 = rounds x := by
  obtain ⟨hyielded, hleft⟩ := h.meet x {}
  exact ⟨hyielded.trans (List.append_nil _), hleft⟩

/-- A traversal with a recursion comes to its end, with what the recursion gives. -/
theorem Unfolds.halts (h : l.Unfolds listed rounds) (x : α) : l.Halts x (rounds x - 1) (listed 0 x) := by
  intro n
  obtain ⟨hstart, hrounds⟩ := h.start x
  obtain ⟨hyielded, hleft⟩ := h.iterate_round (l.start x) n
  have hends : (l.round^[n] (l.start x)).stack = [] ↔ rounds x - 1 ≤ n := by
    rw [← left_eq_zero_iff rounds, hleft]
    omega
  refine ⟨hends, fun hn => ?_⟩
  -- with no frame left nothing lies ahead
  rw [hends.mpr hn, hstart, ahead, List.append_nil] at hyielded
  exact hyielded

end Loop

end Traversal

namespace Tree

/-- The traversal for the tokens of a tree. -/
def leafTraversal : Traversal Tree Leaf where
  enter?
    | .token .. => none
    | .node _ cs => some cs
  yield?
    | _, .token k s => some ⟨k, s⟩
    | _, .node .. => none

lemma unfolds_leafList : leafTraversal.Unfolds (fun _ => leafList) weight where
  leaf {x} hx depth := by
    cases x with
    | token k s => exact ⟨rfl, rfl⟩
    | node k cs => cases hx
  inner {x children} hx depth := by
    cases x with
    | token k s => cases hx
    | node k cs =>
      cases hx
      refine ⟨?_, ?_⟩
      · rw [leafList, leafListAll_eq]
        exact List.flatMap_congr fun c _ => leaves_eq_leafList c
      · exact weight_node k children

/-- The tokens of a tree are those of a recursion, also for the element that keeps it, and the loop that looks for them
ends. -/
structure Listed (t : Tree) : Prop where
  leaves : t.leaves = t.leafList
  kept : ∀ f, (t.kept f).leaves? = some t.leafList
  halts : leafTraversal.Halts t (t.weight - 1) t.leaves

theorem listed (t : Tree) : t.Listed where
  leaves := leaves_eq_leafList t
  kept f := by rw [leaves?_kept, leaves_eq_leafList]
  halts := by
    rw [leaves_eq_leafList]
    exact unfolds_leafList.halts t

end Tree

namespace Cursor

variable {root : Tree} {c : Cursor}

/-- The traversal for a place and all that is below it. -/
def placeTraversal : Traversal Cursor (Cursor × Nat) where
  enter? c := if c.isNode then some c.children else none
  yield? depth c := some (c, depth)

lemma unfolds_preorder : placeTraversal.Unfolds preorder (fun c => c.tree.weight) where
  leaf {c} hc depth := by
    cases ht : c.tree with
    | token k s =>
      have hchildren : c.children = [] := by simp [children, ht]
      exact ⟨by rw [preorder_eq, hchildren]; rfl, rfl⟩
    | node k cs => simp [placeTraversal, isNode, ht, Tree.isNode] at hc
  inner {c cs} hc depth := by
    cases ht : c.tree with
    | token k s => simp [placeTraversal, isNode, ht, Tree.isNode] at hc
    | node k ts =>
      obtain rfl : c.children = cs := by simpa [placeTraversal, isNode, ht, Tree.isNode] using hc
      refine ⟨preorder_eq depth c, ?_⟩
      rw [totalWeight_children, ht]
      exact Tree.weight_node k ts

/-- The tokens below a place are side by side and fill it. -/
lemma Within.abreast (h : Within root c) : Abreast root c.offset c.tokens (c.offset + c.length) := by
  cases ht : c.tree with
  | token k s =>
    have htokens : c.tokens = [c] := by
      simp [tokens, descendants, walk_eq_preorder, preorder_eq, Cursor.children, isToken, ht, Tree.isToken, Tree.isNode]
    rw [htokens]
    exact .cons h .nil
  | node k cs => exact h.abreast_tokens (by rw [isNode, ht]; rfl)

/-- A walk from a place is the recursive one, and meets each place below it once, with the number of nodes between as
its depth. The tokens that it meets lie side by side and fill the range of the place, so that every byte in the range
is in just one of them. The loop ends. -/
structure Walked (root : Tree) (c : Cursor) : Prop where
  walk : c.walk = c.preorder 0
  complete : ∀ d, d ∈ c.descendants ↔ Below c d
  once : c.descendants.Nodup
  depth : ∀ p ∈ c.walk, p.1.trail.length = c.trail.length + p.2
  abreast : Abreast root c.offset c.tokens (c.offset + c.length)
  only : ∀ p, c.range.contains p = true → ∃ t, OnlyTokenAt c p t
  halts : placeTraversal.Halts c (c.tree.weight - 1) c.walk

theorem Placed.walked (h : Placed root c) : c.Walked root where
  walk := walk_eq_preorder c
  complete _ := mem_descendants_iff
  once := nodup_descendants c
  depth p hp := by
    rw [walk_eq_preorder] at hp
    exact length_trail_of_mem_preorder hp
  abreast := h.within.abreast
  only p hp := ⟨_, onlyTokenAt (tokenAt?_eq_some hp)⟩
  halts := by
    rw [walk_eq_preorder]
    exact unfolds_preorder.halts c

end Cursor

namespace TreeStats

/-- A node to be worked off, with its depth. -/
abbrev Job := Nat × Kind × List Tree

/-- Measuring under way. -/
structure Measuring where
  stats : TreeStats
  worklist : List Job

/-- Counts a node and the tokens among its children. -/
def count (names : KindNames) (s : TreeStats) (job : Job) : TreeStats :=
  { s with
    nodes := s.nodes + 1
    tokens := s.tokens + leafCount job.2.2
    depth := max s.depth job.1
    errorNodes := if names.name job.2.1 == errorName then s.errorNodes + 1 else s.errorNodes }

namespace Measuring

/-- A token by itself is no child, and there is no node to work off. -/
def start (t : Tree) : Measuring := ⟨{ bytes := t.length, tokens := leafCount [t] }, nodesAt 1 [t]⟩

/-- One round of the loop: works off the first node of the list, and puts the nodes among its children in its place,
the last of them first. -/
def round (names : KindNames) (m : Measuring) : Measuring :=
  match m.worklist with
  | [] => m
  | job :: rest => ⟨count names m.stats job, (nodesAt (job.1 + 1) job.2.2).reverse ++ rest⟩

end Measuring

lemma measureFrom_round (names : KindNames) (m : Measuring) :
    measureFrom names (m.round names).stats (m.round names).worklist = measureFrom names m.stats m.worklist := by
  obtain ⟨s, worklist⟩ := m
  cases worklist with
  | nil => rfl
  | cons job rest =>
    obtain ⟨depth, k, cs⟩ := job
    rw [measureFrom.eq_def names s]
    rfl

lemma measure_eq_measureFrom (names : KindNames) (t : Tree) :
    measure names t = measureFrom names (Measuring.start t).stats (Measuring.start t).worklist := by
  cases t with
  | token k s =>
    rw [measureFrom.eq_def]
    rfl
  | node k cs => rfl

mutual
/-- The nodes of a tree that stands at some depth, each before those in it, and those in the last child first. -/
def rightFirst (depth : Nat) : Tree → List Job
  | .token .. => []
  | .node k cs => (depth, k, cs) :: rightFirstAll (depth + 1) cs
def rightFirstAll (depth : Nat) : List Tree → List Job
  | [] => []
  | c :: cs => rightFirstAll depth cs ++ rightFirst depth c
end

/-- The nodes that are still to be worked off, with those below them. -/
def ahead (worklist : List Job) : List Job := worklist.flatMap fun job => rightFirst job.1 (.node job.2.1 job.2.2)

lemma ahead_reverse_nodesAt (depth : Nat) (cs : List Tree) :
    ahead (nodesAt depth cs).reverse = rightFirstAll depth cs := by
  induction cs with
  | nil => rfl
  | cons c cs ih =>
    rw [rightFirstAll, ← ih]
    cases c with
    | token k s => simp [nodesAt, rightFirst]
    | node k ds => simp [nodesAt, ahead]

/-- The first of the nodes ahead is the first on the list. -/
lemma head?_ahead (worklist : List Job) : (ahead worklist).head? = worklist.head? := by
  cases worklist with
  | nil => rfl
  | cons job rest => rfl

/-- To put the nodes among its children in the place of a node takes no other node from those ahead. -/
lemma ahead_cons (job : Job) (rest : List Job) :
    ahead (job :: rest) = job :: ahead ((nodesAt (job.1 + 1) job.2.2).reverse ++ rest) := by
  have hbelow := ahead_reverse_nodesAt (job.1 + 1) job.2.2
  rw [ahead] at hbelow
  rw [ahead, ahead, List.flatMap_cons, List.flatMap_append, hbelow, rightFirst, List.cons_append]

/-- Each round takes the first of the nodes ahead, and counts it. -/
lemma iterate_round (names : KindNames) (m : Measuring) (n : Nat) :
    ahead ((Measuring.round names)^[n] m).worklist = (ahead m.worklist).drop n ∧
      ((Measuring.round names)^[n] m).stats = ((ahead m.worklist).take n).foldl (count names) m.stats := by
  induction n generalizing m with
  | zero => exact ⟨rfl, rfl⟩
  | succ n ih =>
    -- the first round is split off, so that the fold starts from what it has counted
    obtain ⟨s, worklist⟩ := m
    rw [Function.iterate_succ_apply]
    cases worklist with
    | nil => simpa [Measuring.round, ahead] using ih ⟨s, []⟩
    | cons job rest =>
      rw [ahead_cons]
      exact ih _

lemma iterate_measureFrom (names : KindNames) (m : Measuring) (n : Nat) :
    measureFrom names ((Measuring.round names)^[n] m).stats ((Measuring.round names)^[n] m).worklist =
      measureFrom names m.stats m.worklist := by
  induction n generalizing m with
  | zero => rfl
  | succ n ih => rw [Function.iterate_succ_apply, ih, measureFrom_round]

lemma ahead_eq_nil_iff {worklist : List Job} : ahead worklist = [] ↔ worklist = [] := by
  rw [← List.head?_eq_none_iff, head?_ahead, List.head?_eq_none_iff]

/-- After as many rounds as there are nodes ahead the list is empty, and the stats are those of a fold over them. -/
lemma halts (names : KindNames) (m : Measuring) (n : Nat) :
    (((Measuring.round names)^[n] m).worklist = [] ↔ (ahead m.worklist).length ≤ n) ∧
      ((ahead m.worklist).length ≤ n →
        ((Measuring.round names)^[n] m).stats = measureFrom names m.stats m.worklist) := by
  obtain ⟨hahead, -⟩ := iterate_round names m n
  have hends : ((Measuring.round names)^[n] m).worklist = [] ↔ (ahead m.worklist).length ≤ n := by
    rw [← ahead_eq_nil_iff, hahead, List.drop_eq_nil_iff]
  refine ⟨hends, fun hn => ?_⟩
  rw [← iterate_measureFrom names m n, hends.mpr hn, measureFrom]

lemma measureFrom_eq_foldl (names : KindNames) (m : Measuring) :
    measureFrom names m.stats m.worklist = (ahead m.worklist).foldl (count names) m.stats := by
  rw [← (halts names m (ahead m.worklist).length).2 (Nat.le_refl _), (iterate_round names m _).2, List.take_length]

lemma ahead_start (t : Tree) : ahead (Measuring.start t).worklist = rightFirst 1 t := by
  cases t with
  | token k s => rfl
  | node k cs => exact List.append_nil _

/-- What counting does with nodes one after the other. -/
lemma foldl_count (names : KindNames) (s : TreeStats) (jobs : List Job) : jobs.foldl (count names) s =
    { bytes := s.bytes
      nodes := s.nodes + (jobs.map fun job => job.2.1).length
      tokens := s.tokens + (jobs.map fun job => leafCount job.2.2).sum
      depth := (jobs.map fun job => job.1).foldl max s.depth
      errorNodes := s.errorNodes + (jobs.map fun job => job.2.1).countP (names.name · == errorName) } := by
  induction jobs generalizing s with
  | nil => rfl
  | cons job jobs ih =>
    rw [List.foldl_cons, ih]
    simp only [count, List.map_cons, List.length_cons, List.sum_cons, List.foldl_cons, List.countP_cons, mk.injEq,
      true_and]
    refine ⟨by omega, by omega, ?_⟩
    split_ifs <;> omega

end TreeStats

/-- An element that is a node, as measuring works it off. -/
def Visit.job? (v : Visit) : Option TreeStats.Job :=
  match v.tree with
  | .token .. => none
  | .node k cs => some (v.depth, k, cs)

namespace Tree

mutual
/-- How many nodes of a tree are one in another, at most. -/
def nesting : Tree → Nat
  | .token .. => 0
  | .node _ cs => nestingAll cs + 1
def nestingAll : List Tree → Nat
  | [] => 0
  | c :: cs => max c.nesting (nestingAll cs)
end

end Tree

namespace TreeStats

section Counting

variable {depth m : Nat} {cs : List Tree}

lemma perm_rightFirstAll (ih : ∀ c ∈ cs, ∀ depth offset,
      (rightFirst depth c).Perm ((c.preorder depth offset).filterMap Visit.job?)) (depth offset : Nat) :
    (rightFirstAll depth cs).Perm ((Tree.preorderAll depth offset cs).filterMap Visit.job?) := by
  induction cs generalizing offset with
  | nil => exact .nil
  | cons c cs ihs =>
    obtain ⟨hc, hcs⟩ := List.forall_mem_cons.mp ih
    rw [rightFirstAll, Tree.preorderAll, List.filterMap_append]
    exact List.perm_append_comm.trans ((hc depth offset).append (ihs hcs (offset + c.length)))

/-- From right to left the nodes are the same as from left to right. -/
theorem perm_rightFirst (depth offset : Nat) (t : Tree) :
    (rightFirst depth t).Perm ((t.preorder depth offset).filterMap Visit.job?) := by
  induction t generalizing depth offset with
  | token k s => exact .nil
  | node k cs ih => exact (perm_rightFirstAll ih (depth + 1) offset).cons (depth, k, cs)

lemma map_kind_preorderAll (ih : ∀ c ∈ cs, ∀ depth offset,
      ((c.preorder depth offset).filterMap Visit.job?).map (fun job => job.2.1) = c.nodeKinds) (depth offset : Nat) :
    ((Tree.preorderAll depth offset cs).filterMap Visit.job?).map (fun job => job.2.1) = Tree.nodeKindsAll cs := by
  induction cs generalizing offset with
  | nil => rfl
  | cons c cs ihs =>
    obtain ⟨hc, hcs⟩ := List.forall_mem_cons.mp ih
    rw [Tree.preorderAll, Tree.nodeKindsAll, List.filterMap_append, List.map_append, hc depth offset,
      ihs hcs (offset + c.length)]

lemma map_kind_preorder (depth offset : Nat) (t : Tree) :
    ((t.preorder depth offset).filterMap Visit.job?).map (fun job => job.2.1) = t.nodeKinds := by
  induction t generalizing depth offset with
  | token k s => rfl
  | node k cs ih => exact congrArg (k :: ·) (map_kind_preorderAll ih (depth + 1) offset)

lemma perm_nodeKinds (t : Tree) : ((rightFirst 1 t).map fun job => job.2.1).Perm t.nodeKinds := by
  rw [← map_kind_preorder 1 0 t]
  exact (perm_rightFirst 1 0 t).map _

lemma sum_leafCount_all (ih : ∀ c ∈ cs, ∀ depth,
      leafCount [c] + ((rightFirst depth c).map fun job => leafCount job.2.2).sum = c.leafList.length) (depth : Nat) :
    leafCount cs + ((rightFirstAll depth cs).map fun job => leafCount job.2.2).sum = (Tree.leafListAll cs).length := by
  induction cs with
  | nil => rfl
  | cons c cs ihs =>
    obtain ⟨hc, hcs⟩ := List.forall_mem_cons.mp ih
    have hcount : leafCount (c :: cs) = leafCount [c] + leafCount cs := by
      rw [← List.singleton_append, leafCount, List.countP_append]
      rfl
    rw [rightFirstAll, Tree.leafListAll, List.map_append, List.sum_append, List.length_append, hcount,
      ← hc depth, ← ihs hcs]
    omega

/-- Each token is a child of one node, or the whole tree. -/
lemma sum_leafCount (depth : Nat) (t : Tree) :
    leafCount [t] + ((rightFirst depth t).map fun job => leafCount job.2.2).sum = t.leafList.length := by
  induction t generalizing depth with
  | token k s => rfl
  | node k cs ih =>
    have hcs := sum_leafCount_all ih (depth + 1)
    rw [rightFirst, List.map_cons, List.sum_cons, hcs, Tree.leafList]
    exact Nat.zero_add _

lemma foldl_max_all (ih : ∀ c ∈ cs, ∀ {depth m}, depth ≤ m →
      ((rightFirst (depth + 1) c).map fun job => job.1).foldl max m = max m (depth + c.nesting))
    (hm : depth ≤ m) :
    ((rightFirstAll (depth + 1) cs).map fun job => job.1).foldl max m = max m (depth + Tree.nestingAll cs) := by
  induction cs with
  | nil => simp [rightFirstAll, Tree.nestingAll, hm]
  | cons c cs ihs =>
    obtain ⟨hc, hcs⟩ := List.forall_mem_cons.mp ih
    have hle : depth ≤ max m (depth + Tree.nestingAll cs) := hm.trans (Nat.le_max_left _ _)
    rw [rightFirstAll, List.map_append, List.foldl_append, ihs hcs, hc hle, Tree.nestingAll]
    omega

/-- The greatest depth of a node is where the nesting ends. Starting from `depth` or more, a token changes nothing. -/
lemma foldl_max (hm : depth ≤ m) (t : Tree) :
    ((rightFirst (depth + 1) t).map fun job => job.1).foldl max m = max m (depth + t.nesting) := by
  induction t generalizing depth m with
  | token k s => simp [rightFirst, Tree.nesting, hm]
  | node k cs ih =>
    have hle : depth + 1 ≤ max m (depth + 1) := Nat.le_max_right _ _
    rw [rightFirst, List.map_cons, List.foldl_cons, foldl_max_all (fun c hc _ _ h => ih c hc h) hle, Tree.nesting]
    omega

end Counting

/-- Measuring gives the length of the text, and what a recursion counts: nodes, tokens, nodes named as errors, and how
deep nodes are in one another. The loop works off the nodes from right to left; they are those of the pre-order, with
the same depths. It ends after as many rounds as there are nodes. -/
structure Measured (names : KindNames) (t : Tree) : Prop where
  bytes : (measure names t).bytes = t.text.length
  nodes : (measure names t).nodes = t.nodeKinds.length
  tokens : (measure names t).tokens = t.leafList.length
  depth : (measure names t).depth = t.nesting
  errorNodes : (measure names t).errorNodes = t.nodeKinds.countP (names.name · == errorName)
  order : ∀ n, ((Measuring.round names)^[n] (.start t)).worklist.head? = (rightFirst 1 t)[n]?
  visits : (rightFirst 1 t).Perm ((t.preorder 1 0).filterMap Visit.job?)
  halts : ∀ n, (((Measuring.round names)^[n] (.start t)).worklist = [] ↔ t.nodeKinds.length ≤ n) ∧
    (t.nodeKinds.length ≤ n → ((Measuring.round names)^[n] (.start t)).stats = measure names t)

lemma measure_eq (names : KindNames) (t : Tree) : measure names t =
    { bytes := t.text.length
      nodes := t.nodeKinds.length
      tokens := t.leafList.length
      depth := t.nesting
      errorNodes := t.nodeKinds.countP (names.name · == errorName) } := by
  rw [measure_eq_measureFrom, measureFrom_eq_foldl, ahead_start, foldl_count]
  simp only [Measuring.start, sum_leafCount, (perm_nodeKinds t).length_eq, (perm_nodeKinds t).countP_eq,
    foldl_max (Nat.le_refl 0), t.length_eq_length_text, Nat.zero_add, Nat.zero_max]

theorem measured (names : KindNames) (t : Tree) : Measured names t where
  bytes := by rw [measure_eq]
  nodes := by rw [measure_eq]
  tokens := by rw [measure_eq]
  depth := by rw [measure_eq]
  errorNodes := by rw [measure_eq]
  order n := by
    rw [← head?_ahead, (iterate_round names (.start t) n).1, ahead_start, List.head?_drop]
  visits := perm_rightFirst 1 0 t
  halts n := by
    have hnodes : (ahead (Measuring.start t).worklist).length = t.nodeKinds.length := by
      rw [ahead_start, ← List.length_map, (perm_nodeKinds t).length_eq]
    rw [measure_eq_measureFrom, ← hnodes]
    exact halts names (.start t) n

/-- Without names no node counts as an error. -/
theorem errorNodes_nil (t : Tree) : (measure [] t).errorNodes = 0 := by
  rw [measure_eq, List.countP_eq_zero]
  intro k _
  have hname : KindNames.name [] k = "KIND_" ++ k.repr := rfl
  rw [hname, errorName, beq_iff_eq]
  intro heq
  have hlist := congrArg String.toList heq
  rw [String.toList_append] at hlist
  cases hlist

end TreeStats

open Cursor TreeStats

/-- The traversals that keep a stack or a list of nodes give what a recursion over the tree gives, for the tokens of a
tree, for the elements below any place in it and for its measures, and their loops end. -/
theorem traversals_recursive {root : Tree} {c : Cursor} (h : Placed root c) (names : KindNames) :
    root.Listed ∧ c.Walked root ∧ Measured names root ∧ (measure [] root).errorNodes = 0 :=
  ⟨root.listed, h.walked, measured names root, errorNodes_nil root⟩

/-- A tree that reads differently from the left and from the right, with an empty token and an empty node in it. -/
def forked : Tree :=
  .node 0 [.node 1 [.token 2 [0x24], .token 3 []], .token 3 [0x31], .node 4 [.node 1 []]]

/-- The first child of it. -/
def forkedFirst : Cursor := ⟨.node 1 [.token 2 [0x24], .token 3 []], 0, [⟨0, forked.children, 0, 0⟩]⟩

/-- The nodes are met in another order when the tree is measured. -/
theorem traversals_recursive_forked :
    let names : KindNames := ["ROOT", "ERROR", "UNKNOWN", "NUMBER", "GROUP"]
    let jobs := (forked.preorder 1 0).filterMap Visit.job?
    Placed forked forkedFirst ∧ forked.leaves = [⟨2, [0x24]⟩, ⟨3, []⟩, ⟨3, [0x31]⟩] ∧
      forkedFirst.Walked forked ∧ forkedFirst.tokens.map range = [⟨0, 1⟩, ⟨1, 1⟩] ∧
      (measure names forked).depth = 3 ∧ (measure names forked).errorNodes = 2 ∧
      (rightFirst 1 forked).Perm jobs ∧ rightFirst 1 forked ≠ jobs := by
  intro names jobs
  have hplaced : Placed forked forkedFirst := .single ⟨0, rfl⟩
  obtain ⟨hlisted, hwalked, hmeasured, -⟩ := traversals_recursive hplaced names
  have herrors : forked.nodeKinds.countP (names.name · == errorName) = 2 := by decide
  exact ⟨hplaced, hlisted.leaves, hwalked, by cbv, hmeasured.depth, hmeasured.errorNodes.trans herrors,
    hmeasured.visits, by decide⟩

end LosslessTree
