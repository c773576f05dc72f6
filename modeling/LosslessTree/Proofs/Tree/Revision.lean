import LosslessTree.Proofs.Cursor.Place
import Mathlib.Data.List.Zip

/-! Revisions of trees. Each token of a forest gets another text or goes away, and everything else stays.
The changes are listed in the order of the tokens, so that forests and texts can be revised alike. -/
namespace LosslessTree

/-- What becomes of a token: its new text, or nothing if it goes away. -/
abbrev Change := Option Bytes

/-- The tokens after these changes. -/
def Change.revise (cs : List Change) (ls : List Leaf) : List Leaf :=
  (ls.zip cs).filterMap fun (l, c) => c.map (Leaf.mk l.kind)

/-- The changes that leave tokens as they are. -/
def Change.keep (ls : List Leaf) : List Change := ls.map fun l => some l.text

@[simp] lemma Change.keep_append (ks ls : List Leaf) : keep (ks ++ ls) = keep ks ++ keep ls := List.map_append

lemma Change.revise_append {bs cs : List Change} {ks ls : List Leaf} (h : bs.length = ks.length) :
    revise (bs ++ cs) (ks ++ ls) = revise bs ks ++ revise cs ls := by
  rw [revise, List.zip_append h.symm, List.filterMap_append]
  rfl

namespace Tree

/-- By these changes the first forest becomes the second. -/
inductive Revised : List Change → List Tree → List Tree → Prop
  | nil : Revised [] [] []
  | keep {k s s' cs ts us} (rest : Revised cs ts us) :
      Revised (some s' :: cs) (.token k s :: ts) (.token k s' :: us)
  | drop {k s cs ts us} (rest : Revised cs ts us) : Revised (none :: cs) (.token k s :: ts) us
  | node {k bs cs ds es ts us} (below : Revised bs ds es) (rest : Revised cs ts us) :
      Revised (bs ++ cs) (.node k ds :: ts) (.node k es :: us)

/-- Some changes make the second forest out of the first. -/
def Revises (ts us : List Tree) : Prop := ∃ cs, Revised cs ts us

variable {bs cs ds : List Change} {k : Kind} {t u : Tree} {ts us vs ws : List Tree}

lemma Revised.append (h : Revised bs ts us) (h' : Revised cs vs ws) :
    Revised (bs ++ cs) (ts ++ vs) (us ++ ws) := by
  induction h with
  | nil => exact h'
  | keep rest ih => exact .keep ih
  | drop rest ih => exact .drop ih
  | node below rest _ ih =>
    rw [List.append_assoc]
    exact .node below ih

/-- A node is revised below it. -/
lemma Revised.under (h : Revised cs ts us) (k : Kind) : Revised cs [.node k ts] [.node k us] := by
  have hnode := Revised.node (k := k) h .nil
  rwa [List.append_nil] at hnode

lemma Revised.of_node (h : Revised cs [.node k ts] [t]) : ∃ us, t = .node k us ∧ Revised cs ts us := by
  obtain _ | _ | _ | ⟨below, rest⟩ := h
  obtain _ | _ := rest
  rw [List.append_nil]
  exact ⟨_, rfl, below⟩

/-- There is one change for each token. -/
lemma Revised.length_eq (h : Revised cs ts us) : cs.length = (ts.flatMap leaves).length := by
  induction h with
  | nil => rfl
  | keep rest ih => simp [ih]
  | drop rest ih => simp [ih]
  | node below rest ihb ihr => simp only [List.flatMap_cons, leaves_node, List.length_append, ihb, ihr]

lemma Revised.leaves_eq (h : Revised cs ts us) :
    us.flatMap leaves = Change.revise cs (ts.flatMap leaves) := by
  induction h with
  | nil => rfl
  | keep rest ih => simp [ih, Change.revise]
  | drop rest ih => simp [ih, Change.revise]
  | node below rest ihb ihr =>
    simp only [List.flatMap_cons, leaves_node, ihb, ihr]
    exact (Change.revise_append below.length_eq).symm

/-- The changes say all about the forest that comes out. -/
theorem Revised.unique (h : Revised cs ts us) (h' : Revised ds ts vs) (hd : ds = cs) : us = vs := by
  induction h generalizing ds vs with
  | nil => cases h'; rfl
  | keep rest ih =>
    cases h' with
    | keep rest' =>
      obtain ⟨hs, hrest⟩ := List.cons_eq_cons.mp hd
      rw [ih rest' hrest, Option.some.inj hs]
    | drop rest' => cases hd
  | drop rest ih =>
    cases h' with
    | keep rest' => cases hd
    | drop rest' => exact ih rest' (List.cons_eq_cons.mp hd).2
  | node below rest ihb ihr =>
    cases h' with
    | node below' rest' =>
      have hlength := below'.length_eq.trans below.length_eq.symm
      obtain ⟨hbelow, hrest⟩ := List.append_inj hd hlength
      rw [ihb below' hbelow, ihr rest' hrest]

lemma revised_of_forall (h : ∀ t ∈ ts, Revised (Change.keep t.leaves) [t] [t]) :
    Revised (Change.keep (ts.flatMap leaves)) ts ts := by
  induction ts with
  | nil => exact .nil
  | cons t ts ih =>
    obtain ⟨ht, hts⟩ := List.forall_mem_cons.mp h
    rw [List.flatMap_cons, Change.keep_append]
    exact ht.append (ih hts)

lemma revised_self (t : Tree) : Revised (Change.keep t.leaves) [t] [t] := by
  induction t with
  | token k s =>
    rw [leaves_token]
    exact .keep .nil
  | node k cs ih =>
    rw [leaves_node]
    exact (revised_of_forall ih).under k

/-- With its tokens kept a forest is a revision of itself. -/
lemma revised_refl (ts : List Tree) : Revised (Change.keep (ts.flatMap leaves)) ts ts :=
  revised_of_forall fun t _ => revised_self t

lemma Revises.trans (h : Revises ts us) (h' : Revises us vs) : Revises ts vs := by
  obtain ⟨cs, h⟩ := h
  obtain ⟨ds, h'⟩ := h'
  induction h generalizing ds vs with
  | nil => exact ⟨_, h'⟩
  | keep rest ih =>
    cases h' with
    | keep rest' =>
      obtain ⟨es, he⟩ := ih _ rest'
      exact ⟨_, .keep he⟩
    | drop rest' =>
      obtain ⟨es, he⟩ := ih _ rest'
      exact ⟨_, .drop he⟩
  | drop rest ih =>
    obtain ⟨es, he⟩ := ih _ h'
    exact ⟨_, .drop he⟩
  | node below rest ihb ihr =>
    cases h' with
    | node below' rest' =>
      obtain ⟨es, he⟩ := ihb _ below'
      obtain ⟨fs, hf⟩ := ihr _ rest'
      exact ⟨_, .node he hf⟩

/-- A child of a node is revised where it stands. -/
lemma Revised.set {i : Nat} (h : Revised cs [t] us) (hi : i < ts.length) :
    Revised (Change.keep ((ts.take i).flatMap leaves) ++ cs ++ Change.keep ((ts.drop (i + 1)).flatMap leaves))
      (ts.set i t) (ts.take i ++ us ++ ts.drop (i + 1)) := by
  have hset : ts.set i t = ts.take i ++ [t] ++ ts.drop (i + 1) := by
    rw [List.set_eq_take_append_cons_drop, if_pos hi]
    simp
  rw [hset]
  exact ((revised_refl _).append h).append (revised_refl _)

end Tree

namespace Cursor
open LosslessTree.Tree

variable {root : Tree} {c : Cursor} {cs : List Change} {t u : Tree}

/-- Changes at the end of a trail, and none of the tokens before and after it. -/
def changesAt (trail : List Ancestor) (cs : List Change) : List Change :=
  Change.keep (leavesBefore trail) ++ cs ++ Change.keep (leavesAfter trail)

lemma changesAt_nil (cs : List Change) : changesAt [] cs = cs := List.append_nil cs

lemma changesAt_cons (a : Ancestor) (trail : List Ancestor) (cs : List Change) :
    changesAt (a :: trail) cs = changesAt trail
      (Change.keep ((a.children.take a.index).flatMap leaves) ++ cs ++
        Change.keep ((a.children.drop (a.index + 1)).flatMap leaves)) := by
  simp [changesAt, leavesBefore, leavesAfter]

/-- A revision at a place is a revision of the whole tree. -/
lemma revised_rebuild (hc : Sturdy c.trail) (h : Revised cs [t] [u]) :
    Revised (changesAt c.trail cs) [c.rebuild t] [c.rebuild u] := by
  obtain ⟨_, o, trail⟩ := c
  induction trail generalizing cs t u with
  | nil =>
    rw [changesAt_nil]
    exact h
  | cons a trail ih =>
    obtain ⟨ha, htrail⟩ := List.forall_mem_cons.mp hc
    rw [rebuild_cons, rebuild_cons, changesAt_cons]
    refine ih (Revised.under ?_ a.kind) htrail
    rw [List.set_eq_take_append_cons_drop (l := a.children) (a := u), if_pos ha]
    simpa using h.set ha

/-- A token with a new text is the only change. -/
lemma Within.revised_withText (h : Within root c) (hc : c.isToken = true) (s : Bytes) :
    Revised (changesAt c.trail [some s]) [root] [c.withText s] := by
  rw [← h.whole]
  apply revised_rebuild h.sturdy
  obtain ⟨t, o, trail⟩ := c
  cases t with
  | token k s' => exact .keep .nil
  | node k cs => cases hc

/-- A token that goes away is the only change. -/
lemma Within.revised_removeAt (h : Within root c) (hroot : root.isNode = true) (hc : c.isToken = true) :
    Revised (changesAt c.trail [none]) [root] [TextEdit.removeAt c] := by
  have hnil := h.trail_ne_nil hroot hc
  obtain ⟨t, o, trail⟩ := c
  cases trail with
  | nil => contradiction
  | cons a trail =>
    obtain ⟨ha, htrail⟩ := List.forall_mem_cons.mp h.sturdy
    rw [← h.whole, rebuild_cons, changesAt_cons]
    change Revised _ _ [rebuild ⟨_, a.offset, trail⟩ (.node a.kind (a.children.eraseIdx a.index))]
    refine revised_rebuild (c := ⟨_, _, trail⟩) htrail (Revised.under ?_ a.kind)
    rw [List.eraseIdx_eq_take_drop_succ]
    have hdrop : Revised [none] [t] [] := by
      cases t with
      | token k s => exact .drop .nil
      | node k cs => cases hc
    simpa using hdrop.set ha

end Cursor
end LosslessTree
