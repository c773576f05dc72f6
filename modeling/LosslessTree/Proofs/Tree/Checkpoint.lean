import LosslessTree.Proofs.Tree.Fidelity

/-! A checkpoint is a late start. Two runs of the same calls are compared, one with an extra node
open below everything the calls open: the inner open nodes, the elements and the cache agree at every
step, and the checkpoints taken on the way differ by one in depth. -/
namespace LosslessTree

/-- The same position, with one more node open around it. -/
def Checkpoint.deepen (cp : Checkpoint) : Checkpoint := { cp with depth := cp.depth + 1 }

namespace BuildSession

/-- Before and after every call of a run at least `floor` nodes are open. -/
def StaysAbove (floor : Nat) (s : BuildSession) : List BuildEvent → Prop
  | [] => floor ≤ s.builder.depth
  | e :: events => floor ≤ s.builder.depth ∧ ∀ t ∈ s.step? e, t.StaysAbove floor events

instance decidableStaysAbove (floor : Nat) : ∀ (s : BuildSession) (events : List BuildEvent),
    Decidable (s.StaysAbove floor events)
  | s, [] => inferInstanceAs (Decidable (floor ≤ s.builder.depth))
  | s, e :: events =>
    have := fun t => decidableStaysAbove floor t events
    inferInstanceAs (Decidable (floor ≤ s.builder.depth ∧ ∀ t ∈ s.step? e, t.StaysAbove floor events))

variable {s t u : BuildSession} {e : BuildEvent} {events : List BuildEvent} {floor : Nat}

lemma StaysAbove.le_depth (h : s.StaysAbove floor events) : floor ≤ s.builder.depth := by
  cases events with
  | nil => exact h
  | cons e events => exact h.1

/-- `t` is `s` with the node `added` open below the nodes `inner`. Nothing that `s` may still close or
wrap lies before the start of that node. -/
structure Slipped (added : OpenNode) (outer inner : List OpenNode) (s t : BuildSession) : Prop where
  opened : s.builder.opened = inner ++ outer
  eq : t = { builder := { s.builder with opened := inner ++ added :: outer },
             checkpoints := s.checkpoints.map Checkpoint.deepen }
  nodes : ∀ node ∈ inner, added.start ≤ node.start
  elements : added.start ≤ s.builder.elements.size
  positions : ∀ cp ∈ s.checkpoints, added.start ≤ cp.position

variable {added : OpenNode} {outer inner : List OpenNode}

/-- A checkpoint that fits fits one node deeper too. -/
lemma Slipped.fits (h : Slipped added outer inner s t) {cp : Checkpoint} (hcp : cp ∈ s.checkpoints)
    (hf : s.builder.Fits cp) : t.builder.Fits cp.deepen := by
  have hd := hf.depth
  have hin := hf.inside
  rw [Builder.depth, h.opened] at hd
  rw [h.opened] at hin
  rw [h.eq]
  refine ⟨?_, hf.emitted, ?_⟩
  · simp only [Checkpoint.deepen, Builder.depth, List.length_append, List.length_cons] at hd ⊢
    omega
  · intro top htop
    cases inner with
    | nil =>
      cases htop
      exact h.positions cp hcp
    | cons node inner => exact hin top htop

lemma Slipped.checkpoint_eq (h : Slipped added outer inner s t) :
    t.builder.checkpoint = s.builder.checkpoint.deepen := by
  rw [h.eq]
  simp only [Builder.checkpoint, Checkpoint.deepen, Builder.depth, h.opened, List.length_append,
    List.length_cons, Nat.add_assoc]

/-- Every call that is taken above the floor is taken with the extra node below, to the same effect. -/
lemma Slipped.step (h : Slipped added outer inner s t) {s' : BuildSession} (hs : Step s e s')
    (hfloor : outer.length ≤ s'.builder.depth) :
    ∃ inner' t', Step t e t' ∧ Slipped added outer inner' s' t' := by
  have ht := h.eq
  cases hs with
  | start k =>
    refine ⟨⟨k, s.builder.elements.size⟩ :: inner, _, .start t k, ?_⟩
    subst ht
    refine ⟨by simp [h.opened], rfl, ?_, h.elements, h.positions⟩
    intro node hn
    rcases List.mem_cons.mp hn with rfl | hn
    · exact h.elements
    · exact h.nodes node hn
  | token k text inside =>
    refine ⟨inner, _, .token t k text (by simp [ht]), ?_⟩
    subst ht
    refine ⟨h.opened, rfl, h.nodes, ?_, h.positions⟩
    simpa using Nat.le_succ_of_le h.elements
  | finishNode top rest opened =>
    -- The node that is closed is an inner one: below the floor nothing may be closed.
    cases inner with
    | nil =>
      have hlen : outer.length = rest.length + 1 := by
        rw [← List.length_cons, ← opened, h.opened, List.nil_append]
      change outer.length ≤ rest.length at hfloor
      omega
    | cons node inner =>
      obtain ⟨rfl, hrest⟩ : node = top ∧ inner ++ outer = rest := by
        have ho := h.opened
        rw [opened, List.cons_append] at ho
        exact ⟨(List.cons.inj ho).1.symm, (List.cons.inj ho).2.symm⟩
      refine ⟨inner, _, .finishNode t node (inner ++ added :: outer) (by simp [ht]), ?_⟩
      subst ht
      refine ⟨hrest.symm, rfl, ?_, ?_, h.positions⟩
      · intro n hn
        exact h.nodes n (List.mem_cons_of_mem _ hn)
      · have hnode := h.nodes node List.mem_cons_self
        have hsize := h.elements
        simp only [Array.size_push, Array.size_extract]
        omega
  | checkpoint =>
    refine ⟨inner, _, .checkpoint t, h.opened, ?_, h.nodes, h.elements, ?_⟩
    · rw [h.checkpoint_eq, ht, Array.map_push]
    · intro cp hcp
      rcases Array.mem_push.mp hcp with hcp | rfl
      · exact h.positions cp hcp
      · exact h.elements
  | startAt i cp k taken fits =>
    have hcp := Array.mem_of_getElem? taken
    have hfits := h.fits hcp fits
    refine ⟨⟨k, cp.position⟩ :: inner, _, .startAt t i cp.deepen k (by simp [ht, taken]) hfits, ?_⟩
    subst ht
    refine ⟨by simp [h.opened], rfl, ?_, h.elements, h.positions⟩
    intro node hn
    rcases List.mem_cons.mp hn with rfl | hn
    · exact h.positions cp hcp
    · exact h.nodes node hn

lemma Slipped.run (h : Slipped added outer inner s t) {s' : BuildSession} (hs : Runs s events s')
    (hok : s.builder.failure = none) (hfloor : s.StaysAbove outer.length events) :
    ∃ inner' t', Runs t events t' ∧ Slipped added outer inner' s' t' := by
  induction hs generalizing inner t with
  | nil s => exact ⟨inner, t, .nil t, h⟩
  | @cons s s₁ s' e events head tail ih =>
    obtain ⟨hstep, hok₁⟩ := step?_iff.mpr ⟨hok, head⟩
    have hfloor₁ := hfloor.2 s₁ hstep
    obtain ⟨inner₁, t₁, ht₁, h₁⟩ := h.step head hfloor₁.le_depth
    obtain ⟨inner', t', ht', h'⟩ := ih h₁ hok₁ hfloor₁
    exact ⟨inner', t', .cons ht₁ ht', h'⟩

/-- Opening a node late, at a checkpoint, gives the very builder that opening it first gives: for every
builder that calls can lead to, and calls that use only their own checkpoints, are all taken, close
nothing opened before them and end at the depth where they began. Whatever is called afterwards, the
two sessions end alike. -/
theorem startAt_eq_start_before (cache : Cache) (stale : Array Checkpoint)
    (earlier events : List BuildEvent) (s t : BuildSession) (k : Kind)
    (hs : (fresh cache stale).run? earlier = some s)
    (ht : (⟨s.builder, #[]⟩ : BuildSession).run? events = some t)
    (hok : t.builder.failure = none)
    (hfloor : (⟨s.builder, #[]⟩ : BuildSession).StaysAbove s.builder.depth events)
    (hdepth : t.builder.depth = s.builder.depth) :
    ∃ u, (⟨s.builder.start k, #[]⟩ : BuildSession).run? events = some u ∧
      u.builder.failure = none ∧
      u.builder = t.builder.startAt s.builder.checkpoint k ∧
      ∀ checkpoints later,
        ((⟨u.builder, checkpoints⟩ : BuildSession).run? later).map (·.builder.finish) =
          ((⟨t.builder.startAt s.builder.checkpoint k, checkpoints⟩ : BuildSession).run? later).map
            (·.builder.finish) := by
  obtain ⟨hsok, hruns⟩ := run?_iff.mp ⟨ht, hok⟩
  change s.builder.failure = none at hsok
  have hord := ordered_of_run? hs (Builder.ordered_empty cache)
  have hbegin : Slipped ⟨k, s.builder.elements.size⟩ s.builder.opened []
      ⟨s.builder, #[]⟩ ⟨s.builder.start k, #[]⟩ := by
    refine ⟨rfl, ?_, by simp, Nat.le_refl _, by simp⟩
    simp [Builder.start_of_ok hsok]
  obtain ⟨inner, u, hu, hend⟩ := hbegin.run hruns hsok hfloor
  obtain ⟨hrun, huok⟩ := run?_iff.mpr ⟨by rw [Builder.start_of_ok hsok]; exact hsok, hu⟩
  have hopened := hend.opened
  have hinner : inner = [] := by
    rw [Builder.depth, Builder.depth, hopened, List.length_append] at hdepth
    exact List.length_eq_zero_iff.mp (by omega)
  subst hinner
  have hfits : t.builder.Fits s.builder.checkpoint := by
    refine ⟨hdepth.symm, hend.elements, ?_⟩
    intro top htop
    rw [hopened, List.nil_append] at htop
    exact hord.bounded top (List.mem_of_head? htop)
  have hbuilder : u.builder = t.builder.startAt s.builder.checkpoint k := by
    rw [Builder.startAt_of_fits hok hfits, hend.eq, hopened]
    rfl
  exact ⟨u, hrun, huok, hbuilder, fun checkpoints later => by rw [hbuilder]⟩

/-- The calls wrapped late may themselves wrap at a checkpoint of their own. -/
theorem startAt_eq_start_before_nested :
    ∃ s t u : BuildSession, (fresh {} #[]).run? [.start 1, .token 2 [0x61]] = some s ∧
      (⟨s.builder, #[]⟩ : BuildSession).run?
        [.checkpoint, .token 2 [0x62], .startAt 0 3, .token 2 [0x63], .finishNode] = some t ∧
      (⟨s.builder.start 4, #[]⟩ : BuildSession).run?
        [.checkpoint, .token 2 [0x62], .startAt 0 3, .token 2 [0x63], .finishNode] = some u ∧
      u.builder = t.builder.startAt s.builder.checkpoint 4 := by
  obtain ⟨u, hu, -, hbuilder, -⟩ := startAt_eq_start_before {} #[] [.start 1, .token 2 [0x61]]
    [.checkpoint, .token 2 [0x62], .startAt 0 3, .token 2 [0x63], .finishNode] _ _ 4 rfl rfl rfl
    (by decide) rfl
  exact ⟨_, _, u, rfl, rfl, hu, hbuilder⟩

end BuildSession
end LosslessTree
