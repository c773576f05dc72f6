import LosslessTree.Tree.Element
import Mathlib.Algebra.GroupWithZero.Nat
import Mathlib.Data.List.Forall2

/-! What is written in an element. If every fingerprint, start and length was computed from what is written in the
children, then elements of one structure agree in all of it, and comparing fingerprints first never shows. What a node
leaves at an output is a start of its text, however early the output fails. -/
namespace LosslessTree
namespace Element

/-- Induction over elements, with the hypothesis for every child of a node. -/
@[elab_as_elim, induction_eliminator]
theorem induction {motive : Element → Prop} (empty : motive .empty) (token : ∀ h k s, motive (.token h k s))
    (node : ∀ h k cs offsets n, (∀ c ∈ cs, motive c) → motive (.node h k cs offsets n)) : ∀ e, motive e
  | .empty => empty
  | .token h k s => token h k s
  | .node h k cs offsets n => node h k cs offsets n fun c _ => induction empty token node c

/-- Of one structure: both empty, tokens of one kind and text, or nodes of one kind whose children are of one
structure, one by one. -/
inductive Alike : Element → Element → Prop
  | empty : Alike .empty .empty
  | token {h i : UInt64} {k : Kind} {s : Bytes} : Alike (.token h k s) (.token i k s)
  | node {h i : UInt64} {k : Kind} {cs ds : List Element} {offsets offsets' : List Nat} {n m : Nat}
      (count : cs.length = ds.length) (children : ∀ p ∈ cs.zip ds, Alike p.1 p.2) :
      Alike (.node h k cs offsets n) (.node i k ds offsets' m)

/-- All that is written in an element is what its parts make it; `strict` if moreover no node in it has an empty
child. -/
inductive Exact (f : Fingerprint) (strict : Bool) : Element → Prop
  | empty : Exact f strict .empty
  | token {k : Kind} {s : Bytes} : Exact f strict (.token (f.token k s) k s)
  | node {k : Kind} {cs : List Element} (filled : strict = true → ∀ c ∈ cs, c.isFilled = true)
      (children : ∀ c ∈ cs, Exact f strict c) :
      Exact f strict (.node (nodeHash f k cs) k cs (layOut 0 cs).1 (layOut 0 cs).2)

variable {f : Fingerprint} {strict : Bool} {a b c e : Element} {h i : UInt64} {k l : Kind} {s : Bytes}
  {cs ds es : List Element} {offsets offsets' : List Nat} {n m : Nat} {identity : Identity}

section Equality

lemma alike_node_iff : Alike (.node h k cs offsets n) (.node i l ds offsets' m) ↔
    k = l ∧ List.Forall₂ Alike cs ds := by
  rw [List.forall₂_iff_zip]
  constructor
  · rintro (_ | _ | ⟨count, children⟩)
    exact ⟨rfl, count, fun hp => children _ hp⟩
  · rintro ⟨rfl, count, children⟩
    exact .node count fun _ hp => children hp

lemma Alike.refl (a : Element) : Alike a a := by
  induction a with
  | empty => exact .empty
  | token h k s => exact .token
  | node h k cs offsets n ih => exact alike_node_iff.mpr ⟨rfl, List.forall₂_same.mpr ih⟩

/-- Lists are the same if their members are, one by one. -/
lemma eq_of_forall₂ {α : Type} {R : α → α → Prop} {cs ds : List α} (hall : List.Forall₂ R cs ds)
    (heq : ∀ c ∈ cs, ∀ d ∈ ds, R c d → c = d) : cs = ds := by
  induction hall with
  | nil => rfl
  | cons hcd _ ih =>
    have hhead := heq _ List.mem_cons_self _ List.mem_cons_self hcd
    have htail := ih fun c hc d hd => heq c (List.mem_cons_of_mem _ hc) d (List.mem_cons_of_mem _ hd)
    rw [hhead, htail]

/-- Elements of one structure have all that is written in them in common. -/
theorem Exact.eq_of_alike (ha : Exact f strict a) (hb : Exact f strict b) (halike : Alike a b) : a = b := by
  induction a generalizing b with
  | empty =>
    cases halike
    rfl
  | token h k s =>
    cases halike
    cases ha
    cases hb
    rfl
  | node h k cs offsets n ih =>
    cases ha with
    | node _ hcs =>
      cases hb with
      | empty => cases halike
      | token => cases halike
      | @node l ds _ hds =>
        obtain ⟨rfl, hall⟩ := alike_node_iff.mp halike
        obtain rfl : cs = ds := eq_of_forall₂ hall fun c hc d hd => ih c hc (hcs c hc) (hds d hd)
        rfl

lemma equalAll_self (ih : ∀ c ∈ cs, equal identity c c = true) : equalAll identity cs cs = true := by
  induction cs with
  | nil => rfl
  | cons c cs ihs =>
    obtain ⟨hc, hcs⟩ := List.forall_mem_cons.mp ih
    rw [equalAll, hc, ihs hcs]
    rfl

/-- Every element equals itself, whatever is written in it. -/
lemma equal_self (identity : Identity) (a : Element) : equal identity a a = true := by
  induction a with
  | empty => rfl
  | token h k s => simp [equal]
  | node h k cs offsets n ih => simp [equal, equalAll_self ih]

lemma forall₂_of_equalAll (ih : ∀ c ∈ cs, ∀ d, equal identity c d = true → Alike c d)
    (count : cs.length = ds.length) (hall : equalAll identity cs ds = true) : List.Forall₂ Alike cs ds := by
  induction cs generalizing ds with
  | nil =>
    rw [List.length_eq_zero_iff.mp count.symm]
    exact .nil
  | cons c cs ihs =>
    cases ds with
    | nil => cases count
    | cons d ds =>
      obtain ⟨hc, hcs⟩ := List.forall_mem_cons.mp ih
      rw [equalAll, Bool.and_eq_true] at hall
      exact .cons (hc d hall.1) (ihs hcs (Nat.succ.inj count) hall.2)

/-- Equal elements are of one structure, however fingerprints may collide. -/
theorem alike_of_equal (hequal : equal identity a b = true) : Alike a b := by
  induction a generalizing b with
  | empty =>
    cases b with
    | empty => exact .empty
    | token i l t => simp [equal, isFilled] at hequal
    | node i l ds offsets' m => simp [equal, isFilled] at hequal
  | token h k s =>
    cases b with
    | empty => simp [equal] at hequal
    | node i l ds offsets' m => simp [equal] at hequal
    | token i l t =>
      rw [equal, Bool.or_eq_true] at hequal
      rcases hequal with hsame | hequal
      · exact identity.eq_of_same hsame ▸ Alike.refl _
      · simp only [Bool.and_eq_true, beq_iff_eq] at hequal
        obtain ⟨⟨-, rfl⟩, rfl⟩ := hequal
        exact .token
  | node h k cs offsets n ih =>
    cases b with
    | empty => simp [equal] at hequal
    | token i l t => simp [equal] at hequal
    | node i l ds offsets' m =>
      rw [equal, Bool.or_eq_true] at hequal
      rcases hequal with hsame | hequal
      · exact identity.eq_of_same hsame ▸ Alike.refl _
      · simp only [Bool.and_eq_true, beq_iff_eq] at hequal
        obtain ⟨⟨⟨⟨-, hkind⟩, -⟩, count⟩, hall⟩ := hequal
        exact alike_node_iff.mpr ⟨hkind, forall₂_of_equalAll (fun c hc d => ih c hc) count hall⟩

lemma Exact.equal_iff (ha : Exact f strict a) (hb : Exact f strict b) :
    equal identity a b = true ↔ Alike a b := by
  constructor
  · exact alike_of_equal
  · intro halike
    rw [ha.eq_of_alike hb halike]
    exact equal_self identity b

lemma Exact.eq_of_isTokenOf (he : Exact f strict e) (h : e.isTokenOf k s = true) : e = .ofToken f k s := by
  cases he with
  | empty => cases h
  | node => cases h
  | token =>
    simp only [isTokenOf, Bool.and_eq_true, beq_iff_eq] at h
    rw [h.1, h.2]
    rfl

/-- A node that is met by a request is the very node that is asked for. -/
lemma Exact.eq_of_isNodeOver (he : Exact f strict e) (hcs : ∀ c ∈ cs, Exact f strict c)
    (h : e.isNodeOver identity k cs = true) : e = .ofChildren f k cs := by
  cases he with
  | empty => cases h
  | token => cases h
  | node _ hds =>
    simp only [isNodeOver, Bool.and_eq_true, beq_iff_eq] at h
    obtain ⟨hkind, count, hall⟩ := h
    have halike := forall₂_of_equalAll (fun c _ d => alike_of_equal) count hall
    obtain rfl := eq_of_forall₂ halike fun c hc d hd => (hds c hc).eq_of_alike (hcs d hd)
    rw [hkind]
    rfl

lemma isNodeOver_self (identity : Identity) (k : Kind) (cs : List Element) :
    (ofChildren f k cs).isNodeOver identity k cs = true := by
  simp [ofChildren, laid, isNodeOver, equalAll_self fun c _ => equal_self identity c]

end Equality

section Making

lemma isFilled_of_isNode (h : e.isNode = true) : e.isFilled = true := by
  cases e with
  | empty => cases h
  | token h k s => rfl
  | node h k cs offsets n => rfl

/-- Elements that a node may be made from. -/
structure Fit (f : Fingerprint) (strict : Bool) (es : List Element) : Prop where
  exact : ∀ e ∈ es, Exact f strict e
  filled : strict = true → ∀ e ∈ es, e.isFilled = true

lemma Fit.append (hes : Fit f strict es) (hds : Fit f strict ds) : Fit f strict (es ++ ds) :=
  ⟨List.forall_mem_append.mpr ⟨hes.exact, hds.exact⟩,
    fun hstrict => List.forall_mem_append.mpr ⟨hes.filled hstrict, hds.filled hstrict⟩⟩

lemma Fit.of_subset (hes : Fit f strict es) (h : ds ⊆ es) : Fit f strict ds :=
  ⟨fun e he => hes.exact e (h he), fun hstrict e he => hes.filled hstrict e (h he)⟩

lemma Fit.of_isFilled (hes : ∀ e ∈ es, Exact f strict e) (hfilled : ∀ e ∈ es, e.isFilled = true) : Fit f strict es :=
  ⟨hes, fun _ => hfilled⟩

/-- The children of what is made are fit to be children again. -/
lemma Exact.fit (ha : Exact f strict a) : Fit f strict a.children := by
  cases ha with
  | empty => exact ⟨by simp [Element.children], by simp [Element.children]⟩
  | token => exact ⟨by simp [Element.children], by simp [Element.children]⟩
  | node hfilled hcs => exact ⟨hcs, hfilled⟩

/-- What was made strictly was made. -/
lemma Exact.relax (ha : Exact f strict a) : Exact f false a := by
  induction ha with
  | empty => exact .empty
  | token => exact .token
  | node _ _ ih => exact .node nofun ih

lemma Fit.ofChildren (hcs : Fit f strict cs) (k : Kind) : Exact f strict (ofChildren f k cs) :=
  .node hcs.filled hcs.exact

lemma Exact.ofFilled (k : Kind) (hes : ∀ e ∈ es, Exact f strict e) : Exact f strict (ofFilled f k es) :=
  Fit.ofChildren (.of_isFilled (fun c hc => hes c (List.mem_of_mem_filter hc)) fun _ hc => List.of_mem_filter hc) k

lemma replaceChild_eq_ok {index : Int} (h : replaceChild f k cs index e = .ok c) :
    e.isFilled = true ∧ c = .ofChildren f k (cs.set index.toNat e) := by
  unfold replaceChild at h
  split_ifs at h with _ hfilled
  cases h
  exact ⟨by simpa using hfilled, rfl⟩

/-- A splice is refused if its ends are out of order or out of range, or an element is empty; only then. -/
lemma splice_eq_ok_iff {start stop : Int} : splice f k cs start stop es = .ok c ↔
    0 ≤ start ∧ start ≤ stop ∧ stop ≤ cs.length ∧ (∀ e ∈ es, e.isFilled = true) ∧
      c = .ofChildren f k (cs.take start.toNat ++ es ++ cs.drop stop.toNat) := by
  unfold splice
  split_ifs with hrange hempty
  · simp only [false_iff]
    omega
  · obtain ⟨e, he, hnot⟩ := List.any_eq_true.mp hempty
    simp only [false_iff]
    rintro ⟨-, -, -, hall, -⟩
    simp [hall e he] at hnot
  · have hfilled : ∀ e ∈ es, e.isFilled = true := by simpa using hempty
    rw [Except.ok.injEq]
    constructor
    · intro hc
      exact ⟨by omega, by omega, by omega, hfilled, hc.symm⟩
    · rintro ⟨-, -, -, -, hc⟩
      exact hc.symm

lemma removeChild_eq_ok {index : Int} (h : removeChild f k cs index = .ok c) :
    splice f k cs index (index + 1) [] = .ok c := by
  unfold removeChild at h
  split_ifs at h
  exact h

lemma Exact.splice {start stop : Int} (ha : Exact f strict (.node h k cs offsets n))
    (hes : ∀ e ∈ es, Exact f strict e) (hsplice : splice f k cs start stop es = .ok c) : Exact f strict c := by
  obtain ⟨-, -, -, hfilled, rfl⟩ := splice_eq_ok_iff.mp hsplice
  have hbefore := ha.fit.of_subset (List.take_subset start.toNat cs)
  have hafter := ha.fit.of_subset (List.drop_subset stop.toNat cs)
  exact ((hbefore.append (.of_isFilled hes hfilled)).append hafter).ofChildren k

lemma Exact.replaceChild {index : Int} (ha : Exact f strict (.node h k cs offsets n)) (he : Exact f strict e)
    (hreplace : replaceChild f k cs index e = .ok c) : Exact f strict c := by
  obtain ⟨hfilled, rfl⟩ := replaceChild_eq_ok hreplace
  have hnew : Fit f strict [e] := .of_isFilled (by simpa using he) (by simpa using hfilled)
  have hsub : cs.set index.toNat e ⊆ [e] ++ cs := by
    intro c hc
    rcases List.mem_or_eq_of_mem_set hc with hc | rfl
    · exact List.mem_cons_of_mem e hc
    · exact List.mem_cons_self
  exact ((hnew.append ha.fit).of_subset hsub).ofChildren k

end Making

section Measure

lemma layOut_snd (start : Nat) (es : List Element) : (layOut start es).2 = start + (es.map length).sum := by
  induction es generalizing start with
  | nil => rfl
  | cons e es ih => simp only [layOut, ih, List.map_cons, List.sum_cons, Nat.add_assoc]

lemma length_layOut (start : Nat) (es : List Element) : (layOut start es).1.length = es.length := by
  induction es generalizing start with
  | nil => rfl
  | cons e es ih => simp only [layOut, List.length_cons, ih]

/-- Each element starts where those before it end. -/
lemma getElem?_layOut {j : Nat} (start : Nat) (hj : j < es.length) :
    (layOut start es).1[j]? = some (start + ((es.take j).map length).sum) := by
  induction es generalizing start j with
  | nil => cases hj
  | cons e es ih =>
    cases j with
    | zero => rfl
    | succ j =>
      simp only [layOut, List.getElem?_cons_succ, ih _ (Nat.lt_of_succ_lt_succ hj), List.take_succ_cons,
        List.map_cons, List.sum_cons, Nat.add_assoc]

end Measure

section Text

/-- No node in an element has an empty child, and it is not empty itself. -/
inductive Whole : Element → Prop
  | token {h : UInt64} {k : Kind} {s : Bytes} : Whole (.token h k s)
  | node {h : UInt64} {k : Kind} {cs : List Element} {offsets : List Nat} {n : Nat}
      (children : ∀ c ∈ cs, Whole c) : Whole (.node h k cs offsets n)

lemma whole_node_iff : Whole (.node h k cs offsets n) ↔ ∀ c ∈ cs, Whole c :=
  ⟨fun hwhole => by cases hwhole; assumption, .node⟩

lemma Exact.whole (ha : Exact f true a) (hfilled : a.isFilled = true) : Whole a := by
  induction ha with
  | empty => cases hfilled
  | token => exact .token
  | node hcs _ ih => exact .node fun c hc => ih c hc (hcs rfl c hc)

/-- A traversal comes through exactly if there is no empty child ahead. -/
lemma isSome_leavesFrom?_iff (stack : List (List Element)) :
    (leavesFrom? stack).isSome = true ↔ ∀ cs ∈ stack, ∀ c ∈ cs, Whole c := by
  fun_induction leavesFrom? stack with
  | case1 => simp
  | case2 stack ih => simp [ih]
  | case3 cs stack =>
    simp only [Option.isSome_none, Bool.false_eq_true, List.forall_mem_cons, false_iff]
    rintro ⟨⟨hempty, -⟩, -⟩
    cases hempty
  | case4 h k s cs stack ih =>
    have htoken : Whole (.token h k s) := .token
    simp only [Option.isSome_map, ih, List.forall_mem_cons, htoken, true_and]
  | case5 h k ds offsets n cs stack ih =>
    simp only [ih, List.forall_mem_cons, whole_node_iff, and_assoc]

lemma isSome_text?_iff (h : e.isNode = true) : e.text?.isSome = true ↔ Whole e := by
  cases e with
  | empty => cases h
  | token h k s => cases h
  | node h k cs offsets n =>
    rw [text?, Option.isSome_map, leaves?, isSome_leavesFrom?_iff, List.forall_mem_singleton, whole_node_iff]

end Text

end Element

namespace Written

variable {σ ε : Type} {taken : σ → Bytes} {s : σ} {text later : Bytes} {w next : Written σ ε}

/-- What an output promises when a text is written to it: it takes a start of the text, as long as it says, and the
whole text unless it fails. -/
structure Faithful (taken : σ → Bytes) (s : σ) (text : Bytes) (w : Written σ ε) : Prop where
  count_le : w.count ≤ text.length
  taken_eq : taken w.state = taken s ++ text.take w.count
  whole : w.failure = none → w.count = text.length

/-- An output that does as promised, whatever is written to it. -/
def Reliable (taken : σ → Bytes) (write : σ → Bytes → Written σ ε) : Prop :=
  ∀ s text, (write s text).Faithful taken s text

lemma faithful_nil (taken : σ → Bytes) (s : σ) : (⟨0, none, s⟩ : Written σ ε).Faithful taken s [] :=
  ⟨Nat.le_refl 0, (List.append_nil _).symm, fun _ => rfl⟩

/-- A text is written after one that was taken as a whole. -/
lemma Faithful.append (hw : w.Faithful taken s text) (hnone : w.failure = none)
    (hnext : next.Faithful taken w.state later) :
    ({ next with count := w.count + next.count } : Written σ ε).Faithful taken s (text ++ later) := by
  have hcount := hw.whole hnone
  refine ⟨?_, ?_, fun hwhole => ?_⟩
  · rw [List.length_append, hcount]
    exact Nat.add_le_add_left hnext.count_le _
  · rw [hnext.taken_eq, hw.taken_eq, hcount, List.take_length, List.take_length_add_append, List.append_assoc]
  · rw [List.length_append, hcount, hnext.whole hwhole]

/-- Nothing is written after a failure. -/
lemma Faithful.of_failure (hw : w.Faithful taken s text) (hfailure : w.failure ≠ none) (later : Bytes) :
    w.Faithful taken s (text ++ later) := by
  refine ⟨?_, ?_, fun hnone => absurd hnone hfailure⟩
  · rw [List.length_append]
    exact Nat.le_add_right_of_le hw.count_le
  · rw [List.take_append_of_le_length hw.count_le]
    exact hw.taken_eq

end Written

namespace BoundedOutput

variable {o : BoundedOutput} {text : Bytes}

lemma failure_write : (o.write text).failure = none ↔ text.length ≤ o.room := by
  simp [write]

lemma reliable_write : Written.Reliable taken write := fun o text =>
  { count_le := Nat.min_le_right _ _
    taken_eq := by rw [write, ← List.take_eq_take_min]
    whole := fun hnone => Nat.min_eq_right (failure_write.mp hnone) }

/-- What fits may be written in two parts. -/
lemma write_append (h : text.length ≤ o.room) (later : Bytes) :
    o.write (text ++ later) =
      { (o.write text).state.write later with
        count := (o.write text).count + ((o.write text).state.write later).count } := by
  have hroom : o.room < text.length + later.length ↔ o.room - text.length < later.length := by omega
  have htake : (text ++ later).take o.room = text ++ later.take (o.room - text.length) := by
    rw [List.take_append, List.take_of_length_le h]
  simp only [write, List.length_append, hroom, htake, List.take_of_length_le h, List.append_assoc, Nat.sub_add_eq,
    Written.mk.injEq, and_true]
  omega

/-- What comes after a text that does not fit makes no difference. -/
lemma write_append_of_lt (h : o.room < text.length) (later : Bytes) : o.write (text ++ later) = o.write text := by
  have hlt : o.room < text.length + later.length := Nat.lt_add_right _ h
  simp only [write, List.length_append, h, hlt, if_true, List.take_append_of_le_length (Nat.le_of_lt h),
    Written.mk.injEq, mk.injEq, true_and, and_true]
  omega

end BoundedOutput

namespace Element

section Output

variable {σ ε : Type} {s : σ} {e : Element} {stack : List (List Element)} {ls : List Leaf} {text : Bytes}
  {taken : σ → Bytes} {write : σ → Bytes → Written σ ε}

/-- What a list of tokens comes to if they are handed over until no more are wanted. -/
def receiveAll (receive : σ → Leaf → σ × Bool) (s : σ) : List Leaf → σ
  | [] => s
  | l :: ls =>
    let next := receive s l
    if next.2 then receiveAll receive next.1 ls else next.1

/-- The tokens that are handed over are those of the traversal that collects them. -/
lemma yieldFrom?_eq_some (receive : σ → Leaf → σ × Bool) (h : leavesFrom? stack = some ls) :
    yieldFrom? receive s stack = some (receiveAll receive s ls) := by
  fun_induction leavesFrom? stack generalizing s ls with
  | case1 =>
    cases h
    rw [yieldFrom?, receiveAll]
  | case2 stack ih => rw [yieldFrom?, ih h]
  | case3 cs stack => cases h
  | case4 h k text cs stack ih =>
    obtain ⟨later, hlater, rfl⟩ := Option.map_eq_some_iff.mp h
    rw [yieldFrom?, receiveAll, ih hlater]
    exact (apply_ite some _ _ _).symm
  | case5 h k ds offsets n cs stack ih => rw [yieldFrom?, ih h]

lemma writeTo?_eq_some (write : σ → Bytes → Written σ ε) (s : σ) (hnode : e.isNode = true) (h : e.leaves? = some ls) :
    e.writeTo? write s = some (receiveAll (Written.push write) ⟨0, none, s⟩ ls) := by
  cases e with
  | empty => cases hnode
  | token h k text => cases hnode
  | node h k cs offsets n => exact yieldFrom?_eq_some _ h

/-- What has been written stays a start of the text when tokens are written after it. -/
lemma faithful_receiveAll {w : Written σ ε} (hwrite : Written.Reliable taken write) (hw : w.Faithful taken s text)
    (hnone : w.failure = none) (ls : List Leaf) :
    (receiveAll (Written.push write) w ls).Faithful taken s (text ++ ls.flatMap Leaf.text) := by
  induction ls generalizing w text with
  | nil =>
    rw [receiveAll, List.flatMap_nil, List.append_nil]
    exact hw
  | cons l ls ih =>
    have hnext := hw.append hnone (hwrite w.state l.text)
    rw [receiveAll, List.flatMap_cons, ← List.append_assoc]
    split_ifs with hgoOn
    · exact ih hnext (Option.isNone_iff_eq_none.mp hgoOn)
    · exact hnext.of_failure (fun hnone => hgoOn (Option.isNone_iff_eq_none.mpr hnone)) _

/-- Written to an output that does as outputs promise, an element leaves a start of its text there, as long as is said,
and the whole text if nothing fails. -/
theorem writeTo?_faithful (hwrite : Written.Reliable taken write) (s : σ) (hnode : e.isNode = true)
    (h : e.text? = some text) : ∃ w, e.writeTo? write s = some w ∧ w.Faithful taken s text := by
  obtain ⟨ls, hls, rfl⟩ := Option.map_eq_some_iff.mp h
  exact ⟨_, writeTo?_eq_some write s hnode hls, faithful_receiveAll hwrite (Written.faithful_nil taken s) rfl ls⟩

lemma receiveAll_write {o : BoundedOutput} (hfits : text.length ≤ o.room) (ls : List Leaf) :
    receiveAll (Written.push BoundedOutput.write) (o.write text) ls = o.write (text ++ ls.flatMap Leaf.text) := by
  induction ls generalizing text with
  | nil => rw [receiveAll, List.flatMap_nil, List.append_nil]
  | cons l ls ih =>
    have hpush : (Written.push BoundedOutput.write (o.write text) l).1 = o.write (text ++ l.text) :=
      (BoundedOutput.write_append hfits l.text).symm
    have hgoOn : (Written.push BoundedOutput.write (o.write text) l).2 = true ↔ (text ++ l.text).length ≤ o.room := by
      rw [← BoundedOutput.failure_write, ← hpush]
      exact Option.isNone_iff_eq_none
    rw [receiveAll, hpush, List.flatMap_cons, ← List.append_assoc]
    split_ifs with h
    · exact ih (hgoOn.mp h)
    · exact (BoundedOutput.write_append_of_lt (Nat.lt_of_not_le (h ∘ hgoOn.mpr)) _).symm

/-- It makes no difference to an output with limited room whether the text of an element comes token by token or at
once. -/
theorem writeTo?_bounded (o : BoundedOutput) (hnode : e.isNode = true) (h : e.text? = some text) :
    e.writeTo? BoundedOutput.write o = some (o.write text) := by
  obtain ⟨ls, hls, rfl⟩ := Option.map_eq_some_iff.mp h
  have hstart : o.write [] = ⟨0, none, o⟩ := by simp [BoundedOutput.write]
  rw [writeTo?_eq_some _ _ hnode hls, ← hstart]
  exact congrArg some (receiveAll_write (Nat.zero_le _) ls)

end Output

end Element
end LosslessTree
