import LosslessTree.Proofs.Cursor.Navigation
import LosslessTree.Proofs.Edit.Tree
import Mathlib.Data.List.Sort

/-! Batches of edits. A batch is taken exactly if each edit lies in the text and no two of them are in each
other's way, so the order in which they are given does not matter. Its edits are made from the last to
the first, each where the text is still the one before; the tokens of a tree give the same text. -/
namespace LosslessTree.TextEdit

variable {a b c e : TextEdit} {edits others sorted : List TextEdit} {length low : Nat}

/-- Edits that start at different offsets, the one in front ending where the other starts, or before. -/
structure Apart (a b : TextEdit) : Prop where
  starts : a.range.start ≠ b.range.start
  before : a.range.start < b.range.start → a.range.stop ≤ b.range.start
  after : b.range.start < a.range.start → b.range.stop ≤ a.range.start

/-- The edits at any two positions of the batch are apart. -/
def ConflictFree (edits : List TextEdit) : Prop :=
  ∀ (i j : Nat) (a b : TextEdit), i ≠ j → edits[i]? = some a → edits[j]? = some b → Apart a b

/-- The first edit starts in front of the second, and ends before it. -/
structure Precedes (a b : TextEdit) : Prop where
  start : a.range.start < b.range.start
  stop : a.range.stop ≤ b.range.start

/-- Each edit starts behind the one before it. -/
def Ascending (edits : List TextEdit) : Prop := edits.Pairwise fun a b => a.range.start < b.range.start

lemma Apart.symm (h : Apart a b) : Apart b a := ⟨h.starts.symm, h.after, h.before⟩

lemma Apart.precedes (h : Apart a b) (hle : a.range.start ≤ b.range.start) : Precedes a b := by
  have hlt := Int.lt_iff_le_and_ne.mpr ⟨hle, h.starts⟩
  exact ⟨hlt, h.before hlt⟩

lemma Precedes.apart (h : Precedes a b) : Apart a b :=
  ⟨Int.ne_of_lt h.start, fun _ => h.stop, fun hba => absurd h.start (Int.not_lt.mpr (Int.le_of_lt hba))⟩

lemma Precedes.trans (h : Precedes a b) (h' : Precedes b c) : Precedes a c :=
  ⟨Int.lt_trans h.start h'.start, Int.le_trans h.stop (Int.le_of_lt h'.start)⟩

instance : Trans Precedes Precedes Precedes := ⟨Precedes.trans⟩

instance (a b : TextEdit) : Decidable (Apart a b) :=
  decidable_of_iff (a.range.start ≠ b.range.start ∧
    (a.range.start < b.range.start → a.range.stop ≤ b.range.start) ∧
    (b.range.start < a.range.start → b.range.stop ≤ a.range.start))
    ⟨fun h => ⟨h.1, h.2.1, h.2.2⟩, fun h => ⟨h.starts, h.before, h.after⟩⟩

lemma conflictFree_iff_pairwise : ConflictFree edits ↔ edits.Pairwise Apart := by
  rw [List.pairwise_iff_getElem]
  constructor
  · intro h i j hi hj hij
    exact h i j _ _ (Nat.ne_of_lt hij) (List.getElem?_eq_getElem hi) (List.getElem?_eq_getElem hj)
  · intro h i j a b hij hi hj
    obtain ⟨hilt, rfl⟩ := List.getElem?_eq_some_iff.mp hi
    obtain ⟨hjlt, rfl⟩ := List.getElem?_eq_some_iff.mp hj
    rcases Nat.lt_or_gt_of_ne hij with hlt | hgt
    · exact h i j hilt hjlt hlt
    · exact (h j i hjlt hilt hgt).symm

/-- Looking at neighbours finds every conflict: what precedes its neighbour precedes all that follow. -/
lemma conflict?_eq_none_iff (h : ∀ e ∈ edits, Fits length e) :
    conflict? edits = none ↔ edits.Pairwise Precedes := by
  rw [← List.isChain_iff_pairwise]
  fun_induction conflict? edits with
  | case1 a b rest hoverlap =>
    simp only [reduceCtorEq, List.isChain_cons_cons, false_iff, not_and]
    rintro ⟨hstart, hstop⟩
    omega
  | case2 a b rest hfree ih =>
    obtain ⟨⟨-, horder, -⟩, hrest⟩ := List.forall_mem_cons.mp h
    have hprecedes : Precedes a b := ⟨by omega, by omega⟩
    rw [ih hrest, List.isChain_cons_cons, and_iff_right hprecedes]
  | case3 edits hshort =>
    rw [eq_self, true_iff]
    rcases edits with _ | ⟨a, _ | ⟨b, rest⟩⟩
    · exact .nil
    · exact .singleton a
    · exact (hshort a b rest rfl).elim

/-- Edits that are apart follow each other once they are sorted. -/
lemma precedes_mergeSort (h : edits.Pairwise Apart) : (edits.mergeSort le).Pairwise Precedes := by
  have htrans : ∀ a b c : TextEdit, le a b = true → le b c = true → le a c = true := by
    simp only [le, Bool.or_eq_true, Bool.and_eq_true, beq_iff_eq, decide_eq_true_eq]
    omega
  have htotal : ∀ a b : TextEdit, (le a b || le b a) = true := by
    simp only [le, Bool.or_eq_true, Bool.and_eq_true, beq_iff_eq, decide_eq_true_eq]
    omega
  have hsorted := List.pairwise_mergeSort htrans htotal edits
  have hapart := ((List.mergeSort_perm edits le).pairwise_iff Apart.symm).mpr h
  refine (hsorted.and hapart).imp fun {a b} ⟨hle, hab⟩ => hab.precedes ?_
  simp only [le, Bool.or_eq_true, Bool.and_eq_true, beq_iff_eq, decide_eq_true_eq] at hle
  omega

lemma ascending_of_precedes (h : edits.Pairwise Precedes) : Ascending edits := h.imp Precedes.start

/-- There is one way to sort edits by where they start. -/
lemma Ascending.unique (h : Ascending edits) (h' : Ascending others) (hperm : edits.Perm others) :
    edits = others := by
  refine List.Perm.eq_of_pairwise (fun a b _ _ hab hba => ?_) h h' hperm
  exact absurd hab (Int.not_lt.mpr (Int.le_of_lt hba))

/-- What is taken are edits that fit and are apart, and what comes out is the one way to sort them. -/
theorem prepare_eq_ok_iff : prepare edits length = .ok sorted ↔
    (∀ e ∈ edits, Fits length e) ∧ ConflictFree edits ∧ sorted.Perm edits ∧ Ascending sorted := by
  have hperm : (edits.mergeSort le).Perm edits := List.mergeSort_perm edits le
  have hfits' (hfits : ∀ e ∈ edits, Fits length e) : ∀ e ∈ edits.mergeSort le, Fits length e :=
    fun e he => hfits e (hperm.mem_iff.mp he)
  rw [conflictFree_iff_pairwise]
  unfold prepare
  constructor
  · intro h
    split at h
    · cases h
    · next hvalid =>
      have hfits := validate_eq_ok_iff.mp hvalid
      dsimp only at h
      split at h
      · cases h
      · next hfree =>
        cases h
        have hprecedes := (conflict?_eq_none_iff (hfits' hfits)).mp hfree
        have hapart := (hperm.pairwise_iff Apart.symm).mp (hprecedes.imp Precedes.apart)
        exact ⟨hfits, hapart, hperm, ascending_of_precedes hprecedes⟩
  · rintro ⟨hfits, hapart, hsorted, hascending⟩
    have hprecedes := precedes_mergeSort hapart
    have hsame := hascending.unique (ascending_of_precedes hprecedes) (hsorted.trans hperm.symm)
    rw [validate_eq_ok_iff.mpr hfits]
    dsimp only
    rw [(conflict?_eq_none_iff (hfits' hfits)).mpr hprecedes, hsame]

/-- Edits that fit and are apart are taken. -/
lemma exists_prepare_iff : (∃ sorted, prepare edits length = .ok sorted) ↔
    (∀ e ∈ edits, Fits length e) ∧ ConflictFree edits := by
  constructor
  · rintro ⟨sorted, h⟩
    obtain ⟨hfits, hfree, -⟩ := prepare_eq_ok_iff.mp h
    exact ⟨hfits, hfree⟩
  · rintro ⟨hfits, hfree⟩
    have hprecedes := precedes_mergeSort (conflictFree_iff_pairwise.mp hfree)
    exact ⟨_, prepare_eq_ok_iff.mpr
      ⟨hfits, hfree, List.mergeSort_perm edits le, ascending_of_precedes hprecedes⟩⟩

section Order
variable {ε α : Type}

lemma toOption_eq_some_iff {x : Except ε α} {a : α} : x.toOption = some a ↔ x = .ok a := by
  cases x <;> simp [Except.toOption]

lemma toOption_applyText (content : Bytes) (edits : List TextEdit) :
    (applyText content edits).toOption = (prepare edits content.length).toOption.map (splice content 0) := by
  unfold applyText
  cases prepare edits content.length <;> rfl

lemma toOption_applyAll (root : Tree) (edits : List TextEdit) (relex? : Option (Bytes → Option Kind)) :
    (applyAll root edits relex?).toOption = (prepare edits root.length).toOption.bind fun sorted =>
      (applySorted root relex? sorted).toOption := by
  unfold applyAll
  cases prepare edits root.length <;> rfl

/-- A batch is prepared alike in whatever order it is given. -/
lemma toOption_prepare_perm (h : others.Perm edits) (length : Nat) :
    (prepare others length).toOption = (prepare edits length).toOption := by
  have hfits : (∀ e ∈ others, Fits length e) ↔ ∀ e ∈ edits, Fits length e := by
    simp only [h.mem_iff]
  have hfree : ConflictFree others ↔ ConflictFree edits := by
    rw [conflictFree_iff_pairwise, conflictFree_iff_pairwise]
    exact h.pairwise_iff Apart.symm
  have hsorted (sorted : List TextEdit) : sorted.Perm others ↔ sorted.Perm edits :=
    ⟨fun hs => hs.trans h, fun hs => hs.trans h.symm⟩
  ext sorted
  rw [toOption_eq_some_iff, toOption_eq_some_iff, prepare_eq_ok_iff, prepare_eq_ok_iff, hfits, hfree, hsorted]

end Order

/-- A batch is taken exactly if its edits lie in the text and those at any two positions are apart. Then it
is put into the one order in which each edit starts behind the one before. Whether a batch is taken, by
itself, for a text or for a tree, and what comes of it, is the same for every order it is given in. -/
theorem prepare_exact (edits : List TextEdit) (length : Nat) :
    ((∃ sorted, prepare edits length = .ok sorted) ↔
      (∀ e ∈ edits, 0 ≤ e.range.start ∧ e.range.start ≤ e.range.stop ∧ e.range.stop ≤ length) ∧
        ConflictFree edits) ∧
    (∀ sorted, prepare edits length = .ok sorted → sorted.Perm edits ∧ Ascending sorted ∧
      ∀ others, others.Perm edits → Ascending others → others = sorted) ∧
    ∀ others, others.Perm edits →
      (prepare others length).toOption = (prepare edits length).toOption ∧
      (∀ content, (applyText content others).toOption = (applyText content edits).toOption) ∧
      ∀ root relex?, (applyAll root others relex?).toOption = (applyAll root edits relex?).toOption := by
  refine ⟨exists_prepare_iff, fun sorted h => ?_, fun others h => ?_⟩
  · obtain ⟨-, -, hperm, hascending⟩ := prepare_eq_ok_iff.mp h
    exact ⟨hperm, hascending, fun others h' ho => ho.unique hascending (h'.trans hperm.symm)⟩
  · refine ⟨toOption_prepare_perm h length, fun content => ?_, fun root relex? => ?_⟩
    · rw [toOption_applyText, toOption_applyText, toOption_prepare_perm h]
    · rw [toOption_applyAll, toOption_applyAll, toOption_prepare_perm h]

/-- An insertion may stand at the end of a range that is replaced. -/
example : prepare [⟨⟨4, 4⟩, "x"⟩, ⟨⟨2, 4⟩, "y"⟩] 6 = .ok [⟨⟨2, 4⟩, "y"⟩, ⟨⟨4, 4⟩, "x"⟩] := by cbv

/-- It may not stand at its start. -/
example : prepare [⟨⟨2, 4⟩, "y"⟩, ⟨⟨2, 2⟩, "x"⟩] 6 = .error (.overlap ⟨2, 2⟩ ⟨2, 4⟩) := by cbv

/-- Ranges of texts that are the same up to the end of the range. -/
lemma slice?_of_take_eq {r : TextRange} {s t : Bytes} (h : s.take r.stop.toNat = t.take r.stop.toNat) :
    r.slice? s = r.slice? t := by
  have hlength := congrArg List.length h
  rw [List.length_take, List.length_take] at hlength
  unfold TextRange.slice?
  rw [h]
  have hin : (0 ≤ r.start ∧ r.start ≤ r.stop ∧ r.stop ≤ s.length) ↔
      0 ≤ r.start ∧ r.start ≤ r.stop ∧ r.stop ≤ t.length := by omega
  simp only [hin]

section Text
variable {root root' : Tree} {content : Bytes} {before after : List TextEdit}

/-- Copying a text forward, with the edits put in, is making them from the last to the first. -/
lemma foldr_put (h : Laid content.length low edits) :
    edits.foldr put content = content.take low ++ splice content low edits := by
  induction h with
  | nil bound => exact (List.take_append_drop _ content).symm
  | cons after order more ih => rw [List.foldr_cons, ih, put_take_splice after order more.le]

lemma Laid.drop (h : Laid length low (before ++ after)) : ∃ low, Laid length low after := by
  induction before generalizing low with
  | nil => exact ⟨low, h⟩
  | cons a before ih =>
    obtain _ | ⟨_, _, more⟩ := h
    exact ih more

/-- When its turn comes, an edit finds in its range what the text had there at first. -/
lemma slice?_foldr_put (h : Laid content.length low (before ++ e :: after)) :
    e.range.slice? (after.foldr put content) = e.range.slice? content := by
  obtain ⟨low, hrest⟩ := h.drop
  obtain _ | ⟨_, _, more⟩ := hrest
  have hcut : (content.take e.range.stop.toNat).length = e.range.stop.toNat := by
    rw [List.length_take, Nat.min_eq_left more.le]
  apply slice?_of_take_eq
  rw [foldr_put more, List.take_left' hcut]

/-- The text of a tree that a batch was applied to is the text that the batch was applied to. A batch that
cannot be prepared is refused by the tree and by the text for the same reason. The text itself is what the
edits make of it one by one, the last of them first: each finds in its range what was there before all
of them. -/
theorem batch_agrees (hroot : root.isNode = true) (edits : List TextEdit)
    (relex? : Option (Bytes → Option Kind)) :
    (∀ root', applyAll root edits relex? = .ok root' → applyText root.text edits = .ok root'.text) ∧
    (∀ p, prepare edits root.length = .error p →
      applyAll root edits relex? = .error p ∧ applyText root.text edits = .error p) ∧
    ∀ content sorted, prepare edits content.length = .ok sorted →
      applyText content edits = .ok (sorted.foldr put content) ∧
      ∀ before e after, sorted = before ++ e :: after → ∃ old, e.range.slice? content = some old ∧
        e.range.slice? (after.foldr put content) = some old := by
  refine ⟨fun root' h => ?_, fun p h => ?_, fun content sorted h => ⟨?_, ?_⟩⟩
  · cases htext : applyText root.text edits with
    | error p =>
      rw [(applyAll_of_error relex? htext).1] at h
      cases h
    | ok text =>
      rcases applyAll_cases relex? hroot htext with ⟨t, -, ht, -, rfl⟩ | ⟨p, hp, -⟩
      · rw [Except.ok.inj (ht.symm.trans h)]
      · cases hp.symm.trans h
  · have htext : applyText root.text edits = .error p := by
      rw [applyText, ← Tree.length_eq_length_text, h]
    exact ⟨(applyAll_of_error relex? htext).1, htext⟩
  · rw [applyText, h, foldr_put (prepare_eq_ok h)]
    rfl
  · rintro before e after rfl
    obtain ⟨hfits, -, hperm, -⟩ := prepare_eq_ok_iff.mp h
    have hin : 0 ≤ e.range.start ∧ e.range.start ≤ e.range.stop ∧ e.range.stop ≤ content.length :=
      hfits e (hperm.mem_iff.mp (by simp))
    refine ⟨_, if_pos hin, ?_⟩
    rw [slice?_foldr_put (prepare_eq_ok h)]
    exact if_pos hin

/-- The first token goes away, the last one gets longer, and between them something is put in. -/
theorem batch_agrees_crowded : Cursor.crowded.isNode = true ∧ ∃ root',
    applyAll Cursor.crowded [⟨⟨3, 3⟩, "!"⟩, ⟨⟨0, 1⟩, []⟩, ⟨⟨1, 2⟩, "de"⟩] none = .ok root' ∧
      applyText "abc" [⟨⟨3, 3⟩, "!"⟩, ⟨⟨0, 1⟩, []⟩, ⟨⟨1, 2⟩, "de"⟩] = .ok root'.text ∧
      root'.text = "dec!" := by
  let root' : Tree := .node 0 [.node 2 [.token 3 [], .node 4 [], .token 5 "dec!"]]
  have hprepare : prepare [⟨⟨3, 3⟩, "!"⟩, ⟨⟨0, 1⟩, []⟩, ⟨⟨1, 2⟩, "de"⟩] Cursor.crowded.length =
      .ok [⟨⟨0, 1⟩, []⟩, ⟨⟨1, 2⟩, "de"⟩, ⟨⟨3, 3⟩, "!"⟩] := by
    rw [prepare_eq_ok_iff, conflictFree_iff_pairwise]
    unfold Fits Ascending
    decide
  have happlied : applyAll Cursor.crowded [⟨⟨3, 3⟩, "!"⟩, ⟨⟨0, 1⟩, []⟩, ⟨⟨1, 2⟩, "de"⟩] none = .ok root' := by
    rw [applyAll, hprepare]
    decide +kernel
  have htext : Cursor.crowded.text = "abc" := by decide +kernel
  refine ⟨rfl, root', happlied, ?_, by decide +kernel⟩
  rw [← htext]
  exact (batch_agrees rfl _ none).1 root' happlied

end Text

end LosslessTree.TextEdit
