import LosslessTree.Text.Path
import Mathlib.Data.List.Basic
import Mathlib.Data.List.TakeWhile
import Mathlib.Tactic.Common

/-! Texts cut at a separator and joined again, and what paths make of them: a clean absolute path is the text of
the names on it. -/
namespace LosslessTree

namespace Bytes

variable {sep : UInt8} {a b piece : Bytes} {pieces : List Bytes}

lemma split_ne_nil (sep : UInt8) (b : Bytes) : split sep b ≠ [] := by
  cases b with
  | nil => exact List.cons_ne_nil _ _
  | cons x b =>
    rw [split]
    split <;> exact List.cons_ne_nil _ _

lemma split_append (sep : UInt8) (a b : Bytes) : split sep (a ++ sep :: b) = split sep a ++ split sep b := by
  induction a with
  | nil => simp [split]
  | cons x a ih =>
    obtain ⟨first, rest, hsplit⟩ := List.exists_cons_of_ne_nil (split_ne_nil sep a)
    by_cases hx : (x == sep) = true
    · simp [split, hx, ih]
    · simp [split, hx, ih, hsplit]

lemma split_eq_singleton (h : sep ∉ a) : split sep a = [a] := by
  induction a with
  | nil => rfl
  | cons x a ih =>
    obtain ⟨hx, ha⟩ := not_or.mp (mt List.mem_cons.mpr h)
    simp [split, ih ha, Ne.symm hx]

lemma join_cons (piece : Bytes) (hne : pieces ≠ []) :
    join [sep] (piece :: pieces) = piece ++ sep :: join [sep] pieces := by
  cases pieces with
  | nil => exact absurd rfl hne
  | cons next rest => simp [join]

lemma split_join (h : ∀ piece ∈ pieces, sep ∉ piece) (hne : pieces ≠ []) :
    split sep (join [sep] pieces) = pieces := by
  induction pieces with
  | nil => exact absurd rfl hne
  | cons piece rest ih =>
    obtain ⟨hpiece, hrest⟩ := List.forall_mem_cons.mp h
    by_cases hmore : rest = []
    · subst hmore
      exact split_eq_singleton hpiece
    · rw [join_cons piece hmore, split_append, split_eq_singleton hpiece, ih hrest hmore]
      rfl

lemma not_mem_of_mem_split (h : piece ∈ split sep b) : sep ∉ piece := by
  induction b generalizing piece with
  | nil =>
    rw [List.mem_singleton.mp h]
    exact List.not_mem_nil
  | cons x b ih =>
    obtain ⟨first, rest, hsplit⟩ := List.exists_cons_of_ne_nil (split_ne_nil sep b)
    rw [split, hsplit] at h
    rw [hsplit] at ih
    by_cases hx : (x == sep) = true
    · rw [if_pos hx] at h
      rcases List.mem_cons.mp h with rfl | h
      · exact List.not_mem_nil
      · exact ih h
    · rw [if_neg hx] at h
      rcases List.mem_cons.mp h with rfl | h
      · have hne : sep ≠ x := fun heq => hx (beq_iff_eq.mpr heq.symm)
        exact fun hmem => (List.mem_cons.mp hmem).elim hne (ih List.mem_cons_self)
      · exact ih (List.mem_cons_of_mem _ h)

lemma mem_join {x : UInt8} (h : x ∈ join [sep] pieces) : x = sep ∨ ∃ piece ∈ pieces, x ∈ piece := by
  induction pieces with
  | nil => cases h
  | cons piece rest ih =>
    by_cases hmore : rest = []
    · subst hmore
      exact .inr ⟨piece, List.mem_cons_self, h⟩
    · rw [join_cons piece hmore, List.mem_append, List.mem_cons] at h
      rcases h with h | rfl | h
      · exact .inr ⟨piece, List.mem_cons_self, h⟩
      · exact .inl rfl
      · exact (ih h).imp_right fun ⟨piece, hpiece, hx⟩ => ⟨piece, List.mem_cons_of_mem _ hpiece, hx⟩

lemma join_concat (hne : pieces ≠ []) (piece : Bytes) :
    join [sep] (pieces ++ [piece]) = join [sep] pieces ++ sep :: piece := by
  induction pieces with
  | nil => exact absurd rfl hne
  | cons first rest ih =>
    by_cases hmore : rest = []
    · subst hmore
      exact join_cons first (List.cons_ne_nil _ _)
    · rw [List.cons_append, join_cons first (List.append_ne_nil_of_left_ne_nil hmore _), ih hmore,
        join_cons first hmore, List.append_assoc, List.cons_append]

end Bytes

namespace Path

/-- A name that means an entry of a directory. -/
structure IsName (name : Bytes) : Prop where
  ne_nil : name ≠ []
  ne_here : name ≠ [0x2E]
  ne_up : name ≠ [0x2E, 0x2E]
  inside : separator ∉ name

instance (name : Bytes) : Decidable (IsName name) :=
  decidable_of_iff (name ≠ [] ∧ name ≠ [0x2E] ∧ name ≠ [0x2E, 0x2E] ∧ separator ∉ name)
    ⟨fun ⟨hnil, hhere, hup, hinside⟩ => ⟨hnil, hhere, hup, hinside⟩,
      fun h => ⟨h.ne_nil, h.ne_here, h.ne_up, h.inside⟩⟩

variable {names parts done : List Bytes} {name path : Bytes}

/-- Names are taken as they are. -/
lemma cleanComponents_append (rooted : Bool) (done parts : List Bytes) (h : ∀ name ∈ names, IsName name) :
    cleanComponents rooted done (names ++ parts) = cleanComponents rooted (names.reverse ++ done) parts := by
  induction names generalizing done with
  | nil => rfl
  | cons name names ih =>
    obtain ⟨hname, hnames⟩ := List.forall_mem_cons.mp h
    simp [cleanComponents, hname.ne_nil, hname.ne_here, hname.ne_up, ih _ hnames]

lemma cleanComponents_names (rooted : Bool) (done : List Bytes) (h : ∀ name ∈ names, IsName name) :
    cleanComponents rooted done names = done.reverse ++ names := by
  simpa [cleanComponents] using cleanComponents_append rooted done [] h

lemma cleanComponents_nil_cons (rooted : Bool) (done parts : List Bytes) :
    cleanComponents rooted done ([] :: parts) = cleanComponents rooted done parts := by
  simp [cleanComponents]

/-- What is left of a rooted path are names. -/
lemma isName_of_mem_cleanComponents (hdone : ∀ name ∈ done, IsName name)
    (hparts : ∀ part ∈ parts, separator ∉ part) :
    ∀ name ∈ cleanComponents true done parts, IsName name := by
  fun_induction cleanComponents true done parts with
  | case1 done => simpa using hdone
  | case2 done part parts hskip ih => exact ih hdone (List.forall_mem_cons.mp hparts).2
  | case3 parts before hskip ih => exact absurd rfl (List.forall_mem_cons.mp hdone).1.ne_up
  | case4 parts last before hlast hskip ih =>
    exact ih (List.forall_mem_cons.mp hdone).2 (List.forall_mem_cons.mp hparts).2
  | case5 parts hskip ih => exact ih (List.forall_mem_nil _) (List.forall_mem_cons.mp hparts).2
  | case6 done part parts hskip hup ih =>
    obtain ⟨hpart, hparts⟩ := List.forall_mem_cons.mp hparts
    rw [List.isEmpty_iff, not_or] at hskip
    exact ih (List.forall_mem_cons.mpr ⟨⟨hskip.1, hskip.2, hup, hpart⟩, hdone⟩) hparts

lemma trimRight_of_getLast? {text : Bytes} (h : text.getLast? ≠ some separator) :
    Bytes.trimRight (· == separator) text = text := by
  unfold Bytes.trimRight
  rw [← List.head?_reverse] at h
  cases hreverse : text.reverse with
  | nil => simpa using hreverse.symm
  | cons b rest =>
    have hb : ¬ (b == separator) = true := by
      rw [hreverse] at h
      simpa using h
    rw [List.dropWhile_cons_of_neg (p := (· == separator)) hb, ← hreverse, List.reverse_reverse]

lemma base_eq (hne : path ≠ []) (h : path.getLast? ≠ some separator) :
    base path = (path.reverse.takeWhile (· != separator)).reverse := by
  simp [base, hne, trimRight_of_getLast? h]

lemma bne_separator (h : separator ∉ name) : ∀ b ∈ name.reverse, (b != separator) = true := by
  intro b hb
  rw [bne_iff_ne]
  rintro rfl
  exact h (List.mem_reverse.mp hb)

/-- What stands behind the last separator. -/
lemma takeWhile_reverse_append (h : separator ∉ name) (path : Bytes) :
    ((path ++ separator :: name).reverse.takeWhile (· != separator)).reverse = name := by
  rw [List.reverse_append, List.reverse_cons, List.append_assoc, List.takeWhile_append_of_pos (bne_separator h),
    List.singleton_append, List.takeWhile_cons_of_neg (by simp), List.append_nil, List.reverse_reverse]

/-- The directory is what stands before the last separator. -/
lemma dir_append (h : separator ∉ name) (path : Bytes) :
    dir (path ++ separator :: name) = clean (path ++ [separator]) := by
  have hlength := congrArg List.length (takeWhile_reverse_append h path)
  rw [List.length_reverse] at hlength
  have hsplit : path ++ separator :: name = path ++ [separator] ++ name := by simp
  rw [dir, hlength, hsplit, List.length_append, Nat.add_sub_cancel, List.take_left]

/-- The last component is the name after the last separator. -/
lemma base_append (h : IsName name) (path : Bytes) : base (path ++ separator :: name) = name := by
  have hlast : (path ++ separator :: name).getLast? ≠ some separator := by
    obtain ⟨before, last, rfl⟩ := (List.eq_nil_or_concat' name).resolve_left h.ne_nil
    rw [← List.cons_append, ← List.append_assoc, List.getLast?_concat]
    rintro ⟨⟩
    exact h.inside (List.mem_append_right _ List.mem_cons_self)
  rw [base_eq (by simp) hlast, takeWhile_reverse_append h.inside]

/-- The extension is that of the last component. -/
lemma extension_append (h : IsName name) (path : Bytes) : extension (path ++ separator :: name) = extension name := by
  have hname : (name.reverse.takeWhile (· != separator)).reverse = name := by
    have hall : name.reverse.takeWhile (· != separator) = name.reverse :=
      List.takeWhile_eq_self_iff.mpr (bne_separator h.inside)
    rw [hall, List.reverse_reverse]
  rw [extension, extension, takeWhile_reverse_append h.inside, hname]

end Path
end LosslessTree
