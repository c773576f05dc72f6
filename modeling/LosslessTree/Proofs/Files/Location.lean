import LosslessTree.Files.Basic
import LosslessTree.Proofs.Text.Path

/-! The text of a location. It is a clean absolute path, tells the location, and leads on to that of an entry
when a name is joined to it; every absolute path comes down to one. -/
namespace LosslessTree

/-- Names only. -/
def Location.Named (l : Location) : Prop := ∀ name ∈ l, Path.IsName name

namespace Location

variable {l m : Location} {name path : Bytes} {names : List Bytes}

lemma Named.concat (h : l.Named) (hname : Path.IsName name) : Named (l ++ [name]) :=
  List.forall_mem_append.mpr ⟨h, List.forall_mem_singleton.mpr hname⟩

@[simp] lemma isAbsolute_text (l : Location) : Path.isAbsolute l.text = true := rfl

lemma isAbsolute_text_append (l : Location) (rest : Bytes) : Path.isAbsolute (l.text ++ rest) = true := rfl

lemma text_ne_nil (l : Location) : l.text ≠ [] := List.cons_ne_nil _ _

lemma mem_text {x : UInt8} (h : x ∈ l.text) : x = Path.separator ∨ ∃ name ∈ l, x ∈ name :=
  (List.mem_cons.mp h).elim .inl Bytes.mem_join

/-- The name of an entry stands behind the last separator. -/
lemma text_concat (l : Location) (name : Bytes) :
    ∃ above, text (l ++ [name]) = above ++ Path.separator :: name := by
  by_cases hl : l = []
  · subst hl
    exact ⟨[], rfl⟩
  · exact ⟨l.text, congrArg (Path.separator :: ·) (Bytes.join_concat hl name)⟩

lemma mem_text_concat {x : UInt8} (h : x ∈ text (l ++ [name])) : x ∈ l.text ∨ x ∈ name := by
  have hsep : Path.separator ∈ l.text := List.mem_cons_self
  by_cases hl : l = []
  · subst hl
    rcases List.mem_cons.mp h with rfl | h
    · exact .inl hsep
    · exact .inr h
  · have htext : text (l ++ [name]) = l.text ++ Path.separator :: name :=
      congrArg (Path.separator :: ·) (Bytes.join_concat hl name)
    rw [htext, List.mem_append, List.mem_cons] at h
    rcases h with h | rfl | h
    · exact .inl h
    · exact .inl hsep
    · exact .inr h

lemma base_text (hname : Path.IsName name) (l : Location) : Path.base (text (l ++ [name])) = name := by
  obtain ⟨above, htext⟩ := text_concat l name
  rw [htext, Path.base_append hname]

lemma split_text (h : l.Named) : Bytes.split Path.separator l.text = [] :: if l = [] then [[]] else l := by
  have hsplit : Bytes.split Path.separator l.text =
      [] :: Bytes.split Path.separator (Bytes.join [Path.separator] l) := by
    simp [text, Bytes.split]
  rw [hsplit]
  split_ifs with hl
  · rw [hl]
    rfl
  · rw [Bytes.split_join (fun name hname => (h name hname).inside) hl]

/-- The components of the text are the names. -/
lemma components_text (h : Named (l ++ names)) :
    Path.cleanComponents true [] (Bytes.split Path.separator l.text ++ names) = l ++ names := by
  rw [split_text (List.forall_mem_append.mp h).1, List.cons_append, Path.cleanComponents_nil_cons]
  split_ifs with hl
  · rw [hl, List.singleton_append, Path.cleanComponents_nil_cons]
    exact Path.cleanComponents_names true [] (List.forall_mem_append.mp h).2
  · exact Path.cleanComponents_names true [] h

lemma text_injective (hl : l.Named) (hm : m.Named) (h : l.text = m.text) : l = m := by
  rw [← List.append_nil l] at hl
  rw [← List.append_nil m] at hm
  rw [← List.append_nil l, ← components_text hl, h, components_text hm, List.append_nil]

lemma clean_of_isAbsolute (h : Path.isAbsolute path = true) :
    Path.clean path = text (Path.cleanComponents true [] (Bytes.split Path.separator path)) := by
  rw [Path.clean, h, if_pos rfl]
  rfl

/-- A clean absolute path is the text of names. -/
lemma exists_clean_eq (h : Path.isAbsolute path = true) : ∃ l : Location, l.Named ∧ Path.clean path = l.text :=
  ⟨_, Path.isName_of_mem_cleanComponents (List.forall_mem_nil _) fun _ => Bytes.not_mem_of_mem_split,
    clean_of_isAbsolute h⟩

/-- What is joined to an absolute path stays one. -/
lemma exists_join_eq (h : Path.isAbsolute path = true) (rest : Bytes) :
    ∃ l : Location, l.Named ∧ Path.join [path, rest] = l.text := by
  obtain ⟨x, path, rfl⟩ : ∃ x more, path = x :: more := by
    cases path with
    | nil => cases h
    | cons x more => exact ⟨x, more, rfl⟩
  by_cases hrest : rest = []
  · simpa [Path.join, hrest, Bytes.join] using exists_clean_eq h
  · have hjoined : Path.isAbsolute (x :: path ++ Path.separator :: rest) = true := h
    simpa [Path.join, hrest, Bytes.join] using exists_clean_eq hjoined

/-- Joining a name to the text of a location leads to its entry of that name. -/
lemma join_text (h : l.Named) (hname : Path.IsName name) : Path.join [l.text, name] = text (l ++ [name]) := by
  have hjoin : Path.join [l.text, name] = Path.clean (l.text ++ Path.separator :: name) := by
    simp [Path.join, text_ne_nil, hname.ne_nil, Bytes.join]
  rw [hjoin, clean_of_isAbsolute (isAbsolute_text_append l _), Bytes.split_append,
    Bytes.split_eq_singleton hname.inside, components_text (h.concat hname)]

/-- So does joining one name after the other. -/
lemma foldl_join_text (h : Named (l ++ names)) :
    names.foldl (fun path name => Path.join [path, name]) l.text = text (l ++ names) := by
  induction names generalizing l with
  | nil => rw [List.append_nil, List.foldl_nil]
  | cons name names ih =>
    have hstep : l ++ name :: names = l ++ [name] ++ names := by simp
    rw [hstep] at h ⊢
    obtain ⟨hl, hname⟩ := List.forall_mem_append.mp (List.forall_mem_append.mp h).1
    rw [List.foldl_cons, join_text hl (List.forall_mem_singleton.mp hname), ih h]

/-- A separator at the end says nothing. -/
lemma clean_text_append (h : l.Named) : Path.clean (l.text ++ [Path.separator]) = l.text := by
  by_cases hl : l = []
  · subst hl
    decide
  · rw [clean_of_isAbsolute (isAbsolute_text_append l _), Bytes.split_append, split_text h, if_neg hl,
      List.cons_append, Path.cleanComponents_nil_cons, Path.cleanComponents_append true [] _ h, Bytes.split,
      Path.cleanComponents_nil_cons, List.append_nil, Path.cleanComponents, List.reverse_reverse]

lemma dir_text_nil : Path.dir (text []) = text [] := by decide

/-- From an entry the climb leads to the directory it is in. -/
lemma dir_text_concat (h : Named (l ++ [name])) : Path.dir (text (l ++ [name])) = l.text := by
  obtain ⟨hl, hname⟩ := List.forall_mem_append.mp h
  have hinside : Path.separator ∉ name := (List.forall_mem_singleton.mp hname).inside
  by_cases hnil : l = []
  · subst hnil
    have htext : text ([] ++ [name]) = [] ++ Path.separator :: name := rfl
    rw [htext, Path.dir_append hinside]
    decide
  · have htext : text (l ++ [name]) = l.text ++ Path.separator :: name :=
      congrArg (Path.separator :: ·) (Bytes.join_concat hnil name)
    rw [htext, Path.dir_append hinside, clean_text_append hl]

lemma components_text_eq (h : l.Named) : Path.components l.text = l := by
  have hfull : ∀ name ∈ l, (!List.isEmpty name) = true := fun name hname => by simp [(h name hname).ne_nil]
  rw [Path.components, split_text h]
  split_ifs with hl
  · subst hl
    rfl
  · rw [List.filter_cons_of_neg (by simp), List.filter_eq_self.mpr hfull]

/-- The extension of an entry is that of its name. -/
lemma extension_text (hname : Path.IsName name) (l : Location) :
    Path.extension (text (l ++ [name])) = Path.extension name := by
  obtain ⟨above, htext⟩ := text_concat l name
  rw [htext, Path.extension_append hname]

end Location
end LosslessTree
