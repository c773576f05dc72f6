import LosslessTree.Discovery.Walk
import Mathlib.Data.List.Nodup
import Mathlib.Data.List.Sort

/-! The files of a run are found once each and come in byte order. A search only ever adds a file that it has
not found before; this holds for every part of a search, whether it fails or not. -/
namespace LosslessTree

namespace Bytes

/-- The comparison of byte strings is the lexicographic order of lists. -/
lemma lt_iff (a b : Bytes) : lt a b = true ↔ a < b := by
  induction a generalizing b with
  | nil => cases b <;> simp [lt]
  | cons x a ih =>
    cases b with
    | nil => simp [lt]
    | cons y b => simp [lt, ih, List.cons_lt_cons_iff]

lemma le_iff (a b : Bytes) : le a b = true ↔ a ≤ b := by
  rw [le, Bool.not_eq_true', Bool.eq_false_iff, ne_eq, lt_iff, List.not_lt]

lemma pairwise_insertSorted {text : Bytes} {texts : List Bytes} (h : texts.Pairwise (· ≤ ·)) :
    (insertSorted text texts).Pairwise (· ≤ ·) := by
  induction texts with
  | nil => exact List.pairwise_singleton _ _
  | cons t rest ih =>
    obtain ⟨hrest, hsorted⟩ := List.pairwise_cons.mp h
    rw [insertSorted]
    split_ifs with hle
    · have hfirst : text ≤ t := (le_iff text t).mp hle
      refine List.pairwise_cons.mpr ⟨List.forall_mem_cons.mpr ⟨hfirst, fun u hu => ?_⟩, h⟩
      exact List.le_trans hfirst (hrest u hu)
    · have hfirst : t ≤ text := (List.le_total t text).resolve_right fun hle' => hle ((le_iff text t).mpr hle')
      refine List.pairwise_cons.mpr ⟨fun u hu => ?_, ih hsorted⟩
      rcases List.mem_cons.mp ((perm_insertSorted text rest).mem_iff.mp hu) with rfl | hu
      · exact hfirst
      · exact hrest u hu

lemma pairwise_sort (texts : List Bytes) : (sort texts).Pairwise (· ≤ ·) := by
  induction texts with
  | nil => exact .nil
  | cons text texts ih => exact pairwise_insertSorted ih

/-- Sorted texts without repetition stand in strict order. -/
theorem sort_strict {texts : List Bytes} (h : texts.Nodup) : (sort texts).Pairwise (· < ·) := by
  have hnodup : (sort texts).Nodup := (perm_sort texts).nodup_iff.mpr h
  refine ((pairwise_sort texts).and hnodup).imp fun {a b} hab => ?_
  exact (List.le_iff_lt_or_eq.mp hab.1).resolve_right hab.2

end Bytes

namespace Discovery

/-- What is kept by all that a search does to its state. -/
structure Stable (inv : Search → Prop) : Prop where
  check : ∀ s, inv s → inv { s with cancellation := s.cancellation.next }
  add : ∀ s path, inv s → path ∉ s.found → inv { s with found := path :: s.found }
  visit : ∀ s dir, inv s → dir ∉ s.visited → inv { s with visited := dir :: s.visited }

/-- No file was found twice, and nobody will ask the search to stop. -/
structure Search.Tidy (s : Search) : Prop where
  once : s.found.Nodup
  never : s.cancellation = .never

lemma stable_once : Stable fun s => s.found.Nodup where
  check := fun _ hs => hs
  add := fun _ _ hs hpath => List.nodup_cons.mpr ⟨hpath, hs⟩
  visit := fun _ _ hs _ => hs

lemma stable_tidy : Stable Search.Tidy where
  check := fun s hs => ⟨hs.once, by rw [hs.never, Cancellation.next_never]⟩
  add := fun s path hs hpath => ⟨stable_once.add s path hs.once hpath, hs.never⟩
  visit := fun _ _ hs _ => ⟨hs.once, hs.never⟩

/-- What was marked once stays marked. -/
lemma stable_visited (dirs : List Bytes) : Stable fun s => dirs ⊆ s.visited where
  check := fun _ hs => hs
  add := fun _ _ hs _ => hs
  visit := fun _ _ hs _ => List.subset_cons_of_subset _ hs

/-- A part of a search that keeps what holds of its state, whether it fails or not. -/
def Keeps {α : Type} (inv : Search → Prop) (m : Searching α) : Prop := ∀ s : Search, inv s → inv (m.run s).2

namespace Keeps

variable {α β : Type} {inv : Search → Prop} {m : Searching α} {f : α → Searching β}

lemma of_run (hm : Keeps inv m) {s s' : Search} {result : Except Failure α} (h : m.run s = (result, s')) (hs : inv s) :
    inv s' := by
  have hnext := hm s hs
  rwa [h] at hnext

lemma pure (a : α) : Keeps inv (Pure.pure a : Searching α) := fun _ hs => hs

lemma throw (e : Failure) : Keeps inv (throw e : Searching α) := fun _ hs => hs

lemma bind (hm : Keeps inv m) (hf : ∀ a, Keeps inv (f a)) : Keeps inv (m >>= f) := by
  intro s hs
  have hnext := hm s hs
  change inv (ExceptT.bindCont f (m.run s).1 (m.run s).2).2
  cases hresult : (m.run s).1 with
  | ok a => exact hf a _ hnext
  | error e => exact hnext

lemma adapt (hm : Keeps inv m) (g : Failure → Failure) : Keeps inv (m.adapt g) := fun s hs => hm s hs

lemma ite {p : Prop} [Decidable p] {m' : Searching α} (hm : Keeps inv m) (hm' : Keeps inv m') :
    Keeps inv (if p then m else m') := by
  by_cases hp : p
  · rwa [if_pos hp]
  · rwa [if_neg hp]

lemma forM {xs : List α} {f : α → Searching PUnit} (hf : ∀ x ∈ xs, Keeps inv (f x)) : Keeps inv (xs.forM f) := by
  induction xs with
  | nil => exact pure _
  | cons x xs ih =>
    obtain ⟨hx, hxs⟩ := List.forall_mem_cons.mp hf
    exact bind hx fun _ => ih hxs

lemma get {f : Search → Searching β} (hf : ∀ s : Search, inv s → inv ((f s).run s).2) :
    Keeps inv (MonadState.get >>= f) := hf

end Keeps

section
variable {inv : Search → Prop} (hinv : Stable inv) (scope : Scope)
include hinv

lemma keeps_check : Keeps inv check := by
  refine Keeps.get fun s hs => ?_
  by_cases hdue : s.cancellation.isDue = true
  · rw [if_pos hdue]
    exact hs
  · rw [if_neg hdue]
    exact hinv.check s hs

lemma keeps_add (path : Bytes) : Keeps inv (add path) := by
  intro s hs
  have hrun : (add path).run s =
      (.ok (), if s.found.contains path then s else { s with found := path :: s.found }) := rfl
  rw [hrun]
  by_cases hfound : s.found.contains path = true
  · rw [if_pos hfound]
    exact hs
  · rw [if_neg hfound]
    rw [List.contains_iff_mem] at hfound
    exact hinv.add s path hs hfound

lemma keeps_visit (dir : Bytes) : Keeps inv (visit scope dir) := by
  refine Keeps.get fun s hs => ?_
  by_cases hvisited : s.visited.contains ((scope.files.canonical? dir).getD dir) = true
  · rw [if_pos hvisited]
    exact hs
  · rw [if_neg hvisited]
    rw [List.contains_iff_mem] at hvisited
    exact hinv.visit s _ hs hvisited

lemma keeps_walkFrom (fuel : Nat) (root path : Bytes) : Keeps inv (walkFrom scope fuel root path) := by
  induction fuel generalizing root path with
  | zero => exact .pure ()
  | succ fuel ih =>
    have hchildren : ∀ new : Bool, Keeps inv (if new = true then
        (scope.files.namesAt path).forM fun name => walkFrom scope fuel root (Path.join [path, name])
        else pure ()) := fun new => .ite (.forM fun name _ => ih root _) (.pure ())
    refine (keeps_check hinv).bind fun _ => ?_
    split
    · exact .throw _
    · refine .ite (.pure ()) (.ite ?_ ?_)
      · exact (keeps_visit hinv scope path).bind hchildren
      · exact (Keeps.pure true).bind hchildren
    · exact .ite (keeps_add hinv path) (.pure ())
    · refine .ite (.pure ()) ?_
      split
      · exact .pure ()
      · split
        · exact .pure ()
        · refine .ite ((keeps_visit hinv scope _).bind fun new => ?_) (.pure ())
          exact .ite ((ih _ _).adapt _) (.pure ())
        · exact .ite (keeps_add hinv path) (.pure ())

lemma keeps_walk (root : Bytes) : Keeps inv (walk scope root) := by
  refine (keeps_visit hinv scope root).bind fun new => ?_
  exact .ite ((keeps_walkFrom hinv scope _ root root).adapt _) (.pure ())

lemma keeps_input (text : Bytes) : Keeps inv (input scope text) := by
  refine ((keeps_check hinv).adapt _).bind fun _ => ?_
  extract_lets path
  split
  · exact .throw _
  · exact .ite (keeps_walk hinv scope _) (.ite (keeps_add hinv _) (.pure ()))

end

/-- The files of a run come in strict byte order. -/
theorem discover_increasing (r : Registry) (files : FileSystem) (o : RunOptions) (c : Cancellation) {paths : List Bytes}
    (h : (discover r files o c).1 = .ok paths) : paths.Pairwise (· < ·) := by
  unfold discover at h
  cases hdir : resolveWorkDir files o.workingDir with
  | error f =>
    rw [hdir] at h
    cases h
  | ok workDir =>
    have hkeeps : ∀ text ∈ o.inputs, Keeps (fun s => s.found.Nodup) (input ⟨files, workDir, o.extensions r, o⟩ text) :=
      fun text _ => keeps_input stable_once _ text
    have honce := Keeps.forM hkeeps { cancellation := c } .nil
    rw [hdir] at h
    dsimp only at h
    generalize (o.inputs.forM (input ⟨files, workDir, o.extensions r, o⟩)).run { cancellation := c } = search at h honce
    obtain ⟨result, s⟩ := search
    cases result with
    | error f => cases h
    | ok found =>
      obtain rfl := Except.ok.inj h
      exact Bytes.sort_strict honce

/-- The files of a run come in strict byte order, and a search that nobody stops leaves the cancellation as it
is. -/
theorem discover_never (r : Registry) (files : FileSystem) (o : RunOptions) :
    (discover r files o .never).2 = .never ∧
      ∀ paths, (discover r files o .never).1 = .ok paths → paths.Pairwise (· < ·) := by
  refine ⟨?_, fun paths => discover_increasing r files o .never⟩
  unfold discover
  cases hdir : resolveWorkDir files o.workingDir with
  | error f => rfl
  | ok workDir =>
    have hkeeps : ∀ text ∈ o.inputs, Keeps Search.Tidy (input ⟨files, workDir, o.extensions r, o⟩ text) :=
      fun text _ => keeps_input stable_tidy _ text
    have htidy := Keeps.forM hkeeps {} ⟨.nil, rfl⟩
    dsimp only
    generalize (o.inputs.forM (input ⟨files, workDir, o.extensions r, o⟩)).run {} = search at htidy
    obtain ⟨result, s⟩ := search
    cases result with
    | error f => exact htidy.never
    | ok found => exact htidy.never

end Discovery
end LosslessTree
