import LosslessTree.Proofs.Cursor.Covering
import LosslessTree.Proofs.Cursor.Replace
import LosslessTree.Proofs.Edit.Tree
import LosslessTree.Proofs.Tree.Revision

/-! A single edit of a tree. Which token it falls into is settled by the range alone; whether it is accepted, by
that token and its new text. Nothing but that token changes. -/
namespace LosslessTree.TextEdit
open Cursor

variable {root root' : Tree} {e : TextEdit} {r : TextRange} {token other : Cursor} {text : Bytes}
  {relex? : Option (Bytes → Option Kind)}

/-- The token that an edit falls into: the one that spans the range, or for an insertion the one that holds
the byte behind it; at the end of the text it is the token with no token after it. -/
structure Target (root : Tree) (r : TextRange) (token : Cursor) : Prop where
  placed : Placed root token
  isToken : token.isToken = true
  covers : r.start < r.stop → token.Spans r
  inside : r.start = r.stop → r.start < root.length → token.range.contains r.start = true
  last : r.start = r.stop → root.length ≤ r.start → leavesAfter token.trail = []

/-- A token may get a text that is empty, or that is lexed as what the token is, if it is lexed at all. -/
def Allows (relex? : Option (Bytes → Option Kind)) (token : Cursor) (text : Bytes) : Prop :=
  text = [] ∨ relex? = none ∨ ∃ relex, relex? = some relex ∧ relex text = some token.kind

/-- The tree in which a token has got a text; without a text the token goes away. -/
def retouch (token : Cursor) (text : Bytes) : Tree :=
  if text.isEmpty then removeAt token else token.withText text

lemma target_iff_covering? (hlt : r.start < r.stop) :
    Target root r token ↔ ((ofRoot root).covering? r).filter isToken = some token := by
  rw [covering?_isToken_iff hlt]
  constructor
  · intro h
    exact ⟨h.placed, h.isToken, h.covers hlt⟩
  · rintro ⟨hplaced, htoken, hspans⟩
    have hne := Int.ne_of_lt hlt
    exact ⟨hplaced, htoken, fun _ => hspans, fun hsame => absurd hsame hne, fun hsame => absurd hsame hne⟩

lemma target_iff_tokenAt? (hsame : r.start = r.stop) (hin : r.start < root.length) :
    Target root r token ↔ (ofRoot root).tokenAt? r.start = some token := by
  rw [tokenAt?_eq_some_iff]
  constructor
  · intro h
    exact ⟨h.placed, h.isToken, h.inside hsame hin⟩
  · rintro ⟨hplaced, htoken, hcontains⟩
    exact ⟨hplaced, htoken, fun hlt => absurd hsame (Int.ne_of_lt hlt), fun _ _ => hcontains,
      fun _ hend => absurd hin (Int.not_lt.mpr hend)⟩

lemma target_iff_getLast? (hroot : root.isNode = true) (hsame : r.start = r.stop)
    (hend : root.length ≤ r.start) :
    Target root r token ↔ (ofRoot root).tokens.getLast? = some token := by
  rw [getLast?_tokens_iff hroot]
  constructor
  · intro h
    exact ⟨h.placed, h.isToken, h.last hsame hend⟩
  · rintro ⟨hplaced, htoken, hafter⟩
    exact ⟨hplaced, htoken, fun hlt => absurd hsame (Int.ne_of_lt hlt),
      fun _ hin => absurd hin (Int.not_lt.mpr hend), fun _ _ => hafter⟩

/-- Every byte of the text has a token. -/
lemma exists_tokenAt?_root {i : Int} (hlow : 0 ≤ i) (hhigh : i < root.length) :
    ∃ d, (ofRoot root).tokenAt? i = some d := by
  have hend : i < (ofRoot root).offset + (ofRoot root).length := by
    change i < ((0 : Nat) : Int) + root.length
    omega
  exact exists_tokenAt? hlow hend

/-- The search for a token comes to the target, and fails if there is none. -/
theorem target_eq_ok_iff (hroot : root.isNode = true) (he : Fits root.length e) :
    target (.ofRoot root) e.range = .ok token ↔ Target root e.range token := by
  obtain ⟨hstart, horder, -⟩ := he
  have hlength : (ofRoot root).length = root.length := rfl
  unfold target
  rw [hlength]
  by_cases hempty : e.range.isEmpty = true
  · have hsame : e.range.start = e.range.stop := by simpa [TextRange.isEmpty] using hempty
    rw [if_pos hempty]
    by_cases hin : e.range.start < root.length
    · obtain ⟨d, hd⟩ := exists_tokenAt?_root hstart hin
      rw [target_iff_tokenAt? hsame hin, if_pos hin, hd]
      simp
    · rw [target_iff_getLast? hroot hsame (Int.not_lt.mp hin), if_neg hin]
      cases hlast : (ofRoot root).tokens.getLast? <;> simp
  · have hlt : e.range.start < e.range.stop :=
      Int.lt_iff_le_and_ne.mpr ⟨horder, by simpa [TextRange.isEmpty] using hempty⟩
    rw [target_iff_covering? hlt, if_neg hempty]
    cases ((ofRoot root).covering? e.range).filter Cursor.isToken <;> simp

lemma Target.unique (h : Target root e.range token) (h' : Target root e.range other)
    (hroot : root.isNode = true) (he : Fits root.length e) : token = other := by
  have htoken := (target_eq_ok_iff hroot he).mpr h
  exact Except.ok.inj (htoken.symm.trans ((target_eq_ok_iff hroot he).mpr h'))

lemma Target.spans (h : Target root e.range token) (hroot : root.isNode = true) (he : Fits root.length e) :
    token.Spans e.range :=
  (target_eq_ok hroot he ((target_eq_ok_iff hroot he).mpr h)).2.2

/-- There is a target if some token spans the range; for an insertion any token will do. -/
lemma exists_target_iff (hroot : root.isNode = true) (he : Fits root.length e) :
    (∃ token, Target root e.range token) ↔
      ∃ token, Placed root token ∧ token.isToken = true ∧
        (e.range.start < e.range.stop → token.Spans e.range) := by
  constructor
  · rintro ⟨token, h⟩
    exact ⟨token, h.placed, h.isToken, h.covers⟩
  · rintro ⟨token, hplaced, htoken, hover⟩
    obtain ⟨hstart, horder, hstop⟩ := he
    rcases Int.lt_or_eq_of_le horder with hlt | hsame
    · have hne := Int.ne_of_lt hlt
      exact ⟨token, hplaced, htoken, hover, fun hsame => absurd hsame hne, fun hsame => absurd hsame hne⟩
    · by_cases hin : e.range.start < root.length
      · obtain ⟨d, hd⟩ := exists_tokenAt?_root hstart hin
        exact ⟨d, (target_iff_tokenAt? hsame hin).mpr hd⟩
      · have hmem : token ∈ (ofRoot root).tokens := mem_tokens_iff.mpr ⟨hplaced, htoken⟩
        have hne : (ofRoot root).tokens ≠ [] := List.ne_nil_of_mem hmem
        exact ⟨_, (target_iff_getLast? hroot hsame (Int.not_lt.mp hin)).mpr (List.getLast?_eq_some_getLast hne)⟩

/-- What becomes of an edit is decided by its target. -/
lemma apply_of_target (he : Fits root.length e) (h : target (.ofRoot root) e.range = .ok token) :
    apply root e relex? =
      if (e.putInto token).isEmpty then .ok (removeAt token)
      else match relex? with
        | none => .ok (token.withText (e.putInto token))
        | some relex =>
          if relex (e.putInto token) = some token.kind then .ok (token.withText (e.putInto token))
          else .error (.tokenChanged (e.putInto token) token.range) := by
  unfold apply
  rw [validate_eq_ok_iff.mpr (by simpa using he), h]
  rfl

/-- An edit is accepted exactly if its target may get the new text, which it gets. -/
lemma apply_of_target_eq_ok_iff (he : Fits root.length e) (h : target (.ofRoot root) e.range = .ok token) :
    apply root e relex? = .ok root' ↔
      Allows relex? token (e.putInto token) ∧ root' = retouch token (e.putInto token) := by
  rw [apply_of_target he h, retouch, Allows]
  generalize e.putInto token = text
  by_cases hempty : text.isEmpty = true
  · rw [if_pos hempty, if_pos hempty, Except.ok.injEq, eq_comm]
    simp [List.isEmpty_iff.mp hempty]
  · have hne := List.isEmpty_iff.not.mp hempty
    rw [if_neg hempty, if_neg hempty]
    cases relex? with
    | none =>
      rw [Except.ok.injEq, eq_comm]
      simp
    | some relex =>
      dsimp only
      split_ifs with hlex
      · rw [Except.ok.injEq, eq_comm]
        simp [hlex]
      · simp [hlex, hne]

/-- What an edit makes of a tree: it fits, has a target that may get the new text, and gives it to it. -/
theorem apply_eq_ok_iff (hroot : root.isNode = true) : apply root e relex? = .ok root' ↔
    Fits root.length e ∧ ∃ token, Target root e.range token ∧ Allows relex? token (e.putInto token) ∧
      root' = retouch token (e.putInto token) := by
  by_cases he : Fits root.length e
  · rw [and_iff_right he]
    constructor
    · intro h
      cases htarget : target (.ofRoot root) e.range with
      | error p =>
        unfold apply at h
        rw [validate_eq_ok_iff.mpr (by simpa using he), htarget] at h
        cases h
      | ok token =>
        exact ⟨token, (target_eq_ok_iff hroot he).mp htarget, (apply_of_target_eq_ok_iff he htarget).mp h⟩
    · rintro ⟨token, htarget, hgiven⟩
      exact (apply_of_target_eq_ok_iff he ((target_eq_ok_iff hroot he).mpr htarget)).mpr hgiven
  · refine ⟨fun h => ?_, fun h => absurd h.1 he⟩
    unfold apply at h
    cases hvalid : validate [e] root.length with
    | error p =>
      rw [hvalid] at h
      cases h
    | ok _ => exact absurd (validate_eq_ok_iff.mp hvalid e (List.mem_singleton_self e)) he

/-- `root'` is `root` with one change: `token` has got the text, or has gone away if the text is empty. -/
structure Retouched (root : Tree) (token : Cursor) (text : Bytes) (root' : Tree) : Prop where
  old : root.leaves = leavesBefore token.trail ++ [⟨token.kind, token.text⟩] ++ leavesAfter token.trail
  new : root'.leaves =
    leavesBefore token.trail ++ (if text = [] then [] else [⟨token.kind, text⟩]) ++ leavesAfter token.trail
  /-- Every node stays what it is, above what it was above. -/
  revised : Tree.Revised (changesAt token.trail [if text = [] then none else some text]) [root] [root']
  given : text ≠ [] → root' = token.withText text ∧ Replaced root token (.token token.kind text) root'
  /-- The node above loses a child, and neither this nor its replacement is ever refused. -/
  removed : text = [] → ∃ parent t, token.parent? = some parent ∧
    t = .node parent.kind (parent.tree.children.eraseIdx token.index) ∧
    Tree.removeChild parent.kind parent.tree.children token.index = .ok t ∧
    parent.replaceNode (some t) = .ok root' ∧ Replaced root parent t root'

/-- The cuts that an edit makes in the text of a token lie within that text. -/
def CutsWithin (e : TextEdit) (token : Cursor) : Prop :=
  ∃ left right, TextRange.slice? ⟨0, (e.range.shift (-token.offset)).start⟩ token.text = some left ∧
    TextRange.slice? ⟨(e.range.shift (-token.offset)).stop, token.text.length⟩ token.text = some right ∧
    e.putInto token = left ++ e.text ++ right

lemma cutsWithin_of_spans (h : token.Spans e.range) (horder : e.range.start ≤ e.range.stop) :
    CutsWithin e token := by
  obtain ⟨hlow, hhigh⟩ := h
  have hlength : token.length = token.text.length := Tree.length_eq_length_text _
  refine ⟨_, _, if_pos ?_, if_pos ?_, ?_⟩
  · simp only [TextRange.shift]
    omega
  · simp only [TextRange.shift]
    omega
  · simp [putInto]

lemma removeChild_of_lt {k : Kind} {cs : List Tree} {i : Nat} (hi : i < cs.length) :
    Tree.removeChild k cs i = .ok (.node k (cs.eraseIdx i)) := by
  have hin : ¬ ((i : Int) < 0 ∨ (cs.length : Int) ≤ i) := by omega
  have hrange : ¬ ((i : Int) < 0 ∨ (i : Int) + 1 < i ∨ (cs.length : Int) < i + 1) := by omega
  have hnext : ((i : Int) + 1).toNat = i + 1 := by omega
  rw [Tree.removeChild, if_neg hin, Tree.splice, if_neg hrange, hnext, List.eraseIdx_eq_take_drop_succ]
  simp

lemma removeAt_of_parent? {parent : Cursor} (h : token.parent? = some parent) :
    removeAt token = parent.rebuild (.node parent.kind (parent.tree.children.eraseIdx token.index)) := by
  rw [removeAt, h]

/-- A token of a tree that gets a text is all that changes. -/
theorem retouched_retouch (h : Placed root token) (htoken : token.isToken = true) (hroot : root.isNode = true)
    (text : Bytes) : Retouched root token text (retouch token text) := by
  have hwithin := h.within
  have htrail := hwithin.trail_ne_nil hroot htoken
  have hold := hwithin.leaves_eq
  rw [leaves_of_isToken htoken] at hold
  by_cases hempty : text = []
  · subst hempty
    refine ⟨hold, ?_, hwithin.revised_removeAt hroot htoken, fun hne => absurd rfl hne, fun _ => ?_⟩
    · rw [if_pos rfl, List.append_nil]
      exact leaves_removeAt hwithin.sturdy htrail
    · obtain ⟨parent, hparent⟩ := exists_parent? htrail
      obtain ⟨hplaced, hchild⟩ := h.parent? hparent
      have hlt := (List.getElem?_eq_some_iff.mp (child?_eq_some hchild).1).1
      refine ⟨parent, _, hparent, rfl, removeChild_of_lt hlt, ?_, ?_⟩
      · exact congrArg Except.ok (removeAt_of_parent? hparent).symm
      · have hreplaced := hplaced.replaced
          (u := .node parent.kind (parent.tree.children.eraseIdx token.index)) (.inr rfl)
        rwa [← removeAt_of_parent? hparent] at hreplaced
  · have hretouch : retouch token text = token.withText text := if_neg (List.isEmpty_iff.not.mpr hempty)
    rw [hretouch]
    refine ⟨hold, ?_, ?_, fun _ => ⟨rfl, h.replaced (.inl htrail)⟩, fun hnil => absurd hnil hempty⟩
    · rw [if_neg hempty, withText, leaves_rebuild hwithin.sturdy, Tree.leaves_token]
    · rw [if_neg hempty]
      exact hwithin.revised_withText htoken text

lemma Retouched.text_eq (h : Retouched root token text root') :
    root'.text = token.textBefore ++ text ++ token.textAfter := by
  rw [Tree.text, h.new, List.flatMap_append, List.flatMap_append]
  by_cases hempty : text = [] <;> simp [hempty, textBefore, textAfter]

/-- An edit of a tree is accepted exactly if it lies in the text, has a target, and the target may get its new
text: none at all, or one that is lexed as what the target is, if it is lexed. Then the target alone gets
that text, and the text of the tree is the edited one. There is a target for every range that some token
spans, and for every insertion into a tree with a token; there is only one, and it is cut within its text. -/
theorem apply_exact (hroot : root.isNode = true) (e : TextEdit) (relex? : Option (Bytes → Option Kind)) :
    ((∃ root', apply root e relex? = .ok root') ↔
      (0 ≤ e.range.start ∧ e.range.start ≤ e.range.stop ∧ e.range.stop ≤ root.length) ∧
        ∃ token, Target root e.range token ∧ Allows relex? token (e.putInto token)) ∧
    (∀ root', apply root e relex? = .ok root' → ∃ token, Target root e.range token ∧
      Retouched root token (e.putInto token) root' ∧ root'.text = e.put root.text) ∧
    (0 ≤ e.range.start ∧ e.range.start ≤ e.range.stop ∧ e.range.stop ≤ root.length →
      ((∃ token, Target root e.range token) ↔
        ∃ token, Placed root token ∧ token.isToken = true ∧
          (e.range.start < e.range.stop → token.Spans e.range)) ∧
      (∀ token other, Target root e.range token → Target root e.range other → token = other) ∧
      ∀ token, target (.ofRoot root) e.range = .ok token → Target root e.range token ∧ CutsWithin e token) := by
  refine ⟨⟨?_, ?_⟩, ?_, fun he => ⟨exists_target_iff hroot he, ?_, ?_⟩⟩
  · rintro ⟨root', h⟩
    obtain ⟨he, token, htarget, hallows, -⟩ := (apply_eq_ok_iff hroot).mp h
    exact ⟨he, token, htarget, hallows⟩
  · rintro ⟨he, token, htarget, hallows⟩
    exact ⟨_, (apply_eq_ok_iff hroot).mpr ⟨he, token, htarget, hallows, rfl⟩⟩
  · intro root' h
    obtain ⟨he, token, htarget, -, rfl⟩ := (apply_eq_ok_iff hroot).mp h
    have hretouched := retouched_retouch htarget.placed htarget.isToken hroot (e.putInto token)
    refine ⟨token, htarget, hretouched, ?_⟩
    rw [hretouched.text_eq, put_text htarget.placed.within (htarget.spans hroot he) he.2.1]
  · intro token other h h'
    exact h.unique h' hroot he
  · intro token h
    have htarget := (target_eq_ok_iff hroot he).mp h
    exact ⟨htarget, cutsWithin_of_spans (htarget.spans hroot he) he.2.1⟩

/-- Where an empty token, an empty node and another token start, it is the last of them that goes away with its
text. -/
theorem apply_exact_crowded : crowded.isNode = true ∧ ∃ root' token,
    apply crowded ⟨⟨1, 3⟩, []⟩ (some fun _ => none) = .ok root' ∧ Target crowded ⟨1, 3⟩ token ∧
      Retouched crowded token (TextEdit.putInto ⟨⟨1, 3⟩, []⟩ token) root' ∧
      root'.leaves = [⟨1, "a"⟩, ⟨3, []⟩] := by
  let root' : Tree := .node 0 [.token 1 "a", .node 2 [.token 3 [], .node 4 []]]
  have happlied : apply crowded ⟨⟨1, 3⟩, []⟩ (some fun _ => none) = .ok root' := by decide +kernel
  obtain ⟨token, htarget, hretouched, -⟩ := (apply_exact rfl ⟨⟨1, 3⟩, []⟩ _).2.1 root' happlied
  exact ⟨rfl, root', token, happlied, htarget, hretouched, by decide +kernel⟩

end LosslessTree.TextEdit
