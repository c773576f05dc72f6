import LosslessTree.Command.Edit
import LosslessTree.Proofs.Cursor.Search

/-! Edits of a tree are edits of its text. A prepared batch is laid out from left to right; the tree takes
its edits from right to left, so that each one still finds the text before it as it was. -/
namespace LosslessTree.TextEdit
open Cursor

variable {e : TextEdit} {edits : List TextEdit} {length low : Nat} {p : EditError}

/-- The edit lies within a text of so many bytes. -/
def Fits (length : Nat) (e : TextEdit) : Prop :=
  0 ≤ e.range.start ∧ e.range.start ≤ e.range.stop ∧ e.range.stop ≤ length

lemma problem?_eq_none_iff : problem? length e = none ↔ Fits length e := by
  unfold problem? Fits
  split_ifs with hstart hstop hlength <;> simp <;> omega

lemma validate_eq_ok_iff : validate edits length = .ok () ↔ ∀ e ∈ edits, Fits length e := by
  unfold validate
  simp only [← problem?_eq_none_iff, ← List.findSome?_eq_none_iff]
  split <;> simp_all

lemma isTextualOnly_of_validate (h : validate edits length = .error p) :
    Command.isTextualOnly p = false := by
  unfold validate at h
  split at h
  · next q hq =>
    cases h
    obtain ⟨e, -, he⟩ := List.exists_of_findSome?_eq_some hq
    unfold problem? at he
    split_ifs at he <;> cases he <;> rfl
  · cases h

lemma isTextualOnly_of_conflict? (h : conflict? edits = some p) : Command.isTextualOnly p = false := by
  fun_induction conflict? edits with
  | case1 a b rest hoverlap => cases h; rfl
  | case2 a b rest hfree ih => exact ih h
  | case3 => cases h

/-- Edits from left to right, from the offset `low` on, within a text of so many bytes. -/
inductive Laid (length : Nat) : Nat → List TextEdit → Prop
  | nil {low : Nat} (bound : low ≤ length) : Laid length low []
  | cons {low : Nat} {e : TextEdit} {rest : List TextEdit} (after : low ≤ e.range.start)
      (order : e.range.start ≤ e.range.stop) (more : Laid length e.range.stop.toNat rest) :
      Laid length low (e :: rest)

lemma Laid.le (h : Laid length low edits) : low ≤ length := by
  induction h with
  | nil bound => exact bound
  | cons after order more ih => omega

/-- Valid edits without a conflict are laid out from the first one on. -/
lemma laid_of_conflict? (hfits : ∀ e ∈ edits, Fits length e) (hfree : conflict? edits = none)
    (hlow : low ≤ length) (hhead : ∀ e ∈ edits.head?, low ≤ e.range.start) : Laid length low edits := by
  induction edits generalizing low with
  | nil => exact .nil hlow
  | cons a rest ih =>
    obtain ⟨⟨hstart, horder, hstop⟩, hrest⟩ := List.forall_mem_cons.mp hfits
    refine .cons (hhead a rfl) horder (ih hrest ?_ (by omega) ?_)
    · cases rest with
      | nil => rfl
      | cons b rest =>
        unfold conflict? at hfree
        split_ifs at hfree
        exact hfree
    · intro b hb
      cases rest with
      | nil => cases hb
      | cons b' rest =>
        cases hb
        unfold conflict? at hfree
        split_ifs at hfree with hoverlap
        omega

lemma prepare_eq_ok {sorted : List TextEdit} (h : prepare edits length = .ok sorted) :
    Laid length 0 sorted := by
  unfold prepare at h
  split at h
  · cases h
  · next hvalid =>
    dsimp only at h
    split at h
    · cases h
    · next hfree =>
      cases h
      have hfits : ∀ e ∈ edits.mergeSort le, Fits length e := by
        intro e he
        exact validate_eq_ok_iff.mp hvalid e (List.mem_mergeSort.mp he)
      refine laid_of_conflict? hfits hfree (Nat.zero_le _) ?_
      intro e he
      exact (hfits e (List.mem_of_mem_head? he)).1

lemma prepare_eq_error (h : prepare edits length = .error p) : Command.isTextualOnly p = false := by
  unfold prepare at h
  split at h
  · next hinvalid =>
    cases h
    exact isTextualOnly_of_validate hinvalid
  · dsimp only at h
    split at h
    · next hconflict =>
      cases h
      exact isTextualOnly_of_conflict? hconflict
    · cases h

/-- The text with an edit put in. -/
def put (e : TextEdit) (text : Bytes) : Bytes :=
  text.take e.range.start.toNat ++ e.text ++ text.drop e.range.stop.toNat

/-- The text of a place with an edit put in, whose offsets are those of the whole text. -/
def putInto (e : TextEdit) (c : Cursor) : Bytes :=
  c.text.take (e.range.shift (-c.offset)).start.toNat ++ e.text ++
    c.text.drop (e.range.shift (-c.offset)).stop.toNat

variable {root root' : Tree} {token : Cursor} {relex? : Option (Bytes → Option Kind)}

/-- An edit within a place leaves the text around the place alone. -/
lemma put_text (h : Within root token) (hspans : token.Spans e.range)
    (horder : e.range.start ≤ e.range.stop) :
    e.put root.text = token.textBefore ++ e.putInto token ++ token.textAfter := by
  obtain ⟨hlow, hhigh⟩ := hspans
  have hlength : token.length = token.text.length := Tree.length_eq_length_text _
  have hstart : (e.range.shift (-token.offset)).start.toNat =
      e.range.start.toNat - token.textBefore.length := by
    rw [← h.offset]
    simp only [TextRange.shift]
    omega
  have hstop : (e.range.shift (-token.offset)).stop.toNat =
      e.range.stop.toNat - token.textBefore.length := by
    rw [← h.offset]
    simp only [TextRange.shift]
    omega
  have hoffset := h.offset
  rw [put, putInto, hstart, hstop, h.text_eq, List.append_assoc token.textBefore, List.take_append,
    List.take_append, List.drop_append, List.drop_append]
  have htake : token.textBefore.take e.range.start.toNat = token.textBefore :=
    List.take_of_length_le (by omega)
  have hdrop : token.textBefore.drop e.range.stop.toNat = [] := List.drop_eq_nil_of_le (by omega)
  have hleft : e.range.start.toNat - token.textBefore.length - token.text.length = 0 := by omega
  have hright : e.range.stop.toNat - token.textBefore.length - token.text.length = 0 := by omega
  simp [htake, hdrop, hleft, hright]

/-- An edit falls into a token of the tree that spans it. -/
theorem target_eq_ok (hroot : root.isNode = true) (he : Fits root.length e)
    (h : target (.ofRoot root) e.range = .ok token) :
    Within root token ∧ token.isToken = true ∧ token.Spans e.range := by
  have hwithin := within_ofRoot root
  obtain ⟨hstart, horder, hstop⟩ := he
  unfold target at h
  by_cases hempty : e.range.isEmpty = true
  · rw [if_pos hempty] at h
    have hsame : e.range.start = e.range.stop := by simpa [TextRange.isEmpty] using hempty
    split at h
    · next found hfound =>
      cases h
      by_cases hin : e.range.start < (ofRoot root).length
      · -- there is a byte after the insertion: the token that holds it
        obtain ⟨d, hd⟩ := exists_tokenAt? (c := ofRoot root) hstart (by simpa [ofRoot] using hin)
        rw [if_pos hin, hd] at hfound
        cases hfound
        obtain ⟨hplace, htoken, hlow, hhigh⟩ := hwithin.tokenAt? hd
        exact ⟨hplace, htoken, hlow, hsame ▸ Int.le_of_lt hhigh⟩
      · -- at the end of the text: the last token
        rw [if_neg hin] at hfound
        obtain ⟨hplace, htoken, hend⟩ := getLast?_tokens hroot hfound
        have hlength : (ofRoot root).length = root.length := rfl
        exact ⟨hplace, htoken, by omega, by omega⟩
    · cases h
  · rw [if_neg hempty] at h
    split at h
    · next found hfound =>
      cases h
      obtain ⟨hcover, htoken⟩ := Option.filter_eq_some_iff.mp hfound
      obtain ⟨hplace, hspans⟩ := hwithin.covering? hcover
      exact ⟨hplace, htoken, hspans⟩
    · cases h

/-- What an accepted edit does to a tree: a token that spans it gets another text, or goes away. -/
inductive Applies (root : Tree) (e : TextEdit) (relex? : Option (Bytes → Option Kind)) : Tree → Prop
  | change {token : Cursor} (within : Within root token) (isToken : token.isToken = true)
      (spans : token.Spans e.range) (lexes : ∀ relex ∈ relex?, relex (e.putInto token) = some token.kind) :
      Applies root e relex? (token.withText (e.putInto token))
  | remove {token : Cursor} (within : Within root token) (isToken : token.isToken = true)
      (spans : token.Spans e.range) (empty : e.putInto token = []) :
      Applies root e relex? (removeAt token)

/-- An edit within the text is made in a token, or declined for what the tokens are. -/
theorem apply_cases (relex? : Option (Bytes → Option Kind)) (hroot : root.isNode = true)
    (he : Fits root.length e) :
    (∃ root', apply root e relex? = .ok root' ∧ Applies root e relex? root') ∨
      ∃ p, apply root e relex? = .error p ∧ Command.isTextualOnly p = true := by
  have hvalid : validate [e] root.length = .ok () := validate_eq_ok_iff.mpr (by simpa using he)
  unfold apply
  rw [hvalid]
  dsimp only
  cases htarget : target (.ofRoot root) e.range with
  | error p =>
    refine .inr ⟨p, rfl, ?_⟩
    unfold target at htarget
    split_ifs at htarget <;> split at htarget <;> cases htarget <;> rfl
  | ok token =>
    obtain ⟨hplace, htoken, hspans⟩ := target_eq_ok hroot he htarget
    change (∃ root', (if (e.putInto token).isEmpty then _ else _) = _ ∧ _) ∨
      ∃ p, (if (e.putInto token).isEmpty then _ else _) = _ ∧ _
    by_cases hempty : (e.putInto token).isEmpty = true
    · simp only [if_pos hempty]
      exact .inl ⟨_, rfl, .remove hplace htoken hspans (List.isEmpty_iff.mp hempty)⟩
    · simp only [if_neg hempty]
      cases relex? with
      | none => exact .inl ⟨_, rfl, .change hplace htoken hspans (by simp)⟩
      | some relex =>
        by_cases hlex : relex (e.putInto token) = some token.kind
        · refine .inl ⟨token.withText (e.putInto token), if_pos hlex, ?_⟩
          exact .change hplace htoken hspans (by simpa using hlex)
        · exact .inr ⟨.tokenChanged (e.putInto token) token.range, if_neg hlex, rfl⟩

/-- An accepted edit does to the text what it says, and keeps the root. -/
lemma Applies.text_eq (h : Applies root e relex? root') (hroot : root.isNode = true)
    (horder : e.range.start ≤ e.range.stop) : root'.text = e.put root.text ∧ root'.isNode = true := by
  cases h with
  | @change token within isToken spans lexes =>
    have htrail := within.trail_ne_nil hroot isToken
    refine ⟨?_, isNode_rebuild (.inl htrail)⟩
    rw [withText, text_rebuild within.sturdy, put_text within spans horder, Tree.text_token]
  | @remove token within isToken spans empty =>
    have htrail := within.trail_ne_nil hroot isToken
    refine ⟨?_, isNode_removeAt htrail⟩
    rw [put_text within spans horder, empty, Tree.text, leaves_removeAt within.sturdy htrail,
      List.flatMap_append, List.append_nil]
    rfl

/-- What a batch makes of a tree, the last edit first. -/
inductive Made (relex? : Option (Bytes → Option Kind)) (root : Tree) : List TextEdit → Tree → Prop
  | nil : Made relex? root [] root
  | cons {e : TextEdit} {rest : List TextEdit} {mid root' : Tree} (more : Made relex? root rest mid)
      (isNode : mid.isNode = true) (step : Applies mid e relex? root') : Made relex? root (e :: rest) root'

/-- One more edit on the left of those that have been made. -/
lemma put_take_splice {content : Bytes} {rest : List TextEdit} (hlow : low ≤ e.range.start)
    (horder : e.range.start ≤ e.range.stop) (hstop : e.range.stop.toNat ≤ content.length) :
    e.put (content.take e.range.stop.toNat ++ splice content e.range.stop.toNat rest) =
      content.take low ++ splice content low (e :: rest) := by
  have hcut : (content.take e.range.stop.toNat).length = e.range.stop.toNat := by
    rw [List.length_take]
    omega
  have hsplit : content.take low ++ (content.drop low).take (e.range.start.toNat - low) =
      content.take e.range.start.toNat := by
    rw [← List.take_add]
    congr 1
    omega
  rw [put, List.drop_left' hcut, List.take_append_of_le_length (by omega), List.take_take,
    Nat.min_eq_left (by omega), splice, ← hsplit]
  simp

/-- Up to where a batch begins the text is copied. -/
def Edited (content : Bytes) (low : Nat) (edits : List TextEdit) (root : Tree) : Prop :=
  root.isNode = true ∧ root.text = content.take low ++ splice content low edits

lemma Edited.cons {content : Bytes} {rest : List TextEdit}
    (h : Edited content e.range.stop.toNat rest root) (hlow : low ≤ e.range.start)
    (horder : e.range.start ≤ e.range.stop) (hstop : e.range.stop.toNat ≤ content.length)
    (happ : Applies root e relex? root') : Edited content low (e :: rest) root' := by
  obtain ⟨hroot, htext⟩ := h
  obtain ⟨htext', hroot'⟩ := happ.text_eq hroot horder
  exact ⟨hroot', by rw [htext', htext, put_take_splice hlow horder hstop]⟩

/-- A batch that is laid out is made in the tree as in the text, or declined for what the tokens are. -/
theorem applySorted_cases (relex? : Option (Bytes → Option Kind)) (hroot : root.isNode = true)
    (h : Laid root.text.length low edits) :
    (∃ root', applySorted root relex? edits = .ok root' ∧ Made relex? root edits root' ∧
      Edited root.text low edits root') ∨
      ∃ p, applySorted root relex? edits = .error p ∧ Command.isTextualOnly p = true := by
  induction h with
  | nil bound => exact .inl ⟨root, rfl, .nil, hroot, (List.take_append_drop _ _).symm⟩
  | @cons low e rest after order more ih =>
    unfold applySorted
    rcases ih with ⟨mid, hmid, hmade, hedited⟩ | ⟨p, hp, htextual⟩
    · have hbound := more.le
      have hfits : Fits mid.length e := by
        have hlength : mid.length = mid.text.length := Tree.length_eq_length_text mid
        rw [hedited.2, List.length_append, List.length_take] at hlength
        exact ⟨by omega, order, by omega⟩
      rw [hmid]
      rcases apply_cases relex? hedited.1 hfits with ⟨root', hroot', happ⟩ | ⟨p, hp, htextual⟩
      · exact .inl ⟨root', hroot', hmade.cons hedited.1 happ, hedited.cons after order hbound happ⟩
      · exact .inr ⟨p, hp, htextual⟩
    · rw [hp]
      exact .inr ⟨p, rfl, htextual⟩

/-- A batch that the text refuses is refused by the tree for the same reason. -/
lemma applyAll_of_error (relex? : Option (Bytes → Option Kind)) (h : applyText root.text edits = .error p) :
    applyAll root edits relex? = .error p ∧ Command.isTextualOnly p = false := by
  unfold applyText at h
  unfold applyAll
  rw [Tree.length_eq_length_text]
  cases hprepare : prepare edits root.text.length with
  | error q =>
    rw [hprepare] at h
    cases h
    exact ⟨rfl, prepare_eq_error hprepare⟩
  | ok sorted =>
    rw [hprepare] at h
    cases h

/-- A batch that the text takes gives a tree with that text, or is declined for what the tokens are. -/
theorem applyAll_cases {text : Bytes} (relex? : Option (Bytes → Option Kind)) (hroot : root.isNode = true)
    (h : applyText root.text edits = .ok text) :
    (∃ root' sorted, applyAll root edits relex? = .ok root' ∧ Made relex? root sorted root' ∧
      root'.text = text) ∨
      ∃ p, applyAll root edits relex? = .error p ∧ Command.isTextualOnly p = true := by
  unfold applyText at h
  unfold applyAll
  rw [Tree.length_eq_length_text]
  cases hprepare : prepare edits root.text.length with
  | error q =>
    rw [hprepare] at h
    cases h
  | ok sorted =>
    rw [hprepare] at h
    cases h
    rcases applySorted_cases relex? hroot (prepare_eq_ok hprepare) with
      ⟨root', hroot', hmade, -, htext⟩ | hdeclined
    · exact .inl ⟨root', sorted, hroot', hmade, by simpa using htext⟩
    · exact .inr hdeclined

end LosslessTree.TextEdit
