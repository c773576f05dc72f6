import LosslessTree.Proofs.Markdown.Extent
import LosslessTree.Proofs.Markdown.LineBreak

/-! Where blocks begin and end. Tokens know three line breaks, a line feed, a carriage return and the two
together; measuring a block looks back for line feeds alone and ahead for either byte. For whatever segments
both agree: a block never begins or ends inside of a token, and so not inside of a line break. -/
namespace LosslessTree.Markdown

/-- An end of the text or the start of one of its tokens. -/
def TokenEdge (src : Bytes) (i : Nat) : Prop := i = 0 ∨ i = src.length ∨ ∃ x ∈ tokenize src, x.start = i

/-- A carriage return is on the left and a line feed on the right. -/
def CutsBreak (src : Bytes) (i : Nat) : Prop :=
  src[i - 1]? = some Bytes.carriageReturn ∧ src[i]? = some Bytes.newline

/-- An end of the text, or a place behind a line feed or in front of any line break. -/
def AtBreak (src : Bytes) (i : Nat) : Prop :=
  i = 0 ∨ i = src.length ∨ src[i - 1]? = some Bytes.newline ∨ ∃ b, src[i]? = some b ∧ isEol b = true

/-- A place at a line break, on either side of it. -/
structure LineEdge (src : Bytes) (i : Nat) : Prop where
  bounded : i ≤ src.length
  beside : AtBreak src i
  uncut : ¬ CutsBreak src i

section Tokens
variable {src : Bytes} {start stop i : Nat} {spans : List Span} {x : Span}

/-- A span across a place next to a line break would be a carriage return with its line feed. -/
lemma LineEdge.tokenEdge (h : LineEdge src i) : TokenEdge src i := by
  obtain rfl | rfl | hbeside := h.beside
  · exact .inl rfl
  · exact .inr (.inl rfl)
  obtain hend | hi := Nat.eq_or_lt_of_le h.bounded
  · exact .inr (.inl hend)
  obtain ⟨x, hx, hlow, hhigh⟩ := (follow_tokenize src).exists_mem (Nat.zero_le i) hi
  obtain hstart | hlow := Nat.eq_or_lt_of_le hlow
  · exact .inr (.inr ⟨x, hx, hstart⟩)
  exfalso
  obtain ⟨before, behind, hsrc, hbefore, hkind⟩ := exists_of_mem_tokenize hx
  have hleft : src[i - 1]? = x.text[i - 1 - x.start]? := getElem?_of_span hsrc hbefore (by omega) (by omega)
  have hright : src[i]? = x.text[i - x.start]? := getElem?_of_span hsrc hbefore (Nat.le_of_lt hlow) hhigh
  have hlength : 1 < x.text.length := by
    rw [Span.stop] at hhigh
    omega
  rcases hkind with ⟨-, hbreak⟩ | ⟨-, hunbroken⟩
  · rcases hbreak with htext | htext | ⟨htext, -⟩
    · rw [htext] at hlength
      exact absurd hlength (by decide)
    · have hplace : i = x.start + 1 := by
        rw [Span.stop, htext] at hhigh
        dsimp only [List.length_cons, List.length_nil] at hhigh
        omega
      refine h.uncut ⟨?_, ?_⟩
      · rw [hleft, htext, hplace, Nat.add_sub_cancel, Nat.sub_self]
        rfl
      · rw [hright, htext, hplace, Nat.add_sub_cancel_left]
        rfl
    · rw [htext] at hlength
      exact absurd hlength (by decide)
  · rcases hbeside with hfeed | ⟨b, hb, heol⟩
    · exact absurd (hunbroken _ (List.mem_of_getElem? (hleft ▸ hfeed))) (by decide)
    · rw [hunbroken b (List.mem_of_getElem? (hright ▸ hb))] at heol
      cases heol

lemma Follow.stop_le (h : Follow start spans stop) : ∀ x ∈ spans, x.stop ≤ stop := by
  induction h with
  | nil n => exact List.forall_mem_nil _
  | cons nonempty more ih => exact List.forall_mem_cons.mpr ⟨more.le, ih⟩

lemma Follow.le_start (h : Follow start spans stop) : ∀ x ∈ spans, start ≤ x.start := by
  induction h with
  | nil n => exact List.forall_mem_nil _
  | @cons x spans stop nonempty more ih =>
    refine List.forall_mem_cons.mpr ⟨Nat.le_refl _, fun y hy => ?_⟩
    exact Nat.le_trans (Nat.le_add_right _ _) (ih y hy)

/-- Of two spans the one that begins first ends before the other begins. -/
lemma Follow.stop_le_start (h : Follow start spans stop) :
    ∀ x ∈ spans, ∀ y ∈ spans, x.start < y.start → x.stop ≤ y.start := by
  induction h with
  | nil n => exact List.forall_mem_nil _
  | @cons first spans stop nonempty more ih =>
    have hbehind := more.le_start
    refine List.forall_mem_cons.mpr ⟨?_, fun x hx => ?_⟩
    · exact List.forall_mem_cons.mpr ⟨fun hlt => absurd hlt (Nat.lt_irrefl _), fun y hy _ => hbehind y hy⟩
    · refine List.forall_mem_cons.mpr ⟨fun hlt => ?_, ih x hx⟩
      have hfirst : first.start ≤ x.start := Nat.le_trans (Nat.le_add_right _ _) (hbehind x hx)
      exact absurd hlt (Nat.not_lt.mpr hfirst)

/-- No token reaches over an edge. -/
lemma TokenEdge.stop_le (h : TokenEdge src i) (hx : x ∈ tokenize src) (hlt : x.start < i) : x.stop ≤ i := by
  have hfollow := follow_tokenize src
  rcases h with rfl | rfl | ⟨y, hy, rfl⟩
  · exact absurd hlt (Nat.not_lt_zero _)
  · exact hfollow.stop_le x hx
  · exact hfollow.stop_le_start x hx y hy hlt

/-- What is fed begins before the offset. What is left does not, unless the feeding was cancelled. -/
lemma Writer.exists_feed (offset : Nat) (w : Writer) :
    ∃ fed, w.rest = fed ++ (w.feedUntil offset).rest ∧ (∀ x ∈ fed, x.start < offset) ∧
      ((w.feedUntil offset).cancelled = true ∨ ∀ x ∈ (w.feedUntil offset).rest.head?, offset ≤ x.start) := by
  unfold Writer.feedUntil
  generalize hahead : w.rest = ahead
  fun_induction Writer.feed offset ahead w with
  | case1 w => exact ⟨[], by rw [hahead]; rfl, List.forall_mem_nil _, .inr (by simp [hahead])⟩
  | case2 w span ahead hstop =>
    refine ⟨[], by rw [hahead]; rfl, List.forall_mem_nil _, ?_⟩
    simpa [hahead] using hstop
  | case3 w span ahead hgo checks due w' hdue => exact ⟨[], hahead.symm, List.forall_mem_nil _, .inl hdue⟩
  | case4 w span ahead hgo checks due w' hdue ih =>
    obtain ⟨fed, hfed, hbefore, hleft⟩ := ih rfl
    have hspan : span.start < offset := by
      simp only [Bool.or_eq_true, decide_eq_true_eq, not_or] at hgo
      exact Nat.not_le.mp hgo.2
    exact ⟨span :: fed, congrArg (span :: ·) hfed, List.forall_mem_cons.mpr ⟨hspan, hbefore⟩, hleft⟩

end Tokens

section Lines
variable {src : Bytes} {i : Nat} {e : Extent}

lemma lineEdge_zero (src : Bytes) : LineEdge src 0 := by
  refine ⟨Nat.zero_le _, .inl rfl, ?_⟩
  rintro ⟨hreturn, hfeed⟩
  exact absurd (hreturn.symm.trans hfeed) (by decide)

lemma not_cutsBreak_of_feed (h : src[i - 1]? = some Bytes.newline) : ¬ CutsBreak src i := by
  rintro ⟨hreturn, -⟩
  exact absurd (hreturn.symm.trans h) (by decide)

/-- A line starts behind a line feed, if not with the text. -/
lemma lineEdge_lineStart (hi : i ≤ src.length) : LineEdge src (lineStart src i) := by
  induction i with
  | zero => exact lineEdge_zero src
  | succ i ih =>
    have hb := List.getElem?_eq_getElem (l := src) (i := i) (by omega)
    rw [lineStart_succ hb]
    split_ifs with hfeed
    · have hleft : src[i + 1 - 1]? = some Bytes.newline := by rw [Nat.add_sub_cancel, hb, hfeed]
      exact ⟨hi, .inr (.inr (.inl hleft)), not_cutsBreak_of_feed hleft⟩
    · exact ih (by omega)

/-- Ahead of any place that does not cut one, the line ends in front of a whole line break. -/
lemma lineEdge_lineEnd (hi : i ≤ src.length) (hcut : ¬ CutsBreak src i) : LineEdge src (lineEnd src i) := by
  refine ⟨lineEnd_le hi, ?_, ?_⟩
  · by_cases hend : lineEnd src i = src.length
    · exact .inr (.inl hend)
    have hb := List.getElem?_eq_getElem (Nat.lt_of_le_of_ne (lineEnd_le hi) hend)
    refine .inr (.inr (.inr ⟨_, hb, atEol_drop_count (src.drop i) _ ?_⟩))
    rw [List.drop_drop, List.head?_drop]
    exact hb
  · rintro ⟨hreturn, hfeed⟩
    obtain heq | hlt := Nat.eq_or_lt_of_le (le_lineEnd src i)
    · rw [← heq] at hreturn hfeed
      exact hcut ⟨hreturn, hfeed⟩
    · -- the byte on the left was passed, so it belongs to the line
      have hpassed : lineEnd src i - 1 - i < count (!isEol ·) (src.drop i) := by
        unfold lineEnd at hlt ⊢
        unfold count
        omega
      have hline := unbroken_take_count staysInLine_not_isEol (src.drop i) Bytes.carriageReturn
      refine absurd (hline (List.mem_of_getElem? (i := lineEnd src i - 1 - i) ?_)) (by decide)
      rw [List.getElem?_take_of_lt hpassed, List.getElem?_drop, Nat.add_sub_cancel' (by omega)]
      exact hreturn

namespace Extent

/-- The extent begins and ends at line breaks, and not the other way round. -/
structure Lined (src : Bytes) (e : Extent) : Prop where
  ordered : e.start ≤ e.stop
  start : LineEdge src e.start
  stop : LineEdge src e.stop

/-- Stepping back over a carriage return, the line feed behind it is left behind as well. -/
lemma not_cutsBreak_without (h : ¬ CutsBreak src e.start) (hordered : e.start ≤ e.stop) :
    ¬ CutsBreak src (e.without src Bytes.carriageReturn).stop := by
  unfold Extent.without
  split_ifs with hback
  · rintro ⟨-, hfeed⟩
    exact absurd (hback.2.symm.trans hfeed) (by decide)
  · obtain heq | hlt := Nat.eq_or_lt_of_le hordered
    · rwa [← heq]
    · exact fun hcut => hback ⟨hlt, hcut.1⟩

lemma Within.lined_lineAligned (h : e.Within src.length) : (e.lineAligned src).Lined src := by
  have hline := lineEdge_lineStart (Nat.le_trans h.ordered h.bounded)
  have hstart : Within src.length { e with start := lineStart src e.start } :=
    ⟨Nat.le_trans (lineStart_le src e.start) h.ordered, h.bounded⟩
  obtain ⟨-, hwithin, hfirst⟩ := hstart.without Bytes.newline
  obtain ⟨-, hwithin', hsecond⟩ := hwithin.without Bytes.carriageReturn
  have hsame := hsecond.trans hfirst
  refine ⟨h.lineAligned.2.ordered, ?_, ?_⟩
  · unfold Extent.lineAligned
    dsimp only
    rwa [hsame]
  · refine lineEdge_lineEnd hwithin'.bounded (not_cutsBreak_without ?_ hwithin.ordered)
    rw [hfirst]
    exact hline.uncut

/-- Stepping over a line feed that is there, nothing is cut. -/
lemma not_cutsBreak_next (i : Nat) : ¬ CutsBreak src (if src[i]? = some Bytes.newline then i + 1 else i) := by
  split_ifs with hfeed
  · exact not_cutsBreak_of_feed (by rwa [Nat.add_sub_cancel])
  · exact fun hcut => hfeed hcut.2

lemma Lined.within (h : e.Lined src) : e.Within src.length := ⟨h.ordered, h.stop.bounded⟩

/-- The fences are whole lines as well. -/
lemma Lined.withFences (h : e.Lined src) (info : Option Segment) :
    (Markdown.withFences src info e).Lined src := by
  have hordered := (h.within.withFences info).2.ordered
  have hstart : LineEdge src (if info.isNone && 0 < e.start then lineStart src (e.start - 1) else e.start) := by
    split_ifs
    · exact lineEdge_lineStart (Nat.le_trans (Nat.sub_le _ _) h.start.bounded)
    · exact h.start
  have hnext := next_le (b := Bytes.newline) (next_le (b := Bytes.carriageReturn) h.stop.bounded)
  have hclosed := lineEdge_lineEnd hnext (not_cutsBreak_next _)
  unfold Markdown.withFences at hordered ⊢
  dsimp only at hordered ⊢
  generalize (if info.isNone && 0 < e.start then lineStart src (e.start - 1) else e.start) = start at *
  generalize (if src[e.stop]? = some Bytes.carriageReturn then e.stop + 1 else e.stop) = next at *
  generalize (if src[next]? = some Bytes.newline then next + 1 else next) = next at *
  split_ifs at hordered ⊢
  · exact ⟨hordered, hstart, hclosed⟩
  · exact ⟨hordered, hstart, h.stop⟩

end Extent

end Lines

namespace Outline

mutual
/-- The extents of a block and of the blocks below it. -/
def extents : Outline → List Extent
  | .node _ extent children => extent.toList ++ extentsAll children
def extentsAll : List Outline → List Extent
  | [] => []
  | o :: os => extents o ++ extentsAll os
end

lemma mem_extentsAll {os : List Outline} {e : Extent} : e ∈ extentsAll os ↔ ∃ o ∈ os, e ∈ o.extents := by
  induction os with
  | nil => simp [extentsAll]
  | cons o os ih => rw [extentsAll, List.mem_append, ih, List.exists_mem_cons_iff]

/-- Every extent that measuring gives begins and ends at line breaks. -/
lemma lined_ofBlock {src : Bytes} {b : Block} (h : b.Within src.length) :
    ∀ e ∈ (ofBlock src b).extents, e.Lined src := by
  induction h with
  | @mk kind lines info inlines children lines_within info_within inlines_within children_within ih =>
    have hchildren : ∀ o ∈ ofBlocks src children, o.Within src.length := by
      rw [ofBlocks_eq_map]
      exact List.forall_mem_map.mpr fun b hb => (measure?_eq (children_within b hb)).2
    have hfull := within_hull kind lines_within info_within inlines_within hchildren
    have hbelow : ∀ e ∈ extentsAll (ofBlocks src children), e.Lined src := by
      intro e he
      obtain ⟨o, ho, he⟩ := mem_extentsAll.mp he
      rw [ofBlocks_eq_map] at ho
      obtain ⟨b, hb, rfl⟩ := List.mem_map.mp ho
      exact ih b hb e he
    rw [ofBlock]
    dsimp only
    generalize (ofBlocks src children).foldl (fun e o => Extent.join e o.extent) _ = full at hfull ⊢
    refine List.forall_mem_append.mpr ⟨fun e he => ?_, hbelow⟩
    have hmeasured : e ∈ full.map fun e =>
        if kind = .fencedCode then withFences src info (e.lineAligned src) else e.lineAligned src := by
      by_cases hk : kind = .document
      · rw [if_pos hk] at he
        cases he
      · rwa [if_neg hk, Option.mem_toList] at he
    obtain ⟨around, haround, rfl⟩ := Option.map_eq_some_iff.mp hmeasured
    have hline := (hfull around haround).lined_lineAligned
    split_ifs
    · exact hline.withFences info
    · exact hline

end Outline

/-- If the segments of a block and of those below it lie in the text, then so do all extents that measuring
gives, and they begin and end at edges of tokens. What is fed up to such a place ends there at the latest. -/
theorem measured_edges {src : Bytes} {b : Block} (h : b.Within src.length) :
    ∀ e ∈ (Outline.ofBlock src b).extents, e.start ≤ e.stop ∧ e.stop ≤ src.length ∧
      ∀ i ∈ [e.start, e.stop], TokenEdge src i ∧ (∀ x ∈ tokenize src, x.stop ≤ i ∨ i ≤ x.start) ∧
        ∀ w : Writer, w.rest <:+ tokenize src →
          ∃ fed, w.rest = fed ++ (w.feedUntil i).rest ∧ ∀ x ∈ fed, x.stop ≤ i := by
  intro e he
  have hlined := Outline.lined_ofBlock h e he
  refine ⟨hlined.ordered, hlined.stop.bounded, fun i hi => ?_⟩
  have hedge : TokenEdge src i := by
    rcases List.mem_pair.mp hi with rfl | rfl
    · exact hlined.start.tokenEdge
    · exact hlined.stop.tokenEdge
  refine ⟨hedge, fun x hx => ?_, fun w hw => ?_⟩
  · by_cases hlt : x.start < i
    · exact .inl (hedge.stop_le hx hlt)
    · exact .inr (Nat.not_lt.mp hlt)
  · obtain ⟨fed, hfed, hbefore, -⟩ := w.exists_feed i
    refine ⟨fed, hfed, fun x hx => hedge.stop_le (hw.subset ?_) (hbefore x hx)⟩
    rw [hfed]
    exact List.mem_append_left _ hx

def tornText : Bytes := "x\r\n~~~\r\ny\r\r\n~~~"

/-- The segments of the paragraph and of the code end between a carriage return and its line feed. -/
def torn : Block :=
  .container .list [.leaf .paragraph [⟨0, 2⟩], .leaf .fencedCode [⟨8, 11⟩]]

theorem measured_edges_torn :
    torn.Within tornText.length ∧
      (Outline.ofBlock tornText torn).extents = [⟨0, 15⟩, ⟨0, 1⟩, ⟨3, 15⟩] ∧
      ∀ i ∈ [0, 1, 3, 15], TokenEdge tornText i := by
  have hparagraph : (Block.leaf .paragraph [⟨0, 2⟩]).Within 15 := .leaf (by simp [Segment.within_iff])
  have hcode : (Block.leaf .fencedCode [⟨8, 11⟩]).Within 15 := .leaf (by simp [Segment.within_iff])
  have hwithin : torn.Within tornText.length :=
    .container (List.forall_mem_cons.mpr ⟨hparagraph, List.forall_mem_singleton.mpr hcode⟩)
  have hextents : (Outline.ofBlock tornText torn).extents = [⟨0, 15⟩, ⟨0, 1⟩, ⟨3, 15⟩] := by
    decide
  have hedges := measured_edges hwithin
  rw [hextents] at hedges
  refine ⟨hwithin, hextents, fun i hi => ?_⟩
  obtain ⟨e, he, hie⟩ : ∃ e ∈ [Extent.mk 0 15, ⟨0, 1⟩, ⟨3, 15⟩], i ∈ [e.start, e.stop] := by
    revert i
    decide
  exact ((hedges e he).2.2 i hie).1

end LosslessTree.Markdown
