import LosslessTree.Language.Markdown.Document
import LosslessTree.Text.Range
import Mathlib.Tactic.Common

/-! Measuring blocks. The checked forms read the text byte by byte and stop at a position outside of it,
and at a range with inverted ends. For segments in the text they never stop, and they measure what the
unchecked forms do. -/
namespace LosslessTree.Markdown

/-- Goes back to the start of the line. -/
def lineStart? (src : Bytes) : Nat → Option Nat
  | 0 => some 0
  | i + 1 => src[i]?.bind fun b => if b = Bytes.newline then some (i + 1) else lineStart? src i

namespace Extent

def checked (e : Extent) : Option Extent := (TextRange.ofEnds? e.start e.stop).map fun _ => e

def without? (src : Bytes) (b : UInt8) (e : Extent) : Option Extent :=
  if e.start < e.stop then
    src[e.stop - 1]?.map fun last => if last = b then { e with stop := e.stop - 1 } else e
  else some e

def lineAligned? (src : Bytes) (e : Extent) : Option Extent := do
  let start ← lineStart? src e.start
  let e ← without? src Bytes.newline { e with start := start }
  let e ← without? src Bytes.carriageReturn e
  checked { e with stop := lineEnd src e.stop }

end Extent

/-- Without an info string the opening fence is a line that was not measured. -/
def fenceStart? (src : Bytes) (info : Option Segment) (e : Extent) : Option Nat :=
  if info.isNone && 0 < e.start then lineStart? src (e.start - 1) else some e.start

def withFences? (src : Bytes) (info : Option Segment) (e : Extent) : Option Extent := do
  let start ← fenceStart? src info e
  let next := if src[e.stop]? = some Bytes.carriageReturn then e.stop + 1 else e.stop
  let next := if src[next]? = some Bytes.newline then next + 1 else next
  if e.stop < next then
    if src.length < next then none
    else if isFenceLine (src.drop next) then some ⟨start, lineEnd src next⟩
    else some ⟨start, e.stop⟩
  else some ⟨start, e.stop⟩

/-- The extent of a block from the least one around its segments. -/
def measured? (src : Bytes) (kind : BlockKind) (info : Option Segment) (e : Extent) : Option Extent :=
  (e.lineAligned? src).bind fun e => if kind = .fencedCode then withFences? src info e else some e

namespace Outline

mutual
/-- Measures a block with every read checked. -/
def measure? (src : Bytes) : Block → Option Outline
  | .mk kind lines info inlines children => do
    let below ← measureAll? src children
    let own := Extent.join (Extent.ofSegments lines)
      (Extent.join (Extent.ofSegments (if kind = .fencedCode then info.toList else []))
        (Extent.ofSegments (inlines.filter (!·.isEmpty))))
    match below.foldl (fun e o => Extent.join e o.extent) own with
    | none => some (.node kind.symbol? none below)
    | some e =>
      if kind = .document then some (.node kind.symbol? none below)
      else (measured? src kind info e).map fun e => .node kind.symbol? (some e) below
def measureAll? (src : Bytes) : List Block → Option (List Outline)
  | [] => some []
  | b :: bs => do
    let o ← measure? src b
    let os ← measureAll? src bs
    some (o :: os)
end

end Outline

/-- The segment lies in a text of this length. -/
structure Segment.Within (n : Nat) (s : Segment) : Prop where
  ordered : s.start ≤ s.stop
  bounded : s.stop ≤ n

lemma Segment.within_iff {n : Nat} {s : Segment} : s.Within n ↔ s.start ≤ s.stop ∧ s.stop ≤ n :=
  ⟨fun h => ⟨h.ordered, h.bounded⟩, fun h => ⟨h.1, h.2⟩⟩

/-- All segments of a block and of the blocks below it lie in a text of this length. -/
inductive Block.Within (n : Nat) : Block → Prop
  | mk {kind lines info inlines children} (lines_within : ∀ s ∈ lines, s.Within n)
      (info_within : ∀ s ∈ info, s.Within n) (inlines_within : ∀ s ∈ inlines, s.Within n)
      (children_within : ∀ b ∈ children, Within n b) : Within n (.mk kind lines info inlines children)

lemma Block.Within.leaf {n : Nat} {kind : BlockKind} {lines : List Segment} (h : ∀ s ∈ lines, s.Within n) :
    (Block.leaf kind lines).Within n :=
  .mk h (by simp) (by simp) (by simp)

lemma Block.Within.container {n : Nat} {kind : BlockKind} {children : List Block}
    (h : ∀ b ∈ children, b.Within n) : (Block.container kind children).Within n :=
  .mk (by simp) (by simp) (by simp) h

structure Extent.Within (n : Nat) (e : Extent) : Prop where
  ordered : e.start ≤ e.stop
  bounded : e.stop ≤ n

section
variable {src : Bytes} {n i : Nat} {e : Extent}

lemma lineStart_succ {b : UInt8} (h : src[i]? = some b) :
    lineStart src (i + 1) = if b = Bytes.newline then i + 1 else lineStart src i := by
  obtain ⟨hi, rfl⟩ := List.getElem?_eq_some_iff.mp h
  have htake : (src.take (i + 1)).reverse = src[i] :: (src.take i).reverse := by
    rw [← List.take_append_getElem hi, List.reverse_append, List.reverse_singleton, List.singleton_append]
  unfold lineStart
  rw [htake]
  by_cases hb : src[i] = Bytes.newline
  · simp [hb]
  · rw [List.takeWhile_cons_of_pos (by simpa using hb), if_neg hb, List.length_cons]
    omega

/-- Inside the text the start of a line is found by reading back to it. -/
lemma lineStart?_eq (hi : i ≤ src.length) : lineStart? src i = some (lineStart src i) := by
  induction i with
  | zero => rfl
  | succ i ih =>
    have hb := List.getElem?_eq_getElem (l := src) (i := i) (by omega)
    rw [lineStart?, hb, Option.bind_some, lineStart_succ hb, ih (by omega)]
    split_ifs <;> rfl

lemma lineStart_le (src : Bytes) (i : Nat) : lineStart src i ≤ i := Nat.sub_le _ _

lemma le_lineEnd (src : Bytes) (i : Nat) : i ≤ lineEnd src i := Nat.le_add_right _ _

lemma lineEnd_le (hi : i ≤ src.length) : lineEnd src i ≤ src.length := by
  have hlength := (List.takeWhile_sublist (!isEol ·) (l := src.drop i)).length_le
  rw [List.length_drop] at hlength
  unfold lineEnd
  omega

namespace Extent

lemma Within.checked (h : Within n e) : e.checked = some e := by
  have hle : (e.start : Int) ≤ e.stop := by exact_mod_cast h.ordered
  rw [Extent.checked, TextRange.ofEnds?, if_pos hle, Option.map_some]

lemma Within.without (h : Within src.length e) (b : UInt8) :
    e.without? src b = some (e.without src b) ∧ (e.without src b).Within src.length ∧
      (e.without src b).start = e.start := by
  have hordered := h.ordered
  have hbounded := h.bounded
  unfold without? Extent.without
  by_cases hlt : e.start < e.stop
  · have hlast := List.getElem?_eq_getElem (l := src) (i := e.stop - 1) (by omega)
    rw [if_pos hlt, hlast, Option.map_some]
    by_cases hb : src[e.stop - 1] = b
    · have hboth : e.start < e.stop ∧ some src[e.stop - 1] = some b := ⟨hlt, congrArg some hb⟩
      rw [if_pos hb, if_pos hboth]
      exact ⟨rfl, ⟨Nat.le_sub_one_of_lt hlt, by dsimp only; omega⟩, rfl⟩
    · have hnot : ¬ (e.start < e.stop ∧ some src[e.stop - 1] = some b) :=
        fun hboth => hb (Option.some.inj hboth.2)
      rw [if_neg hb, if_neg hnot]
      exact ⟨rfl, h, rfl⟩
  · rw [if_neg hlt, if_neg fun hboth => hlt hboth.1]
    exact ⟨rfl, h, rfl⟩

/-- Widening to whole lines never turns a range around. -/
lemma Within.lineAligned (h : Within src.length e) :
    e.lineAligned? src = some (e.lineAligned src) ∧ (e.lineAligned src).Within src.length := by
  have hstart : Within src.length { e with start := lineStart src e.start } :=
    ⟨Nat.le_trans (lineStart_le src e.start) h.ordered, h.bounded⟩
  obtain ⟨hlf, hwithin, -⟩ := hstart.without Bytes.newline
  obtain ⟨hcr, hwithin', -⟩ := hwithin.without Bytes.carriageReturn
  have haligned : (e.lineAligned src).Within src.length :=
    ⟨Nat.le_trans hwithin'.ordered (le_lineEnd src _), lineEnd_le hwithin'.bounded⟩
  refine ⟨?_, haligned⟩
  have hread := lineStart?_eq (Nat.le_trans h.ordered h.bounded)
  simp only [lineAligned?, hread, hlf, hcr, Option.bind_eq_bind, Option.bind_some]
  exact haligned.checked

end Extent

/-- Stepping over a line break that is there does not leave the text. -/
lemma next_le {b : UInt8} {i : Nat} (hi : i ≤ src.length) :
    (if src[i]? = some b then i + 1 else i) ≤ src.length := by
  split_ifs with hb
  · exact (List.getElem?_eq_some_iff.mp hb).1
  · exact hi

/-- Taking in the fences keeps to the text. -/
lemma Extent.Within.withFences (h : e.Within src.length) (info : Option Segment) :
    withFences? src info e = some (Markdown.withFences src info e) ∧
      (Markdown.withFences src info e).Within src.length := by
  have hordered := h.ordered
  have hbounded := h.bounded
  obtain ⟨start, hstart, hle⟩ : ∃ start, fenceStart? src info e = some start ∧
      start = (if info.isNone && 0 < e.start then lineStart src (e.start - 1) else e.start) ∧
      start ≤ e.start := by
    unfold fenceStart?
    split_ifs
    · exact ⟨_, lineStart?_eq (by omega), rfl, Nat.le_trans (lineStart_le src _) (Nat.sub_le _ _)⟩
    · exact ⟨_, rfl, rfl, Nat.le_refl _⟩
  have hcr := next_le (b := Bytes.carriageReturn) hbounded
  have hlf := next_le (b := Bytes.newline) hcr
  simp only [withFences?, Markdown.withFences, hstart, ← hle.1, Option.bind_eq_bind, Option.bind_some,
    if_neg (Nat.not_lt_of_le hlf)]
  generalize (if src[e.stop]? = some Bytes.carriageReturn then e.stop + 1 else e.stop) = next at hlf ⊢
  generalize (if src[next]? = some Bytes.newline then next + 1 else next) = next at hlf ⊢
  have hclosed : Extent.Within src.length ⟨start, lineEnd src next⟩ ∨ next ≤ e.stop := by
    by_cases hnext : next ≤ e.stop
    · exact .inr hnext
    · exact .inl ⟨by have := le_lineEnd src next; dsimp only; omega, lineEnd_le hlf⟩
  have hopen : Extent.Within src.length ⟨start, e.stop⟩ := ⟨Nat.le_trans hle.2 hordered, hbounded⟩
  by_cases hnext : e.stop < next
  · by_cases hfence : isFenceLine (src.drop next) = true
    · simp [hnext, hfence, hclosed.resolve_right (by omega)]
    · simp [hnext, hfence, hopen]
  · simp [hnext, hopen]

namespace Extent

lemma Within.join {a b : Option Extent} (ha : ∀ e ∈ a, e.Within n) (hb : ∀ e ∈ b, e.Within n) :
    ∀ e ∈ Extent.join a b, e.Within n := by
  cases a with
  | none => exact hb
  | some a =>
    cases b with
    | none => exact ha
    | some b =>
      rintro e ⟨⟩
      have ha := ha a rfl
      have hb := hb b rfl
      have hmin : min a.start b.start ≤ max a.stop b.stop :=
        Nat.le_trans (Nat.min_le_left _ _) (Nat.le_trans ha.ordered (Nat.le_max_left _ _))
      exact ⟨hmin, Nat.max_le.mpr ⟨ha.bounded, hb.bounded⟩⟩

lemma within_foldl_join {α : Type} {f : α → Option Extent} {xs : List α} (hxs : ∀ x ∈ xs, ∀ e ∈ f x, e.Within n)
    {a : Option Extent} (ha : ∀ e ∈ a, e.Within n) :
    ∀ e ∈ xs.foldl (fun e x => Extent.join e (f x)) a, e.Within n := by
  induction xs generalizing a with
  | nil => exact ha
  | cons x xs ih =>
    obtain ⟨hx, hxs⟩ := List.forall_mem_cons.mp hxs
    exact ih hxs (Within.join ha hx)

lemma within_ofSegments {segments : List Segment} (h : ∀ s ∈ segments, s.Within n) :
    ∀ e ∈ Extent.ofSegments segments, e.Within n := by
  refine within_foldl_join (f := fun s : Segment => some ⟨s.start, s.stop⟩) ?_ (by simp)
  rintro s hs e ⟨⟩
  exact ⟨(h s hs).ordered, (h s hs).bounded⟩

end Extent

namespace Outline

/-- Every extent in the outline lies in a text of this length. -/
inductive Within (n : Nat) : Outline → Prop
  | node {symbol extent children} (extent_within : ∀ e ∈ extent, e.Within n)
      (children_within : ∀ o ∈ children, Within n o) : Within n (.node symbol extent children)

lemma Within.extent {o : Outline} (h : o.Within n) : ∀ e ∈ o.extent, e.Within n := by
  cases h with
  | node extent_within children_within => exact extent_within

lemma ofBlocks_eq_map (src : Bytes) (bs : List Block) : ofBlocks src bs = bs.map (ofBlock src) := by
  induction bs with
  | nil => rfl
  | cons b bs ih => rw [ofBlocks, ih, List.map_cons]

/-- The least extent around segments and outlines in the text is in it. -/
lemma within_hull (kind : BlockKind) {lines inlines : List Segment} {info : Option Segment} {below : List Outline}
    (hlines : ∀ s ∈ lines, s.Within n) (hinfo : ∀ s ∈ info, s.Within n) (hinlines : ∀ s ∈ inlines, s.Within n)
    (hbelow : ∀ o ∈ below, o.Within n) :
    ∀ e ∈ below.foldl (fun e o => Extent.join e o.extent) (Extent.join (Extent.ofSegments lines)
      (Extent.join (Extent.ofSegments (if kind = .fencedCode then info.toList else []))
        (Extent.ofSegments (inlines.filter (!·.isEmpty))))), e.Within n := by
  have hinfo' : ∀ s ∈ (if kind = .fencedCode then info.toList else []), s.Within n := by
    split_ifs
    · exact fun s hs => hinfo s (Option.mem_toList.mp hs)
    · exact List.forall_mem_nil _
  have hinlines' : ∀ s ∈ inlines.filter (!·.isEmpty), s.Within n :=
    fun s hs => hinlines s (List.mem_filter.mp hs).1
  have hown := Extent.Within.join (Extent.within_ofSegments hlines)
    (Extent.Within.join (Extent.within_ofSegments hinfo') (Extent.within_ofSegments hinlines'))
  exact Extent.within_foldl_join (fun o ho => (hbelow o ho).extent) hown

lemma measureAll?_eq {bs : List Block} (h : ∀ b ∈ bs, measure? src b = some (ofBlock src b)) :
    measureAll? src bs = some (ofBlocks src bs) := by
  induction bs with
  | nil => rfl
  | cons b bs ih =>
    obtain ⟨hb, hbs⟩ := List.forall_mem_cons.mp h
    simp [measureAll?, ofBlocks, hb, ih hbs]

/-- Measuring from an extent in the text gives one in the text. -/
lemma measured?_eq {e : Extent} (h : e.Within src.length) (kind : BlockKind) (info : Option Segment) :
    ∃ full, measured? src kind info e = some full ∧ full.Within src.length ∧
      full = if kind = .fencedCode then withFences src info (e.lineAligned src) else e.lineAligned src := by
  obtain ⟨haligned, hwithin⟩ := h.lineAligned
  rw [measured?, haligned, Option.bind_some]
  by_cases hk : kind = .fencedCode
  · obtain ⟨hfences, hwithin'⟩ := hwithin.withFences info
    rw [if_pos hk, if_pos hk]
    exact ⟨_, hfences, hwithin', rfl⟩
  · rw [if_neg hk, if_neg hk]
    exact ⟨_, rfl, hwithin, rfl⟩

/-- Segments in the text are measured without reading outside of it, and every extent lies in it. -/
theorem measure?_eq {b : Block} (h : b.Within src.length) :
    measure? src b = some (ofBlock src b) ∧ (ofBlock src b).Within src.length := by
  induction h with
  | @mk kind lines info inlines children lines_within info_within inlines_within children_within ih =>
    have hbelow := measureAll?_eq fun b hb => (ih b hb).1
    have hchildren : ∀ o ∈ ofBlocks src children, o.Within src.length := by
      rw [ofBlocks_eq_map]
      exact List.forall_mem_map.mpr fun b hb => (ih b hb).2
    have hfull := within_hull kind lines_within info_within inlines_within hchildren
    simp only [measure?, ofBlock, hbelow, Option.bind_eq_bind, Option.bind_some]
    generalize (ofBlocks src children).foldl (fun e o => Extent.join e o.extent) _ = full at hfull ⊢
    cases full with
    | none => exact ⟨by simp, .node (by simp) hchildren⟩
    | some e =>
      obtain ⟨full, hmeasured, hwithin, hfull⟩ := measured?_eq (hfull e rfl) kind info
      simp only [hmeasured, Option.map_some, ← hfull]
      by_cases hk : kind = .document
      · simp only [if_pos hk]
        exact ⟨trivial, .node (by simp) hchildren⟩
      · simp only [if_neg hk]
        exact ⟨trivial, .node (by rintro e ⟨⟩; exact hwithin) hchildren⟩

end Outline

end

end LosslessTree.Markdown
