import LosslessTree.Proofs.Cursor.Dump
import LosslessTree.Report.Outline
import LosslessTree.Report.TreeText

/-! The three ways to print a tree. The text of a report and the outline in it are made from the same elements, those
of the dump down to the last level that is shown, and cut off the children of the same nodes. -/
namespace LosslessTree

namespace Report

namespace Options

/-- Whether elements at some depth are shown. -/
def shows (o : Options) (depth : Nat) : Bool := o.maxDepth ≤ 0 || depth < o.maxDepth

/-- Whether a node has children that are left out, as it stands on the last level that is shown. -/
def leavesOut (o : Options) (v : Visit) : Bool := (v.depth + 1 : Int) == o.maxDepth && !v.tree.children.isEmpty

end Options

/-- An element of an outline with its depth. -/
structure Outline.Item where
  depth : Nat
  name : String
  range : TextRange
  /-- The text of a token. -/
  text : Option Bytes
  isCut : Bool
  deriving DecidableEq

namespace Outline

mutual
/-- The elements of an outline that stands at some depth, in pre-order. -/
def items (depth : Nat) : Outline → List Item
  | .token name range text => [⟨depth, name, range, some text, false⟩]
  | .node name range cs => ⟨depth, name, range, none, false⟩ :: itemsAll (depth + 1) cs
  | .cut name range => [⟨depth, name, range, none, true⟩]
def itemsAll (depth : Nat) : List Outline → List Item
  | [] => []
  | c :: cs => c.items depth ++ itemsAll depth cs
end

end Outline

variable {o : Options} {names : KindNames} {depth offset : Nat} {v : Visit}

mutual
/-- The elements that a report shows of a tree. -/
def shownFrom (o : Options) (depth offset : Nat) : Tree → List Visit
  | .token k s => [⟨depth, offset, .token k s⟩]
  | .node k cs =>
    ⟨depth, offset, .node k cs⟩ ::
      if !cs.isEmpty && o.cutsBelow depth then [] else shownAll o (depth + 1) offset cs
def shownAll (o : Options) (depth offset : Nat) : List Tree → List Visit
  | [] => []
  | c :: cs => shownFrom o depth offset c ++ shownAll o depth (offset + c.length) cs
end

/-- Whether the children of an element are cut off where it stands. -/
def cutsOff (o : Options) (v : Visit) : Bool := !v.tree.children.isEmpty && o.cutsBelow v.depth

/-- The line of an element in the text of a report. -/
def shownLine (o : Options) (names : KindNames) (v : Visit) : Bytes :=
  elementHead o names v.depth v.offset v.tree ++
    (match v.tree with
      | .token _ text => tokenText o text
      | .node .. => if cutsOff o v then cutMark o else []) ++ [Bytes.newline]

/-- The element of an outline for an element of the tree. -/
def shownItem (o : Options) (names : KindNames) (v : Visit) : Outline.Item where
  depth := v.depth
  name := names.name v.tree.kind
  range := .ofOffset v.offset v.tree.length
  text := match v.tree with
    | .token _ text => some text
    | .node .. => none
  isCut := cutsOff o v

lemma treeLinesAll_eq (o : Options) (names : KindNames) {cs : List Tree}
    (ih : ∀ c ∈ cs, ∀ depth offset, treeLines o names depth offset c = (shownFrom o depth offset c).map (shownLine o names))
    (depth offset : Nat) :
    treeLinesAll o names depth offset cs = (shownAll o depth offset cs).map (shownLine o names) := by
  induction cs generalizing offset with
  | nil => rfl
  | cons c cs ihs =>
    obtain ⟨hc, hcs⟩ := List.forall_mem_cons.mp ih
    rw [treeLinesAll, shownAll, hc, ihs hcs, List.map_append]

lemma treeLines_eq (o : Options) (names : KindNames) (t : Tree) (depth offset : Nat) :
    treeLines o names depth offset t = (shownFrom o depth offset t).map (shownLine o names) := by
  induction t generalizing depth offset with
  | token k s => simp [treeLines, shownFrom, shownLine]
  | node k cs ih =>
    rw [treeLines, shownFrom]
    split_ifs with hcut
    · simp [shownLine, cutsOff, Tree.children, hcut]
    · simp [shownLine, cutsOff, Tree.children, hcut, treeLinesAll_eq o names ih]

lemma itemsAll_outlineAll_eq (o : Options) (names : KindNames) {cs : List Tree}
    (ih : ∀ c ∈ cs, ∀ depth offset,
      (outline o names depth offset c).items depth = (shownFrom o depth offset c).map (shownItem o names))
    (depth offset : Nat) :
    Outline.itemsAll depth (outlineAll o names depth offset cs) =
      (shownAll o depth offset cs).map (shownItem o names) := by
  induction cs generalizing offset with
  | nil => rfl
  | cons c cs ihs =>
    obtain ⟨hc, hcs⟩ := List.forall_mem_cons.mp ih
    rw [outlineAll, Outline.itemsAll, shownAll, hc, ihs hcs, List.map_append]

lemma items_outline_eq (o : Options) (names : KindNames) (t : Tree) (depth offset : Nat) :
    (outline o names depth offset t).items depth = (shownFrom o depth offset t).map (shownItem o names) := by
  induction t generalizing depth offset with
  | token k s => rfl
  | node k cs ih =>
    rw [outline, shownFrom]
    split_ifs with hcut
    · simp [Outline.items, shownItem, cutsOff, Tree.children, Tree.kind, Tree.length, hcut]
    · simp [Outline.items, shownItem, cutsOff, Tree.children, Tree.kind, Tree.length, hcut,
        itemsAll_outlineAll_eq o names ih]

lemma shows_succ (o : Options) (depth : Nat) : o.shows (depth + 1) = !o.cutsBelow depth := by
  rw [Bool.eq_iff_iff]
  simp [Options.shows, Options.cutsBelow]

lemma shows_of_le {m : Nat} (hm : m ≤ depth) (h : o.shows depth = true) : o.shows m = true := by
  simp [Options.shows] at h ⊢
  omega

/-- All that is below a node on the last level stands at least one level deeper, where nothing is shown. -/
lemma filter_shows_preorderAll (hcut : o.cutsBelow depth = true) (offset : Nat) (cs : List Tree) :
    ((Tree.preorderAll (depth + 1) offset cs).filter fun v => o.shows v.depth) = [] := by
  rw [List.filter_eq_nil_iff]
  intro v hv hshows
  have hnext := shows_of_le (Tree.depth_le_of_mem_preorderAll hv) hshows
  rw [shows_succ, hcut] at hnext
  cases hnext

lemma shownAll_eq {cs : List Tree}
    (ih : ∀ c ∈ cs, ∀ depth offset, o.shows depth = true →
      shownFrom o depth offset c = (c.preorder depth offset).filter fun v => o.shows v.depth)
    (hshows : o.shows depth = true) (offset : Nat) :
    shownAll o depth offset cs = (Tree.preorderAll depth offset cs).filter fun v => o.shows v.depth := by
  induction cs generalizing offset with
  | nil => rfl
  | cons c cs ihs =>
    obtain ⟨hc, hcs⟩ := List.forall_mem_cons.mp ih
    rw [shownAll, Tree.preorderAll, List.filter_append, hc _ _ hshows, ihs hcs]

/-- Cutting off children takes away what stands too deep, and nothing else. -/
lemma shownFrom_eq (o : Options) (t : Tree) (depth offset : Nat) (hshows : o.shows depth = true) :
    shownFrom o depth offset t = (t.preorder depth offset).filter fun v => o.shows v.depth := by
  induction t generalizing depth offset with
  | token k s => simp [shownFrom, Tree.preorder, hshows]
  | node k cs ih =>
    rw [shownFrom, Tree.preorder, List.filter_cons_of_pos (by exact hshows)]
    congr 1
    split_ifs with hcut
    · rw [Bool.and_eq_true] at hcut
      exact (filter_shows_preorderAll hcut.2 offset cs).symm
    · by_cases hcs : cs = []
      · subst hcs
        rfl
      have hnext : o.shows (depth + 1) = true := by
        rw [shows_succ, Bool.not_eq_true']
        simpa [hcs] using hcut
      exact shownAll_eq ih hnext offset

/-- On the levels that are shown, the children of a node are cut off on the last one. -/
lemma cutsOff_eq (h : o.shows v.depth = true) : cutsOff o v = o.leavesOut v := by
  have hlast : o.cutsBelow v.depth = ((v.depth + 1 : Int) == o.maxDepth) := by
    rw [Bool.eq_iff_iff]
    simp [Options.shows, Options.cutsBelow] at h ⊢
    omega
  rw [cutsOff, Options.leavesOut, hlast, Bool.and_comm]

lemma flatMap_expandTab {text : Bytes} (h : Bytes.tab ∉ text) : text.flatMap Style.expandTab = text := by
  induction text with
  | nil => rfl
  | cons b text ih =>
    obtain ⟨hb, htext⟩ := not_or.mp (mt List.mem_cons.mpr h)
    rw [List.flatMap_cons, ih htext, Style.expandTab, if_neg (by simpa using Ne.symm hb), List.singleton_append]

lemma render_plain {text : Bytes} (h : Bytes.tab ∉ text) : Style.plain.render text = text := flatMap_expandTab h

/-- A plain style leaves the names of kinds alone if the table has no tab in it. -/
lemma render_name (h : ∀ name ∈ names, Bytes.tab ∉ Bytes.ofString name) (k : Kind) :
    Style.plain.render (names.name k) = Bytes.ofString (names.name k) := by
  have hnumber : Bytes.tab ∉ Bytes.ofString ("KIND_" ++ k.repr) := by
    intro htab
    rw [Bytes.ofString_append, List.mem_append] at htab
    rcases htab with htab | htab
    · exact absurd htab (by decide)
    · exact absurd (Bytes.isDigit_of_mem_ofNat htab) (by decide)
  apply render_plain
  rw [KindNames.name]
  split
  next name hname =>
    split_ifs
    · exact hnumber
    · exact h name (List.mem_of_getElem? hname)
  next => exact hnumber

lemma tab_not_mem_range (r : TextRange) : Bytes.tab ∉ Bytes.ofString "@" ++ r.render := by
  intro h
  rcases List.mem_append.mp h with h | h
  · exact absurd h (by decide)
  · exact absurd (Bytes.visible_of_mem_render h) (by decide)

lemma tab_not_mem_quoted (text : Bytes) : Bytes.tab ∉ Quoted.encode text := by
  intro h
  rw [Quoted.encode_eq_encodeBy] at h
  exact absurd (Quoted.visible_of_mem_encodeBy Quoted.hidesControls_isPrintable h) (by decide)

/-- Without color, a line of a report is the line of the dump, with a mark at its end if children are cut off. -/
lemma shownLine_eq (hcolor : o.color.isEnabled = false) (hoffsets : o.offsets = true) (hwidth : o.textWidth? = none)
    (hnames : ∀ k, Style.plain.render (names.name k) = Bytes.ofString (names.name k)) (h : o.shows v.depth = true) :
    shownLine o names v =
      v.line Quoted.encode names ++ (if o.leavesOut v then Bytes.ofString " …" else []) ++ [Bytes.newline] := by
  have htheme : o.theme = Theme.plain := by rw [Options.theme, Theme.ofMode, hcolor, if_neg Bool.false_ne_true]
  have hkind : ∀ (name : String) (isToken : Bool), kindStyle Theme.plain name isToken = Style.plain := by
    intro name isToken
    unfold kindStyle
    split_ifs <;> rfl
  have hhead : elementHead o names v.depth v.offset v.tree =
      Bytes.times v.depth "  " ++ names.name v.tree.kind ++
        ("@" ++ (TextRange.ofOffset v.offset v.tree.length).render) := by
    rw [elementHead, htheme, hkind, hnames, hoffsets, if_pos rfl]
    exact congrArg _ (render_plain (tab_not_mem_range _))
  have hmark : cutMark o = " …" := by
    rw [cutMark, htheme]
    exact render_plain (by decide)
  have htext : ∀ text, tokenText o text = 0x20 :: Quoted.encode text := by
    intro text
    rw [tokenText, hwidth, htheme]
    exact congrArg _ (render_plain (tab_not_mem_quoted text))
  rw [shownLine, hhead, cutsOff_eq h, Visit.line, Visit.tail, hmark]
  obtain ⟨depth, offset, t⟩ := v
  cases t with
  | token k text => simp [htext, Options.leavesOut, Tree.children]
  | node k cs => simp

/-- The element of an outline for a place in the tree. -/
def placeItem (o : Options) (names : KindNames) (place : Cursor) (depth : Nat) : Outline.Item where
  depth := depth
  name := names.name place.kind
  range := place.range
  text := if place.isToken then some place.text else none
  isCut := o.leavesOut (place.visit depth)

/-- The line of the dump for a place in the tree, marked if the place has children that are left out. -/
def placeLine (o : Options) (names : KindNames) (place : Cursor) (depth : Nat) : Bytes :=
  if o.leavesOut (place.visit depth) then (place.dumpLine names depth).dropLast ++ " …" ++ [Bytes.newline]
  else place.dumpLine names depth

lemma placeItem_eq {place : Cursor} (h : o.shows depth = true) :
    placeItem o names place depth = shownItem o names (place.visit depth) := by
  rw [placeItem, shownItem, cutsOff_eq (v := place.visit depth) h]
  obtain ⟨t, offset, trail⟩ := place
  cases t with
  | token k s => simp [Cursor.visit, Cursor.kind, Cursor.range, Cursor.length, Cursor.isToken, Cursor.text,
      Tree.isToken, Tree.isNode, Tree.text]
  | node k cs => simp [Cursor.visit, Cursor.kind, Cursor.range, Cursor.length, Cursor.isToken, Tree.isToken,
      Tree.isNode]

lemma placeLine_eq (o : Options) (names : KindNames) (place : Cursor) (depth : Nat) : placeLine o names place depth =
    (place.visit depth).line Quoted.encode names ++
      (if o.leavesOut (place.visit depth) then Bytes.ofString " …" else []) ++ [Bytes.newline] := by
  rw [placeLine, Cursor.dumpLine_eq, List.dropLast_concat]
  split_ifs
  · rfl
  · rw [List.append_nil]

/-- The places that are shown, as the elements that the printers go through. -/
lemma map_visit_shown (o : Options) (t : Tree) :
    ((Cursor.ofRoot t).walk.filter fun p => o.shows p.2).map (fun p => p.1.visit p.2) = shownFrom o 0 0 t := by
  have hroot : o.shows 0 = true := by
    simp [Options.shows]
    omega
  have hwalk : (Cursor.ofRoot t).walk.map (fun p => p.1.visit p.2) = t.preorder 0 0 := Cursor.map_visit_walk _
  rw [shownFrom_eq o t 0 0 hroot, ← hwalk, List.filter_map]
  rfl

/-- The text of a report and the outline in it show the same places in the same order and nesting: those of the
dump, as far down as is asked for. The text has the lines of the dump, with a mark just where the outline says that
children are cut off; without a limit it is the dump itself. Colors and limits to the texts of tokens are off, and
the names of kinds are such as a plain style leaves alone. -/
theorem printers_agree {o : Options} {names : KindNames} (hcolor : o.color.isEnabled = false)
    (hoffsets : o.offsets = true) (hwidth : o.textWidth? = none)
    (hnames : ∀ k, Style.plain.render (names.name k) = Bytes.ofString (names.name k)) (t : Tree) :
    treeText o names t = ((Cursor.ofRoot t).walk.filter fun (_, depth) => o.shows depth).flatMap
      (fun (place, depth) => placeLine o names place depth) ∧
    (outline o names 0 0 t).items 0 = ((Cursor.ofRoot t).walk.filter fun (_, depth) => o.shows depth).map
      (fun (place, depth) => placeItem o names place depth) ∧
    (o.maxDepth ≤ 0 → treeText o names t = (Cursor.ofRoot t).dump names) := by
  have htext : treeText o names t = ((Cursor.ofRoot t).walk.filter fun (_, depth) => o.shows depth).flatMap
      (fun (place, depth) => placeLine o names place depth) := by
    rw [treeText, treeLines_eq, ← map_visit_shown, List.map_map, ← List.flatMap_def]
    apply List.flatMap_congr
    rintro ⟨place, depth⟩ hplace
    have hshows : o.shows depth = true := (List.mem_filter.mp hplace).2
    change shownLine o names (place.visit depth) = placeLine o names place depth
    rw [placeLine_eq]
    exact shownLine_eq hcolor hoffsets hwidth hnames hshows
  refine ⟨htext, ?_, fun hall => ?_⟩
  · rw [items_outline_eq, ← map_visit_shown, List.map_map]
    apply List.map_congr_left
    rintro ⟨place, depth⟩ hplace
    have hshows : o.shows depth = true := (List.mem_filter.mp hplace).2
    exact (placeItem_eq hshows).symm
  · have hshows : ∀ p ∈ (Cursor.ofRoot t).walk, o.shows p.2 = true := fun p _ => by simp [Options.shows, hall]
    rw [htext, List.filter_eq_self.mpr hshows, Cursor.dump]
    apply List.flatMap_congr
    rintro ⟨place, depth⟩ -
    have hkept : o.leavesOut (place.visit depth) = false := by
      simp [Options.leavesOut]
      omega
    simp only [placeLine, hkept, Bool.false_eq_true, if_false]

/-- With two levels shown, the group is marked and what it holds is left out; the empty group has no mark. -/
theorem printers_agree_two_levels :
    let o : Options := { color := .never, offsets := true, maxTextWidth := -1, maxDepth := 2 }
    let names : KindNames := ["Root", "Group", "Word"]
    let t : Tree := .node 0 [.node 1 [.token 2 [0x61]], .token 2 [0x62], .node 1 []]
    ((outline o names 0 0 t).items 0).map Outline.Item.isCut = [false, true, false, false] ∧
    treeText o names t = ((Cursor.ofRoot t).walk.filter fun (_, depth) => o.shows depth).flatMap
      (fun (place, depth) => placeLine o names place depth) := by
  intro o names t
  have hnames : ∀ name ∈ names, Bytes.tab ∉ Bytes.ofString name := by decide
  refine ⟨by decide, ?_⟩
  exact (printers_agree rfl rfl rfl (render_name hnames) t).1

end Report
end LosslessTree
