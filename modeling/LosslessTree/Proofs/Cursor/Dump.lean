import LosslessTree.Proofs.Cursor.Preorder
import LosslessTree.Proofs.Text.Path
import LosslessTree.Proofs.Text.Quoted
import LosslessTree.Proofs.Tree.Cache

/-! A dump tells its tree. It is cut into lines again, since no line has a line feed in it; from a line the depth,
the kind and the quoted text can be read off, and elements in pre-order with their depths make up one tree only. -/
namespace LosslessTree

namespace Visit

/-- What tells an element from others: its depth, its kind, and the text of a token. -/
def label (v : Visit) : Nat × Kind × Option Bytes :=
  (v.depth, match v.tree with
    | .token k s => (k, some s)
    | .node k _ => (k, none))

/-- What stands behind the range of an element. -/
def tail (quote : Bytes → Bytes) (v : Visit) : Bytes :=
  match v.tree with
  | .token _ text => 0x20 :: quote text
  | .node .. => []

/-- The line of an element in a dump, without its end. -/
def line (quote : Bytes → Bytes) (names : KindNames) (v : Visit) : Bytes :=
  Bytes.times v.depth "  " ++ names.name v.tree.kind ++ "@" ++ (TextRange.ofOffset v.offset v.tree.length).render ++
    v.tail quote

end Visit

namespace Cursor

/-- The dump, for any way to quote the texts of tokens. -/
def dumpBy (quote : Bytes → Bytes) (names : KindNames) (c : Cursor) : Bytes :=
  c.walk.flatMap fun (place, depth) => (place.visit depth).line quote names ++ [Bytes.newline]

lemma dumpLine_eq (names : KindNames) (c : Cursor) (depth : Nat) :
    dumpLine names c depth = (c.visit depth).line Quoted.encode names ++ [Bytes.newline] := rfl

theorem dump_eq_dumpBy (names : KindNames) (c : Cursor) : c.dump names = c.dumpBy Quoted.encode names := rfl

lemma dumpBy_ofRoot (quote : Bytes → Bytes) (names : KindNames) (t : Tree) :
    (ofRoot t).dumpBy quote names =
      (t.preorder 0 0).flatMap fun v => v.line quote names ++ [Bytes.newline] := by
  have hwalk := map_visit_walk (ofRoot t)
  change _ = t.preorder 0 0 at hwalk
  rw [← hwalk, List.flatMap_map]
  rfl

end Cursor

/-- Nothing, or something that stands no deeper than this. -/
def Ends (depth : Nat) (rest : List (Nat × Kind × Option Bytes)) : Prop := ∀ l ∈ rest.head?, l.1 ≤ depth

namespace Tree

variable {depth m offset offset' : Nat} {rest rest' : List (Nat × Kind × Option Bytes)} {cs ds : List Tree}

/-- The labels of a tree's elements tell the tree, and what comes after it, as long as that stands no deeper. -/
def Told (t : Tree) : Prop :=
  ∀ (u : Tree) (depth offset offset' : Nat) (rest rest' : List (Nat × Kind × Option Bytes)),
    Ends depth rest → Ends depth rest' →
    (t.preorder depth offset).map Visit.label ++ rest = (u.preorder depth offset').map Visit.label ++ rest' →
    t = u ∧ rest = rest'

lemma ends_preorderAll (hm : m ≤ depth) (hrest : Ends depth rest) (cs : List Tree) :
    Ends depth ((preorderAll m offset cs).map Visit.label ++ rest) := by
  cases cs with
  | nil => exact hrest
  | cons c cs =>
    obtain ⟨below, hbelow⟩ := exists_preorder m offset c
    intro l hl
    rw [preorderAll, hbelow] at hl
    obtain rfl : _ = l := by simpa using hl
    exact hm

/-- Where one list of trees goes on, the other cannot have ended. -/
lemma not_ends_preorderAll {c : Tree} (hrest : Ends depth rest)
    (h : (preorderAll (depth + 1) offset (c :: cs)).map Visit.label ++ rest' = rest) : False := by
  obtain ⟨below, hbelow⟩ := exists_preorder (depth + 1) offset c
  rw [preorderAll, hbelow] at h
  have hdeep : depth + 1 ≤ depth := by
    apply hrest (Visit.label ⟨depth + 1, offset, c⟩)
    rw [← h]
    rfl
  omega

lemma preorderAll_unique (ih : ∀ c ∈ cs, Told c) (hrest : Ends depth rest) (hrest' : Ends depth rest')
    (h : (preorderAll (depth + 1) offset cs).map Visit.label ++ rest =
      (preorderAll (depth + 1) offset' ds).map Visit.label ++ rest') : cs = ds ∧ rest = rest' := by
  have hdeeper : ∀ {rest : List (Nat × Kind × Option Bytes)}, Ends depth rest → Ends (depth + 1) rest :=
    fun h l hl => Nat.le_succ_of_le (h l hl)
  induction cs generalizing ds offset offset' with
  | nil =>
    cases ds with
    | nil => exact ⟨rfl, h⟩
    | cons d ds => exact (not_ends_preorderAll hrest h.symm).elim
  | cons c cs ihs =>
    obtain ⟨hc, hcs⟩ := List.forall_mem_cons.mp ih
    cases ds with
    | nil => exact (not_ends_preorderAll hrest' h).elim
    | cons d ds =>
      rw [preorderAll, preorderAll, List.map_append, List.map_append, List.append_assoc, List.append_assoc] at h
      obtain ⟨rfl, hmore⟩ := hc d _ _ _ _ _ (ends_preorderAll (Nat.le_refl _) (hdeeper hrest) cs)
        (ends_preorderAll (Nat.le_refl _) (hdeeper hrest') ds) h
      obtain ⟨rfl, hrests⟩ := ihs hcs hmore
      exact ⟨rfl, hrests⟩

theorem told (t : Tree) : Told t := by
  induction t with
  | token k s =>
    intro u depth offset offset' rest rest' hrest hrest' h
    cases u with
    | token l s' =>
      simp only [preorder, Visit.label, List.map_cons, List.map_nil, List.cons_append, List.nil_append,
        List.cons.injEq, Prod.mk.injEq, Option.some.injEq, true_and] at h
      obtain ⟨⟨rfl, rfl⟩, hrests⟩ := h
      exact ⟨rfl, hrests⟩
    | node l ds => simp [preorder, Visit.label] at h
  | node k cs ih =>
    intro u depth offset offset' rest rest' hrest hrest' h
    cases u with
    | token l s => simp [preorder, Visit.label] at h
    | node l ds =>
      simp only [preorder, Visit.label, List.map_cons, List.cons_append, List.cons.injEq, Prod.mk.injEq, true_and,
        and_true] at h
      obtain ⟨rfl, hbelow⟩ := h
      obtain ⟨rfl, hrests⟩ := preorderAll_unique ih hrest hrest' hbelow
      exact ⟨rfl, hrests⟩

/-- The elements of a tree in pre-order with their depths tell the tree. -/
theorem map_label_preorder_injective {t u : Tree}
    (h : (t.preorder 0 0).map Visit.label = (u.preorder 0 0).map Visit.label) : t = u := by
  have hnone : Ends 0 [] := nofun
  refine (told t u 0 0 0 [] [] hnone hnone ?_).1
  rw [h]

end Tree

namespace Bytes

variable {stop : UInt8} {x y rest rest' : Bytes}

/-- Texts up to a byte that is in neither of them. -/
lemma append_inj_of_stop (hx : stop ∉ x) (hy : stop ∉ y) (hrest : ∀ b ∈ rest.head?, b = stop)
    (hrest' : ∀ b ∈ rest'.head?, b = stop) (h : x ++ rest = y ++ rest') : x = y ∧ rest = rest' := by
  have htake : ∀ {x rest : Bytes}, stop ∉ x → (∀ b ∈ rest.head?, b = stop) →
      (x ++ rest).takeWhile (· != stop) = x := by
    intro x rest hx hrest
    have hinside : ∀ b ∈ x, (b != stop) = true := by
      intro b hb
      rw [bne_iff_ne]
      rintro rfl
      exact hx hb
    rw [List.takeWhile_append_of_pos hinside]
    cases rest with
    | nil => simp
    | cons b rest => simp [hrest b rfl]
  obtain rfl : x = y := by rw [← htake hx hrest, h, htake hy hrest']
  exact ⟨rfl, List.append_cancel_left h⟩

lemma times_indent (n : Nat) : times n "  " = List.replicate (2 * n) space := by
  induction n with
  | zero => rfl
  | succ n ih =>
    have hsucc : times (n + 1) "  " = [space, space] ++ times n "  " := rfl
    rw [hsucc, ih, Nat.mul_succ, Nat.add_comm, List.replicate_add]
    rfl

/-- The parts of a range are digits, minus signs and dots. -/
lemma visible_of_mem_render {r : TextRange} {b : UInt8} (h : b ∈ r.render) : 0x20 < b := by
  have hdigit : ∀ b, isDigit b = true → 0x20 < b := by
    intro b hb
    simp only [isDigit, Bool.and_eq_true, decide_eq_true_eq] at hb
    exact UInt8.lt_of_lt_of_le (by decide) hb.1
  have hint : ∀ i : Int, b ∈ ofInt i → 0x20 < b := by
    intro i hi
    cases i with
    | ofNat n => exact hdigit b (isDigit_of_mem_ofNat hi)
    | negSucc n =>
      rcases List.mem_cons.mp hi with rfl | hi
      · decide
      · exact hdigit b (isDigit_of_mem_ofNat hi)
  rw [TextRange.render, List.mem_append, List.mem_append] at h
  rcases h with (h | h) | h
  · exact hint _ h
  · have hdots : ∀ x ∈ ofString "..", 0x20 < x := by decide +kernel
    exact hdots b h
  · exact hint _ h

end Bytes

namespace KindNames

/-- Without a table a kind is named by its number. -/
lemma name_nil (k : Kind) : Bytes.ofString (name [] k) = Bytes.ofString "KIND_" ++ Bytes.ofNat k := by
  rw [show name [] k = "KIND_" ++ k.repr from rfl, Bytes.ofString_append]
  rfl

end KindNames

namespace Visit

variable {quote : Bytes → Bytes} {v w : Visit}

/-- A line from left to right. -/
lemma line_nil_eq (quote : Bytes → Bytes) (v : Visit) : v.line quote [] =
    List.replicate (2 * v.depth) Bytes.space ++ ("KIND_" ++ (Bytes.ofNat v.tree.kind ++ ("@" ++
      ((TextRange.ofOffset v.offset v.tree.length).render ++ v.tail quote)))) := by
  rw [line, KindNames.name_nil, Bytes.times_indent]
  simp only [List.append_assoc]

lemma label_eq (hquote : Function.Injective quote) (hdepth : v.depth = w.depth)
    (hkind : v.tree.kind = w.tree.kind) (htail : v.tail quote = w.tail quote) : v.label = w.label := by
  obtain ⟨depth, offset, t⟩ := v
  obtain ⟨depth', offset', u⟩ := w
  cases t with
  | token k s =>
    cases u with
    | token l s' =>
      have hs : s = s' := hquote (List.tail_eq_of_cons_eq htail)
      simp_all [label, Tree.kind]
    | node l ds => cases htail
  | node k cs =>
    cases u with
    | token l s => cases htail
    | node l ds => simp_all [label, Tree.kind]

lemma head?_tail (quote : Bytes → Bytes) (v : Visit) : ∀ b ∈ (v.tail quote).head?, b = Bytes.space := by
  intro b hb
  unfold tail at hb
  split at hb
  · exact (Option.some.inj hb).symm
  · cases hb

/-- The label of an element can be read off its line. -/
lemma label_of_line (hquote : Function.Injective quote) (h : v.line quote [] = w.line quote []) :
    v.label = w.label := by
  have hkindStop : ∀ n, (0x4B : UInt8) ∉ List.replicate n Bytes.space := by
    intro n hn
    exact absurd (List.eq_of_mem_replicate hn) (by decide)
  have hatStop : ∀ n, (0x40 : UInt8) ∉ Bytes.ofNat n := fun n hn => absurd (Bytes.isDigit_of_mem_ofNat hn) (by decide)
  have hspaceStop : ∀ r : TextRange, Bytes.space ∉ r.render :=
    fun r hr => absurd (Bytes.visible_of_mem_render hr) (by decide)
  have hkindHead : ∀ rest : Bytes, ∀ b ∈ (Bytes.ofString "KIND_" ++ rest).head?, b = 0x4B :=
    fun _ _ hb => (Option.some.inj hb).symm
  have hatHead : ∀ rest : Bytes, ∀ b ∈ (Bytes.ofString "@" ++ rest).head?, b = 0x40 :=
    fun _ _ hb => (Option.some.inj hb).symm
  rw [line_nil_eq, line_nil_eq] at h
  -- the indentation ends at the first letter, the kind at the mark of the range, the range at the next space
  obtain ⟨hindent, h⟩ := Bytes.append_inj_of_stop (hkindStop _) (hkindStop _) (hkindHead _) (hkindHead _) h
  obtain ⟨hkind, h⟩ := Bytes.append_inj_of_stop (hatStop _) (hatStop _) (hatHead _) (hatHead _)
    (List.append_cancel_left h)
  obtain ⟨-, htail⟩ := Bytes.append_inj_of_stop (hspaceStop _) (hspaceStop _) (head?_tail quote v) (head?_tail quote w)
    (List.append_cancel_left h)
  have hdepth : v.depth = w.depth := by
    have hlength := congrArg List.length hindent
    rw [List.length_replicate, List.length_replicate] at hlength
    omega
  exact label_eq hquote hdepth (Bytes.ofNat_injective hkind) htail

lemma map_label_of_map_line (hquote : Function.Injective quote) {vs ws : List Visit}
    (h : vs.map (line quote []) = ws.map (line quote [])) : vs.map label = ws.map label := by
  induction vs generalizing ws with
  | nil => rw [List.map_eq_nil_iff.mp h.symm]
  | cons v vs ih =>
    cases ws with
    | nil => cases h
    | cons w ws =>
      obtain ⟨hline, hrest⟩ := List.cons_eq_cons.mp h
      rw [List.map_cons, List.map_cons, label_of_line hquote hline, ih hrest]

/-- No line has a control character in it. -/
lemma visible_of_mem_line (hquote : ∀ text, ∀ b ∈ quote text, 0x20 ≤ b) {b : UInt8} (h : b ∈ v.line quote []) :
    0x20 ≤ b := by
  have hmark : ∀ x ∈ Bytes.ofString "KIND_" ++ Bytes.ofString "@", 0x20 ≤ x := by decide +kernel
  rw [line_nil_eq] at h
  simp only [List.mem_append] at hmark h
  rcases h with h | h | h | h | h | h
  · rw [List.eq_of_mem_replicate h]
    decide
  · exact hmark b (.inl h)
  · have hdigit := Bytes.isDigit_of_mem_ofNat h
    simp only [Bytes.isDigit, Bool.and_eq_true, decide_eq_true_eq] at hdigit
    exact UInt8.le_trans (by decide) hdigit.1
  · exact hmark b (.inr h)
  · exact UInt8.le_of_lt (Bytes.visible_of_mem_render h)
  · unfold tail at h
    split at h
    · rcases List.mem_cons.mp h with rfl | h
      · decide
      · exact hquote _ b h
    · cases h

end Visit

namespace Bytes

/-- Lines are found again by their ends. -/
lemma split_lines {lines : List Bytes} (h : ∀ line ∈ lines, newline ∉ line) :
    split newline (lines.flatMap fun line => line ++ [newline]) = lines ++ [[]] := by
  induction lines with
  | nil => rfl
  | cons line lines ih =>
    obtain ⟨hline, hlines⟩ := List.forall_mem_cons.mp h
    rw [List.flatMap_cons, List.append_assoc, List.singleton_append, split_append, split_eq_singleton hline, ih hlines]
    rfl

end Bytes

namespace Cursor

variable {quote : Bytes → Bytes} {a b : Tree}

/-- Whatever quotes texts one by one and without control characters, the dump tells the tree. -/
lemma dumpBy_injective (hquote : Function.Injective quote) (hvisible : ∀ text, ∀ x ∈ quote text, 0x20 ≤ x)
    (h : (ofRoot a).dumpBy quote [] = (ofRoot b).dumpBy quote []) : a = b := by
  have hlines : ∀ t : Tree, Bytes.split Bytes.newline ((ofRoot t).dumpBy quote []) =
      (t.preorder 0 0).map (Visit.line quote []) ++ [[]] := by
    intro t
    rw [dumpBy_ofRoot, ← Bytes.split_lines, List.flatMap_map]
    rintro line hline hnewline
    obtain ⟨v, -, rfl⟩ := List.mem_map.mp hline
    exact absurd (Visit.visible_of_mem_line hvisible hnewline) (by decide)
  have hsame : (a.preorder 0 0).map (Visit.line quote []) = (b.preorder 0 0).map (Visit.line quote []) := by
    have hended : (a.preorder 0 0).map (Visit.line quote []) ++ [[]] =
        (b.preorder 0 0).map (Visit.line quote []) ++ [[]] := by
      rw [← hlines, ← hlines, h]
    exact List.append_cancel_right hended
  exact Tree.map_label_preorder_injective (Visit.map_label_of_map_line hquote hsame)

/-- A dump with kinds by their numbers determines the tree: kinds, nesting, and the texts of tokens byte by byte.
This holds for every notion of what is printable in a quoted text by which control characters are not. -/
theorem dump_determines {printable : Nat → Bool} (hcontrols : Quoted.HidesControls printable) (f : Fingerprint)
    (a b : Tree) :
    ((ofRoot a).dumpBy (Quoted.encodeBy printable) [] = (ofRoot b).dumpBy (Quoted.encodeBy printable) [] ↔
      a.equal f b = true) ∧
    ((ofRoot a).dump [] = (ofRoot b).dump [] ↔ a.equal f b = true) := by
  have hdetermines : ∀ {printable : Nat → Bool}, Quoted.HidesControls printable →
      ((ofRoot a).dumpBy (Quoted.encodeBy printable) [] = (ofRoot b).dumpBy (Quoted.encodeBy printable) [] ↔
        a.equal f b = true) := by
    intro printable hcontrols
    rw [Tree.equal_iff]
    constructor
    · exact dumpBy_injective (fun _ _ => Quoted.encodeBy_injective)
        (fun _ _ => Quoted.visible_of_mem_encodeBy hcontrols)
    · rintro rfl
      rfl
  refine ⟨hdetermines hcontrols, ?_⟩
  rw [dump_eq_dumpBy, dump_eq_dumpBy, Quoted.encode_eq_encodeBy]
  exact hdetermines Quoted.hidesControls_isPrintable

/-- The ASCII characters that are shown as themselves. -/
def isPlainAscii (n : Nat) : Bool := 0x20 ≤ n && n < 0x7F

/-- A stray byte is kept apart from the replacement character, and a line feed in a token from the end of a line, even
if nothing beyond ASCII is printable. -/
theorem dump_determines_stray : Quoted.HidesControls isPlainAscii ∧
    (ofRoot (.node 0 [.token 1 [0xFF, 0x0A], .node 2 []])).dumpBy (Quoted.encodeBy isPlainAscii) [] ≠
      (ofRoot (.node 0 [.token 1 [0xEF, 0xBF, 0xBD, 0x0A], .node 2 []])).dumpBy (Quoted.encodeBy isPlainAscii) [] := by
  have hcontrols : Quoted.HidesControls isPlainAscii := by
    intro n hn
    simp [isPlainAscii, hn]
  refine ⟨hcontrols, fun h => ?_⟩
  have hequal := (dump_determines hcontrols .standard _ _).1.mp h
  exact absurd hequal (by decide)

end Cursor
end LosslessTree
