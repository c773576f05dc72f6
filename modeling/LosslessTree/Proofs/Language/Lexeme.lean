import LosslessTree.Language.Calc.Lexer
import LosslessTree.Language.Decl.Lexer
import LosslessTree.Language.Registry
import LosslessTree.Proofs.Bytes.Utf8

/-! Lexing loses nothing: lexemes cover the glyphs, as these cover the text they were read from. -/
namespace LosslessTree

namespace Lexeme

theorem flatMap_text_cut {σ : Type} (scan : Glyph → List Glyph → σ × Nat) (glyphs : List Glyph) :
    (cut scan glyphs).flatMap text = Utf8.bytes glyphs := by
  fun_induction cut scan glyphs with
  | case1 => rfl
  | case2 g rest symbol more h ih =>
    rw [List.flatMap_cons, ih, ← Utf8.bytes_append, List.cons_append, List.take_append_drop]

end Lexeme

theorem Calc.flatMap_text_lex (src : Bytes) : (Calc.lex src).flatMap Lexeme.text = src :=
  (Lexeme.flatMap_text_cut _ _).trans (Utf8.bytes_decode src)

theorem Decl.flatMap_text_lex (src : Bytes) : (Decl.lex src).flatMap Lexeme.text = src :=
  (Lexeme.flatMap_text_cut _ _).trans (Utf8.bytes_decode src)

end LosslessTree

/-! Lexing a lexeme again. Scanners look no further than the lexeme they find, so a lexeme that is cut out
of any text, valid or not, is by itself lexed as what it is. As nothing is lexed as no lexeme, each of them
takes some of the text, and together they take all of it. -/
namespace LosslessTree

lemma countWhile_cons (test : Nat → Bool) (g : Glyph) (glyphs : List Glyph) :
    countWhile test (g :: glyphs) = if test g.point then countWhile test glyphs + 1 else 0 := by
  unfold countWhile
  rw [List.takeWhile_cons]
  split_ifs <;> rfl

/-- The glyphs that pass a test are found as well when the text ends after them. -/
lemma countWhile_take {test : Nat → Bool} {glyphs : List Glyph} {n : Nat} (h : countWhile test glyphs ≤ n) :
    countWhile test (glyphs.take n) = countWhile test glyphs := by
  induction glyphs generalizing n with
  | nil => rw [List.take_nil]
  | cons g glyphs ih =>
    rw [countWhile_cons] at h ⊢
    cases n with
    | zero => exact (Nat.le_zero.mp h).symm
    | succ n =>
      rw [List.take_succ_cons, countWhile_cons]
      split_ifs at h ⊢
      · rw [ih (Nat.le_of_succ_le_succ h)]
      · rfl

namespace Lexeme

variable {σ : Type} {scan : Glyph → List Glyph → σ × Nat}

/-- The scanner finds the same lexeme when the text ends after it. -/
def IsLocal (scan : Glyph → List Glyph → σ × Nat) : Prop :=
  ∀ g rest, scan g (rest.take (scan g rest).2) = scan g rest

/-- A lexeme of a local scanner, read again by itself, is that lexeme alone. -/
theorem cut_of_mem_cut (hlocal : IsLocal scan) {b : Bytes} {glyphs : List Glyph} (hb : Utf8.decode b = glyphs) :
    ∀ l ∈ cut scan glyphs, cut scan (Utf8.decode l.text) = [l] := by
  fun_induction cut scan glyphs generalizing b with
  | case1 => exact List.forall_mem_nil _
  | case2 g rest symbol more hscan ih =>
    have hsplit : Utf8.decode b = (g :: rest.take more) ++ rest.drop more := by
      rw [hb, List.cons_append, List.take_append_drop]
    obtain ⟨hfirst, hrest⟩ := Utf8.decode_split hsplit
    refine List.forall_mem_cons.mpr ⟨?_, ih hrest⟩
    have hagain : scan g (rest.take more) = (symbol, more) := by
      have h := hlocal g rest
      rwa [hscan] at h
    have hnone : (rest.take more).drop more = [] :=
      List.drop_eq_nil_of_le (List.length_take_le more rest)
    rw [hfirst, cut, hagain]
    dsimp only
    rw [hnone, List.take_take, Nat.min_self, cut]

/-- Without any text there is no lexeme. -/
lemma text_ne_nil_of_cut {l : Lexeme σ} (h : cut scan (Utf8.decode l.text) = [l]) : l.text ≠ [] := by
  intro hnil
  rw [hnil, Utf8.decode, cut] at h
  cases h

end Lexeme

namespace Calc

/-- How many glyphs a decimal point and the digits after it take. -/
def fraction : List Glyph → Nat
  | [] => 0
  | point :: digits => if point.point == 0x2E then countWhile isDigit digits + 1 else 0

lemma fraction_take (glyphs : List Glyph) : fraction (glyphs.take (fraction glyphs)) = fraction glyphs := by
  cases glyphs with
  | nil => rfl
  | cons point digits =>
    by_cases hpoint : (point.point == 0x2E) = true
    · rw [fraction, if_pos hpoint, List.take_succ_cons, fraction, if_pos hpoint,
        countWhile_take (Nat.le_refl _)]
    · rw [fraction, if_neg hpoint]
      rfl

lemma scan_digit {g : Glyph} (hspace : ¬ Unicode.isSpace g.point = true) (hdigit : isDigit g.point = true)
    (rest : List Glyph) :
    scan g rest = (.number, countWhile isDigit rest + fraction (rest.drop (countWhile isDigit rest))) := by
  rw [scan, if_neg hspace, if_pos hdigit]
  dsimp only
  cases rest.drop (countWhile isDigit rest) with
  | nil => rfl
  | cons point digits =>
    dsimp only [fraction]
    split_ifs
    · rw [Nat.add_right_comm, Nat.add_assoc]
    · rfl

lemma isLocal_scan : Lexeme.IsLocal scan := by
  intro g rest
  by_cases hspace : Unicode.isSpace g.point = true
  · simp only [scan, if_pos hspace, countWhile_take (Nat.le_refl _)]
  by_cases hdigit : isDigit g.point = true
  · simp only [scan_digit hspace hdigit]
    rw [countWhile_take (Nat.le_add_right _ _), List.drop_take, Nat.add_sub_cancel_left, fraction_take]
  by_cases hname : isNameStart g.point = true
  · simp only [scan, if_neg hspace, if_neg hdigit, if_pos hname, countWhile_take (Nat.le_refl _)]
  · simp only [scan, if_neg hspace, if_neg hdigit, if_neg hname]

/-- A lexeme of a text is by itself lexed as that lexeme alone. -/
lemma lex_of_mem_lex {src : Bytes} {l : Lexeme Symbol} (h : l ∈ lex src) : lex l.text = [l] :=
  Lexeme.cut_of_mem_cut isLocal_scan rfl l h

/-- The lexemes of a text are by themselves lexed as what they are. -/
theorem relex?_of_mem_lex {src : Bytes} {l : Lexeme Symbol} (h : l ∈ lex src) : relex? l.text = some l.symbol := by
  rw [relex?, lex_of_mem_lex h]

end Calc

namespace Decl

/-- Two slashes, which start a comment. -/
def opensComment (g : Glyph) (rest : List Glyph) : Bool := g.point == 0x2F && rest.head?.any (·.point == 0x2F)

/-- Both slashes belong to the comment. -/
lemma opensComment_take {g : Glyph} {rest : List Glyph} (h : opensComment g rest = true) :
    opensComment g (rest.take (countWhile (· != 0x0A) rest)) = true := by
  cases rest with
  | nil => exact h
  | cons slash rest =>
    obtain ⟨-, hslash⟩ : g.point = 0x2F ∧ slash.point = 0x2F := by simpa [opensComment] using h
    have hline : (slash.point != 0x0A) = true := by
      rw [hslash]
      rfl
    rw [countWhile_cons, if_pos hline]
    exact h

lemma opensComment_of_take {g : Glyph} {rest : List Glyph} {n : Nat} (h : opensComment g (rest.take n) = true) :
    opensComment g rest = true := by
  cases rest with
  | nil => rwa [List.take_nil] at h
  | cons slash rest =>
    cases n with
    | zero => simp [opensComment] at h
    | succ n => exact h

lemma scan_comment {g : Glyph} {rest : List Glyph} (hspace : ¬ Unicode.isSpace g.point = true)
    (hcomment : opensComment g rest = true) : scan g rest = (.comment, countWhile (· != 0x0A) rest) := by
  rw [scan, if_neg hspace]
  exact if_pos hcomment

/-- The symbol of a word. -/
def wordSymbol (word : Bytes) : Symbol := if word = keyword then .structKeyword else .ident

lemma scan_name {g : Glyph} {rest : List Glyph} (hspace : ¬ Unicode.isSpace g.point = true)
    (hcomment : ¬ opensComment g rest = true) (hname : isNameStart g.point = true) :
    scan g rest = (wordSymbol (Utf8.bytes (g :: rest.take (countWhile isNamePart rest))),
      countWhile isNamePart rest) := by
  rw [scan, if_neg hspace]
  refine (if_neg hcomment).trans ((if_pos hname).trans ?_)
  dsimp only [wordSymbol]
  split_ifs <;> rfl

lemma isLocal_scan : Lexeme.IsLocal scan := by
  intro g rest
  by_cases hspace : Unicode.isSpace g.point = true
  · simp only [scan, if_pos hspace, countWhile_take (Nat.le_refl _)]
  by_cases hcomment : opensComment g rest = true
  · rw [scan_comment hspace hcomment]
    rw [scan_comment hspace (opensComment_take hcomment), countWhile_take (Nat.le_refl _)]
  have hstill : ∀ n, ¬ opensComment g (rest.take n) = true := fun n h => hcomment (opensComment_of_take h)
  by_cases hname : isNameStart g.point = true
  · rw [scan_name hspace hcomment hname]
    rw [scan_name hspace (hstill _) hname, countWhile_take (Nat.le_refl _), List.take_take, Nat.min_self]
  · have hsingle : ∀ rest, ¬ opensComment g rest = true → scan g rest = (punctuation g.point, 0) := by
      intro rest hrest
      rw [scan, if_neg hspace]
      exact (if_neg hrest).trans (if_neg hname)
    rw [hsingle rest hcomment, hsingle _ (hstill _)]

/-- A lexeme of a text is by itself lexed as that lexeme alone. -/
lemma lex_of_mem_lex {src : Bytes} {l : Lexeme Symbol} (h : l ∈ lex src) : lex l.text = [l] :=
  Lexeme.cut_of_mem_cut isLocal_scan rfl l h

/-- The lexemes of a text are by themselves lexed as what they are. -/
theorem relex?_of_mem_lex {src : Bytes} {l : Lexeme Symbol} (h : l ∈ lex src) : relex? l.text = some l.symbol := by
  rw [relex?, lex_of_mem_lex h]

end Decl

/-- A text is cut into lexemes that are all of it, and each of which is lexed alike without the others. -/
structure Lexeme.Separate {σ : Type} [Symbols σ] (lex : Bytes → List (Lexeme σ)) (relex? : Bytes → Option Kind)
    (src : Bytes) : Prop where
  text : (lex src).flatMap Lexeme.text = src
  nonempty : ∀ l ∈ lex src, l.text ≠ []
  alone : ∀ l ∈ lex src, lex l.text = [l]
  kind : ∀ l ∈ lex src, relex? l.text = some (Symbols.kind l.symbol)

/-- Lexing any text, valid or not, loses nothing and depends at no lexeme on what is around it. -/
theorem lex_separate (src : Bytes) :
    Lexeme.Separate Calc.lex Language.ofCalc.relex? src ∧ Lexeme.Separate Decl.lex Language.ofDecl.relex? src := by
  constructor
  · refine ⟨Calc.flatMap_text_lex src, fun l hl => ?_, fun l hl => Calc.lex_of_mem_lex hl, fun l hl => ?_⟩
    · exact Lexeme.text_ne_nil_of_cut (Calc.lex_of_mem_lex hl)
    · exact congrArg (Option.map Calc.Symbol.kind) (Calc.relex?_of_mem_lex hl)
  · refine ⟨Decl.flatMap_text_lex src, fun l hl => ?_, fun l hl => Decl.lex_of_mem_lex hl, fun l hl => ?_⟩
    · exact Lexeme.text_ne_nil_of_cut (Decl.lex_of_mem_lex hl)
    · exact congrArg (Option.map Decl.Symbol.kind) (Decl.relex?_of_mem_lex hl)

end LosslessTree
