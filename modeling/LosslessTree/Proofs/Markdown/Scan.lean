import LosslessTree.Proofs.Markdown.Line

/-! Scanning a line. Every routine takes pieces off the front of the text that hold no byte of a line break, and
then one whole break, or comes to the end of the text. So the tokens of a line break are just those of its own
kind, also inside code fences and HTML, no token reaches over the end of a line, and a line that is scanned is
taken. -/
namespace LosslessTree.Markdown

/-- Tokens in front of a text: whole line breaks, and pieces without any part of one, none of them empty. -/
inductive Tidy : List (Lexeme Symbol) → Bytes → Prop
  | nil {after : Bytes} : Tidy [] after
  | piece {x : Lexeme Symbol} {ts : List (Lexeme Symbol)} {after : Bytes} (symbol : x.symbol ≠ .newline)
      (nonempty : x.text ≠ []) (unbroken : Unbroken x.text) (more : Tidy ts after) : Tidy (x :: ts) after
  | lineBreak {s : Bytes} {ts : List (Lexeme Symbol)} {after : Bytes}
      (whole : IsBreak s (ts.flatMap Lexeme.text ++ after)) (more : Tidy ts after) :
      Tidy (⟨.newline, s⟩ :: ts) after

variable {ts us : List (Lexeme Symbol)} {s after : Bytes} {b : UInt8} {n : Nat} {test : UInt8 → Bool}
  {kind : Symbol}

lemma Tidy.append (h : Tidy ts (us.flatMap Lexeme.text ++ after)) (h' : Tidy us after) :
    Tidy (ts ++ us) after := by
  induction ts with
  | nil => exact h'
  | cons t ts ih =>
    cases h with
    | piece symbol nonempty unbroken more => exact .piece symbol nonempty unbroken (ih more)
    | lineBreak whole more =>
      refine .lineBreak ?_ (ih more)
      rw [← List.append_assoc, ← List.flatMap_append] at whole
      exact whole

lemma Tidy.ne_nil (h : Tidy ts after) : ∀ x ∈ ts, x.text ≠ [] := by
  induction h with
  | nil => exact List.forall_mem_nil _
  | piece symbol nonempty unbroken more ih => exact List.forall_mem_cons.mpr ⟨nonempty, ih⟩
  | lineBreak whole more ih => exact List.forall_mem_cons.mpr ⟨whole.ne_nil, ih⟩

/-- A token between those before it and those after it. -/
lemma Tidy.at {x : Lexeme Symbol} (h : Tidy (ts ++ x :: us) after) :
    (x.symbol = .newline ∧ IsBreak x.text (us.flatMap Lexeme.text ++ after)) ∨
      (x.symbol ≠ .newline ∧ Unbroken x.text) := by
  induction ts with
  | nil =>
    cases h with
    | piece symbol nonempty unbroken more => exact .inr ⟨symbol, unbroken⟩
    | lineBreak whole more => exact .inl ⟨rfl, whole⟩
  | cons t ts ih =>
    cases h with
    | piece symbol nonempty unbroken more => exact ih more
    | lineBreak whole more => exact ih more

/-- Inline tokens are pieces of the line up to its end. -/
lemma tidy_inlineTokens (s after : Bytes) :
    s = (inlineTokens s).1.flatMap Lexeme.text ++ (inlineTokens s).2 ∧ Tidy (inlineTokens s).1 after := by
  fun_induction inlineTokens s with
  | case1 => exact ⟨rfl, .nil⟩
  | case2 b rest h => exact ⟨rfl, .nil⟩
  | case3 b rest h kind n hn tokens last hrec ih =>
    rw [hrec] at ih
    obtain ⟨hrest, htidy⟩ := ih
    have hsymbol := inlineToken_ne_newline b rest
    have hmore := unbroken_inlineToken b rest
    obtain ⟨m, hm⟩ := Nat.exists_eq_succ_of_ne_zero (Nat.ne_of_gt (inlineToken_pos b rest))
    rw [hn] at hsymbol hmore hm
    change n = m + 1 at hm
    subst hm
    have hunbroken : Unbroken (b :: rest.take m) := unbroken_cons.mpr ⟨Bool.eq_false_iff.mpr h, hmore⟩
    refine ⟨?_, .piece hsymbol (List.cons_ne_nil b _) hunbroken htidy⟩
    rw [Nat.add_sub_cancel] at hrest
    rw [List.flatMap_cons, List.append_assoc, ← hrest, List.take_succ_cons, List.cons_append,
      List.take_append_drop]

namespace Scan
variable {s t u : Scan}

lemma rest_take (kind : Symbol) (n : Nat) (s : Scan) : (s.take kind n).rest = s.rest.drop n := by
  unfold take
  split_ifs with h
  · rcases h with rfl | h
    · rfl
    · rw [List.isEmpty_iff.mp h, List.drop_nil]
  · rfl

lemma length_take_lt (kind : Symbol) {n : Nat} (hn : n ≠ 0) (hs : s.rest ≠ []) :
    (s.take kind n).rest.length < s.rest.length := by
  have hpos := List.length_pos_iff.mpr hs
  rw [rest_take, List.length_drop]
  omega

/-- Going from `s` to `t` has cut tokens off the front of the text. -/
def Onto (s t : Scan) : Prop :=
  ∃ ts, t.tokens = s.tokens ++ ts ∧ s.rest = ts.flatMap Lexeme.text ++ t.rest

lemma onto_take (kind : Symbol) (n : Nat) (s : Scan) : Onto s (s.take kind n) := by
  unfold take
  split_ifs
  · exact ⟨[], (List.append_nil _).symm, rfl⟩
  · exact ⟨[⟨kind, s.rest.take n⟩], rfl, by simp⟩

lemma onto_run (kind : Symbol) (test : UInt8 → Bool) (s : Scan) : Onto s (s.run kind test) :=
  onto_take kind _ s

/-- The tokens that were cut off are tidy. -/
def Tidies (s t : Scan) : Prop :=
  ∃ ts, t.tokens = s.tokens ++ ts ∧ s.rest = ts.flatMap Lexeme.text ++ t.rest ∧ Tidy ts t.rest

/-- Nothing is left, or what was taken last is a whole line break. -/
def AtLineStart (t : Scan) : Prop :=
  t.rest = [] ∨ ∃ ts s, t.tokens = ts ++ [⟨.newline, s⟩] ∧ IsBreak s t.rest

/-- Going from `s` to `t` has cut off tidy tokens up to the end of a line. -/
structure Ends (s t : Scan) : Prop where
  tidies : Tidies s t
  lineStart : AtLineStart t

/-- And at least one byte was cut off, unless there was none. -/
structure Advances (s t : Scan) : Prop extends Ends s t where
  shorter : s.rest ≠ [] → t.rest.length < s.rest.length

lemma Tidies.refl (s : Scan) : Tidies s s := ⟨[], (List.append_nil _).symm, rfl, .nil⟩

lemma Tidies.trans (h : Tidies s t) (h' : Tidies t u) : Tidies s u := by
  obtain ⟨ts, htokens, hrest, htidy⟩ := h
  obtain ⟨us, htokens', hrest', htidy'⟩ := h'
  refine ⟨ts ++ us, ?_, ?_, (hrest' ▸ htidy).append htidy'⟩
  · rw [htokens', htokens, List.append_assoc]
  · rw [hrest, hrest', List.flatMap_append, List.append_assoc]

lemma Tidies.onto (h : Tidies s t) : Onto s t := by
  obtain ⟨ts, htokens, hrest, -⟩ := h
  exact ⟨ts, htokens, hrest⟩

lemma Tidies.length_le (h : Tidies s t) : t.rest.length ≤ s.rest.length := by
  obtain ⟨ts, -, hrest, -⟩ := h
  rw [hrest, List.length_append]
  omega

lemma Tidies.ends (h : Tidies s t) (h' : Ends t u) : Ends s u := ⟨h.trans h'.tidies, h'.lineStart⟩

/-- What advances after some tokens has advanced. -/
lemma Tidies.advances (h : Tidies s t) (h' : Advances t u) : Advances s u := by
  refine ⟨h.ends h'.toEnds, fun hs => ?_⟩
  have hle := h.length_le
  by_cases ht : t.rest = []
  · have hu := h'.tidies.length_le
    have hpos := List.length_pos_iff.mpr hs
    rw [ht, List.length_nil] at hu
    omega
  · have := h'.shorter ht
    omega

lemma Advances.trans_ends (h : Advances s t) (h' : Ends t u) : Advances s u :=
  ⟨h.tidies.ends h', fun hs => Nat.lt_of_le_of_lt h'.tidies.length_le (h.shorter hs)⟩

lemma tidies_take (hkind : kind ≠ .newline) (h : Unbroken (s.rest.take n)) : Tidies s (s.take kind n) := by
  unfold take
  split_ifs with hn
  · exact .refl s
  · have hne : s.rest.take n ≠ [] := by simpa [List.take_eq_nil_iff] using hn
    exact ⟨[⟨kind, s.rest.take n⟩], rfl, by simp, .piece hkind hne h .nil⟩

lemma tidies_run (hkind : kind ≠ .newline) (htest : StaysInLine test) : Tidies s (s.run kind test) :=
  tidies_take hkind (unbroken_take_count htest s.rest)

lemma newline_of_isBreak {e after : Bytes} (hrest : s.rest = e ++ after) (he : IsBreak e after) :
    s.newline = ⟨s.tokens ++ [⟨.newline, e⟩], after⟩ := by
  obtain ⟨tokens, rest⟩ := s
  cases hrest
  rcases he with rfl | rfl | ⟨rfl, hfeed⟩
  · rfl
  · rfl
  · cases after with
    | nil => rfl
    | cons c after =>
      have hc : c ≠ 0x0A := fun hc => hfeed (congrArg some hc)
      unfold newline
      split
      · next hcut => exact absurd (List.cons.inj (List.cons.inj hcut).2).1 hc
      · next hcut =>
        obtain ⟨rfl, -⟩ := List.cons.inj hcut
        rfl
      · next hcut => cases hcut

/-- At the end of a line a whole line break is taken. -/
lemma advances_newline (h : AtEol s.rest) : Advances s s.newline := by
  cases hrest : s.rest with
  | nil =>
    have hs : s.newline = s := by rw [newline, hrest]
    rw [hs]
    exact ⟨⟨.refl s, .inl hrest⟩, fun hne => absurd hrest hne⟩
  | cons b rest =>
    obtain ⟨e, after, hcut, he⟩ := exists_isBreak (h b (by rw [hrest]; rfl)) rest
    have hwhole := hrest.trans hcut
    have htidies : Tidies s ⟨s.tokens ++ [⟨.newline, e⟩], after⟩ :=
      ⟨[⟨.newline, e⟩], rfl, by simp [hwhole], .lineBreak he .nil⟩
    rw [newline_of_isBreak hwhole he]
    refine ⟨⟨htidies, .inr ⟨s.tokens, e, rfl, he⟩⟩, fun _ => ?_⟩
    have hpos := List.length_pos_iff.mpr he.ne_nil
    rw [hwhole, List.length_append]
    exact Nat.lt_add_of_pos_left hpos

lemma advances_restOfLine (hkind : kind ≠ .newline) (s : Scan) : Advances s (s.restOfLine kind) := by
  refine (tidies_run hkind staysInLine_not_isEol).advances (advances_newline ?_)
  rw [run, rest_take]
  exact atEol_drop_count s.rest

lemma advances_inline (s : Scan) : Advances s s.inline := by
  obtain ⟨hcovers, htidy⟩ := tidy_inlineTokens s.rest (inlineTokens s.rest).2
  have htidies : Tidies s ⟨s.tokens ++ (inlineTokens s.rest).1, (inlineTokens s.rest).2⟩ :=
    ⟨_, rfl, hcovers, htidy⟩
  exact htidies.advances (advances_newline (atEol_inlineTokens s.rest))

lemma tidies_headingMarker? (h : headingMarker? s = some t) : Tidies s t := by
  have hmarker : Tidies s (s.take .headingMarker (count (· == 0x23) s.rest)) :=
    tidies_take (by decide) (unbroken_take_count (staysInLine_beq rfl) s.rest)
  unfold headingMarker? at h
  dsimp only at h
  split_ifs at h with hno hblank <;> cases h
  · refine hmarker.trans (tidies_take (by decide) (unbroken_take_one staysInLine_isBlank ?_))
    rwa [rest_take]
  · exact hmarker

lemma advances_setext? {marker : UInt8} (h : setext? marker s = some t) : Advances s t := by
  unfold setext? at h
  dsimp only at h
  split_ifs at h
  cases h
  exact advances_restOfLine (by decide) s

/-- A marker of one byte. -/
lemma tidies_marker {rest : Bytes} (hkind : kind ≠ .newline) (hrest : s.rest = b :: rest)
    (hb : isEol b = false) : Tidies s (s.take kind 1) :=
  tidies_take hkind (unbroken_take_head hrest hb)

lemma advances_bulletOrBreak? {rest : Bytes} (hrest : s.rest = b :: rest) (hb : isEol b = false)
    (h : bulletOrBreak? b s = some t) : Advances s t := by
  unfold bulletOrBreak? at h
  split_ifs at h with hbreak hblank <;> cases h
  · exact advances_restOfLine (by decide) s
  · refine ((tidies_marker (by decide) hrest hb).trans (tidies_take (by decide) ?_)).advances (advances_inline _)
    rw [rest_take]
    exact unbroken_take_one staysInLine_isBlank hblank

lemma advances_blockquote {rest : Bytes} (hrest : s.rest = 0x3E :: rest) : Advances s (blockquote s) := by
  have hmarker : Tidies s (s.take .blockquoteMarker 1) := tidies_marker (by decide) hrest rfl
  unfold blockquote
  dsimp only
  rw [head?_beq]
  split_ifs with hspace
  · have hblank := unbroken_take_one (staysInLine_beq (c := Bytes.space) rfl) hspace
    exact (hmarker.trans (tidies_take (by decide) hblank)).advances (advances_inline _)
  · exact hmarker.advances (advances_inline _)

lemma advances_ordered? (h : ordered? s = some t) : Advances s t := by
  unfold ordered? at h
  dsimp only at h
  split at h
  · next mark blank rest hrest =>
    split_ifs at h with hmark
    cases h
    obtain ⟨hnumber, hspace⟩ := unbroken_number hrest hmark
    rw [← rest_take .listNumber] at hspace
    exact ((tidies_take (by decide) hnumber).trans (tidies_take (by decide) hspace)).advances (advances_inline _)
  · cases h

/-- The fence itself is no line break. -/
lemma advances_closingFence? {fence : UInt8} (hfence : isEol fence = false) (h : closingFence? fence n s = some t) :
    Advances s t := by
  unfold closingFence? at h
  dsimp only at h
  split_ifs at h with hno
  cases h
  rw [not_or, Bool.not_eq_true', Bool.not_eq_false] at hno
  have hindent : Unbroken (s.rest.take (count (· == Bytes.space) (s.rest.take 3))) := by
    have hspaces := unbroken_take_count (staysInLine_beq (c := Bytes.space) rfl) (s.rest.take 3)
    have hle : count (· == Bytes.space) (s.rest.take 3) ≤ 3 :=
      Nat.le_trans (List.takeWhile_prefix _).length_le (List.length_take_le _ _)
    rwa [List.take_take, Nat.min_eq_left hle] at hspaces
  generalize count (· == Bytes.space) (s.rest.take 3) = indent at hindent hno ⊢
  have hfences := unbroken_take_count (staysInLine_beq hfence) (s.rest.drop indent)
  generalize count (· == fence) (s.rest.drop indent) = length at hfences hno ⊢
  have hclosed : Tidies s ((s.take .whitespace indent).take .codeFence length) := by
    refine (tidies_take (by decide) hindent).trans (tidies_take (by decide) ?_)
    rwa [rest_take]
  refine (hclosed.trans (tidies_run (by decide) staysInLine_isBlank)).advances (advances_newline ?_)
  rw [run, rest_take, rest_take, rest_take]
  exact atEol_of_restBlank hno.2

lemma ends_fenceBody {fence : UInt8} (hfence : isEol fence = false) (fuel : Nat) (h : AtLineStart s) :
    Ends s (fenceBody fence n fuel s) := by
  fun_induction fenceBody fence n fuel s with
  | case1 s => exact ⟨.refl s, h⟩
  | case2 s fuel hs => exact ⟨.refl s, h⟩
  | case3 s fuel hs t hclose => exact (advances_closingFence? hfence hclose).toEnds
  | case4 s fuel hs hclose ih =>
    have hline : Advances s (s.restOfLine .text) := advances_restOfLine (by decide) s
    exact hline.tidies.ends (ih hline.lineStart)

lemma advances_fenced? {fence : UInt8} (hfence : isEol fence = false) (h : fenced? fence s = some t) :
    Advances s t := by
  unfold fenced? at h
  dsimp only at h
  split_ifs at h
  cases h
  have hopened : Tidies s (s.take .codeFence (count (· == fence) s.rest)) :=
    tidies_take (by decide) (unbroken_take_count (staysInLine_beq hfence) s.rest)
  generalize s.take .codeFence (count (· == fence) s.rest) = u at hopened ⊢
  have hinfo : Advances u (u.restOfLine .codeFenceInfo) := advances_restOfLine (by decide) u
  exact (hopened.advances hinfo).trans_ends (ends_fenceBody hfence _ hinfo.lineStart)

/-- Whatever marker starts the line, the line is taken. -/
lemma advances_marked? {rest : Bytes} (hrest : s.rest = b :: rest) (h : marked? b s = some t) : Advances s t := by
  unfold marked? at h
  split at h
  · obtain ⟨u, hu, rfl⟩ := Option.map_eq_some_iff.mp h
    exact (tidies_headingMarker? hu).advances (advances_inline u)
  · cases h
    exact advances_blockquote hrest
  · exact advances_bulletOrBreak? hrest rfl h
  · exact advances_bulletOrBreak? hrest rfl h
  · exact advances_bulletOrBreak? hrest rfl h
  · split_ifs at h
    cases h
    exact advances_restOfLine (by decide) s
  · exact advances_fenced? rfl h
  · exact advances_fenced? rfl h
  · exact advances_setext? h
  · cases h
    exact advances_restOfLine (by decide) s
  · split_ifs at h
    exact advances_ordered? h

end Scan

open Scan

/-- Scanning a line takes at least one byte off a text that has one, and ends where a line ends. -/
theorem advances_line (src : Bytes) : Advances { rest := src } (line src) := by
  have hrun : Tidies { rest := src } (Scan.run .whitespace isBlank { rest := src }) :=
    tidies_run (by decide) staysInLine_isBlank
  unfold line
  dsimp only
  split
  · next hnil =>
    refine ⟨⟨hrun, .inl hnil⟩, fun hs => ?_⟩
    rw [hnil]
    exact List.length_pos_iff.mpr hs
  · next b rest hrest =>
    split
    · next hmarked => exact hrun.advances (advances_marked? hrest hmarked)
    · split_ifs
      · cases hsetext : setext? _ _ with
        | none => exact hrun.advances (advances_inline _)
        | some t => exact hrun.advances (advances_setext? hsetext)
      · exact hrun.advances (advances_inline _)

end LosslessTree.Markdown
