import LosslessTree.Proofs.Markdown.Token

/-! Tokens line by line. A routine that scans a line comes to its end before the text does, if the text ends with
a whole line break; so it does the same in front of any other text. An open code fence is the one thing that
reaches over a line: where none is opened, the tokens of two texts one after the other are those of the first
and those of the second. -/
namespace LosslessTree.Markdown

/-- The text ends with a line break that is whole in front of `after`. -/
def EndsLine (s after : Bytes) : Prop :=
  s.getLast? = some Bytes.newline ∨ s.getLast? = some Bytes.carriageReturn ∧ after.head? ≠ some Bytes.newline

/-- A line starts behind `before`, at the start of the text or behind a line break. -/
def LineStarts (before after : Bytes) : Prop := before = [] ∨ EndsLine before after

/-- Behind the blanks it starts with, the line has three or more backticks or tildes. -/
def OpensFence (line : Bytes) : Prop :=
  3 ≤ count (· == 0x60) (line.dropWhile isBlank) ∨ 3 ≤ count (· == 0x7E) (line.dropWhile isBlank)

/-- No line of the text opens a code fence. -/
def FenceFree (s : Bytes) : Prop :=
  ∀ i < s.length, LineStarts (s.take i) (s.drop i) → ¬ OpensFence (s.drop i)

instance (s after : Bytes) : Decidable (EndsLine s after) := inferInstanceAs (Decidable (_ ∨ _))

instance (before after : Bytes) : Decidable (LineStarts before after) := inferInstanceAs (Decidable (_ ∨ _))

instance (line : Bytes) : Decidable (OpensFence line) := inferInstanceAs (Decidable (_ ∨ _))

instance (s : Bytes) : Decidable (FenceFree s) := inferInstanceAs (Decidable (∀ i < s.length, _))

variable {s before after e rest : Bytes} {b : UInt8} {n : Nat} {test : UInt8 → Bool} {kind : Symbol}

namespace EndsLine

lemma exists_eol (h : EndsLine s after) : ∃ c ∈ s, isEol c = true := by
  rcases h with h | ⟨h, -⟩
  · exact ⟨_, List.mem_of_getLast? h, rfl⟩
  · exact ⟨_, List.mem_of_getLast? h, rfl⟩

lemma ne_nil (h : EndsLine s after) : s ≠ [] := by
  obtain ⟨c, hc, -⟩ := h.exists_eol
  exact List.ne_nil_of_mem hc

/-- What stands in front of the last byte does not matter. -/
lemma append_iff (hs : s ≠ []) : EndsLine (before ++ s) after ↔ EndsLine s after := by
  rw [EndsLine, EndsLine, List.getLast?_append_of_ne_nil before hs]

/-- The part of a line that has been taken leaves the end of the line. -/
lemma of_append (h : EndsLine (before ++ s) after) (hbefore : Unbroken before) : EndsLine s after := by
  by_cases hs : s = []
  · rw [hs, List.append_nil] at h
    obtain ⟨c, hc, heol⟩ := h.exists_eol
    rw [hbefore c hc] at heol
    cases heol
  · exact (append_iff hs).mp h

lemma drop (h : EndsLine s after) (hn : Unbroken (s.take n)) : EndsLine (s.drop n) after := by
  rw [← List.take_append_drop n s] at h
  exact h.of_append hn

lemma lt_length (h : EndsLine s after) (hn : Unbroken (s.take n)) : n < s.length := by
  have hne := (h.drop hn).ne_nil
  rwa [Ne, List.drop_eq_nil_iff, Nat.not_le] at hne

lemma head?_append (h : EndsLine s after) : (s ++ after).head? = s.head? :=
  List.head?_append_of_ne_nil s h.ne_nil

lemma takeWhile_append (h : EndsLine s after) (htest : StaysInLine test) :
    (s ++ after).takeWhile test = s.takeWhile test := by
  have hlt : (s.takeWhile test).length < s.length := h.lt_length (unbroken_take_count htest s)
  rw [List.takeWhile_append, if_neg (Nat.ne_of_lt hlt)]

lemma count_append (h : EndsLine s after) (htest : StaysInLine test) :
    count test (s ++ after) = count test s := by
  rw [count, h.takeWhile_append htest, count]

lemma drop_append (h : EndsLine s after) (hn : Unbroken (s.take n)) :
    (s ++ after).drop n = s.drop n ++ after :=
  List.drop_append_of_le_length (Nat.le_of_lt (h.lt_length hn))

lemma head?_drop_append (h : EndsLine s after) (hn : Unbroken (s.take n)) :
    ((s ++ after).drop n).head? = (s.drop n).head? := by
  rw [h.drop_append hn, (h.drop hn).head?_append]

/-- A line break within the text stays whole in front of more. -/
lemma isBreak_append (h : EndsLine (e ++ rest) after) (he : IsBreak e rest) : IsBreak e (rest ++ after) := by
  rcases he with rfl | rfl | ⟨rfl, hfeed⟩
  · exact .inl rfl
  · exact .inr (.inl rfl)
  · refine .inr (.inr ⟨rfl, ?_⟩)
    cases rest with
    | nil =>
      rcases h with h | ⟨-, hafter⟩
      · cases h
      · exact hafter
    | cons c rest => exact hfeed

end EndsLine

lemma restBlank_append (h : EndsLine s after) : restBlank (s ++ after) = restBlank s := by
  rw [restBlank, h.takeWhile_append staysInLine_not_isEol, restBlank]

lemma isBreakLine_append (h : EndsLine s after) (marker : UInt8) :
    isBreakLine marker (s ++ after) = isBreakLine marker s := by
  simp only [isBreakLine, h.takeWhile_append staysInLine_not_isEol]

lemma inlineToken_append (h : EndsLine rest after) (b : UInt8) :
    inlineToken b (rest ++ after) = inlineToken b rest := by
  have hinside : StaysInLine (fun b => b != 0x3E && !isEol b) := ⟨rfl, rfl⟩
  have hplain : StaysInLine isPlain := ⟨rfl, rfl⟩
  simp only [inlineToken, h.head?_append, h.head?_drop_append (unbroken_take_count hinside rest),
    h.count_append hinside, h.count_append hplain, h.count_append staysInLine_isBlank,
    h.count_append (staysInLine_beq (c := 0x60) rfl), h.count_append (staysInLine_beq (c := 0x2A) rfl),
    h.count_append (staysInLine_beq (c := 0x5F) rfl)]

/-- Inline tokens up to the end of the line, whatever comes behind it. -/
lemma inlineTokens_append (h : EndsLine s after) :
    inlineTokens (s ++ after) = ((inlineTokens s).1, (inlineTokens s).2 ++ after) ∧
      EndsLine (inlineTokens s).2 after := by
  fun_induction inlineTokens s with
  | case1 => exact absurd rfl h.ne_nil
  | case2 b rest heol =>
    rw [List.cons_append, inlineTokens, if_pos heol]
    exact ⟨rfl, h⟩
  | case3 b rest heol kind n hn tokens last hrec ih =>
    have hrest : EndsLine rest after := h.drop (unbroken_take_head rfl (Bool.eq_false_iff.mpr heol))
    have hstays := unbroken_inlineToken b rest
    have hpos := inlineToken_pos b rest
    rw [hn] at hstays hpos
    obtain ⟨htokens, hlast⟩ := ih (hrest.drop hstays)
    rw [hrec] at htokens hlast
    have htake : (b :: rest ++ after).take n = (b :: rest).take n := by
      have hlt := hrest.lt_length hstays
      exact List.take_append_of_le_length (by rw [List.length_cons]; omega)
    refine ⟨?_, hlast⟩
    rw [← htake, List.cons_append, inlineTokens, if_neg heol, inlineToken_append hrest, hn]
    dsimp only
    rw [hrest.drop_append hstays, htokens]

namespace Scan
variable {s t : Scan}

/-- The same scan with more text behind. -/
def followedBy (s : Scan) (after : Bytes) : Scan := { s with rest := s.rest ++ after }

@[simp] lemma rest_followedBy (s : Scan) (after : Bytes) : (s.followedBy after).rest = s.rest ++ after := rfl

lemma endsLine_take (h : EndsLine s.rest after) (kind : Symbol) (hn : Unbroken (s.rest.take n)) :
    EndsLine (s.take kind n).rest after := by
  rw [rest_take]
  exact h.drop hn

lemma take_followedBy (h : EndsLine s.rest after) (kind : Symbol) (hn : Unbroken (s.rest.take n)) :
    (s.followedBy after).take kind n = (s.take kind n).followedBy after := by
  have hlt := h.lt_length hn
  by_cases hzero : n = 0
  · subst hzero
    simp [take]
  · have hfull : ¬ (n = 0 ∨ (s.rest ++ after).isEmpty = true) := by simp [hzero, h.ne_nil]
    have hshort : ¬ (n = 0 ∨ s.rest.isEmpty = true) := by simp [hzero, h.ne_nil]
    rw [take, take, if_neg hshort]
    refine (if_neg hfull).trans ?_
    simp only [followedBy, h.drop_append hn, List.take_append_of_le_length (Nat.le_of_lt hlt)]

lemma run_followedBy (h : EndsLine s.rest after) (kind : Symbol) (htest : StaysInLine test) :
    (s.followedBy after).run kind test = (s.run kind test).followedBy after := by
  rw [run, run, ← take_followedBy h kind (unbroken_take_count htest s.rest), ← h.count_append htest]
  rfl

lemma newline_followedBy (h : EndsLine s.rest after) (heol : AtEol s.rest) :
    (s.followedBy after).newline = s.newline.followedBy after := by
  cases hrest : s.rest with
  | nil => exact absurd hrest h.ne_nil
  | cons b rest =>
    obtain ⟨e, more, hcut, he⟩ := exists_isBreak (heol b (by rw [hrest]; rfl)) rest
    have hwhole : s.rest = e ++ more := hrest.trans hcut
    have hfollowed : (s.followedBy after).rest = e ++ (more ++ after) := by
      rw [followedBy, hwhole, List.append_assoc]
    rw [newline_of_isBreak hwhole he, newline_of_isBreak hfollowed ((hwhole ▸ h).isBreak_append he)]
    rfl

lemma restOfLine_followedBy (h : EndsLine s.rest after) (kind : Symbol) :
    (s.followedBy after).restOfLine kind = (s.restOfLine kind).followedBy after := by
  have heol : AtEol (s.run kind (!isEol ·)).rest := by
    rw [run, rest_take]
    exact atEol_drop_count s.rest
  rw [restOfLine, restOfLine, run_followedBy h kind staysInLine_not_isEol]
  exact newline_followedBy (endsLine_take h kind (unbroken_take_count staysInLine_not_isEol s.rest)) heol

lemma inline_followedBy (h : EndsLine s.rest after) :
    (s.followedBy after).inline = s.inline.followedBy after := by
  obtain ⟨htokens, hlast⟩ := inlineTokens_append h
  rw [inline, inline, followedBy, htokens]
  exact newline_followedBy (s := ⟨_, _⟩) hlast (atEol_inlineTokens s.rest)

lemma inline_take_followedBy (h : EndsLine s.rest after) (kind : Symbol) (hn : Unbroken (s.rest.take n)) :
    ((s.followedBy after).take kind n).inline = (s.take kind n).inline.followedBy after := by
  rw [take_followedBy h kind hn]
  exact inline_followedBy (endsLine_take h kind hn)

/-- A byte that passes a test is taken by itself, then the rest of the line. -/
lemma inline_takeIf_followedBy (h : EndsLine s.rest after) (kind : Symbol) (htest : StaysInLine test) :
    (if s.rest.head?.any test then (s.followedBy after).take kind 1 else s.followedBy after).inline =
      (if s.rest.head?.any test then s.take kind 1 else s).inline.followedBy after := by
  split_ifs with hhead
  · exact inline_take_followedBy h kind (unbroken_take_one htest hhead)
  · exact inline_followedBy h

lemma heading_followedBy (h : EndsLine s.rest after) :
    (headingMarker? (s.followedBy after)).map inline = ((headingMarker? s).map inline).map (followedBy · after) := by
  have htest : StaysInLine (· == (0x23 : UInt8)) := ⟨rfl, rfl⟩
  have hstays := unbroken_take_count htest s.rest
  have hinline := inline_takeIf_followedBy (endsLine_take h .headingMarker hstays) .whitespace staysInLine_isBlank
  rw [rest_take] at hinline
  unfold headingMarker?
  dsimp only
  rw [rest_followedBy, h.count_append htest, take_followedBy h .headingMarker hstays,
    h.head?_drop_append hstays]
  split_ifs at hinline ⊢
  · rfl
  · rfl
  · exact congrArg some hinline
  · exact congrArg some hinline

lemma setext?_followedBy (h : EndsLine s.rest after) {marker : UInt8} (hmarker : isEol marker = false) :
    setext? marker (s.followedBy after) = (setext? marker s).map (followedBy · after) := by
  have htest := staysInLine_beq hmarker
  have hstays := unbroken_take_count htest s.rest
  unfold setext?
  dsimp only
  rw [restOfLine_followedBy h, followedBy, h.count_append htest, h.drop_append hstays,
    restBlank_append (h.drop hstays)]
  split_ifs <;> rfl

lemma bulletOrBreak?_followedBy (h : EndsLine s.rest after) (hrest : s.rest = b :: rest) (hb : isEol b = false) :
    bulletOrBreak? b (s.followedBy after) = (bulletOrBreak? b s).map (followedBy · after) := by
  have hstays := unbroken_take_head hrest hb
  unfold bulletOrBreak?
  rw [restOfLine_followedBy h, take_followedBy h .listBullet hstays, followedBy, isBreakLine_append h,
    h.head?_drop_append hstays]
  split_ifs with hbreak hblank
  · rfl
  · have hspace : Unbroken ((s.take .listBullet 1).rest.take 1) := by
      rw [rest_take]
      exact unbroken_take_one staysInLine_isBlank hblank
    exact congrArg some (inline_take_followedBy (endsLine_take h .listBullet hstays) .whitespace hspace)
  · rfl

lemma blockquote_followedBy (h : EndsLine s.rest after) (hrest : s.rest = 0x3E :: rest) :
    blockquote (s.followedBy after) = (blockquote s).followedBy after := by
  have hstays := unbroken_take_head hrest rfl
  have hmarker := endsLine_take h .blockquoteMarker hstays
  have hinline := inline_takeIf_followedBy hmarker .whitespace (staysInLine_beq (c := Bytes.space) rfl)
  unfold blockquote
  dsimp only
  rw [take_followedBy h .blockquoteMarker hstays, rest_followedBy, head?_beq, head?_beq, hmarker.head?_append]
  exact hinline

lemma ordered?_followedBy (h : EndsLine s.rest after) :
    ordered? (s.followedBy after) = (ordered? s).map (followedBy · after) := by
  have htest : StaysInLine Bytes.isDigit := ⟨rfl, rfl⟩
  have hstays := unbroken_take_count htest s.rest
  have hdrop := h.drop hstays
  unfold ordered?
  dsimp only
  rw [rest_followedBy, h.count_append htest, h.drop_append hstays]
  rcases hrest : s.rest.drop (count Bytes.isDigit s.rest) with _ | ⟨mark, _ | ⟨blank, rest⟩⟩
  · exact absurd hrest hdrop.ne_nil
  · -- the byte that might be the mark of the number ends the line
    rw [hrest] at hdrop
    obtain ⟨c, hc, heol⟩ := hdrop.exists_eol
    obtain rfl := List.mem_singleton.mp hc
    have hmark : StaysInLine (fun m => m == 0x2E || m == 0x29) := ⟨rfl, rfl⟩
    have hno : (c == 0x2E || c == 0x29) = false := hmark.of_isEol heol
    cases after with
    | nil => rfl
    | cons a after => simp [hno]
  · rw [List.cons_append, List.cons_append]
    dsimp only
    split_ifs with hmark
    · obtain ⟨hnumber, hspace⟩ := unbroken_number hrest hmark
      rw [← rest_take .listNumber] at hspace
      rw [take_followedBy h .listNumber hnumber]
      exact congrArg some (inline_take_followedBy (endsLine_take h .listNumber hnumber) .whitespace hspace)
    · rfl

lemma fenced?_eq_none {fence : UInt8} (h : count (· == fence) s.rest < 3) : fenced? fence s = none := if_pos h

/-- Whatever marker starts the line, it is found in front of more text too, and the line is scanned alike. -/
lemma marked?_followedBy (h : EndsLine s.rest after) (hrest : s.rest = b :: rest)
    (hfence : count (· == 0x60) s.rest < 3 ∧ count (· == 0x7E) s.rest < 3) :
    marked? b (s.followedBy after) = (marked? b s).map (followedBy · after) := by
  have hfenced {fence : UInt8} (hstays : StaysInLine (· == fence)) (hshort : count (· == fence) s.rest < 3) :
      fenced? fence (s.followedBy after) = (fenced? fence s).map (followedBy · after) := by
    rw [fenced?_eq_none hshort, fenced?_eq_none (by rwa [followedBy, h.count_append hstays])]
    rfl
  unfold marked?
  split
  · exact heading_followedBy h
  · exact congrArg some (blockquote_followedBy h hrest)
  · exact bulletOrBreak?_followedBy h hrest rfl
  · exact bulletOrBreak?_followedBy h hrest rfl
  · exact bulletOrBreak?_followedBy h hrest rfl
  · rw [restOfLine_followedBy h, followedBy, isBreakLine_append h]
    split_ifs <;> rfl
  · exact hfenced ⟨rfl, rfl⟩ hfence.1
  · exact hfenced ⟨rfl, rfl⟩ hfence.2
  · exact setext?_followedBy h rfl
  · exact congrArg some (restOfLine_followedBy h .html)
  · split_ifs
    · exact ordered?_followedBy h
    · rfl

end Scan

open Scan

/-- A line that opens no code fence is scanned alike whatever comes behind it. -/
theorem line_append (h : EndsLine s after) (hfence : ¬ OpensFence s) :
    line (s ++ after) = (line s).followedBy after := by
  have hstays := unbroken_take_count staysInLine_isBlank s
  have hindent : EndsLine (Scan.run .whitespace isBlank { rest := s }).rest after :=
    endsLine_take (s := { rest := s }) h .whitespace hstays
  have hrun : Scan.run .whitespace isBlank { rest := s ++ after } =
      (Scan.run .whitespace isBlank { rest := s }).followedBy after :=
    run_followedBy (s := { rest := s }) h .whitespace staysInLine_isBlank
  have hshort : count (· == 0x60) (Scan.run .whitespace isBlank { rest := s }).rest < 3 ∧
      count (· == 0x7E) (Scan.run .whitespace isBlank { rest := s }).rest < 3 := by
    rw [Scan.run, rest_take, drop_count]
    exact ⟨Nat.not_le.mp fun hopen => hfence (.inl hopen), Nat.not_le.mp fun hopen => hfence (.inr hopen)⟩
  unfold line
  rw [hrun]
  generalize Scan.run .whitespace isBlank { rest := s } = t at hindent hshort ⊢
  dsimp only
  rw [rest_followedBy]
  cases hrest : t.rest with
  | nil => exact absurd hrest hindent.ne_nil
  | cons b rest =>
    rw [List.cons_append]
    dsimp only
    rw [marked?_followedBy hindent hrest hshort]
    cases marked? b t with
    | some u => rfl
    | none =>
      dsimp only [Option.map_none]
      split_ifs with hdash
      · rw [eq_of_beq hdash, setext?_followedBy hindent rfl, inline_followedBy hindent]
        cases setext? 0x2D t <;> rfl
      · exact inline_followedBy hindent

/-- A position behind a line start of the text. -/
lemma LineStarts.append (h : LineStarts before (s ++ rest)) (h' : LineStarts s rest) :
    LineStarts (before ++ s) rest := by
  by_cases hs : s = []
  · subst hs
    rwa [List.append_nil]
  · exact .inr ((EndsLine.append_iff hs).mpr (h'.resolve_left hs))

lemma FenceFree.of_append (h : FenceFree (before ++ s)) (hstart : LineStarts before s) : FenceFree s := by
  intro i hi hline
  have hat : LineStarts ((before ++ s).take (before.length + i)) ((before ++ s).drop (before.length + i)) := by
    rw [List.take_length_add_append, List.drop_length_add_append]
    refine LineStarts.append ?_ hline
    rwa [List.take_append_drop]
  have hopen := h (before.length + i) (by rw [List.length_append]; omega) hat
  rwa [List.drop_length_add_append] at hopen

lemma endsLine_of_isBreak (h : IsBreak e after) : EndsLine e after := by
  rcases h with rfl | rfl | ⟨rfl, hafter⟩
  · exact .inl rfl
  · exact .inl rfl
  · exact .inr ⟨rfl, hafter⟩

/-- Scanning a line comes to the start of a line, or to the end of the text. -/
lemma lineStarts_line (s : Bytes) :
    ∃ before, s = before ++ (line s).rest ∧ ((line s).rest = [] ∨ LineStarts before (line s).rest) := by
  obtain ⟨⟨ts, htokens, hrest, -⟩, hstart⟩ := (advances_line s).toEnds
  refine ⟨ts.flatMap Lexeme.text, hrest, hstart.imp id ?_⟩
  rintro ⟨us, e, hlast, he⟩
  have hts : ts = us ++ [⟨.newline, e⟩] := htokens.symm.trans hlast
  have hends := endsLine_of_isBreak he
  rw [hts, List.flatMap_append, List.flatMap_singleton]
  exact .inr ((EndsLine.append_iff hends.ne_nil).mpr hends)

/-- The tokens of two texts one after the other, with a line break between them and no code fence opened in the
first. -/
theorem tokens_append (h : LineStarts s after) (hfence : FenceFree s) :
    tokens (s ++ after) = tokens s ++ tokens after := by
  fun_induction tokens s with
  | case1 s hs => rw [List.isEmpty_iff.mp hs, List.nil_append, List.nil_append]
  | case2 s hs t hlt ih =>
    have hne : s ≠ [] := by simpa using hs
    have hends : EndsLine s after := h.resolve_left hne
    have hfirst : ¬ OpensFence s := hfence 0 (List.length_pos_iff.mpr hne) (.inl rfl)
    have hline : line (s ++ after) = t.followedBy after := line_append hends hfirst
    obtain ⟨before, hcut, hstart⟩ := lineStarts_line s
    change s = before ++ t.rest at hcut
    change t.rest = [] ∨ LineStarts before t.rest at hstart
    have hmore : tokens (t.rest ++ after) = tokens t.rest ++ tokens after := by
      by_cases hrest : t.rest = []
      · have hnil : tokens [] = [] := by
          rw [tokens]
          rfl
        rw [hrest, List.nil_append, hnil, List.nil_append]
      · rw [hcut] at hends hfence
        exact ih (.inr ((EndsLine.append_iff hrest).mp hends)) (hfence.of_append (hstart.resolve_left hrest))
    rw [tokens, if_neg (by simp [hne]), hline]
    dsimp only
    rw [rest_followedBy, if_pos (by simpa using hlt), hmore, List.append_assoc]
    rfl
  | case3 s hs t hge => exact absurd ((advances_line s).shorter (by simpa using hs)) hge

/-- The span behind `n` more bytes. -/
def Span.shift (n : Nat) (x : Span) : Span := { x with start := n + x.start }

lemma spansFrom_add (n m : Nat) (ts : List (Lexeme Symbol)) :
    spansFrom (n + m) ts = (spansFrom m ts).map (Span.shift n) := by
  induction ts generalizing m with
  | nil => rfl
  | cons t ts ih =>
    rw [spansFrom, Nat.add_assoc, ih]
    rfl

/-- Cutting a text into tokens can start afresh behind any line feed, if no line in front of it opens a code
fence. -/
theorem tokenize_append {a : Bytes} (hfeed : a.getLast? = some Bytes.newline) (hfence : FenceFree a) (b : Bytes) :
    tokenize (a ++ b) = tokenize a ++ (tokenize b).map (Span.shift a.length) := by
  rw [tokenize, tokens_append (.inr (.inl hfeed)) hfence, spansFrom_append, (tokens_covers a).1, Nat.zero_add,
    ← Nat.add_zero a.length, spansFrom_add]
  rfl

/-- The backticks of the first line are too few, those of the last do not start it, and the dashes behind it are
on their own line. -/
theorem tokenize_append_backticks :
    FenceFree "``\r+ ```\n" ∧ (tokenize ("``\r+ ```\n" ++ "--")).map (fun x => (x.symbol, x.start)) =
      [(.backtick, 0), (.newline, 2), (.listBullet, 3), (.whitespace, 4), (.backtick, 5), (.newline, 8),
        (.setextUnderline, 9)] := by
  have hfence : FenceFree "``\r+ ```\n" := by decide
  refine ⟨hfence, ?_⟩
  rw [tokenize_append (by decide) hfence]
  decide +kernel

end LosslessTree.Markdown
