import LosslessTree.Proofs.Markdown.Position

/-! Cutting in place and cutting off the front agree. A scan that has cut some tokens off the text stands at
the position after them, and every routine that moves the position does to it what its counterpart does
to the scan; so no read is outside the text, every loop ends, and the ranges are those of the tokens. -/
namespace LosslessTree.Markdown
namespace InPlace
open Scan (Onto Advances onto_take onto_run rest_take length_take_lt advances_restOfLine)
variable {src : Bytes} {b : UInt8} {rest : Bytes}

/-- Where a scan that began at `start` has come to. -/
def reached (start : Head) (s : Scan) : Head where
  cuts := start.cuts ++ (spansFrom start.pos s.tokens).map Span.cut
  pos := start.pos + (s.tokens.flatMap Lexeme.text).length

/-- From `start` on the text is what a scan has cut off and what it has left. -/
def Reads (src : Bytes) (start : Head) (s : Scan) : Prop :=
  src.drop start.pos = s.tokens.flatMap Lexeme.text ++ s.rest

/-- What is said of a block marker that was looked for. -/
def tried (start : Head) (s : Scan) (found : Option Scan) : Bool × Head :=
  (found.isSome, reached start (found.getD s))

variable {start : Head} {s t : Scan}

lemma Reads.drop (h : Reads src start s) : src.drop (reached start s).pos = s.rest := by
  rw [reached, ← List.drop_drop, h, List.drop_left]

lemma Reads.drop_add (h : Reads src start s) (n : Nat) :
    src.drop ((reached start s).pos + n) = s.rest.drop n := by
  rw [← List.drop_drop, h.drop]

lemma Reads.length_lt (h : Reads src start s) : s.rest.length < src.length + 1 := by
  rw [← h.drop, List.length_drop]
  omega

lemma Reads.onto (h : Reads src start s) (ho : Onto s t) : Reads src start t := by
  obtain ⟨ts, htokens, hrest⟩ := ho
  rw [Reads, h, htokens, hrest, List.flatMap_append, List.append_assoc]

/-- Passing some bytes is taking them as one token. -/
lemma cutTo_reached (start : Head) (kind : Symbol) {n : Nat} (hn : n ≠ 0) (hle : n ≤ s.rest.length) :
    (reached start s).cutTo kind ((reached start s).pos + n) = reached start (s.take kind n) := by
  have hne : ¬ (n = 0 ∨ s.rest.isEmpty) := by
    rw [not_or, List.isEmpty_iff, ← List.length_eq_zero_iff]
    omega
  simp only [Scan.take, if_neg hne, Head.cutTo, Head.emit, reached, spansFrom_append, spansFrom,
    List.map_append, List.map_cons, List.map_nil, Span.cut, Span.stop, List.flatMap_append,
    List.flatMap_cons, List.flatMap_nil, List.append_nil, List.length_append, List.length_take_of_le hle,
    List.append_assoc, Nat.add_assoc]

lemma passTo_reached (kind : Symbol) {n : Nat} (hle : n ≤ s.rest.length) :
    (reached start s).passTo kind ((reached start s).pos + n) = reached start (s.take kind n) := by
  by_cases hn : n = 0
  · simp [hn, Head.passTo, Scan.take]
  · rw [Head.passTo, if_pos (by omega), cutTo_reached start kind hn hle]

lemma pos_take (kind : Symbol) {n : Nat} (hle : n ≤ s.rest.length) :
    (reached start (s.take kind n)).pos = (reached start s).pos + n := by
  rw [← passTo_reached kind hle, Head.passTo]
  split_ifs <;> rfl

lemma single_reached (kind : Symbol) (hs : s.rest ≠ []) :
    (reached start s).single kind = reached start (s.take kind 1) :=
  cutTo_reached start kind (by decide) (List.length_pos_iff.mpr hs)

lemma count_le_length (test : UInt8 → Bool) (s : Bytes) : count test s ≤ s.length :=
  (List.takeWhile_prefix test).length_le

lemma run_reached (kind : Symbol) (test : UInt8 → Bool) (h : Reads src start s) :
    run src kind test (reached start s) = some (reached start (s.run kind test)) := by
  rw [run, skip_eq test h.drop]
  exact congrArg some (passTo_reached kind (count_le_length test s.rest))

/-- The length of the line break at the start of a text: a carriage return, a line feed, or one after the
other. -/
def breakLength (s : Bytes) : Nat :=
  let n := if s.head?.any (· == Bytes.carriageReturn) then 1 else 0
  if (s.drop n).head?.any (· == Bytes.newline) then n + 1 else n

lemma newline_eq_take (s : Scan) : s.newline = s.take .newline (breakLength s.rest) := by
  unfold Scan.newline
  split
  · next rest hrest => simp [hrest, breakLength, Bytes.carriageReturn, Bytes.newline]
  · next b rest hcrlf hrest =>
    rw [hrest, breakLength, isEol]
    by_cases hb : b = Bytes.carriageReturn
    · cases rest with
      | nil => simp [hb, Bytes.carriageReturn, Bytes.newline]
      | cons c rest =>
        have hc : c ≠ 0x0A := fun hc => hcrlf rest hb (by rw [hc])
        simp [hb, hc, Bytes.carriageReturn, Bytes.newline]
    · by_cases hfeed : b = Bytes.newline
      · simp [hfeed, Bytes.carriageReturn, Bytes.newline]
      · simp [hb, hfeed, Scan.take]
  · next hrest => simp [hrest, breakLength, Scan.take]

lemma breakLength_le_length (s : Bytes) : breakLength s ≤ s.length := by
  unfold breakLength
  dsimp only
  split_ifs with hreturn hfeed hfeed
  · exact lt_length_of_any hfeed
  · exact lt_length_of_any (n := 0) hreturn
  · exact lt_length_of_any hfeed
  · exact Nat.zero_le _

lemma newline_reached (h : Reads src start s) :
    newline src (reached start s) = some (reached start s.newline) := by
  rw [newline_eq_take, ← passTo_reached .newline (breakLength_le_length s.rest), newline, peek_eq _ h.drop,
    breakLength]
  dsimp only [Option.bind_eq_bind, Option.bind_some]
  generalize hn : (if s.rest.head?.any (· == Bytes.carriageReturn) then 1 else 0 : Nat) = n
  have hnext : (if s.rest.head?.any (· == Bytes.carriageReturn) then (reached start s).pos + 1
      else (reached start s).pos) = (reached start s).pos + n := by
    rw [← hn]
    split_ifs <;> rfl
  rw [hnext, peek_eq _ (h.drop_add n)]
  dsimp only [Option.bind_eq_bind, Option.bind_some]
  split_ifs <;> rfl

lemma restOfLine_reached (kind : Symbol) (h : Reads src start s) :
    restOfLine src kind (reached start s) = some (reached start (s.restOfLine kind)) := by
  rw [restOfLine, run_reached kind _ h]
  exact newline_reached (h.onto (onto_run kind _ s))

/-- A run that starts with `b` is `b` and the run after it. -/
lemma run_cons_reached (kind : Symbol) {test : UInt8 → Bool} (h : Reads src start s)
    (hrest : s.rest = b :: rest) (hb : test b = true) :
    run src kind test (reached start s) = some (reached start (s.take kind (1 + count test rest))) := by
  rw [run_reached kind test h, Scan.run, hrest, count, List.takeWhile_cons_of_pos hb, List.length_cons,
    Nat.add_comm]
  rfl

lemma escape_reached (h : Reads src start s) (hrest : s.rest = 0x5C :: rest) :
    escape src (reached start s) =
      some (reached start (s.take (inlineToken 0x5C rest).1 (inlineToken 0x5C rest).2)) := by
  have hlength : s.rest.length = rest.length + 1 := by rw [hrest, List.length_cons]
  rw [escape, peek_eq _ (drop_succ (h.drop.trans hrest)), inlineToken]
  dsimp only [Option.bind_eq_bind, Option.bind_some]
  split_ifs with hescaped
  · have hpos : 0 < rest.length := lt_length_of_any (n := 0) hescaped
    exact congrArg some (cutTo_reached start .escapedChar (by decide) (by omega))
  · exact congrArg some (cutTo_reached start .text (by decide) (by omega))

lemma inlineHtml_reached (h : Reads src start s) (hrest : s.rest = 0x3C :: rest) :
    inlineHtml src (reached start s) =
      some (reached start (s.take (inlineToken 0x3C rest).1 (inlineToken 0x3C rest).2)) := by
  have hlength : s.rest.length = rest.length + 1 := by rw [hrest, List.length_cons]
  have hinside := drop_succ (h.drop.trans hrest)
  rw [inlineHtml, skip_eq _ hinside, inlineToken]
  generalize hn : count (fun b => b != 0x3E && !isEol b) rest = n
  have hle : n ≤ rest.length := hn ▸ count_le_length _ rest
  have hdrop : src.drop ((reached start s).pos + 1 + n) = rest.drop n := by rw [← List.drop_drop, hinside]
  dsimp only [Option.bind_eq_bind, Option.bind_some]
  have hstop : (reached start s).pos + 1 + n = (reached start s).pos + (n + 1) := by
    rw [Nat.add_assoc, Nat.add_comm 1]
  rw [peek_eq _ hdrop, head?_beq, hstop]
  dsimp only [Option.bind_eq_bind, Option.bind_some]
  split_ifs with hmore
  · have hlt : n < rest.length := lt_length_of_any hmore
    exact congrArg some (cutTo_reached start .html (n := n + 2) (Nat.succ_ne_zero _) (by omega))
  · exact congrArg some (cutTo_reached start .text (n := n + 1) (Nat.succ_ne_zero _) (by omega))

lemma piece_reached (h : Reads src start s) (hrest : s.rest = b :: rest) (heol : ¬ isEol b = true) :
    piece src b (reached start s) =
      some (reached start (s.take (inlineToken b rest).1 (inlineToken b rest).2)) := by
  have hne : s.rest ≠ [] := hrest ▸ List.cons_ne_nil b rest
  unfold piece
  split
  · exact escape_reached h hrest
  · exact run_cons_reached .backtick h hrest (by decide)
  · exact run_cons_reached .emphasisMarker h hrest (by decide)
  · exact run_cons_reached .emphasisMarker h hrest (by decide)
  · exact congrArg some (single_reached .linkOpen hne)
  · exact congrArg some (single_reached .linkClose hne)
  · exact congrArg some (single_reached .parenOpen hne)
  · exact congrArg some (single_reached .parenClose hne)
  · exact congrArg some (single_reached .imageMarker hne)
  · exact inlineHtml_reached h hrest
  · next hother =>
    have htoken : inlineToken b rest =
        if isBlank b then (.whitespace, 1 + count isBlank rest) else (.text, 1 + count isPlain rest) := by
      unfold inlineToken
      split <;> first | contradiction | rfl
    rw [htoken]
    split_ifs with hblank
    · exact run_cons_reached .whitespace h hrest hblank
    · refine run_cons_reached .text h hrest ?_
      simp_all [isPlain]

/-- Taking the first inline token leaves the rest of the line as it was. -/
lemma inline_take (hrest : s.rest = b :: rest) (heol : ¬ isEol b = true) :
    (s.take (inlineToken b rest).1 (inlineToken b rest).2).inline = s.inline := by
  obtain ⟨n, hn⟩ := Nat.exists_eq_succ_of_ne_zero (Nat.ne_of_gt (inlineToken_pos b rest))
  conv_rhs => rw [Scan.inline, hrest, inlineTokens, if_neg heol]
  rw [hn, Scan.take, if_neg (by simp [hrest]), Scan.inline, hrest, List.drop_succ_cons]
  simp [hn]

lemma inline_eq_newline (h : inlineTokens s.rest = ([], s.rest)) : s.inline = s.newline := by
  rw [Scan.inline, h]
  exact congrArg (fun tokens => Scan.newline ⟨tokens, s.rest⟩) (List.append_nil s.tokens)

/-- Every round takes at least one byte of what is left of the line, so the rounds last. -/
lemma inlineRounds_reached {rounds : Nat} (h : Reads src start s) (hrounds : s.rest.length < rounds) :
    inlineRounds src rounds (reached start s) = some (reached start s.inline) := by
  induction rounds generalizing s with
  | zero => exact absurd hrounds (Nat.not_lt_zero _)
  | succ rounds ih =>
    rw [inlineRounds]
    cases hrest : s.rest with
    | nil =>
      have hs : s.inline = s := by
        rw [inline_eq_newline (by rw [hrest, inlineTokens]), newline_eq_take, hrest]
        rfl
      rw [if_neg (not_lt_length_of_nil (h.drop.trans hrest)), hs]
      rfl
    | cons b rest =>
      rw [if_pos (lt_length_of_cons (h.drop.trans hrest)), read_of_drop (h.drop.trans hrest)]
      by_cases heol : isEol b = true
      · have hs : s.inline = s.newline := inline_eq_newline (by rw [hrest, inlineTokens, if_pos heol])
        rw [hs, ← newline_reached h]
        exact if_pos heol
      · have htake := h.onto (onto_take (inlineToken b rest).1 (inlineToken b rest).2 s)
        have hlt := length_take_lt (inlineToken b rest).1 (Nat.ne_of_gt (inlineToken_pos b rest))
          (hrest ▸ List.cons_ne_nil b rest)
        rw [← inline_take hrest heol, ← ih htake (by omega)]
        simp only [Option.bind_eq_bind, Option.bind_some, if_neg heol, piece_reached h hrest heol]

lemma inline_reached (h : Reads src start s) :
    inline src (reached start s) = some (reached start s.inline) :=
  inlineRounds_reached h h.length_lt

lemma inline_single_reached (kind : Symbol) (h : Reads src start s) (hs : s.rest ≠ []) :
    inline src ((reached start s).single kind) = some (reached start (s.take kind 1).inline) := by
  rw [single_reached kind hs]
  exact inline_reached (h.onto (onto_take kind 1 s))

/-- After a marker a byte that passes a test is taken by itself, then the rest of the line. -/
lemma inline_singleIf_reached (kind : Symbol) (test : UInt8 → Bool) (h : Reads src start s) :
    inline src (if s.rest.head?.any test then (reached start s).single kind else reached start s) =
      some (reached start (if s.rest.head?.any test then s.take kind 1 else s).inline) := by
  split_ifs with htest
  · exact inline_single_reached kind h (ne_nil_of_any htest)
  · exact inline_reached h

lemma heading_reached (h : Reads src start s) (hrest : s.rest = 0x23 :: rest) :
    heading src (reached start s) = some (tried start s ((headingMarker? s).map Scan.inline)) := by
  have hn : count (· == 0x23) s.rest ≠ 0 := by simp [hrest, count]
  rw [heading, skip_eq _ h.drop, headingMarker?]
  generalize hcount : count (· == 0x23) s.rest = n at hn ⊢
  have hpeek (test : UInt8 → Bool) := peek_eq test (h.drop_add n)
  have hcut := cutTo_reached start .headingMarker hn (hcount ▸ count_le_length _ s.rest)
  have hinline := inline_singleIf_reached .whitespace isBlank (h.onto (onto_take .headingMarker n s))
  rw [rest_take] at hinline
  simp only [Option.bind_eq_bind, Option.bind_some, hpeek, hcut, Nat.add_sub_cancel_left, Bool.or_eq_true,
    decide_eq_true_eq, hinline]
  split
  · rfl
  · rfl

lemma quote_reached (h : Reads src start s) (hs : s.rest ≠ []) :
    quote src (reached start s) = some (tried start s (some (blockquote s))) := by
  have hmarker := h.onto (onto_take .blockquoteMarker 1 s)
  have hinline := inline_singleIf_reached .whitespace (· == Bytes.space) hmarker
  rw [quote, single_reached .blockquoteMarker hs, peek_eq _ hmarker.drop, blockquote, head?_beq]
  simp only [Option.bind_eq_bind, Option.bind_some, hinline]
  rfl

lemma bulletOrBreak_reached (marker : UInt8) (h : Reads src start s) (hs : s.rest ≠ []) :
    bulletOrBreak src marker (reached start s) = some (tried start s (bulletOrBreak? marker s)) := by
  rw [bulletOrBreak, breakLine_eq marker h.drop, peek_eq _ (h.drop_add 1), bulletOrBreak?]
  simp only [Option.bind_eq_bind, Option.bind_some]
  split_ifs with hbreak hblank
  · rw [restOfLine_reached _ h]
    rfl
  · have hbullet := h.onto (onto_take .listBullet 1 s)
    have hmore : (s.take .listBullet 1).rest ≠ [] := by
      rw [rest_take]
      exact ne_nil_of_any hblank
    rw [single_reached .listBullet hs, inline_single_reached .whitespace hbullet hmore]
    rfl
  · rfl

lemma setext_reached (marker : UInt8) (h : Reads src start s) :
    setext src marker (reached start s) = some (tried start s (setext? marker s)) := by
  rw [setext, skip_eq _ h.drop, setext?]
  simp only [Option.bind_eq_bind, Option.bind_some, Nat.add_sub_cancel_left, blankLine_eq (h.drop_add _)]
  by_cases hn : count (· == marker) s.rest = 0
  · simp only [hn, if_true, true_or]
    rfl
  · rw [if_neg hn, restOfLine_reached _ h]
    cases restBlank (s.rest.drop (count (· == marker) s.rest)) with
    | true => simp only [hn, Bool.not_true, false_or, if_true]; rfl
    | false => simp [hn]; rfl

lemma ordered_reached (h : Reads src start s) :
    ordered src (reached start s) = some (tried start s (ordered? s)) := by
  rw [ordered, skip_eq _ h.drop, ordered?]
  generalize hcount : count Bytes.isDigit s.rest = n
  have hdrop := h.drop_add n
  have hend : src.length ≤ (reached start s).pos + n + 1 ↔ s.rest.drop (n + 1) = [] := by
    rw [← List.drop_eq_nil_iff, Nat.add_assoc, h.drop_add]
  have hlength : s.rest.length = n + (s.rest.drop n).length := by
    rw [List.length_drop, Nat.add_sub_of_le (hcount ▸ count_le_length _ s.rest)]
  simp only [Option.bind_eq_bind, Option.bind_some]
  rcases hrest : s.rest.drop n with _ | ⟨mark, _ | ⟨blank, rest⟩⟩
  · rw [if_pos (hend.mpr (by rw [← List.tail_drop, hrest]; rfl))]
    rfl
  · rw [if_pos (hend.mpr (by rw [← List.tail_drop, hrest]; rfl))]
    rfl
  · rw [hrest] at hdrop hlength
    have hnumber := h.onto (onto_take .listNumber (n + 1) s)
    have hmore : (s.take .listNumber (n + 1)).rest ≠ [] := by
      rw [rest_take, ← List.tail_drop, hrest]
      exact List.cons_ne_nil blank rest
    have hcut := cutTo_reached start (s := s) .listNumber (Nat.succ_ne_zero n)
      (by rw [hlength, List.length_cons]; omega)
    rw [if_neg (by rw [hend, ← List.tail_drop, hrest]; exact List.cons_ne_nil blank rest), read_of_drop hdrop,
      read_of_drop (drop_succ hdrop)]
    simp only [Option.bind_some]
    split_ifs
    · rw [Nat.add_assoc, hcut, inline_single_reached .whitespace hnumber hmore]
      rfl
    · rfl

/-- A closing fence is at least one byte long, so it makes a token. -/
lemma closingFence_reached (fence : UInt8) {n : Nat} (hn : 0 < n) (h : Reads src start s) :
    closingFence src fence n (reached start s) = some (tried start s (closingFence? fence n s)) := by
  rw [closingFence, skip_near_eq _ 3 h.drop, closingFence?]
  simp only [Option.bind_eq_bind, Option.bind_some]
  generalize hindent : count (· == Bytes.space) (s.rest.take 3) = indent
  have hle : indent ≤ s.rest.length := by
    have hcount := count_le_length (· == Bytes.space) (s.rest.take 3)
    rw [hindent, List.length_take] at hcount
    omega
  rw [skip_eq _ (h.drop_add indent)]
  simp only [Option.bind_some, Nat.add_sub_cancel_left, passTo_reached .whitespace hle]
  generalize hlength : count (· == fence) (s.rest.drop indent) = length
  have hblank : src.drop ((reached start s).pos + indent + length) = (s.rest.drop indent).drop length := by
    rw [← List.drop_drop, h.drop_add]
  have hindented := h.onto (onto_take .whitespace indent s)
  have hfence := hindented.onto (onto_take .codeFence length _)
  by_cases hshort : length < n
  · rw [if_pos hshort, if_pos (.inl hshort)]
    rfl
  · have hcut := cutTo_reached start (s := s.take .whitespace indent) .codeFence (n := length)
      (by omega) (by rw [rest_take, ← hlength]; exact count_le_length _ _)
    rw [pos_take .whitespace hle] at hcut
    have hclosed := newline_reached (hfence.onto (onto_run .whitespace isBlank _))
    rw [if_neg hshort, blankLine_eq hblank, hcut, run_reached _ _ hfence]
    simp only [Option.bind_some, hclosed, hshort, false_or]
    cases restBlank ((s.rest.drop indent).drop length) with
    | true => rfl
    | false => rfl

/-- A line of the block takes at least one byte, so neither the rounds nor the fuel run out. -/
lemma fenceRounds_reached (fence : UInt8) {n fuel rounds : Nat} (hn : 0 < n) (h : Reads src start s)
    (hfuel : s.rest.length ≤ fuel) (hrounds : s.rest.length < rounds) :
    fenceRounds src fence n rounds (reached start s) =
      some (reached start (Markdown.fenceBody fence n fuel s)) := by
  induction rounds generalizing s fuel with
  | zero => exact absurd hrounds (Nat.not_lt_zero _)
  | succ rounds ih =>
    rw [fenceRounds]
    by_cases hs : s.rest = []
    · have hbody : Markdown.fenceBody fence n fuel s = s := by
        cases fuel <;> simp [Markdown.fenceBody, hs]
      rw [if_neg (not_lt_length_of_nil (h.drop.trans hs)), hbody]
      rfl
    · have hline : Advances s (s.restOfLine .text) := advances_restOfLine (by decide) s
      have hlt := hline.shorter hs
      obtain ⟨fuel, rfl⟩ := Nat.exists_eq_succ_of_ne_zero (n := fuel) (by omega)
      rw [if_pos ((lt_length_iff h.drop).mpr hs), closingFence_reached fence hn h, Markdown.fenceBody,
        if_neg (by simpa using hs)]
      cases closingFence? fence n s with
      | some t => rfl
      | none =>
        dsimp only
        rw [← ih (h.onto hline.tidies.onto) (by omega) (by omega)]
        simp only [tried, Option.isSome_none, Option.getD_none, Option.bind_eq_bind, Option.bind_some,
          restOfLine_reached .text h, if_neg Bool.false_ne_true]

/-- At the end of a line there is no rest to take before the line break. -/
lemma restOfLine_eq_newline (kind : Symbol) (hs : ¬ s.rest.head?.any (!isEol ·) = true) :
    s.restOfLine kind = s.newline := by
  have hcount : count (!isEol ·) s.rest = 0 := by
    cases hrest : s.rest with
    | nil => rfl
    | cons b rest =>
      rw [hrest] at hs
      rw [count, List.takeWhile_cons_of_neg (by simpa using hs)]
      rfl
  rw [Scan.restOfLine, Scan.run, hcount]
  rfl

lemma fenced_reached (fence : UInt8) (h : Reads src start s) :
    fenced src fence (reached start s) = some (tried start s (fenced? fence s)) := by
  rw [fenced, skip_eq _ h.drop, fenced?]
  generalize hcount : count (· == fence) s.rest = n
  simp only [Option.bind_eq_bind, Option.bind_some, Nat.add_sub_cancel_left]
  by_cases hshort : n < 3
  · rw [if_pos hshort, if_pos hshort]
    rfl
  · have hopened := h.onto (onto_take .codeFence n s)
    have hcut := cutTo_reached start (s := s) .codeFence (n := n)
      (by omega) (hcount ▸ count_le_length _ s.rest)
    have hlines : Reads src start ((s.take .codeFence n).restOfLine .codeFenceInfo) :=
      hopened.onto (advances_restOfLine (by decide) _).tidies.onto
    have hbody := fenceRounds_reached fence (n := n) (by omega) hlines (Nat.le_refl _) hlines.length_lt
    rw [if_neg hshort, if_neg hshort, peek_eq _ (h.drop_add n), hcut]
    simp only [Option.bind_some]
    split_ifs with hinfo
    · rw [restOfLine_reached .codeFenceInfo hopened]
      simp only [Option.bind_some, fenceBody, hbody]
      rfl
    · rw [newline_reached hopened, ← restOfLine_eq_newline .codeFenceInfo (by rwa [rest_take])]
      simp only [Option.bind_some, fenceBody, hbody]
      rfl

lemma marked_reached (h : Reads src start s) (hrest : s.rest = b :: rest) :
    marked src b (reached start s) = some (tried start s (marked? b s)) := by
  have hs : s.rest ≠ [] := hrest ▸ List.cons_ne_nil b rest
  unfold marked
  split
  · exact heading_reached h hrest
  · exact quote_reached h hs
  · exact bulletOrBreak_reached _ h hs
  · exact bulletOrBreak_reached _ h hs
  · exact bulletOrBreak_reached _ h hs
  · rw [breakLine_eq _ h.drop, restOfLine_reached .thematicBreak h]
    simp only [Option.bind_eq_bind, Option.bind_some]
    rw [marked?]
    split_ifs <;> rfl
  · exact fenced_reached _ h
  · exact fenced_reached _ h
  · exact setext_reached _ h
  · rw [restOfLine_reached .html h]
    rfl
  · have hother : marked? b s = if Bytes.isDigit b then ordered? s else none := by
      unfold marked?
      split <;> first | contradiction | rfl
    rw [hother]
    split_ifs
    · exact ordered_reached h
    · rfl

/-- A scan that has not begun is where it starts. -/
lemma reached_start (start : Head) (rest : Bytes) : reached start { rest := rest } = start := by
  rw [reached, spansFrom]
  simp

lemma line_eq (h : src.drop start.pos = rest) :
    line src start = some (reached start (Markdown.line rest)) := by
  have hstart : Reads src start { rest := rest } := h
  have hindent := hstart.onto (onto_run .whitespace isBlank _)
  have hrun := run_reached .whitespace isBlank hstart
  rw [reached_start] at hrun
  rw [line, hrun, Markdown.line]
  generalize Scan.run .whitespace isBlank { rest := rest } = s at hindent ⊢
  simp only [Option.bind_eq_bind, Option.bind_some]
  cases hrest : s.rest with
  | nil =>
    rw [if_pos (by rw [← List.drop_eq_nil_iff, hindent.drop, hrest])]
    rfl
  | cons b rest =>
    have hread := hindent.drop.trans hrest
    rw [if_neg (by rw [← List.drop_eq_nil_iff, hread]; exact List.cons_ne_nil b rest), read_of_drop hread]
    simp only [Option.bind_some, marked_reached hindent hrest]
    cases hmarked : marked? b s with
    | some t => rfl
    | none =>
      simp only [tried, Option.isSome_none, Option.getD_none, peek_eq _ hread, Option.bind_some,
        List.head?_cons, Option.any_some, if_neg Bool.false_ne_true]
      split_ifs with hdash
      · rw [eq_of_beq hdash, setext_reached 0x2D hindent]
        cases setext? 0x2D s with
        | some t => rfl
        | none => exact inline_reached hindent
      · exact inline_reached hindent

lemma reached_reached (start : Head) (s : Scan) (ts : List (Lexeme Symbol)) (rest : Bytes) :
    reached (reached start s) ⟨ts, rest⟩ = reached start ⟨s.tokens ++ ts, rest⟩ := by
  simp only [reached, spansFrom_append, List.map_append, List.flatMap_append, List.length_append,
    List.append_assoc, Nat.add_assoc]

/-- Line after line the position comes to the end of the text, with the ranges of all its tokens. -/
lemma linesRounds_eq {rounds : Nat} (h : src.drop start.pos = rest) (hrounds : rest.length < rounds) :
    linesRounds src rounds start = some (reached start ⟨tokens rest, []⟩) := by
  induction rounds generalizing start rest with
  | zero => exact absurd hrounds (Nat.not_lt_zero _)
  | succ rounds ih =>
    rw [linesRounds]
    by_cases hrest : rest = []
    · rw [if_neg (not_lt_length_of_nil (h.trans hrest)), tokens, if_pos (by rw [hrest]; rfl), reached_start]
      rfl
    · have hline : Reads src start (Markdown.line rest) :=
        Reads.onto (s := { rest := rest }) h (advances_line rest).tidies.onto
      have hlt : (Markdown.line rest).rest.length < rest.length := (advances_line rest).shorter hrest
      rw [if_pos ((lt_length_iff h).mpr hrest), line_eq h, tokens, if_neg (by simpa using hrest)]
      dsimp only
      rw [if_pos hlt, ← reached_reached start (Markdown.line rest) _ [], ← ih hline.drop (by omega)]
      rfl

lemma lines_eq (src : Bytes) : lines src {} = some (reached {} ⟨tokens src, []⟩) :=
  linesRounds_eq List.drop_zero (Nat.lt_succ_self _)

end InPlace

/-- Cutting a text in place ends and reads no byte outside the text, and the ranges are those of its
tokens: they follow each other without a gap from the start of the text to its end, none is empty, and each
holds the bytes of its token. -/
theorem tokenize_covers_in_place (src : Bytes) :
    scanInPlace? src = some ((tokenize src).map Span.cut) ∧ Follow 0 (tokenize src) src.length ∧
      ∀ s ∈ tokenize src, s.range.slice? src = some s.text := by
  refine ⟨?_, follow_tokenize src, fun s hs => slice?_of_mem_tokenize hs⟩
  rw [scanInPlace?, InPlace.lines_eq]
  rfl

/-- HTML that is not closed is text up to the end of its line, here a lone carriage return. -/
example : scanInPlace? "# <a\r" = some
    [⟨.headingMarker, 0, 1⟩, ⟨.whitespace, 1, 2⟩, ⟨.text, 2, 4⟩, ⟨.newline, 4, 5⟩] := by cbv

end LosslessTree.Markdown
