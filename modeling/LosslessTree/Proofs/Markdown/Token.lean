import LosslessTree.Proofs.Cursor.Navigation
import LosslessTree.Proofs.Markdown.Scan

/-! Cutting a Markdown text into tokens. Scanning line after line moves all bytes of the text into tidy tokens, so
its spans follow each other from its start to its end. -/
namespace LosslessTree.Markdown

/-- The tokens of a text are tidy, and put together they are the text. -/
theorem tidy_tokens (src : Bytes) : (tokens src).flatMap Lexeme.text = src ∧ Tidy (tokens src) [] := by
  fun_induction tokens src with
  | case1 src h => exact ⟨(List.isEmpty_iff.mp h).symm, .nil⟩
  | case2 src h s hlt ih =>
    obtain ⟨htext, htidy⟩ := ih
    obtain ⟨ts, htokens, hrest, hline⟩ := (advances_line src).tidies
    have hs : s.tokens = ts := htokens
    rw [hs]
    refine ⟨?_, Tidy.append ?_ htidy⟩
    · rw [List.flatMap_append, htext]
      exact hrest.symm
    · rw [htext, List.append_nil]
      exact hline
  | case3 src h s hge => exact absurd ((advances_line src).shorter (by simpa using h)) hge

/-- The tokens of a text put together are the text, and none of them is empty. -/
theorem tokens_covers (src : Bytes) :
    (tokens src).flatMap Lexeme.text = src ∧ ∀ x ∈ tokens src, x.text ≠ [] := by
  obtain ⟨htext, htidy⟩ := tidy_tokens src
  exact ⟨htext, htidy.ne_nil⟩

/-- Spans that follow each other without a gap between two positions, none of them empty. -/
inductive Follow : Nat → List Span → Nat → Prop
  | nil (n : Nat) : Follow n [] n
  | cons {s : Span} {spans : List Span} {stop : Nat} (nonempty : s.text ≠ [])
      (more : Follow s.stop spans stop) : Follow s.start (s :: spans) stop

lemma spansFrom_append (n : Nat) (ts us : List (Lexeme Symbol)) :
    spansFrom n (ts ++ us) = spansFrom n ts ++ spansFrom (n + (ts.flatMap Lexeme.text).length) us := by
  induction ts generalizing n with
  | nil => rfl
  | cons t ts ih =>
    simp only [List.cons_append, spansFrom, ih, List.flatMap_cons, List.length_append, Nat.add_assoc]

lemma follow_spansFrom {ts : List (Lexeme Symbol)} (h : ∀ x ∈ ts, x.text ≠ []) (start : Nat) :
    Follow start (spansFrom start ts) (start + (ts.flatMap Lexeme.text).length) := by
  induction ts generalizing start with
  | nil => exact .nil start
  | cons t ts ih =>
    obtain ⟨ht, hts⟩ := List.forall_mem_cons.mp h
    have hmore := ih hts (start + t.text.length)
    rw [Nat.add_assoc, ← List.length_append] at hmore
    exact .cons (s := ⟨t.symbol, t.text, start⟩) ht hmore

/-- The spans of a text follow each other from its start to its end. -/
theorem follow_tokenize (src : Bytes) : Follow 0 (tokenize src) src.length := by
  obtain ⟨htext, hne⟩ := tokens_covers src
  have h := follow_spansFrom hne 0
  rwa [htext, Nat.zero_add] at h

lemma Follow.le {start stop : Nat} {spans : List Span} (h : Follow start spans stop) : start ≤ stop := by
  induction h with
  | nil n => exact Nat.le_refl n
  | cons nonempty more ih => exact Nat.le_trans (Nat.le_add_right _ _) ih

lemma Follow.start_lt {start stop : Nat} {spans : List Span} (h : Follow start spans stop) :
    ∀ s ∈ spans, s.start < stop := by
  induction h with
  | nil n => exact List.forall_mem_nil _
  | @cons s spans stop nonempty more ih =>
    refine List.forall_mem_cons.mpr ⟨?_, ih⟩
    have hle := more.le
    have hpos := List.length_pos_iff.mpr nonempty
    rw [Span.stop] at hle
    omega

def Span.range (s : Span) : TextRange := .ofOffset s.start s.text.length

lemma exists_of_mem_spansFrom {ts : List (Lexeme Symbol)} {start : Nat} {x : Span} (hx : x ∈ spansFrom start ts) :
    ∃ before behind, ts = before ++ ⟨x.symbol, x.text⟩ :: behind ∧
      x.start = start + (before.flatMap Lexeme.text).length := by
  induction ts generalizing start with
  | nil => cases hx
  | cons t ts ih =>
    rcases List.mem_cons.mp hx with rfl | hx
    · exact ⟨[], ts, rfl, rfl⟩
    · obtain ⟨before, behind, hts, hstart⟩ := ih hx
      refine ⟨t :: before, behind, by rw [hts]; rfl, ?_⟩
      rw [hstart, List.flatMap_cons, List.length_append, Nat.add_assoc]

/-- A span with the text before it and the text behind it. -/
lemma exists_of_mem_tokenize {src : Bytes} {x : Span} (hx : x ∈ tokenize src) :
    ∃ before behind, src = before ++ x.text ++ behind ∧ x.start = before.length ∧
      ((x.symbol = .newline ∧ IsBreak x.text behind) ∨ (x.symbol ≠ .newline ∧ Unbroken x.text)) := by
  obtain ⟨before, behind, hts, hstart⟩ := exists_of_mem_spansFrom hx
  obtain ⟨htext, htidy⟩ := tidy_tokens src
  rw [hts] at htidy htext
  refine ⟨before.flatMap Lexeme.text, behind.flatMap Lexeme.text, ?_, by rw [hstart, Nat.zero_add], ?_⟩
  · rw [← htext]
    simp
  · have hat := htidy.at
    rwa [List.append_nil] at hat

/-- A span of a text lies in it and holds the bytes there. -/
theorem slice?_of_mem_tokenize {src : Bytes} {s : Span} (hs : s ∈ tokenize src) :
    s.range.slice? src = some s.text := by
  obtain ⟨before, behind, hsrc, hstart, -⟩ := exists_of_mem_tokenize hs
  rw [hsrc, Span.range, hstart]
  exact TextRange.slice?_append before s.text behind

lemma text_spansFrom (start : Nat) (ts : List (Lexeme Symbol)) :
    (spansFrom start ts).flatMap Span.text = ts.flatMap Lexeme.text := by
  induction ts generalizing start with
  | nil => rfl
  | cons t ts ih => rw [spansFrom, List.flatMap_cons, List.flatMap_cons, ih]

theorem text_tokenize (src : Bytes) : (tokenize src).flatMap Span.text = src :=
  (text_spansFrom 0 _).trans (tokens_covers src).1

end LosslessTree.Markdown
