import LosslessTree.Proofs.Markdown.Token

/-! Line breaks in a Markdown text. Its tokens are tidy, so a span is either a whole line break, and of that kind,
or has no byte of one. -/
namespace LosslessTree.Markdown

variable {s after : Bytes}

/-- The bytes of a text at a span are a whole line break. -/
def Span.IsLineBreak (src : Bytes) (x : Span) : Prop :=
  x.range.slice? src = some [Bytes.newline] ∨ x.range.slice? src = some [Bytes.carriageReturn, Bytes.newline] ∨
    x.range.slice? src = some [Bytes.carriageReturn] ∧ src[x.stop]? ≠ some Bytes.newline

section Place
variable {src before behind : Bytes} {x : Span} {i : Nat}

lemma getElem?_of_span (hsrc : src = before ++ x.text ++ behind) (hstart : x.start = before.length)
    (hlow : x.start ≤ i) (hhigh : i < x.stop) : src[i]? = x.text[i - x.start]? := by
  rw [Span.stop] at hhigh
  rw [hsrc, List.append_assoc, List.getElem?_append_right (by omega), ← hstart,
    List.getElem?_append_left (by omega)]

lemma getElem?_stop (hsrc : src = before ++ x.text ++ behind) (hstart : x.start = before.length) :
    src[x.stop]? = behind.head? := by
  rw [hsrc, Span.stop, hstart, ← List.length_append, List.getElem?_append_right (Nat.le_refl _), Nat.sub_self,
    List.head?_eq_getElem?]

end Place

/-- Every position of the text lies in a span. -/
lemma Follow.exists_mem {start stop i : Nat} {spans : List Span} (h : Follow start spans stop) (hlow : start ≤ i)
    (hhigh : i < stop) : ∃ x ∈ spans, x.start ≤ i ∧ i < x.stop := by
  induction h with
  | nil n => omega
  | @cons x spans stop nonempty more ih =>
    by_cases hi : i < x.stop
    · exact ⟨x, List.mem_cons_self, hlow, hi⟩
    · obtain ⟨y, hy, hin⟩ := ih (by omega) hhigh
      exact ⟨y, List.mem_cons_of_mem x hy, hin⟩

/-- A line break with a carriage return is that alone, or with a line feed behind it. -/
lemma IsBreak.of_carriageReturn {j : Nat} (h : IsBreak s after) (hj : s[j]? = some Bytes.carriageReturn) :
    j = 0 ∧ (s.length = 2 ∨ s.length = 1 ∧ after.head? ≠ some Bytes.newline) := by
  rcases h with rfl | rfl | ⟨rfl, hafter⟩
  · rcases j with _ | j
    · exact absurd hj (by decide)
    · cases hj
  · rcases j with _ | _ | j
    · exact ⟨rfl, .inl rfl⟩
    · exact absurd hj (by decide)
    · cases hj
  · rcases j with _ | j
    · exact ⟨rfl, .inr ⟨rfl, hafter⟩⟩
    · cases hj

/-- The spans of line breaks are whole line breaks: a line feed, a carriage return with a line feed, or a
carriage return that no line feed follows. A carriage return and the line feed behind it are one span, and no
span of another kind has a byte of either. -/
theorem tokenize_lineBreaks (src : Bytes) :
    (∀ x ∈ tokenize src, x.symbol = .newline → x.IsLineBreak src) ∧
      (∀ i, src[i]? = some Bytes.carriageReturn → src[i + 1]? = some Bytes.newline →
        ∃ x ∈ tokenize src, x.symbol = .newline ∧ x.start = i ∧ x.stop = i + 2) ∧
      (∀ x ∈ tokenize src, x.symbol ≠ .newline →
        ∀ i b, x.start ≤ i → i < x.stop → src[i]? = some b → isEol b = false) := by
  refine ⟨fun x hx hsymbol => ?_, fun i hreturn hfeed => ?_, fun x hx hsymbol i b hlow hhigh hb => ?_⟩
  · obtain ⟨before, behind, hsrc, hstart, ⟨-, hbreak⟩ | ⟨hother, -⟩⟩ := exists_of_mem_tokenize hx
    · rw [Span.IsLineBreak, slice?_of_mem_tokenize hx, getElem?_stop hsrc hstart]
      simpa [IsBreak] using hbreak
    · exact absurd hsymbol hother
  · have hi : i < src.length := (List.getElem?_eq_some_iff.mp hreturn).1
    obtain ⟨x, hx, hlow, hhigh⟩ := (follow_tokenize src).exists_mem (Nat.zero_le i) hi
    obtain ⟨before, behind, hsrc, hstart, hkind⟩ := exists_of_mem_tokenize hx
    rw [getElem?_of_span hsrc hstart hlow hhigh] at hreturn
    rcases hkind with ⟨hsymbol, hbreak⟩ | ⟨-, hunbroken⟩
    · obtain ⟨hzero, hlength | ⟨hlength, hbehind⟩⟩ := hbreak.of_carriageReturn hreturn
      · exact ⟨x, hx, hsymbol, by omega, by rw [Span.stop]; omega⟩
      · -- the line feed would stand behind the span
        have hstop : i + 1 = x.stop := by
          rw [Span.stop]
          omega
        rw [hstop, getElem?_stop hsrc hstart] at hfeed
        exact absurd hfeed hbehind
    · exact absurd (hunbroken _ (List.mem_of_getElem? hreturn)) (by decide)
  · obtain ⟨before, behind, hsrc, hstart, ⟨hnewline, -⟩ | ⟨-, hunbroken⟩⟩ := exists_of_mem_tokenize hx
    · exact absurd hnewline hsymbol
    · rw [getElem?_of_span hsrc hstart hlow hhigh] at hb
      exact hunbroken b (List.mem_of_getElem? hb)

end LosslessTree.Markdown
