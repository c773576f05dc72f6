import LosslessTree.Language.Markdown.Token
import Mathlib.Tactic.Common

/-! Lines and what ends them. A line ends with a line feed, a carriage return, or one after the other, and the
tests that scanning a line goes by fail on both of these bytes; so what they pass stays in the line. -/
namespace LosslessTree.Markdown

/-- None of the bytes belongs to a line break. -/
def Unbroken (s : Bytes) : Prop := ∀ b ∈ s, isEol b = false

/-- A whole line break in front of `after`: a line feed, a carriage return with a line feed, or a carriage
return that no line feed follows. -/
def IsBreak (s after : Bytes) : Prop :=
  s = [Bytes.newline] ∨ s = [Bytes.carriageReturn, Bytes.newline] ∨
    s = [Bytes.carriageReturn] ∧ after.head? ≠ some Bytes.newline

variable {s after : Bytes} {b : UInt8} {n : Nat} {test : UInt8 → Bool}

lemma head?_beq (s : Bytes) (c : UInt8) : (s.head? == some c) = s.head?.any (· == c) := by
  cases s <;> rfl

lemma IsBreak.ne_nil (h : IsBreak s after) : s ≠ [] := by
  rcases h with rfl | rfl | ⟨rfl, -⟩ <;> exact List.cons_ne_nil _ _

/-- The test fails on the bytes of a line break. -/
structure StaysInLine (test : UInt8 → Bool) : Prop where
  feed : test Bytes.newline = false
  carriage : test Bytes.carriageReturn = false

lemma StaysInLine.of_isEol (h : StaysInLine test) (hb : isEol b = true) : test b = false := by
  simp only [isEol, Bool.or_eq_true, beq_iff_eq] at hb
  rcases hb with rfl | rfl
  · exact h.feed
  · exact h.carriage

lemma StaysInLine.isEol (h : StaysInLine test) (hb : test b = true) : isEol b = false := by
  rw [Bool.eq_false_iff]
  intro heol
  rw [h.of_isEol heol] at hb
  cases hb

lemma staysInLine_beq {c : UInt8} (hc : isEol c = false) : StaysInLine (· == c) := by
  simp only [isEol, Bool.or_eq_false_iff, beq_eq_false_iff_ne] at hc
  exact ⟨beq_false_of_ne hc.1.symm, beq_false_of_ne hc.2.symm⟩

lemma staysInLine_isBlank : StaysInLine isBlank := ⟨rfl, rfl⟩

lemma staysInLine_not_isEol : StaysInLine (!isEol ·) := ⟨rfl, rfl⟩

section Unbroken

lemma unbroken_nil : Unbroken [] := List.forall_mem_nil _

lemma unbroken_cons : Unbroken (b :: s) ↔ isEol b = false ∧ Unbroken s := List.forall_mem_cons

lemma unbroken_append : Unbroken (s ++ after) ↔ Unbroken s ∧ Unbroken after := List.forall_mem_append

/-- The longest run of bytes that stay in the line. -/
lemma unbroken_take_count (htest : StaysInLine test) (s : Bytes) : Unbroken (s.take (count test s)) := by
  rw [count, ← List.prefix_iff_eq_take.mp (List.takeWhile_prefix test)]
  intro b hb
  exact htest.isEol (List.all_eq_true.mp List.all_takeWhile b hb)

lemma unbroken_take_one (htest : StaysInLine test) (h : s.head?.any test = true) : Unbroken (s.take 1) := by
  cases s with
  | nil => exact unbroken_nil
  | cons b s => exact unbroken_cons.mpr ⟨htest.isEol h, unbroken_nil⟩

lemma unbroken_take_head (hs : s = b :: after) (hb : isEol b = false) : Unbroken (s.take 1) := by
  rw [hs]
  exact unbroken_cons.mpr ⟨hb, unbroken_nil⟩

lemma unbroken_take_add {m : Nat} (h : Unbroken (s.take n)) (h' : Unbroken ((s.drop n).take m)) :
    Unbroken (s.take (n + m)) := by
  rw [List.take_add]
  exact unbroken_append.mpr ⟨h, h'⟩

/-- The mark of a number in a list and the blank behind it. -/
lemma unbroken_number {mark blank : UInt8} (hs : s.drop (count Bytes.isDigit s) = mark :: blank :: after)
    (hmark : ((mark == 0x2E || mark == 0x29) && isBlank blank) = true) :
    Unbroken (s.take (count Bytes.isDigit s + 1)) ∧ Unbroken ((s.drop (count Bytes.isDigit s + 1)).take 1) := by
  rw [Bool.and_eq_true] at hmark
  have hdot : StaysInLine (fun m => m == 0x2E || m == 0x29) := ⟨rfl, rfl⟩
  constructor
  · exact unbroken_take_add (unbroken_take_count ⟨rfl, rfl⟩ s) (unbroken_take_head hs (hdot.isEol hmark.1))
  · rw [← List.tail_drop, hs, List.tail_cons]
    exact unbroken_take_head rfl (staysInLine_isBlank.isEol hmark.2)

/-- An inline token stays in the line. -/
lemma unbroken_inlineToken (b : UInt8) (rest : Bytes) :
    Unbroken (rest.take ((inlineToken b rest).2 - 1)) := by
  have hrun {test : UInt8 → Bool} (htest : StaysInLine test) :
      Unbroken (rest.take (1 + count test rest - 1)) := by
    rw [Nat.add_sub_cancel_left]
    exact unbroken_take_count htest rest
  fun_cases inlineToken b rest with
  | case1 h => exact unbroken_take_one ⟨rfl, rfl⟩ h
  | case2 h => exact unbroken_nil
  | case3 => exact hrun ⟨rfl, rfl⟩
  | case4 => exact hrun ⟨rfl, rfl⟩
  | case5 => exact hrun ⟨rfl, rfl⟩
  | case6 => exact unbroken_nil
  | case7 => exact unbroken_nil
  | case8 => exact unbroken_nil
  | case9 => exact unbroken_nil
  | case10 => exact unbroken_nil
  | case11 inside h =>
    rw [head?_beq] at h
    have hclose := unbroken_take_one (staysInLine_beq (c := 0x3E) rfl) h
    exact unbroken_take_add (unbroken_take_count ⟨rfl, rfl⟩ rest) hclose
  | case12 inside h => exact unbroken_take_count ⟨rfl, rfl⟩ rest
  | case13 b h =>
    rw [if_pos h]
    exact hrun ⟨rfl, rfl⟩
  | case14 b h =>
    rw [if_neg h]
    exact hrun ⟨rfl, rfl⟩

lemma inlineToken_pos (b : UInt8) (rest : Bytes) : 0 < (inlineToken b rest).2 := by
  fun_cases inlineToken b rest <;> grind

lemma inlineToken_ne_newline (b : UInt8) (rest : Bytes) : (inlineToken b rest).1 ≠ .newline := by
  fun_cases inlineToken b rest <;> grind

end Unbroken

/-- There is no more of the line. -/
def AtEol (s : Bytes) : Prop := ∀ b, s.head? = some b → isEol b = true

lemma drop_count (test : UInt8 → Bool) (s : Bytes) : s.drop (count test s) = s.dropWhile test := by
  induction s with
  | nil => rfl
  | cons c s ih =>
    by_cases hc : test c = true
    · rw [List.dropWhile_cons_of_pos hc, count, List.takeWhile_cons_of_pos hc]
      exact ih
    · rw [List.dropWhile_cons_of_neg hc, count, List.takeWhile_cons_of_neg hc]
      rfl

lemma atEol_drop_count (s : Bytes) : AtEol (s.drop (count (!isEol ·) s)) := by
  intro b hb
  have hstop := List.head?_dropWhile_not (!isEol ·) s
  rw [← drop_count, hb] at hstop
  simpa using hstop

/-- If only blanks are left of a line, they go up to its end. -/
lemma count_isBlank_of_restBlank (h : restBlank s = true) : count isBlank s = count (!isEol ·) s := by
  induction s with
  | nil => rfl
  | cons c s ih =>
    by_cases heol : isEol c = true
    · simp [count, heol, staysInLine_isBlank.of_isEol heol]
    · have hrest : isBlank c = true ∧ restBlank s = true := by simpa [restBlank, heol] using h
      have hs := ih hrest.2
      rw [count] at hs ⊢
      simp [hrest.1, heol, hs, count]

lemma atEol_of_restBlank (h : restBlank s = true) : AtEol (s.drop (count isBlank s)) := by
  rw [count_isBlank_of_restBlank h]
  exact atEol_drop_count s

/-- Inline tokens go up to the end of the line. -/
lemma atEol_inlineTokens (s : Bytes) : AtEol (inlineTokens s).2 := by
  fun_induction inlineTokens s with
  | case1 => simp [AtEol]
  | case2 b rest h => simpa [AtEol] using h
  | case3 b rest h kind n hn tokens last hrec ih =>
    rw [hrec] at ih
    exact ih

/-- What ends a line is a whole line break. -/
lemma exists_isBreak (hb : isEol b = true) (rest : Bytes) :
    ∃ s after, b :: rest = s ++ after ∧ IsBreak s after := by
  simp only [isEol, Bool.or_eq_true, beq_iff_eq] at hb
  rcases hb with rfl | rfl
  · exact ⟨_, rest, rfl, .inl rfl⟩
  · by_cases hfeed : rest.head? = some Bytes.newline
    · obtain ⟨after, rfl⟩ := List.head?_eq_some_iff.mp hfeed
      exact ⟨_, after, rfl, .inr (.inl rfl)⟩
    · exact ⟨_, rest, rfl, .inr (.inr ⟨rfl, hfeed⟩)⟩

end LosslessTree.Markdown
