import LosslessTree.Bytes.Utf8
import Mathlib.Data.List.Basic
import Mathlib.Tactic.Common

/-! Glyphs and the text they were read from. They cover it, and they are the same when they are read
from a piece of it: where a text is cut between two glyphs, neither side reads differently alone. -/
namespace LosslessTree.Utf8

@[simp] lemma bytes_nil : bytes [] = [] := rfl

@[simp] lemma bytes_cons (g : Glyph) (glyphs : List Glyph) : bytes (g :: glyphs) = g.bytes ++ bytes glyphs :=
  List.flatMap_cons

lemma bytes_append (a b : List Glyph) : bytes (a ++ b) = bytes a ++ bytes b := List.flatMap_append

/-- Valid or not, a text is the bytes of its glyphs. -/
theorem bytes_decode (b : Bytes) : bytes (decode b) = b := by
  fun_induction decode b <;> simp_all [Glyph.ofInvalid]

/-- Before these bytes the byte starts no valid sequence. -/
structure Stray (a : UInt8) (text : Bytes) : Prop where
  high : ¬ a < 0x80
  pair : ∀ b rest, text = b :: rest → ¬ isPair a b = true
  triple : ∀ b c rest, text = b :: c :: rest → ¬ isTriple a b c = true
  quad : ∀ b c d rest, text = b :: c :: d :: rest → ¬ isQuad a b c d = true

/-- It starts none either if less follows. -/
lemma Stray.of_append {a : UInt8} {x y : Bytes} (h : Stray a (x ++ y)) : Stray a x where
  high := h.high
  pair b rest hx := h.pair b (rest ++ y) (by rw [hx]; rfl)
  triple b c rest hx := h.triple b c (rest ++ y) (by rw [hx]; rfl)
  quad b c d rest hx := h.quad b c d (rest ++ y) (by rw [hx]; rfl)

lemma Stray.decode_eq {a : UInt8} {text : Bytes} (h : Stray a text) :
    decode (a :: text) = .ofInvalid a :: decode text := by
  cases text with
  | nil => simp [decode, h.high]
  | cons b t =>
    have hpair := h.pair b t rfl
    cases t with
    | nil => simp [decode, h.high, hpair]
    | cons c t =>
      have htriple := h.triple b c t rfl
      cases t with
      | nil => simp [decode, h.high, hpair, htriple]
      | cons d t => simp [decode, h.high, hpair, htriple, h.quad b c d t rfl]

/-- A text starts with a glyph that is read whatever follows it, or with a stray byte. -/
lemma first_glyph (a : UInt8) (text : Bytes) :
    (∃ g rest, a :: text = g.bytes ++ rest ∧ ∀ x, decode (g.bytes ++ x) = g :: decode x) ∨ Stray a text := by
  by_cases hascii : a < 0x80
  · refine .inl ⟨⟨a.toNat, [a]⟩, text, rfl, fun x => ?_⟩
    rw [List.singleton_append, decode.eq_def]
    simp [hascii]
  by_cases hpair : ∃ b t, text = b :: t ∧ isPair a b = true
  · obtain ⟨b, t, rfl, hb⟩ := hpair
    refine .inl ⟨⟨a.toNat % 0x20 * 0x40 + payload b, [a, b]⟩, t, rfl, fun x => ?_⟩
    change decode (a :: b :: x) = _
    rw [decode.eq_def]
    simp [hascii, hb]
  by_cases htriple : ∃ b c t, text = b :: c :: t ∧ isTriple a b c = true
  · obtain ⟨b, c, t, rfl, hc⟩ := htriple
    have hb : ¬ isPair a b = true := fun hb => hpair ⟨b, c :: t, rfl, hb⟩
    refine .inl ⟨⟨a.toNat % 0x10 * 0x1000 + payload b * 0x40 + payload c, [a, b, c]⟩, t, rfl, fun x => ?_⟩
    change decode (a :: b :: c :: x) = _
    rw [decode.eq_def]
    simp [hascii, hb, hc]
  by_cases hquad : ∃ b c d t, text = b :: c :: d :: t ∧ isQuad a b c d = true
  · obtain ⟨b, c, d, t, rfl, hd⟩ := hquad
    have hb : ¬ isPair a b = true := fun hb => hpair ⟨b, c :: d :: t, rfl, hb⟩
    have hc : ¬ isTriple a b c = true := fun hc => htriple ⟨b, c, d :: t, rfl, hc⟩
    refine .inl ⟨⟨a.toNat % 8 * 0x40000 + payload b * 0x1000 + payload c * 0x40 + payload d, [a, b, c, d]⟩,
      t, rfl, fun x => ?_⟩
    change decode (a :: b :: c :: d :: x) = _
    rw [decode.eq_def]
    simp [hascii, hb, hc, hd]
  · exact .inr ⟨hascii, fun b t ht hb => hpair ⟨b, t, ht, hb⟩,
      fun b c t ht hc => htriple ⟨b, c, t, ht, hc⟩, fun b c d t ht hd => hquad ⟨b, c, d, t, ht, hd⟩⟩

/-- The first glyph of a text and what is read after it. It is read alike before any start of the rest. -/
lemma exists_of_decode_eq_cons {b : Bytes} {g : Glyph} {glyphs : List Glyph} (h : decode b = g :: glyphs) :
    ∃ rest, b = g.bytes ++ rest ∧ decode rest = glyphs ∧
      ∀ x y, rest = x ++ y → decode (g.bytes ++ x) = g :: decode x := by
  cases b with
  | nil => cases h
  | cons a text =>
    rcases first_glyph a text with ⟨g', rest, hrest, hread⟩ | hstray
    · rw [hrest, hread rest] at h
      obtain ⟨rfl, hglyphs⟩ := List.cons_eq_cons.mp h
      exact ⟨rest, hrest, hglyphs, fun x _ _ => hread x⟩
    · rw [hstray.decode_eq] at h
      obtain ⟨rfl, hglyphs⟩ := List.cons_eq_cons.mp h
      refine ⟨text, rfl, hglyphs, ?_⟩
      rintro x y rfl
      exact hstray.of_append.decode_eq

/-- Cut between two glyphs, a text reads on both sides as it did in one piece. -/
theorem decode_split {b : Bytes} {xs ys : List Glyph} (h : decode b = xs ++ ys) :
    decode (bytes xs) = xs ∧ decode (bytes ys) = ys := by
  induction xs generalizing b with
  | nil =>
    refine ⟨rfl, ?_⟩
    rw [← List.nil_append ys, ← h, bytes_decode]
  | cons g xs ih =>
    rw [List.cons_append] at h
    obtain ⟨rest, rfl, hrest, hread⟩ := exists_of_decode_eq_cons h
    obtain ⟨hxs, hys⟩ := ih hrest
    have htext : rest = bytes xs ++ bytes ys := by rw [← bytes_append, ← hrest, bytes_decode]
    exact ⟨by rw [bytes_cons, hread _ _ htext, hxs], hys⟩

end LosslessTree.Utf8

/-! The glyphs that texts are read as, by the number of their bytes. Writing the code point of a valid one gives its
bytes back. -/
namespace LosslessTree

namespace Glyph

/-- A code point of several bytes: they give it back when it is written, and none of them is an ASCII character. -/
structure Wide (g : Glyph) : Prop where
  valid : g.isInvalid = false
  high : 0x80 ≤ g.point
  bound : g.point < 0x110000
  encode : Utf8.encode g.point = g.bytes
  bytes : ∀ b ∈ g.bytes, 0x80 ≤ b

/-- The glyphs that texts are read as. -/
inductive Read : Glyph → Prop
  | stray (a : UInt8) (high : ¬ a < 0x80) : Read (.ofInvalid a)
  | single (a : UInt8) (low : a < 0x80) : Read ⟨a.toNat, [a]⟩
  | wide {g : Glyph} (wide : g.Wide) : Read g

end Glyph

namespace Utf8

variable {a b c d : UInt8} {g : Glyph} {text : Bytes}

lemma payload_eq (h : isContinuation b = true) : 0x80 ≤ b.toNat ∧ b.toNat ≤ 0xBF ∧ payload b = b.toNat - 0x80 := by
  simp [isContinuation, UInt8.le_iff_toNat_le] at h
  unfold payload
  omega

lemma byte_eq {n : Nat} (h : n = b.toNat) : byte n = b := by
  rw [h, byte]
  simp

lemma byte_toNat (b : UInt8) : byte b.toNat = b := byte_eq rfl

lemma encode_toNat (h : a < 0x80) : encode a.toNat = [a] := by
  have hlow : a.toNat < 0x80 := by simpa using UInt8.lt_iff_toNat_lt.mp h
  rw [encode, if_pos hlow, byte_toNat]

lemma wide_pair (h : isPair a b = true) :
    Glyph.Wide ⟨a.toNat % 0x20 * 0x40 + payload b, [a, b]⟩ := by
  simp only [isPair, Bool.and_eq_true, decide_eq_true_eq, UInt8.le_iff_toNat_le] at h
  obtain ⟨⟨hlow, hhigh⟩, hb⟩ := h
  obtain ⟨hblow, hbhigh, hpayload⟩ := payload_eq hb
  simp at hlow hhigh
  refine ⟨by simp [Glyph.isInvalid], by simp only []; omega, by simp only []; omega, ?_, ?_⟩
  · simp only [encode]
    rw [if_neg (by omega), if_pos (by omega), byte_eq (b := a) (by omega), byte_eq (b := b) (by omega)]
  · simp only [List.forall_mem_cons, UInt8.le_iff_toNat_le]
    simp
    omega

lemma wide_triple (h : isTriple a b c = true) :
    Glyph.Wide ⟨a.toNat % 0x10 * 0x1000 + payload b * 0x40 + payload c, [a, b, c]⟩ := by
  simp only [isTriple, Bool.and_eq_true, Bool.or_eq_true, bne_iff_ne, decide_eq_true_eq, ne_eq, UInt8.le_iff_toNat_le,
    ← UInt8.toNat_inj] at h
  obtain ⟨⟨⟨⟨⟨hlow, hhigh⟩, hb⟩, hc⟩, hoverlong⟩, hsurrogate⟩ := h
  obtain ⟨hblow, hbhigh, hpayload⟩ := payload_eq hb
  obtain ⟨hclow, hchigh, hpayload'⟩ := payload_eq hc
  simp at hlow hhigh hoverlong hsurrogate
  refine ⟨by simp [Glyph.isInvalid], by simp only []; omega, by simp only []; omega, ?_, ?_⟩
  · simp only [encode]
    rw [if_neg (by omega), if_neg (by omega), if_neg (by simp; omega), if_pos (by omega),
      byte_eq (b := a) (by omega), byte_eq (b := b) (by omega), byte_eq (b := c) (by omega)]
  · simp only [List.forall_mem_cons, UInt8.le_iff_toNat_le]
    simp
    omega

lemma wide_quad (h : isQuad a b c d = true) :
    Glyph.Wide ⟨a.toNat % 8 * 0x40000 + payload b * 0x1000 + payload c * 0x40 + payload d, [a, b, c, d]⟩ := by
  simp only [isQuad, Bool.and_eq_true, Bool.or_eq_true, bne_iff_ne, decide_eq_true_eq, ne_eq, UInt8.le_iff_toNat_le,
    ← UInt8.toNat_inj] at h
  obtain ⟨⟨⟨⟨⟨⟨hlow, hhigh⟩, hb⟩, hc⟩, hd⟩, hoverlong⟩, hbound⟩ := h
  obtain ⟨hblow, hbhigh, hpayload⟩ := payload_eq hb
  obtain ⟨hclow, hchigh, hpayload'⟩ := payload_eq hc
  obtain ⟨hdlow, hdhigh, hpayload''⟩ := payload_eq hd
  simp at hlow hhigh hoverlong hbound
  refine ⟨by simp [Glyph.isInvalid], by simp only []; omega, by simp only []; omega, ?_, ?_⟩
  · simp only [encode]
    rw [if_neg (by omega), if_neg (by omega), if_neg (by simp; omega), if_neg (by omega),
      byte_eq (b := a) (by omega), byte_eq (b := b) (by omega), byte_eq (b := c) (by omega),
      byte_eq (b := d) (by omega)]
  · simp only [List.forall_mem_cons, UInt8.le_iff_toNat_le]
    simp
    omega

lemma read_of_mem_decode (h : g ∈ decode text) : g.Read := by
  fun_induction decode text with
  | case1 => cases h
  | case2 a t ha ih =>
    rcases List.mem_cons.mp h with rfl | h
    · exact .single a ha
    · exact ih h
  | case3 a ha =>
    rw [List.mem_singleton.mp h]
    exact .stray a ha
  | case4 a ha b t hpair ih =>
    rcases List.mem_cons.mp h with rfl | h
    · exact .wide (wide_pair hpair)
    · exact ih h
  | case5 a ha b hpair ih | case7 a ha b hpair c htriple ih | case9 a ha b hpair c htriple d t hquad ih =>
    rcases List.mem_cons.mp h with rfl | h
    · exact .stray a ha
    · exact ih h
  | case6 a ha b hpair c t htriple ih =>
    rcases List.mem_cons.mp h with rfl | h
    · exact .wide (wide_triple htriple)
    · exact ih h
  | case8 a ha b hpair c htriple d t hquad ih =>
    rcases List.mem_cons.mp h with rfl | h
    · exact .wide (wide_quad hquad)
    · exact ih h

end Utf8
end LosslessTree
