import LosslessTree.Bytes.Basic
import Mathlib.Algebra.Group.Nat.Defs
import Mathlib.Data.List.Basic
import Mathlib.Tactic.Common

/-! Numbers as texts. Hexadecimal digits can be read back, and decimal ones tell their number. -/
namespace LosslessTree.Bytes

def digitValue (b : UInt8) : Nat := if b ≤ 0x39 then b.toNat - 0x30 else b.toNat - 0x57

/-- The number that hexadecimal digits stand for. -/
def hexValue (digits : Bytes) : Nat := digits.foldl (fun n b => 16 * n + digitValue b) 0

variable {n width : Nat} {b : UInt8}

lemma digitValue_hexDigit (h : n < 16) : digitValue (hexDigit n) = n := by
  have hall : ∀ k < 16, digitValue (hexDigit k) = k := by decide
  exact hall n h

lemma hexDigit_visible (h : n < 16) : 0x20 ≤ hexDigit n := by
  have hall : ∀ k < 16, 0x20 ≤ hexDigit k := by decide
  exact hall n h

@[simp] lemma length_hex (width n : Nat) : (hex width n).length = width := by
  induction width generalizing n with
  | zero => rfl
  | succ width ih => simp [hex, ih]

/-- Digits that are enough for a number give it back. -/
theorem hexValue_hex (h : n < 16 ^ width) : hexValue (hex width n) = n := by
  induction width generalizing n with
  | zero =>
    have hzero : n = 0 := by simpa using h
    rw [hzero]
    rfl
  | succ width ih =>
    have hrest : n / 16 < 16 ^ width := by
      rw [Nat.pow_succ] at h
      exact Nat.div_lt_of_lt_mul (by omega)
    have hdigit := digitValue_hexDigit (Nat.mod_lt n (by decide : 0 < 16))
    have hvalue := ih hrest
    rw [hexValue] at hvalue
    rw [hexValue, hex, List.foldl_append, hvalue, List.foldl_cons, List.foldl_nil, hdigit]
    omega

lemma visible_of_mem_hex (h : b ∈ hex width n) : 0x20 ≤ b := by
  induction width generalizing n with
  | zero => cases h
  | succ width ih =>
    rw [hex, List.mem_append, List.mem_singleton] at h
    rcases h with h | rfl
    · exact ih h
    · exact hexDigit_visible (Nat.mod_lt n (by decide))

@[simp] lemma ofString_append (s t : String) : ofString (s ++ t) = ofString s ++ ofString t := by
  simp [ofString]

lemma ofString_injective {s t : String} (h : ofString s = ofString t) : s = t := by
  rw [← String.toByteArray_inj]
  apply ByteArray.ext
  apply Array.toList_inj.mp
  exact h

lemma ofNat_injective {m n : Nat} (h : ofNat m = ofNat n) : m = n := by
  have hdigits : Nat.toDigits 10 m = Nat.toDigits 10 n := by
    rw [← Nat.toList_repr, ← Nat.toList_repr, ofString_injective h]
  rw [← Nat.ofDigitChars_ten_toDigits (n := m), hdigits, Nat.ofDigitChars_ten_toDigits]

lemma isDigit_utf8EncodeChar {c : Char} (hc : c.isDigit = true) (hb : b ∈ String.utf8EncodeChar c) :
    isDigit b = true := by
  simp only [Char.isDigit, Bool.and_eq_true, decide_eq_true_eq, ge_iff_le, UInt32.le_iff_toNat_le] at hc
  obtain ⟨hlow, hhigh⟩ := hc
  simp at hlow hhigh
  have hascii : c.toNat ≤ 127 := by omega
  have hb : b = UInt8.ofNat c.toNat := by simpa [String.utf8EncodeChar, hascii] using hb
  subst hb
  simp [isDigit, UInt8.le_iff_toNat_le]
  omega

/-- A number is written with digits only. -/
lemma isDigit_of_mem_ofNat (h : b ∈ ofNat n) : isDigit b = true := by
  have hdigits : b ∈ (Nat.toDigits 10 n).flatMap String.utf8EncodeChar := by
    rw [ofNat, ofString, String.toUTF8_eq_toByteArray, Nat.repr_eq_ofList_toDigits, String.toByteArray_ofList] at h
    simpa [List.utf8Encode] using h
  obtain ⟨c, hc, hb⟩ := List.mem_flatMap.mp hdigits
  exact isDigit_utf8EncodeChar (Nat.isDigit_of_mem_toDigits (by decide) (by decide) hc) hb

end LosslessTree.Bytes
