import LosslessTree.Proofs.Bytes.Numeral
import LosslessTree.Proofs.Bytes.Utf8
import LosslessTree.Text.Quoted

/-! Quoted texts can be read back, whatever is taken to be printable: a letter after a backslash says how many
digits follow, and all other bytes stand for themselves. As long as no control character is printable, a quoted
text has none in it, so it is one line. -/
namespace LosslessTree.Quoted

/-- A code point that is not shown as itself. -/
def escaped (point : Nat) : Bytes :=
  match escapeLetter? point with
  | some letter => [0x5C, letter]
  | none =>
    if point < 0x20 ∨ point = 0x7F then "\\x" ++ Bytes.hex 2 point
    else if point < 0x10000 then "\\u" ++ Bytes.hex 4 point
    else "\\U" ++ Bytes.hex 8 point

/-- A glyph in quoted text, for any notion of what is printable. -/
def glyphBy (printable : Nat → Bool) (g : Glyph) : Bytes :=
  if g.isInvalid then "\\x" ++ Bytes.hex 2 (g.bytes.headD 0).toNat
  else if g.point == 0x22 || g.point == 0x5C then 0x5C :: g.bytes
  else if printable g.point then g.bytes
  else escaped g.point

/-- The text between double quotes, for any notion of what is printable. -/
def encodeBy (printable : Nat → Bool) (text : Bytes) : Bytes :=
  0x22 :: ((Utf8.decode text).flatMap (glyphBy printable) ++ [0x22])

/-- The byte that an escape letter stands for; other characters stand for themselves. -/
def letterByte : UInt8 → UInt8
  | 0x61 => 0x07
  | 0x62 => 0x08
  | 0x74 => 0x09
  | 0x6E => 0x0A
  | 0x76 => 0x0B
  | 0x66 => 0x0C
  | 0x72 => 0x0D
  | b => b

/-- Reads what stands between the quotes. -/
def unescape (text : Bytes) : Bytes :=
  match text with
  | [] => []
  | [b] => [b]
  | b :: letter :: rest =>
    if b ≠ 0x5C then b :: unescape (letter :: rest)
    else if letter = 0x78 then Utf8.byte (Bytes.hexValue (rest.take 2)) :: unescape (rest.drop 2)
    else if letter = 0x75 then Utf8.encode (Bytes.hexValue (rest.take 4)) ++ unescape (rest.drop 4)
    else if letter = 0x55 then Utf8.encode (Bytes.hexValue (rest.take 8)) ++ unescape (rest.drop 8)
    else letterByte letter :: unescape rest
termination_by text.length
decreasing_by all_goals simp only [List.length_cons, List.length_drop]; omega

/-- Takes the quotes off a text and reads what is left. -/
def decode (text : Bytes) : Bytes := unescape text.tail.dropLast

variable {printable : Nat → Bool} {b letter : UInt8} {bytes rest text : Bytes} {n : Nat} {g : Glyph}

lemma isPrintable_of_control (h : n < 0x20) : Unicode.isPrintable n = false := by
  have hall : ∀ k < 0x20, Unicode.isPrintable k = false := by decide +kernel
  exact hall n h

lemma isPrintable_of_ascii (hlow : 0x20 ≤ n) (hhigh : n < 0x7F) : Unicode.isPrintable n = true := by
  have hall : ∀ k < 0x7F, 0x20 ≤ k → Unicode.isPrintable k = true := by decide
  exact hall n hhigh hlow

/-- Of the ASCII characters only control characters are left to be escaped by their number. -/
lemma glyph_eq_glyphBy (g : Glyph) : glyph g = glyphBy Unicode.isPrintable g := by
  unfold glyph glyphBy
  by_cases hinvalid : g.isInvalid = true
  · rw [if_pos hinvalid, if_pos hinvalid]
  by_cases hquote : (g.point == 0x22 || g.point == 0x5C) = true
  · rw [if_neg hinvalid, if_neg hinvalid, if_pos hquote, if_pos hquote]
  by_cases hprintable : Unicode.isPrintable g.point = true
  · rw [if_neg hinvalid, if_neg hinvalid, if_neg hquote, if_neg hquote, if_pos hprintable, if_pos hprintable]
  · have hcontrol : g.point < 0x80 ↔ g.point < 0x20 ∨ g.point = 0x7F := by
      constructor
      · intro hascii
        by_contra hnot
        exact hprintable (isPrintable_of_ascii (by omega) (by omega))
      · omega
    rw [if_neg hinvalid, if_neg hinvalid, if_neg hquote, if_neg hquote, if_neg hprintable, if_neg hprintable, escaped]
    cases escapeLetter? g.point <;> simp only [hcontrol]

theorem encode_eq_encodeBy : encode = encodeBy Unicode.isPrintable := by
  funext text
  rw [encode, encodeBy, funext glyph_eq_glyphBy]

lemma unescape_cons (hb : b ≠ 0x5C) (rest : Bytes) : unescape (b :: rest) = b :: unescape rest := by
  cases rest with
  | nil => simp [unescape]
  | cons letter rest => rw [unescape, if_pos hb]

lemma unescape_plain (h : ∀ b ∈ bytes, b ≠ 0x5C) (rest : Bytes) :
    unescape (bytes ++ rest) = bytes ++ unescape rest := by
  induction bytes with
  | nil => rfl
  | cons b bytes ih =>
    obtain ⟨hb, hbytes⟩ := List.forall_mem_cons.mp h
    rw [List.cons_append, unescape_cons hb, ih hbytes, List.cons_append]

lemma unescape_byte (hn : n < 0x100) (rest : Bytes) :
    unescape ("\\x" ++ Bytes.hex 2 n ++ rest) = Utf8.byte n :: unescape rest := by
  have hmark : Bytes.ofString "\\x" = [0x5C, 0x78] := rfl
  rw [hmark, List.append_assoc, List.cons_append, List.cons_append, List.nil_append, unescape]
  simp [Bytes.hexValue_hex (show n < 16 ^ 2 from hn)]

lemma unescape_short (hn : n < 0x10000) (rest : Bytes) :
    unescape ("\\u" ++ Bytes.hex 4 n ++ rest) = Utf8.encode n ++ unescape rest := by
  have hmark : Bytes.ofString "\\u" = [0x5C, 0x75] := rfl
  rw [hmark, List.append_assoc, List.cons_append, List.cons_append, List.nil_append, unescape]
  simp [Bytes.hexValue_hex (show n < 16 ^ 4 from hn)]

lemma unescape_long (hn : n < 0x100000000) (rest : Bytes) :
    unescape ("\\U" ++ Bytes.hex 8 n ++ rest) = Utf8.encode n ++ unescape rest := by
  have hmark : Bytes.ofString "\\U" = [0x5C, 0x55] := rfl
  rw [hmark, List.append_assoc, List.cons_append, List.cons_append, List.nil_append, unescape]
  simp [Bytes.hexValue_hex (show n < 16 ^ 8 from hn)]

/-- A letter that no digits follow. -/
structure Bare (letter : UInt8) : Prop where
  ne_byte : letter ≠ 0x78
  ne_short : letter ≠ 0x75
  ne_long : letter ≠ 0x55

lemma unescape_letter (h : Bare letter) (rest : Bytes) :
    unescape (0x5C :: letter :: rest) = letterByte letter :: unescape rest := by
  rw [unescape]
  simp [h.ne_byte, h.ne_short, h.ne_long]

lemma escapeLetter?_eq_some (h : escapeLetter? n = some letter) :
    Bare letter ∧ letterByte letter = Utf8.byte n ∧ n < 0x20 ∧ 0x20 ≤ letter := by
  unfold escapeLetter? at h
  split at h <;> cases h <;> exact ⟨⟨by decide, by decide, by decide⟩, by decide, by decide, by decide⟩

lemma unescape_escaped (hn : n < 0x110000) (rest : Bytes) :
    unescape (escaped n ++ rest) = Utf8.encode n ++ unescape rest := by
  unfold escaped
  split
  · next letter hletter =>
    obtain ⟨hbare, hbyte, hcontrol, -⟩ := escapeLetter?_eq_some hletter
    rw [List.cons_append, List.singleton_append, unescape_letter hbare, hbyte, Utf8.encode, if_pos (by omega),
      List.singleton_append]
  · split_ifs with hcontrol hshort
    · rw [unescape_byte (by omega), Utf8.encode, if_pos (by omega), List.singleton_append]
    · exact unescape_short hshort rest
    · exact unescape_long (by omega) rest

/-- A byte that starts no character is written by its number. -/
lemma unescape_stray (printable : Nat → Bool) (a : UInt8) (rest : Bytes) :
    unescape (glyphBy printable (.ofInvalid a) ++ rest) = a :: unescape rest := by
  have hinvalid : (Glyph.ofInvalid a).isInvalid = true := by simp [Glyph.isInvalid, Glyph.ofInvalid]
  rw [glyphBy, if_pos hinvalid]
  change unescape ("\\x" ++ Bytes.hex 2 a.toNat ++ rest) = a :: unescape rest
  rw [unescape_byte a.toNat_lt, Utf8.byte_toNat]

/-- A character of one byte may be a quote or a backslash, which are written after a backslash. -/
lemma unescape_single {a : UInt8} (low : a < 0x80) (rest : Bytes) :
    unescape (glyphBy printable ⟨a.toNat, [a]⟩ ++ rest) = a :: unescape rest := by
  have hlow : a.toNat < 0x80 := by simpa using UInt8.lt_iff_toNat_lt.mp low
  have hvalid : ¬ (Glyph.isInvalid ⟨a.toNat, [a]⟩) = true := by
    simp [Glyph.isInvalid, Glyph.replacement]
    omega
  rw [glyphBy, if_neg hvalid]
  split_ifs with hquote hprintable
  · have ha : a = 0x22 ∨ a = 0x5C := by simpa [← UInt8.toNat_inj] using hquote
    rcases ha with rfl | rfl
    · exact unescape_letter ⟨by decide, by decide, by decide⟩ rest
    · exact unescape_letter ⟨by decide, by decide, by decide⟩ rest
  · refine unescape_plain ?_ rest
    rw [List.forall_mem_singleton]
    rintro rfl
    exact hquote rfl
  · have hbound : a.toNat < 0x110000 := by omega
    rw [unescape_escaped hbound, Utf8.encode_toNat low, List.singleton_append]

/-- A character of more bytes is written as it is or by its number. -/
lemma unescape_wide (wide : g.Wide) (rest : Bytes) :
    unescape (glyphBy printable g ++ rest) = g.bytes ++ unescape rest := by
  have hhigh := wide.high
  rw [glyphBy, wide.valid, if_neg Bool.false_ne_true]
  split_ifs with hquote hprintable
  · rw [Bool.or_eq_true, beq_iff_eq, beq_iff_eq] at hquote
    omega
  · refine unescape_plain ?_ rest
    intro b hb
    have hbyte := wide.bytes b hb
    rintro rfl
    exact absurd hbyte (by decide)
  · rw [unescape_escaped wide.bound, wide.encode]

/-- Every glyph in quoted text is read as its bytes. -/
lemma unescape_glyphBy (hg : g.Read) (rest : Bytes) :
    unescape (glyphBy printable g ++ rest) = g.bytes ++ unescape rest := by
  cases hg with
  | stray a high => exact unescape_stray printable a rest
  | single a low => exact unescape_single low rest
  | wide wide => exact unescape_wide wide rest

lemma unescape_flatMap_glyphBy {glyphs : List Glyph} (h : ∀ g ∈ glyphs, g.Read) :
    unescape (glyphs.flatMap (glyphBy printable)) = Utf8.bytes glyphs := by
  induction glyphs with
  | nil => simp [unescape]
  | cons g glyphs ih =>
    obtain ⟨hg, hrest⟩ := List.forall_mem_cons.mp h
    rw [List.flatMap_cons, unescape_glyphBy hg, ih hrest, Utf8.bytes_cons]

/-- Reading a quoted text gives the text back. -/
theorem decode_encodeBy (printable : Nat → Bool) (text : Bytes) : decode (encodeBy printable text) = text := by
  rw [decode, encodeBy, List.tail_cons, List.dropLast_concat,
    unescape_flatMap_glyphBy fun g hg => Utf8.read_of_mem_decode hg, Utf8.bytes_decode]

/-- Different texts are different when they are quoted. -/
theorem encodeBy_injective {s t : Bytes} (h : encodeBy printable s = encodeBy printable t) : s = t := by
  rw [← decode_encodeBy printable s, h, decode_encodeBy]

/-- No control character is shown as itself. -/
def HidesControls (printable : Nat → Bool) : Prop := ∀ n < 0x20, printable n = false

lemma visible_of_mem_marked {mark digits : Bytes} (hmark : ∀ x ∈ mark, 0x20 ≤ x) (hdigits : ∀ x ∈ digits, 0x20 ≤ x)
    (h : b ∈ mark ++ digits) : 0x20 ≤ b :=
  (List.mem_append.mp h).elim (hmark b) (hdigits b)

lemma visible_of_mem_escaped (h : b ∈ escaped n) : 0x20 ≤ b := by
  unfold escaped at h
  split at h
  · next letter hletter =>
    obtain ⟨-, -, -, hvisible⟩ := escapeLetter?_eq_some hletter
    simp only [List.mem_cons, List.not_mem_nil, or_false] at h
    rcases h with rfl | rfl
    · decide
    · exact hvisible
  · split_ifs at h
    · exact visible_of_mem_marked (by decide +kernel) (fun x hx => Bytes.visible_of_mem_hex hx) h
    · exact visible_of_mem_marked (by decide +kernel) (fun x hx => Bytes.visible_of_mem_hex hx) h
    · exact visible_of_mem_marked (by decide +kernel) (fun x hx => Bytes.visible_of_mem_hex hx) h

/-- What is no control character has none among its bytes. -/
lemma visible_of_mem_bytes (hg : g.Read) (hvalid : ¬ g.isInvalid = true) (hpoint : 0x20 ≤ g.point) (hb : b ∈ g.bytes) :
    0x20 ≤ b := by
  cases hg with
  | stray a high => exact absurd rfl hvalid
  | single a low =>
    rw [List.mem_singleton.mp hb, UInt8.le_iff_toNat_le]
    exact hpoint
  | wide wide => exact UInt8.le_trans (by decide) (wide.bytes b hb)

lemma visible_of_mem_glyphBy (hcontrols : HidesControls printable) (hg : g.Read) (h : b ∈ glyphBy printable g) :
    0x20 ≤ b := by
  unfold glyphBy at h
  split_ifs at h with hinvalid hquote hprintable
  · exact visible_of_mem_marked (by decide +kernel) (fun x hx => Bytes.visible_of_mem_hex hx) h
  · rw [Bool.or_eq_true, beq_iff_eq, beq_iff_eq] at hquote
    rcases List.mem_cons.mp h with rfl | h
    · decide
    · exact visible_of_mem_bytes hg hinvalid (by omega) h
  · have hpoint : 0x20 ≤ g.point := by
      by_contra hlow
      rw [hcontrols g.point (by omega)] at hprintable
      cases hprintable
    exact visible_of_mem_bytes hg hinvalid hpoint h
  · exact visible_of_mem_escaped h

/-- A quoted text has no control character in it. -/
theorem visible_of_mem_encodeBy (hcontrols : HidesControls printable) (h : b ∈ encodeBy printable text) : 0x20 ≤ b := by
  rcases List.mem_cons.mp h with rfl | h
  · decide
  rcases List.mem_append.mp h with h | h
  · obtain ⟨g, hg, hb⟩ := List.mem_flatMap.mp h
    exact visible_of_mem_glyphBy hcontrols (Utf8.read_of_mem_decode hg) hb
  · rw [List.mem_singleton.mp h]
    decide

lemma hidesControls_isPrintable : HidesControls Unicode.isPrintable := fun _ => isPrintable_of_control

end LosslessTree.Quoted
