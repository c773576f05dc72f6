import LosslessTree.Proofs.Markdown.Token

/-! Cutting a Markdown text in place. One position moves over the whole text; every byte is read at a
position, and a token is the range from a remembered start to the place the position has come to. A read
outside the text has no result. A loop over whole pieces or lines does not say that they are not empty: it
gets one round more than the text has bytes, and has no result if it has not ended by then. -/
namespace LosslessTree.Markdown

/-- A classified range of positions. -/
structure Cut where
  symbol : Symbol
  start : Nat
  stop : Nat
  deriving DecidableEq, Repr

def Span.cut (s : Span) : Cut := ⟨s.symbol, s.start, s.stop⟩

/-- The ranges cut so far and the position that has been reached. -/
structure Head where
  cuts : List Cut := []
  pos : Nat := 0

namespace Head

/-- Cuts the range from `start` to the position. -/
def emit (kind : Symbol) (start : Nat) (h : Head) : Head :=
  { h with cuts := h.cuts ++ [⟨kind, start, h.pos⟩] }

/-- Moves on and cuts what was passed. -/
def cutTo (kind : Symbol) (stop : Nat) (h : Head) : Head := emit kind h.pos { h with pos := stop }

/-- Moves on and cuts what was passed, if anything was. -/
def passTo (kind : Symbol) (stop : Nat) (h : Head) : Head :=
  if h.pos < stop then h.cutTo kind stop else { h with pos := stop }

def single (kind : Symbol) (h : Head) : Head := h.cutTo kind (h.pos + 1)

end Head

namespace InPlace
variable (src : Bytes)

/-- The first position from `i` on whose byte fails a test, or `limit`. -/
def skip (test : UInt8 → Bool) (limit i : Nat) : Option Nat :=
  if i < limit then do
    let b ← src[i]?
    if test b then skip test limit (i + 1) else return i
  else return i
termination_by limit - i

/-- Whether a position has a byte and the byte passes a test. -/
def peek (test : UInt8 → Bool) (i : Nat) : Option Bool :=
  if i < src.length then return test (← src[i]?) else return false

/-- Whether the line goes on with markers and blanks only, at least three markers with the `n` before. -/
def breakLine (marker : UInt8) (n i : Nat) : Option Bool :=
  if i < src.length then do
    let b ← src[i]?
    if isEol b then return 3 ≤ n
    else if b == marker then breakLine marker (n + 1) (i + 1)
    else if isBlank b then breakLine marker n (i + 1)
    else return false
  else return 3 ≤ n
termination_by src.length - i

/-- Whether only blanks are left in the line. -/
def blankLine (i : Nat) : Option Bool :=
  if i < src.length then do
    let b ← src[i]?
    if isEol b then return true
    else if isBlank b then blankLine (i + 1)
    else return false
  else return true
termination_by src.length - i

def run (kind : Symbol) (test : UInt8 → Bool) (h : Head) : Option Head := do
  let stop ← skip src test src.length h.pos
  return h.passTo kind stop

def newline (h : Head) : Option Head := do
  let carriage ← peek src (· == Bytes.carriageReturn) h.pos
  let next := if carriage then h.pos + 1 else h.pos
  let feed ← peek src (· == Bytes.newline) next
  return h.passTo .newline (if feed then next + 1 else next)

def restOfLine (kind : Symbol) (h : Head) : Option Head := do
  newline src (← run src kind (!isEol ·) h)

def escape (h : Head) : Option Head := do
  if ← peek src isPunctuation (h.pos + 1) then return h.cutTo .escapedChar (h.pos + 2)
  else return h.cutTo .text (h.pos + 1)

def inlineHtml (h : Head) : Option Head := do
  let stop ← skip src (fun b => b != 0x3E && !isEol b) src.length (h.pos + 1)
  if ← peek src (· == 0x3E) stop then return h.cutTo .html (stop + 1)
  else return h.cutTo .text stop

/-- The inline piece that starts with `b`. -/
def piece (b : UInt8) (h : Head) : Option Head :=
  match b with
  | 0x5C => escape src h
  | 0x60 => run src .backtick (· == 0x60) h
  | 0x2A => run src .emphasisMarker (· == 0x2A) h
  | 0x5F => run src .emphasisMarker (· == 0x5F) h
  | 0x5B => return h.single .linkOpen
  | 0x5D => return h.single .linkClose
  | 0x28 => return h.single .parenOpen
  | 0x29 => return h.single .parenClose
  | 0x21 => return h.single .imageMarker
  | 0x3C => inlineHtml src h
  | _ => if isBlank b then run src .whitespace isBlank h else run src .text isPlain h

def inlineRounds (rounds : Nat) (h : Head) : Option Head :=
  match rounds with
  | 0 => none
  | rounds + 1 =>
    if h.pos < src.length then do
      let b ← src[h.pos]?
      if isEol b then newline src h else inlineRounds rounds (← piece src b h)
    else return h

/-- The rest of a line, piece by piece. -/
def inline (h : Head) : Option Head := inlineRounds src (src.length + 1) h

/-- A block marker with the rest of its line: whether there is one, and where that ends. -/
abbrev Tried := Option (Bool × Head)

def heading (h : Head) : Tried := do
  let stop ← skip src (· == 0x23) src.length h.pos
  let other ← peek src (fun b => !isBlank b && !isEol b) stop
  if 6 < stop - h.pos || other then return (false, h)
  let marked := h.cutTo .headingMarker stop
  let blank ← peek src isBlank stop
  return (true, ← inline src (if blank then marked.single .whitespace else marked))

def quote (h : Head) : Tried := do
  let marked := h.single .blockquoteMarker
  let spaced ← peek src (· == Bytes.space) marked.pos
  return (true, ← inline src (if spaced then marked.single .whitespace else marked))

def bulletOrBreak (marker : UInt8) (h : Head) : Tried := do
  if ← breakLine src marker 0 h.pos then return (true, ← restOfLine src .thematicBreak h)
  else if ← peek src isBlank (h.pos + 1) then
    return (true, ← inline src ((h.single .listBullet).single .whitespace))
  else return (false, h)

def setext (marker : UInt8) (h : Head) : Tried := do
  let stop ← skip src (· == marker) src.length h.pos
  if stop - h.pos = 0 then return (false, h)
  else if ← blankLine src stop then return (true, ← restOfLine src .setextUnderline h)
  else return (false, h)

def ordered (h : Head) : Tried := do
  let stop ← skip src Bytes.isDigit src.length h.pos
  if src.length ≤ stop + 1 then return (false, h)
  let mark ← src[stop]?
  let blank ← src[stop + 1]?
  if (mark == 0x2E || mark == 0x29) && isBlank blank then
    return (true, ← inline src ((h.cutTo .listNumber (stop + 1)).single .whitespace))
  else return (false, h)

def closingFence (fence : UInt8) (n : Nat) (h : Head) : Tried := do
  let first ← skip src (· == Bytes.space) (min (h.pos + 3) src.length) h.pos
  let stop ← skip src (· == fence) src.length first
  if stop - first < n then return (false, h)
  else if ← blankLine src stop then
    let closed := (h.passTo .whitespace first).cutTo .codeFence stop
    return (true, ← newline src (← run src .whitespace isBlank closed))
  else return (false, h)

def fenceRounds (fence : UInt8) (n rounds : Nat) (h : Head) : Option Head :=
  match rounds with
  | 0 => none
  | rounds + 1 =>
    if h.pos < src.length then do
      let (closed, next) ← closingFence src fence n h
      if closed then return next else fenceRounds fence n rounds (← restOfLine src .text next)
    else return h

/-- The lines of a fenced block. -/
def fenceBody (fence : UInt8) (n : Nat) (h : Head) : Option Head :=
  fenceRounds src fence n (src.length + 1) h

def fenced (fence : UInt8) (h : Head) : Tried := do
  let stop ← skip src (· == fence) src.length h.pos
  if stop - h.pos < 3 then return (false, h)
  let opened := h.cutTo .codeFence stop
  let info ← peek src (!isEol ·) stop
  let next ← if info then restOfLine src .codeFenceInfo opened else newline src opened
  return (true, ← fenceBody src fence (stop - h.pos) next)

/-- The block marker that starts with `b`. -/
def marked (b : UInt8) (h : Head) : Tried :=
  match b with
  | 0x23 => heading src h
  | 0x3E => quote src h
  | 0x2D => bulletOrBreak src b h
  | 0x2B => bulletOrBreak src b h
  | 0x2A => bulletOrBreak src b h
  | 0x5F => do
    if ← breakLine src b 0 h.pos then return (true, ← restOfLine src .thematicBreak h)
    else return (false, h)
  | 0x60 => fenced src b h
  | 0x7E => fenced src b h
  | 0x3D => setext src b h
  | 0x3C => return (true, ← restOfLine src .html h)
  | _ => if Bytes.isDigit b then ordered src h else return (false, h)

/-- One line, or a whole fenced block. -/
def line (h : Head) : Option Head := do
  let h ← run src .whitespace isBlank h
  if src.length ≤ h.pos then return h
  let b ← src[h.pos]?
  let (found, h) ← marked src b h
  if found then return h
  let dash ← peek src (· == 0x2D) h.pos
  let (found, h) ← (if dash then setext src 0x2D h else some (false, h))
  if found then return h else inline src h

def linesRounds (rounds : Nat) (h : Head) : Option Head :=
  match rounds with
  | 0 => none
  | rounds + 1 => if h.pos < src.length then do linesRounds rounds (← line src h) else return h

/-- The rest of the text, line by line. -/
def lines (h : Head) : Option Head := linesRounds src (src.length + 1) h

end InPlace

/-- The classified ranges of a text, found in place. -/
def scanInPlace? (src : Bytes) : Option (List Cut) := (InPlace.lines src {}).map Head.cuts

namespace InPlace
variable {src : Bytes} {i : Nat} {b : UInt8} {rest : Bytes}

lemma lt_length_iff (h : src.drop i = rest) : i < src.length ↔ rest ≠ [] := by
  rw [← h, Ne, List.drop_eq_nil_iff, Nat.not_le]

lemma lt_length_of_cons (h : src.drop i = b :: rest) : i < src.length :=
  (lt_length_iff h).mpr (List.cons_ne_nil b rest)

lemma not_lt_length_of_nil (h : src.drop i = []) : ¬ i < src.length :=
  fun hlt => (lt_length_iff h).mp hlt rfl

lemma read_of_drop (h : src.drop i = b :: rest) : src[i]? = some b := by
  rw [← List.head?_drop, h, List.head?_cons]

lemma drop_succ (h : src.drop i = b :: rest) : src.drop (i + 1) = rest := by
  rw [← List.tail_drop, h, List.tail_cons]

lemma peek_eq (test : UInt8 → Bool) (h : src.drop i = rest) :
    peek src test i = some (rest.head?.any test) := by
  unfold peek
  cases rest with
  | nil =>
    rw [if_neg (not_lt_length_of_nil h)]
    rfl
  | cons b rest =>
    rw [if_pos (lt_length_of_cons h), read_of_drop h]
    rfl

lemma lt_length_of_any {test : UInt8 → Bool} {s : Bytes} {n : Nat} (h : (s.drop n).head?.any test = true) :
    n < s.length := by
  rw [← Nat.not_le]
  intro hle
  rw [List.drop_eq_nil_of_le hle] at h
  cases h

lemma ne_nil_of_any {test : UInt8 → Bool} {s : Bytes} (h : s.head?.any test = true) : s ≠ [] :=
  List.length_pos_iff.mp (lt_length_of_any (n := 0) h)

/-- The bytes before a limit are passed as far as the test holds. -/
lemma skip_of_drop (test : UInt8 → Bool) {limit : Nat} (h : (src.take limit).drop i = rest)
    (hlimit : limit ≤ src.length) : skip src test limit i = some (i + count test rest) := by
  have hlength : (src.take limit).length = limit := List.length_take_of_le hlimit
  induction rest generalizing i with
  | nil =>
    have hge := not_lt_length_of_nil h
    rw [hlength] at hge
    rw [skip, if_neg hge]
    rfl
  | cons b rest ih =>
    have hlt : i < limit := hlength ▸ lt_length_of_cons h
    have hread : src[i]? = some b := by rw [← read_of_drop h, List.getElem?_take_of_lt hlt]
    rw [skip, if_pos hlt, hread]
    by_cases hb : test b = true
    · simp [hb, ih (drop_succ h), count, Nat.add_assoc, Nat.add_comm 1]
    · simp [hb, count]

lemma skip_eq (test : UInt8 → Bool) (h : src.drop i = rest) :
    skip src test src.length i = some (i + count test rest) :=
  skip_of_drop test (by rwa [List.take_length]) (Nat.le_refl _)

/-- At most `n` bytes are passed when the limit is `n` bytes ahead. -/
lemma skip_near_eq (test : UInt8 → Bool) (n : Nat) (h : src.drop i = rest) :
    skip src test (min (i + n) src.length) i = some (i + count test (rest.take n)) := by
  refine skip_of_drop test ?_ (Nat.min_le_right _ _)
  rw [List.drop_take, h]
  have hlength : rest.length = src.length - i := by rw [← h, List.length_drop]
  rw [List.take_eq_take_iff]
  omega

lemma blankLine_eq (h : src.drop i = rest) : blankLine src i = some (restBlank rest) := by
  induction rest generalizing i with
  | nil =>
    rw [blankLine, if_neg (not_lt_length_of_nil h)]
    rfl
  | cons b rest ih =>
    rw [blankLine, if_pos (lt_length_of_cons h), read_of_drop h]
    by_cases heol : isEol b = true
    · simp [heol, restBlank]
    · by_cases hblank : isBlank b = true
      · simp [heol, hblank, ih (drop_succ h), restBlank]
      · simp [heol, hblank, restBlank]

lemma breakLine_add_eq (marker : UInt8) (n : Nat) (h : src.drop i = rest) :
    breakLine src marker n i =
      some ((rest.takeWhile (!isEol ·)).all (fun b => b == marker || isBlank b) &&
        3 ≤ n + (rest.takeWhile (!isEol ·)).count marker) := by
  induction rest generalizing i n with
  | nil =>
    rw [breakLine, if_neg (not_lt_length_of_nil h)]
    rfl
  | cons b rest ih =>
    rw [breakLine, if_pos (lt_length_of_cons h), read_of_drop h]
    by_cases heol : isEol b = true
    · simp [heol]
    · by_cases hmarker : b = marker
      · subst hmarker
        simp [heol, ih (n + 1) (drop_succ h), Nat.add_assoc, Nat.add_comm 1]
      · by_cases hblank : isBlank b = true
        · simp [heol, hmarker, hblank, ih n (drop_succ h)]
        · simp [heol, hmarker, hblank]

lemma breakLine_eq (marker : UInt8) (h : src.drop i = rest) :
    breakLine src marker 0 i = some (isBreakLine marker rest) := by
  rw [breakLine_add_eq marker 0 h, Nat.zero_add]
  rfl

end InPlace
end LosslessTree.Markdown
