import LosslessTree.Language.Calc.Lexer
import LosslessTree.Language.Feed

/-! Parsing arithmetic expressions by binding power. Text that fits no expression ends up in ERROR
nodes and a missing operand becomes an empty one, so every text has a tree. -/
namespace LosslessTree.Calc

abbrev Parser := Feed Symbol

/-- How tightly a binary operator binds to its left and to its right. -/
def bindingPower? : Symbol → Option (Nat × Nat)
  | .plus | .minus => some (1, 2)
  | .star | .slash => some (3, 4)
  | _ => none

/-- Signs bind tighter than every binary operator. -/
def signPower : Nat := 5

def startsOperand : Symbol → Bool
  | .number | .ident | .leftParen | .plus | .minus => true
  | _ => false

/-- Marks a gap with an empty ERROR node. -/
def missing (p : Parser) : Parser := (p.start .error).finish

/-- Puts the next token into an ERROR node. -/
def errorBump (p : Parser) : Parser := (p.eatTrivia.start .error).bump.finish

def expect (s : Symbol) (p : Parser) : Parser := if p.peek = some s then p.bump else missing p

theorem left_missing (p : Parser) : (missing p).left = p.left := rfl

theorem left_errorBump_le (p : Parser) : (errorBump p).left ≤ p.left - 1 := by
  have h : (p.eatTrivia.start .error).bump.left ≤ p.eatTrivia.left - 1 := Feed.left_bump_le _
  have := Feed.left_eatTrivia_le p
  change (p.eatTrivia.start .error).bump.left ≤ _
  omega

theorem left_expect_le (s : Symbol) (p : Parser) : (expect s p).left ≤ p.left := by
  unfold expect
  split
  · have := Feed.left_bump_le p
    omega
  · exact Nat.le_refl p.left

theorem left_bump_start_lt {p : Parser} (s : Symbol) (hp : 0 < p.left) :
    (p.start s).bump.left < p.left :=
  Nat.lt_of_le_of_lt (Feed.left_bump_le (p.start s)) (Nat.sub_one_lt_of_lt hp)

/-- A parser with no more left than `p` has. -/
abbrev Onward (p : Parser) := { q : Parser // q.left ≤ p.left }

mutual
/-- An expression whose operators bind at least as tightly as `power`. -/
def expression (power : Nat) (p : Parser) : Onward p :=
  let q := p.eatTrivia
  have hq : q.left ≤ p.left := Feed.left_eatTrivia_le p
  let r := operand q
  have hr : r.val.2.left ≤ p.left := Nat.le_trans r.property.1 hq
  if r.val.1 then
    let t := operations power q.builder.checkpoint r.val.2
    ⟨t.val, Nat.le_trans t.property hr⟩
  else ⟨r.val.2, hr⟩
termination_by (p.left, 1)
decreasing_by
  · exact Prod.Lex.right' _ hq Nat.zero_lt_one
  · exact Prod.Lex.right' _ hr Nat.zero_lt_one
/-- An operand, and whether there was one: a gap before a closing parenthesis or the end is only
marked. -/
def operand (p : Parser) :
    { r : Bool × Parser // r.2.left ≤ p.left ∧ (r.1 = true → r.2.left < p.left) } :=
  match h : p.peek with
  | none => ⟨(false, missing p), by simp [left_missing]⟩
  | some s =>
    have hp : 0 < p.left := Feed.left_pos_of_peek h
    match s with
    | .number | .ident =>
      have hb : p.bump.left < p.left := by have := Feed.left_bump_le p; omega
      ⟨(true, p.bump), Nat.le_of_lt hb, fun _ => hb⟩
    | .leftParen =>
      have hb : (p.start .parens).bump.left < p.left := left_bump_start_lt _ hp
      let q := expression 0 (p.start .parens).bump
      have hq : (expect .rightParen q.val).finish.left < p.left :=
        Nat.lt_of_le_of_lt (Nat.le_trans (left_expect_le _ q.val) q.property) hb
      ⟨(true, (expect .rightParen q.val).finish), Nat.le_of_lt hq, fun _ => hq⟩
    | .plus | .minus =>
      have hb : (p.start .signed).bump.left < p.left := left_bump_start_lt _ hp
      let q := expression signPower (p.start .signed).bump
      have hq : q.val.finish.left < p.left := Nat.lt_of_le_of_lt q.property hb
      ⟨(true, q.val.finish), Nat.le_of_lt hq, fun _ => hq⟩
    | .rightParen => ⟨(false, missing p), by simp [left_missing]⟩
    | _ =>
      have hb : (errorBump p).left < p.left := by have := left_errorBump_le p; omega
      ⟨(true, errorBump p), Nat.le_of_lt hb, fun _ => hb⟩
termination_by (p.left, 0)
decreasing_by all_goals exact Prod.Lex.left _ _ hb
/-- Wraps what was parsed since `before` into a BIN_EXPR as long as an operator follows. -/
def operations (power : Nat) (before : Checkpoint) (p : Parser) : Onward p :=
  match h : p.peek.bind bindingPower? with
  | none => ⟨p, Nat.le_refl _⟩
  | some (left, right) =>
    if left < power then ⟨p, Nat.le_refl _⟩
    else
      have hp : 0 < p.left := by
        obtain ⟨s, hs, _⟩ := Option.bind_eq_some_iff.1 h
        exact Feed.left_pos_of_peek hs
      have hb : (p.startAt before .binary).bump.left < p.left :=
        Nat.lt_of_le_of_lt (Feed.left_bump_le _) (Nat.sub_one_lt_of_lt hp)
      let q := expression right (p.startAt before .binary).bump
      have hq : q.val.finish.left < p.left := Nat.lt_of_le_of_lt q.property hb
      let r := operations power before q.val.finish
      ⟨r.val, Nat.le_trans r.property (Nat.le_of_lt hq)⟩
termination_by (p.left, 0)
decreasing_by
  · exact Prod.Lex.left _ _ hb
  · exact Prod.Lex.left _ _ hq
end

theorem expression_val (power : Nat) (p : Parser) : (expression power p).val =
    if (operand p.eatTrivia).val.1 then
      (operations power p.eatTrivia.builder.checkpoint (operand p.eatTrivia).val.2).val
    else (operand p.eatTrivia).val.2 := by
  rw [expression]
  split <;> rfl

theorem operand_val (p : Parser) : (operand p).val =
    match p.peek with
    | some .number | some .ident => (true, p.bump)
    | some .leftParen =>
      (true, (expect .rightParen (expression 0 (p.start .parens).bump).val).finish)
    | some .plus | some .minus => (true, (expression signPower (p.start .signed).bump).val.finish)
    | some .rightParen | none => (false, missing p)
    | some _ => (true, errorBump p) := by
  rw [operand]
  split
  · next h => rw [h]
  · next s h => cases s <;> simp only [h]

theorem operations_val (power : Nat) (before : Checkpoint) (p : Parser) :
    (operations power before p).val =
      match p.peek.bind bindingPower? with
      | none => p
      | some (left, right) =>
        if left < power then p
        else (operations power before
          (expression right (p.startAt before .binary).bump).val.finish).val := by
  rw [operations]
  split
  · next h => simp only [h]
  · next left right h =>
    simp only [h]
    split <;> rfl

/-- An expression that starts with an operand takes at least that. -/
theorem left_expression_lt {power : Nat} {p : Parser} {s : Symbol} (h : p.peek = some s)
    (hs : startsOperand s) : (expression power p).val.left < p.left := by
  have hp := Feed.left_pos_of_peek h
  have hq := Feed.left_eatTrivia_le p
  have hr := (operand p.eatTrivia).property
  have ht := (operations power p.eatTrivia.builder.checkpoint (operand p.eatTrivia).val.2).property
  have hv := expression_val power p
  cases hc : p.eatTrivia.cancelled with
  | true =>
    have : p.eatTrivia.left = 0 := by simp [Feed.left, hc]
    rw [hv]
    split <;> omega
  | false =>
    have hf : (operand p.eatTrivia).val.1 = true := by
      rw [operand_val, Feed.peek_eatTrivia hc, h]
      cases s <;> simp_all [startsOperand]
    have := hr.2 hf
    rw [hv, if_pos hf]
    omega

/-- What stands next in the root: an expression, or a token that starts none. -/
def item (s : Symbol) (p : Parser) : Parser :=
  if startsOperand s then (expression 0 p).val else errorBump p

theorem left_item_lt {p : Parser} {s : Symbol} (h : p.peek = some s) : (item s p).left < p.left := by
  unfold item
  split
  · next hs => exact left_expression_lt h hs
  · have := Feed.left_pos_of_peek h
    have := left_errorBump_le p
    omega

/-- Expressions up to the end of the text. -/
def expressions (p : Parser) : Parser :=
  match _h : p.eatTrivia.peek with
  | none => p.eatTrivia
  | some s => expressions (item s p.eatTrivia)
termination_by p.left
decreasing_by exact Nat.lt_of_lt_of_le (left_item_lt _h) (Feed.left_eatTrivia_le p)

def parse (src : Bytes) (cache : Cache) (cancellation : Cancellation) : Parsed :=
  let lexemes := lex src
  let p : Parser := { rest := lexemes, builder := { cache := cache }, cancellation := cancellation }
  (expressions (p.start .root)).outcome "calc"

end LosslessTree.Calc
