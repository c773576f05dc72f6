import LosslessTree.Language.Calc.Evaluation
import LosslessTree.Proofs.Calc.Grammar

/-! Expressions and their values. An expression is formed from lexemes by the rules of `Expresses`, and
has a value by recursion on it, exactly if everything in it is defined. Trees come in between: a tree
is derived from the lexemes of the expression that it denotes, and from no others. -/
namespace LosslessTree.Calc
open Lexeme

inductive Operator where
  | plus | minus | times | dividedBy

namespace Operator

def symbol : Operator → Symbol
  | plus => .plus
  | minus => .minus
  | times => .star
  | dividedBy => .slash

/-- What an operator makes, and what it takes on its left. -/
def level : Operator → Nonterminal
  | plus | minus => .sum
  | times | dividedBy => .product

/-- What an operator takes on its right. -/
def rightLevel : Operator → Nonterminal
  | plus | minus => .product
  | times | dividedBy => .factor

/-- Only a division can fail. -/
def combine? {α : Type} (arith : Arithmetic α) : Operator → α → α → Option α
  | plus, x, y => some (arith.add x y)
  | minus, x, y => some (arith.sub x y)
  | times, x, y => some (arith.mul x y)
  | dividedBy, x, y => if arith.isZero y then none else some (arith.div x y)

lemma symbol_kind_injective {o o' : Operator} (h : o.symbol.kind = o'.symbol.kind) : o = o' := by
  cases o <;> cases o' <;> first | rfl | cases h

end Operator

inductive Expr where
  | number (text : Bytes)
  | name (name : Bytes)
  | positive (e : Expr)
  | negative (e : Expr)
  | binary (op : Operator) (left right : Expr)

namespace Expr

def numbers : Expr → List Bytes
  | number text => [text]
  | name _ => []
  | positive e | negative e => e.numbers
  | binary _ l r => l.numbers ++ r.numbers

def names : Expr → List Bytes
  | number _ => []
  | name n => [n]
  | positive e | negative e => e.names
  | binary _ l r => l.names ++ r.names

/-- All that something is divided by. -/
def divisors : Expr → List Expr
  | number _ | name _ => []
  | positive e | negative e => e.divisors
  | binary .dividedBy l r => r :: (l.divisors ++ r.divisors)
  | binary _ l r => l.divisors ++ r.divisors

section
variable {α : Type} (arith : Arithmetic α) (vars : Bytes → Option α)

def value? : Expr → Option α
  | number text => (arith.read text).toOption
  | name n => vars n
  | positive e => e.value?
  | negative e => e.value?.map arith.neg
  | binary op l r => l.value?.bind fun x => r.value?.bind fun y => op.combine? arith x y

/-- Numbers can be read, names are bound, and no divisor is zero. -/
structure Defined (e : Expr) : Prop where
  numbers : ∀ text ∈ e.numbers, ∃ v, arith.read text = .ok v
  names : ∀ n ∈ e.names, ∃ v, vars n = some v
  divisors : ∀ d ∈ e.divisors, ∀ v, d.value? arith vars = some v → arith.isZero v = false

lemma defined_binary_iff (op : Operator) (l r : Expr) :
    (binary op l r).Defined arith vars ↔ l.Defined arith vars ∧ r.Defined arith vars ∧
      (op = .dividedBy → ∀ v, r.value? arith vars = some v → arith.isZero v = false) := by
  constructor
  · rintro ⟨hnumbers, hnames, hdivisors⟩
    have hsub : l.divisors ++ r.divisors ⊆ (binary op l r).divisors := by cases op <;> simp [divisors]
    simp only [numbers, names, List.forall_mem_append] at hnumbers hnames
    refine ⟨⟨hnumbers.1, hnames.1, fun d hd => ?_⟩, ⟨hnumbers.2, hnames.2, fun d hd => ?_⟩, ?_⟩
    · exact hdivisors d (hsub (List.mem_append_left _ hd))
    · exact hdivisors d (hsub (List.mem_append_right _ hd))
    · rintro rfl
      exact hdivisors r (by simp [divisors])
  · rintro ⟨hl, hr, hdivided⟩
    refine ⟨List.forall_mem_append.mpr ⟨hl.numbers, hr.numbers⟩,
      List.forall_mem_append.mpr ⟨hl.names, hr.names⟩, ?_⟩
    have hboth := List.forall_mem_append.mpr ⟨hl.divisors, hr.divisors⟩
    cases op with
    | dividedBy => exact List.forall_mem_cons.mpr ⟨hdivided rfl, hboth⟩
    | _ => exact hboth

/-- An expression has a value exactly if everything in it is defined. -/
theorem exists_value?_iff (e : Expr) : (∃ v, e.value? arith vars = some v) ↔ e.Defined arith vars := by
  induction e with
  | number text =>
    have hread : (∃ v, (arith.read text).toOption = some v) ↔ ∃ v, arith.read text = .ok v := by
      cases arith.read text <;> simp [Except.toOption]
    exact hread.trans ⟨fun h => ⟨by simpa [numbers] using h, by simp [names], by simp [divisors]⟩,
      fun h => h.numbers text (by simp [numbers])⟩
  | name n =>
    exact ⟨fun h => ⟨by simp [numbers], by simpa [names, value?] using h, by simp [divisors]⟩,
      fun h => h.names n (by simp [names])⟩
  | positive e ih => exact ih.trans ⟨fun h => ⟨h.1, h.2, h.3⟩, fun h => ⟨h.1, h.2, h.3⟩⟩
  | negative e ih =>
    have hneg : (∃ v, (negative e).value? arith vars = some v) ↔ ∃ v, e.value? arith vars = some v := by
      simp [value?]
    exact hneg.trans (ih.trans ⟨fun h => ⟨h.1, h.2, h.3⟩, fun h => ⟨h.1, h.2, h.3⟩⟩)
  | binary op l r ihl ihr =>
    rw [defined_binary_iff, ← ihl, ← ihr]
    constructor
    · rintro ⟨v, hv⟩
      simp only [value?, Option.bind_eq_some_iff] at hv
      obtain ⟨x, hx, y, hy, hxy⟩ := hv
      refine ⟨⟨x, hx⟩, ⟨y, hy⟩, ?_⟩
      rintro rfl v hv
      rw [hy] at hv
      cases hv
      by_contra hzero
      simp [Operator.combine?, hzero] at hxy
    · rintro ⟨⟨x, hx⟩, ⟨y, hy⟩, hdivided⟩
      cases op with
      | dividedBy => exact ⟨arith.div x y, by simp [value?, hx, hy, Operator.combine?, hdivided rfl y hy]⟩
      | _ => exact ⟨_, by simp only [value?, hx, hy, Option.bind_some]; rfl⟩

end
end Expr

/-- The lexemes that form an expression. Operators group to the left: what an operator takes on its
right binds tighter than what it makes. Signs bind tightest. -/
inductive Expresses : Nonterminal → List (Lexeme Symbol) → Expr → Prop
  | number {l} (number : l.symbol = .number) : Expresses .factor [l] (.number l.text)
  | name {l} (ident : l.symbol = .ident) : Expresses .factor [l] (.name l.text)
  | parens {l ls e r} (left : l.symbol = .leftParen) (inner : Expresses .sum ls e)
      (right : r.symbol = .rightParen) : Expresses .factor (l :: ls ++ [r]) e
  | positive {l ls e} (plus : l.symbol = .plus) (inner : Expresses .factor ls e) :
      Expresses .factor (l :: ls) (.positive e)
  | negative {l ls e} (minus : l.symbol = .minus) (inner : Expresses .factor ls e) :
      Expresses .factor (l :: ls) (.negative e)
  | factor {ls e} (factor : Expresses .factor ls e) : Expresses .product ls e
  | product {ls e} (product : Expresses .product ls e) : Expresses .sum ls e
  | binary {ls e l rs f} (op : Operator) (left : Expresses op.level ls e) (operator : l.symbol = op.symbol)
      (right : Expresses op.rightLevel rs f) : Expresses op.level (ls ++ l :: rs) (.binary op e f)

/-- The expression that a tree without white space stands for. -/
inductive Denotes : Tree → Expr → Prop
  | number {s} : Denotes (.token Symbol.number.kind s) (.number s)
  | name {s} : Denotes (.token Symbol.ident.kind s) (.name s)
  | parens {s t s' e} (inner : Denotes t e) :
      Denotes (.node Symbol.parens.kind
        [.token Symbol.leftParen.kind s, t, .token Symbol.rightParen.kind s']) e
  | positive {s t e} (inner : Denotes t e) :
      Denotes (.node Symbol.signed.kind [.token Symbol.plus.kind s, t]) (.positive e)
  | negative {s t e} (inner : Denotes t e) :
      Denotes (.node Symbol.signed.kind [.token Symbol.minus.kind s, t]) (.negative e)
  | binary {t s u e f} (op : Operator) (left : Denotes t e) (right : Denotes u f) :
      Denotes (.node Symbol.binary.kind [t, .token op.symbol.kind s, u]) (.binary op e f)

section Denotation
variable {n : Nonterminal} {xs : List (Lexeme Symbol)} {t : Tree} {e f : Expr}

lemma tree_eq {l : Lexeme Symbol} {s : Symbol} (h : l.symbol = s) : .token s.kind l.text = l.tree := by
  rw [← h]
  rfl

lemma Denotes.unique (he : Denotes t e) (hf : Denotes t f) : e = f := by
  induction he generalizing f with
  | number => cases hf with | number => rfl
  | name => cases hf with | name => rfl
  | parens inner ih => cases hf with | parens inner' => exact ih inner'
  | positive inner ih => cases hf with | positive inner' => rw [ih inner']
  | negative inner ih => cases hf with | negative inner' => rw [ih inner']
  | @binary t s u e e' op left right ihl ihr =>
    -- the two shapes can only be compared once the kind of the token is a variable
    generalize hk : op.symbol.kind = k at hf
    cases hf with
    | @binary _ _ _ f f' op' left' right' =>
      rw [Operator.symbol_kind_injective hk, ihl left', ihr right']

/-- What is derived with a tree forms the expression that the tree denotes. -/
lemma Derives.expresses (h : Derives n xs t) : ∃ e, Denotes t e ∧ Expresses n xs e := by
  induction h with
  | @atom l atom =>
    rcases atom with h | h
    · exact ⟨.number l.text, tree_eq h ▸ .number, .number h⟩
    · exact ⟨.name l.text, tree_eq h ▸ .name, .name h⟩
  | @parens l ls t r left inner right ih =>
    obtain ⟨e, he, hls⟩ := ih
    exact ⟨e, tree_eq left ▸ tree_eq right ▸ .parens he, .parens left hls right⟩
  | @signed l ls t sign inner ih =>
    obtain ⟨e, he, hls⟩ := ih
    rcases sign with h | h
    · exact ⟨.positive e, tree_eq h ▸ .positive he, .positive h hls⟩
    · exact ⟨.negative e, tree_eq h ▸ .negative he, .negative h hls⟩
  | factor factor ih =>
    obtain ⟨e, he, hls⟩ := ih
    exact ⟨e, he, .factor hls⟩
  | product product ih =>
    obtain ⟨e, he, hls⟩ := ih
    exact ⟨e, he, .product hls⟩
  | multiply left times right ihl ihr =>
    obtain ⟨e, he, hls⟩ := ihl
    obtain ⟨f, hf, hrs⟩ := ihr
    rcases times with h | h
    · exact ⟨_, tree_eq h ▸ .binary .times he hf, .binary .times hls h hrs⟩
    · exact ⟨_, tree_eq h ▸ .binary .dividedBy he hf, .binary .dividedBy hls h hrs⟩
  | add left plus right ihl ihr =>
    obtain ⟨e, he, hls⟩ := ihl
    obtain ⟨f, hf, hrs⟩ := ihr
    rcases plus with h | h
    · exact ⟨_, tree_eq h ▸ .binary .plus he hf, .binary .plus hls h hrs⟩
    · exact ⟨_, tree_eq h ▸ .binary .minus he hf, .binary .minus hls h hrs⟩

/-- What forms an expression is derived with a tree that denotes it. -/
lemma Expresses.derives (h : Expresses n xs e) : ∃ t, Derives n xs t ∧ Denotes t e := by
  induction h with
  | number h => exact ⟨_, .atom (.inl h), tree_eq h ▸ .number⟩
  | name h => exact ⟨_, .atom (.inr h), tree_eq h ▸ .name⟩
  | parens left inner right ih =>
    obtain ⟨t, ht, he⟩ := ih
    exact ⟨_, .parens left ht right, tree_eq left ▸ tree_eq right ▸ .parens he⟩
  | positive plus inner ih =>
    obtain ⟨t, ht, he⟩ := ih
    exact ⟨_, .signed (.inl plus) ht, tree_eq plus ▸ .positive he⟩
  | negative minus inner ih =>
    obtain ⟨t, ht, he⟩ := ih
    exact ⟨_, .signed (.inr minus) ht, tree_eq minus ▸ .negative he⟩
  | factor factor ih =>
    obtain ⟨t, ht, he⟩ := ih
    exact ⟨t, .factor ht, he⟩
  | product product ih =>
    obtain ⟨t, ht, he⟩ := ih
    exact ⟨t, .product ht, he⟩
  | @binary ls e l rs f op left operator right ihl ihr =>
    obtain ⟨t, ht, he⟩ := ihl
    obtain ⟨u, hu, hf⟩ := ihr
    refine ⟨.node Symbol.binary.kind [t, l.tree, u], ?_, tree_eq operator ▸ .binary op he hf⟩
    cases op with
    | plus => exact .add ht (.inl operator) hu
    | minus => exact .add ht (.inr operator) hu
    | times => exact .multiply ht (.inl operator) hu
    | dividedBy => exact .multiply ht (.inr operator) hu

end Denotation

end LosslessTree.Calc
