import LosslessTree.Cursor.View
import LosslessTree.Language.Calc.Lexer
import LosslessTree.Number.FloatText
import LosslessTree.Text.Quoted

/-! Evaluating arithmetic expressions. The numbers are left open: an arithmetic reads literals and
computes, and the evaluator only follows the tree. -/
namespace LosslessTree.Calc

inductive EvalError where
  | notOneExpression (count : Nat)
  | missingOperand
  | badNode (kind : Kind) (range : TextRange)
  | badToken (kind : Kind) (range : TextRange)
  | badNumber (text : Bytes) (cause : FloatText.ReadError)
  | unbound (name : Bytes)
  | missingOperator (range : TextRange)
  | divisionByZero (operator : TextRange)
  deriving DecidableEq, Repr

def EvalError.reason : EvalError → Bytes
  | .notOneExpression count => "expected one expression, found " ++ Bytes.ofNat count
  | .missingOperand => "missing operand"
  | .badNode k r => kindNames.name k ++ " at " ++ r.render
  | .badToken k r => "unexpected " ++ kindNames.name k ++ " at " ++ r.render
  | .badNumber text cause =>
    "strconv.ParseFloat: parsing " ++ Quoted.encode text ++ ": " ++
      (match cause with
        | .malformed => "invalid syntax"
        | .tooLarge => "value out of range")
  | .unbound name => "unbound identifier " ++ Quoted.encode name
  | .missingOperator r => "missing operator at " ++ r.render
  | .divisionByZero r => "division by zero at " ++ r.render

def EvalError.message (e : EvalError) : Bytes := "invalid expression: " ++ e.reason

structure Arithmetic (α : Type) where
  read : Bytes → Except FloatText.ReadError α
  add : α → α → α
  sub : α → α → α
  mul : α → α → α
  div : α → α → α
  neg : α → α
  isZero : α → Bool

/-- Double precision. -/
def Arithmetic.double : Arithmetic Float where
  read text := (FloatText.read text).map Float.ofBits
  add := (· + ·)
  sub := (· - ·)
  mul := (· * ·)
  div := (· / ·)
  neg := (- ·)
  isZero := (· == 0)

/-- A child of a node together with what it evaluates to. -/
structure Item (α : Type) where
  kind : Kind
  isToken : Bool
  range : TextRange
  value : Except EvalError α

namespace Item

variable {α : Type}

def symbol? (i : Item α) : Option Symbol := Symbol.ofKind? i.kind
def isOperand (i : Item α) : Bool := i.symbol?.any Symbol.isOperand
def isOperator (i : Item α) : Bool := i.isToken && i.symbol?.any Symbol.isOperator

end Item

section
variable {α : Type} (arith : Arithmetic α) (vars : Bytes → Option α)

def evalToken (kind : Kind) (text : Bytes) (offset : Nat) : Except EvalError α :=
  match Symbol.ofKind? kind with
  | some .number =>
    match arith.read text with
    | .ok value => .ok value
    | .error cause => .error (.badNumber text cause)
  | some .ident =>
    match vars text with
    | some value => .ok value
    | none => .error (.unbound text)
  | _ => .error (.badToken kind (.ofOffset offset text.length))

/-- The value of an optional operand. -/
def operandValue (i : Option (Item α)) : Except EvalError α :=
  match i with
  | some i => i.value
  | none => .error .missingOperand

/-- Combines the first two operands by the first operator token. -/
def evalBinary (range : TextRange) (items : List (Item α)) : Except EvalError α :=
  match items.find? Item.isOperator with
  | none => .error (.missingOperator range)
  | some operator =>
    let operands := items.filter Item.isOperand
    match operandValue operands[0]? with
    | .error e => .error e
    | .ok left =>
      match operandValue operands[1]? with
      | .error e => .error e
      | .ok right =>
        match operator.symbol? with
        | some .plus => .ok (arith.add left right)
        | some .minus => .ok (arith.sub left right)
        | some .star => .ok (arith.mul left right)
        | _ =>
          if arith.isZero right then .error (.divisionByZero operator.range)
          else .ok (arith.div left right)

/-- The value of the last operand under a sign or parentheses, unless a child is an ERROR. -/
def evalWrapped (isSigned : Bool) (items : List (Item α)) : Except EvalError α :=
  match items.find? fun i => i.symbol? == some .error with
  | some i => .error (.badNode i.kind i.range)
  | none =>
    match operandValue (items.filter Item.isOperand).getLast? with
    | .error e => .error e
    | .ok value =>
      if isSigned && items.any fun i => i.symbol? == some .minus then .ok (arith.neg value)
      else .ok value

mutual
/-- The value of a subtree that starts at `offset`. -/
def evalTree (offset : Nat) : Tree → Except EvalError α
  | .token k text => evalToken arith vars k text offset
  | .node k cs =>
    let range := TextRange.ofOffset offset (Tree.lengthAll cs)
    match Symbol.ofKind? k with
    | some .binary => evalBinary arith range (evalItems offset cs)
    | some .signed => evalWrapped arith true (evalItems offset cs)
    | some .parens => evalWrapped arith false (evalItems offset cs)
    | _ => .error (.badNode k range)
def evalItems (offset : Nat) : List Tree → List (Item α)
  | [] => []
  | c :: cs =>
    ⟨c.kind, c.isToken, .ofOffset offset c.length, evalTree offset c⟩ ::
      evalItems (offset + c.length) cs
end

/-- The value of the one expression below the root. -/
def eval (root : Tree) : Except EvalError α :=
  match (evalItems arith vars 0 root.children).filter fun i => i.symbol? != some .whitespace with
  | [i] => i.value
  | items => .error (.notOneExpression items.length)

end

/-- A BIN_EXPR and its parts; any of them may be missing. -/
structure BinaryView where
  place : Cursor
  operator : Option Cursor
  left : Option Cursor
  right : Option Cursor

def binaryView (c : Cursor) : BinaryView :=
  let operands := c.children.filter fun d => (Symbol.ofKind? d.kind).any Symbol.isOperand
  { place := c
    operator := c.children.find? fun d => d.isToken && (Symbol.ofKind? d.kind).any Symbol.isOperator
    left := operands[0]?
    right := operands[1]? }

/-- The binary expressions below a place, outermost first. -/
def binaries (c : Cursor) : List BinaryView :=
  (c.descendantsOf Symbol.binary.kind).map binaryView

end LosslessTree.Calc
