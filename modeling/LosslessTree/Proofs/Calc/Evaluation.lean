import LosslessTree.Proofs.Calc.Expression

/-! Evaluating a text gives what its expression means. The evaluator follows the kinds of the children
of a node, so it does not see white space, and on a tree that denotes an expression it computes the value
of that. Whatever else the parser makes of a text, an ERROR in it leaves it without a value. -/
namespace LosslessTree.Calc
open Lexeme

/-- What the value of a node depends on in a child. -/
structure Part (α : Type) where
  symbol? : Option Symbol
  isToken : Bool
  value? : Option α

namespace Part
variable {α : Type}

def isOperand (p : Part α) : Bool := p.symbol?.any Symbol.isOperand
def isOperator (p : Part α) : Bool := p.isToken && p.symbol?.any Symbol.isOperator
def isVisible (p : Part α) : Bool := p.symbol? != some .whitespace

variable {p : Part α}

lemma isOperand_of_symbol {s : Symbol} (h : (p.symbol? == some s) = true) : p.isOperand = s.isOperand := by
  rw [isOperand, eq_of_beq h]
  rfl

lemma isOperator_of_isOperand (h : p.isOperand = true) : p.isOperator = false := by
  obtain ⟨_ | s, b, v⟩ := p
  · cases h
  · cases s <;> simp_all [isOperand, Symbol.isOperand, isOperator, Symbol.isOperator]

lemma isVisible_of_isOperand (h : p.isOperand = true) : p.isVisible = true := by
  obtain ⟨_ | s, b, v⟩ := p
  · rfl
  · cases s <;> simp_all [isOperand, Symbol.isOperand, isVisible]

lemma isVisible_of_isOperator (h : p.isOperator = true) : p.isVisible = true := by
  obtain ⟨_ | s, b, v⟩ := p
  · rfl
  · cases s <;> simp_all [isOperator, Symbol.isOperator, isVisible]

lemma filter_isOperand_isVisible (ps : List (Part α)) :
    (ps.filter isVisible).filter isOperand = ps.filter isOperand := by
  rw [List.filter_filter]
  refine List.filter_congr fun p _ => ?_
  cases h : p.isOperand <;> simp [isVisible_of_isOperand, h]

lemma find?_isOperator_isVisible (ps : List (Part α)) :
    (ps.filter isVisible).find? isOperator = ps.find? isOperator := by
  rw [List.find?_filter]
  congr
  funext p
  cases h : p.isOperator <;> simp [isVisible_of_isOperator, h]

lemma any_symbol_isVisible {s : Symbol} (hs : s ≠ .whitespace) (ps : List (Part α)) :
    ((ps.filter isVisible).any fun p => p.symbol? == some s) = ps.any fun p => p.symbol? == some s := by
  rw [List.any_filter]
  congr
  funext p
  cases h : p.symbol? == some s <;> simp_all [isVisible]

end Part

def Item.part {α : Type} (i : Item α) : Part α := ⟨i.symbol?, i.isToken, i.value.toOption⟩

def isOperand (t : Tree) : Bool := (Symbol.ofKind? t.kind).any Symbol.isOperand

/-- Every sign but the first three divides. -/
def Operator.ofSymbol : Option Symbol → Operator
  | some .plus => .plus
  | some .minus => .minus
  | some .star => .times
  | _ => .dividedBy

section
variable {α : Type} (arith : Arithmetic α) (vars : Bytes → Option α)

/-- The value of a tree, wherever it stands. -/
def valueOf (t : Tree) : Option α := (evalTree arith vars 0 t).toOption

def part (t : Tree) : Part α := ⟨Symbol.ofKind? t.kind, t.isToken, valueOf arith vars t⟩

/-- The parts that a node takes notice of. -/
def visibleParts (ts : List Tree) : List (Part α) := (ts.map (part arith vars)).filter Part.isVisible

/-- The first two operands, combined by the first operator. -/
def binaryValue (ps : List (Part α)) : Option α :=
  (ps.find? Part.isOperator).bind fun o =>
    ((ps.filter Part.isOperand)[0]?.bind Part.value?).bind fun x =>
      ((ps.filter Part.isOperand)[1]?.bind Part.value?).bind fun y =>
        (Operator.ofSymbol o.symbol?).combine? arith x y

/-- The last operand, with the sign changed by a minus. -/
def wrappedValue (isSigned : Bool) (ps : List (Part α)) : Option α :=
  if ps.any fun p => p.symbol? == some .error then none
  else ((ps.filter Part.isOperand).getLast?.bind Part.value?).map fun v =>
    if isSigned && ps.any fun p => p.symbol? == some .minus then arith.neg v else v

/-- The value of a node with this symbol. -/
def nodeValue : Option Symbol → List (Part α) → Option α
  | some .binary, ps => binaryValue arith ps
  | some .signed, ps => wrappedValue arith true ps
  | some .parens, ps => wrappedValue arith false ps
  | _, _ => none

end

section Evaluator
variable {α : Type} {arith : Arithmetic α} {vars : Bytes → Option α}

lemma toOption_operandValue (i : Option (Item α)) :
    (operandValue i).toOption = (i.map Item.part).bind Part.value? := by
  cases i <;> rfl

lemma filter_map_part (items : List (Item α)) :
    (items.map Item.part).filter Part.isOperand = (items.filter Item.isOperand).map Item.part :=
  List.filter_map

lemma toOption_evalBinary (range : TextRange) (items : List (Item α)) :
    (evalBinary arith range items).toOption = binaryValue arith (items.map Item.part) := by
  have hoperator : (items.map Item.part).find? Part.isOperator =
      (items.find? Item.isOperator).map Item.part := List.find?_map
  simp only [evalBinary, binaryValue, hoperator, filter_map_part, List.getElem?_map,
    ← toOption_operandValue]
  cases items.find? Item.isOperator with
  | none => rfl
  | some o =>
    cases operandValue (items.filter Item.isOperand)[0]? with
    | error e => rfl
    | ok x =>
      cases operandValue (items.filter Item.isOperand)[1]? with
      | error e => rfl
      | ok y =>
        change Except.toOption _ = (Operator.ofSymbol o.symbol?).combine? arith x y
        dsimp only
        split
        · next h => rw [h]; rfl
        · next h => rw [h]; rfl
        · next h => rw [h]; rfl
        · have hdivided : Operator.ofSymbol o.symbol? = .dividedBy := by
            unfold Operator.ofSymbol
            split <;> first | contradiction | rfl
          rw [hdivided, Operator.combine?]
          split <;> rfl

lemma toOption_evalWrapped (isSigned : Bool) (items : List (Item α)) :
    (evalWrapped arith isSigned items).toOption = wrappedValue arith isSigned (items.map Item.part) := by
  have hany : ∀ s, ((items.map Item.part).any fun p => p.symbol? == some s) =
      items.any fun i => i.symbol? == some s := fun s => List.any_map
  simp only [evalWrapped, wrappedValue, hany, filter_map_part, List.getLast?_map, ← toOption_operandValue]
  have herror : (items.any fun i => i.symbol? == some .error) =
      (items.find? fun i => i.symbol? == some .error).isSome := by
    rw [Bool.eq_iff_iff, List.any_eq_true, List.find?_isSome]
  rw [herror]
  cases items.find? fun i => i.symbol? == some .error with
  | some i => rfl
  | none =>
    cases operandValue (items.filter Item.isOperand).getLast? with
    | error e => rfl
    | ok v =>
      change Except.toOption (if _ then _ else _) = some (if _ then _ else _)
      split <;> rfl

lemma toOption_evalTree_node (offset : Nat) (k : Kind) (cs : List Tree) :
    (evalTree arith vars offset (.node k cs)).toOption =
      nodeValue arith (Symbol.ofKind? k) ((evalItems arith vars offset cs).map Item.part) := by
  rw [evalTree]
  rcases Symbol.ofKind? k with _ | s
  · rfl
  · cases s with
    | binary => exact toOption_evalBinary ..
    | signed => exact toOption_evalWrapped ..
    | parens => exact toOption_evalWrapped ..
    | _ => rfl

lemma map_part_evalItems {cs : List Tree}
    (h : ∀ c ∈ cs, ∀ offset, (evalTree arith vars offset c).toOption = valueOf arith vars c)
    (offset : Nat) :
    (evalItems arith vars offset cs).map Item.part = cs.map (part arith vars) := by
  induction cs generalizing offset with
  | nil => rfl
  | cons c cs ih =>
    obtain ⟨hc, hcs⟩ := List.forall_mem_cons.mp h
    rw [evalItems, List.map_cons, List.map_cons, ih hcs, Item.part, part, hc]
    rfl

/-- Where a tree stands decides how a failure is reported, and nothing else. -/
theorem toOption_evalTree (t : Tree) (offset : Nat) :
    (evalTree arith vars offset t).toOption = valueOf arith vars t := by
  induction t generalizing offset with
  | token k s =>
    rw [valueOf, evalTree, evalTree, evalToken, evalToken]
    split <;> rfl
  | node k cs ih =>
    rw [valueOf, toOption_evalTree_node, toOption_evalTree_node, map_part_evalItems ih,
      map_part_evalItems ih]

lemma valueOf_node (k : Kind) (cs : List Tree) :
    valueOf arith vars (.node k cs) = nodeValue arith (Symbol.ofKind? k) (cs.map (part arith vars)) := by
  rw [valueOf, toOption_evalTree_node,
    map_part_evalItems fun c _ => toOption_evalTree c]

/-- A root has the value of its only visible child. -/
lemma eval_eq_ok_iff_visibleParts (k : Kind) (ts : List Tree) (v : α) :
    eval arith vars (.node k ts) = .ok v ↔ ∃ p, visibleParts arith vars ts = [p] ∧ p.value? = some v := by
  have hparts : visibleParts arith vars ts =
      ((evalItems arith vars 0 ts).filter fun i => i.symbol? != some .whitespace).map Item.part := by
    rw [visibleParts, ← map_part_evalItems (fun c _ => toOption_evalTree c) 0, List.filter_map]
    rfl
  rw [hparts, eval, Tree.children]
  rcases (evalItems arith vars 0 ts).filter _ with _ | ⟨i, _ | ⟨j, items⟩⟩
  · simp
  · cases h : i.value <;> simp [Item.part, h, Except.toOption]
  · simp

end Evaluator

section WhiteSpace
variable {α : Type} {arith : Arithmetic α} {vars : Bytes → Option α}

/-- No node takes notice of white space among its children. -/
lemma nodeValue_filter_isVisible (s : Option Symbol) (ps : List (Part α)) :
    nodeValue arith s (ps.filter Part.isVisible) = nodeValue arith s ps := by
  have hwrapped : ∀ isSigned,
      wrappedValue arith isSigned (ps.filter Part.isVisible) = wrappedValue arith isSigned ps := by
    intro isSigned
    rw [wrappedValue, Part.filter_isOperand_isVisible, Part.any_symbol_isVisible (by decide),
      Part.any_symbol_isVisible (by decide)]
    rfl
  unfold nodeValue
  split
  · rw [binaryValue, Part.find?_isOperator_isVisible, Part.filter_isOperand_isVisible]
    rfl
  · exact hwrapped true
  · exact hwrapped false
  · rfl

lemma visibleParts_bare_of_forall {ts : List Tree}
    (h : ∀ t ∈ ts,
      visibleParts arith vars (t.prune (· == Symbol.whitespace.kind)) = visibleParts arith vars [t]) :
    visibleParts arith vars (bare ts) = visibleParts arith vars ts := by
  induction ts with
  | nil => rfl
  | cons t ts ih =>
    obtain ⟨ht, hts⟩ := List.forall_mem_cons.mp h
    have happend : ∀ us vs : List Tree, visibleParts arith vars (us ++ vs) =
        visibleParts arith vars us ++ visibleParts arith vars vs := by simp [visibleParts]
    rw [← List.singleton_append, bare_append, happend, happend, ih hts, ← ht]
    simp [bare]

/-- Without the white space in it a tree means the same to its parent. -/
lemma visibleParts_prune (t : Tree) :
    visibleParts arith vars (t.prune (· == Symbol.whitespace.kind)) = visibleParts arith vars [t] := by
  induction t with
  | token k s =>
    by_cases hk : k = Symbol.whitespace.kind
    · subst hk
      rfl
    · simp [hk]
  | node k cs ih =>
    -- the node itself stays, so it is its value that must not notice what went
    have hbare := visibleParts_bare_of_forall ih
    have hvalue : valueOf arith vars (.node k (bare cs)) = valueOf arith vars (.node k cs) := by
      rw [valueOf_node, valueOf_node, ← nodeValue_filter_isVisible,
        ← nodeValue_filter_isVisible _ (cs.map _)]
      exact congrArg _ hbare
    have hpart : part arith vars (.node k (bare cs)) = part arith vars (.node k cs) := by
      rw [part, hvalue]
      rfl
    rw [Tree.prune_node]
    exact congrArg (fun p => [p].filter Part.isVisible) hpart

/-- White space has no part in the value of a text. -/
lemma visibleParts_bare (ts : List Tree) : visibleParts arith vars (bare ts) = visibleParts arith vars ts :=
  visibleParts_bare_of_forall fun t _ => visibleParts_prune t

end WhiteSpace

section Values
variable {α : Type} {arith : Arithmetic α} {vars : Bytes → Option α} {t u : Tree} {s s' : Bytes} {e : Expr}

lemma Operator.ofSymbol_symbol (op : Operator) : ofSymbol (some op.symbol) = op := by
  cases op <;> rfl

lemma valueOf_token (k : Kind) (s : Bytes) :
    valueOf arith vars (.token k s) =
      match Symbol.ofKind? k with
      | some .number => (arith.read s).toOption
      | some .ident => vars s
      | _ => none := by
  rw [valueOf, evalTree, evalToken]
  rcases Symbol.ofKind? k with _ | symbol
  · rfl
  · cases symbol with
    | number => cases arith.read s <;> rfl
    | ident => cases vars s <;> rfl
    | _ => rfl

/-- An ERROR has no value. -/
lemma valueOf_of_error (h : Symbol.ofKind? t.kind = some .error) : valueOf arith vars t = none := by
  cases t with
  | token k s =>
    change Symbol.ofKind? k = _ at h
    rw [valueOf_token, h]
  | node k cs =>
    change Symbol.ofKind? k = _ at h
    rw [valueOf_node, h]
    rfl

/-- An operator between two operands has the value of the operation. -/
lemma valueOf_binary (op : Operator) (ht : isOperand t = true) (hu : isOperand u = true) :
    valueOf arith vars (.node Symbol.binary.kind [t, .token op.symbol.kind s, u]) =
      (valueOf arith vars t).bind fun x => (valueOf arith vars u).bind fun y => op.combine? arith x y := by
  have ht' : (part arith vars t).isOperand = true := ht
  have hu' : (part arith vars u).isOperand = true := hu
  let o := part arith vars (.token op.symbol.kind s)
  have hsymbol : o.symbol? = some op.symbol := by cases op <;> rfl
  have hoperator : o.isOperator = true := by cases op <;> rfl
  have hoperand : o.isOperand = false := by cases op <;> rfl
  rw [valueOf_node]
  change binaryValue arith [part arith vars t, o, part arith vars u] = _
  have hfind : [part arith vars t, o, part arith vars u].find? Part.isOperator = some o := by
    simp [Part.isOperator_of_isOperand ht', hoperator]
  have hfilter : [part arith vars t, o, part arith vars u].filter Part.isOperand =
      [part arith vars t, part arith vars u] := by simp [ht', hoperand, hu']
  rw [binaryValue, hfind, hfilter, Option.bind_some, hsymbol, Operator.ofSymbol_symbol]
  rfl

variable (arith vars) in
/-- What encloses an operand has no value of its own; a minus changes the sign. -/
lemma wrappedValue_operand (ht : isOperand t = true) (before after : List (Part α))
    (hrest : ∀ p ∈ before ++ after, p.isOperand = false) (isSigned : Bool) :
    wrappedValue arith isSigned (before ++ part arith vars t :: after) = (valueOf arith vars t).map fun v =>
      if isSigned && (before ++ after).any fun p => p.symbol? == some .minus then arith.neg v else v := by
  have ht' : (part arith vars t).isOperand = true := ht
  obtain ⟨hbefore, hafter⟩ := List.forall_mem_append.mp hrest
  have hfilter : (before ++ part arith vars t :: after).filter Part.isOperand = [part arith vars t] := by
    rw [List.filter_append, List.filter_cons_of_pos ht',
      List.filter_eq_nil_iff.mpr (by simpa using hbefore),
      List.filter_eq_nil_iff.mpr (by simpa using hafter), List.nil_append]
  have herror : (before ++ part arith vars t :: after).any (fun p => p.symbol? == some .error) =
      ((part arith vars t).symbol? == some .error) := by
    have hnone : ∀ p : Part α, p.isOperand = false → ¬ (p.symbol? == some .error) = true := by
      intro p hp h
      rw [Part.isOperand_of_symbol h] at hp
      cases hp
    rw [List.any_append, List.any_cons, List.any_eq_false.mpr fun p hp => hnone p (hbefore p hp),
      List.any_eq_false.mpr fun p hp => hnone p (hafter p hp), Bool.false_or, Bool.or_false]
  have hminus : (before ++ part arith vars t :: after).any (fun p => p.symbol? == some .minus) =
      (before ++ after).any fun p => p.symbol? == some .minus := by
    have hnone : ((part arith vars t).symbol? == some .minus) = false := by
      rw [Bool.eq_false_iff]
      intro h
      rw [Part.isOperand_of_symbol h] at ht'
      cases ht'
    rw [List.any_append, List.any_cons, hnone, Bool.false_or, List.any_append]
  -- an ERROR is refused by its kind, but would have no value either
  rw [wrappedValue, herror, hfilter, hminus]
  by_cases h : ((part arith vars t).symbol? == some .error) = true
  · rw [if_pos h, valueOf_of_error (eq_of_beq h)]
    rfl
  · rw [if_neg h]
    rfl

lemma valueOf_parens (ht : isOperand t = true) :
    valueOf arith vars (.node Symbol.parens.kind
      [.token Symbol.leftParen.kind s, t, .token Symbol.rightParen.kind s']) = valueOf arith vars t := by
  rw [valueOf_node]
  have h := wrappedValue_operand arith vars ht [part arith vars (.token Symbol.leftParen.kind s)]
    [part arith vars (.token Symbol.rightParen.kind s')]
    (List.forall_mem_cons.mpr ⟨rfl, List.forall_mem_singleton.mpr rfl⟩) false
  exact h.trans Option.map_id'

lemma valueOf_positive (ht : isOperand t = true) :
    valueOf arith vars (.node Symbol.signed.kind [.token Symbol.plus.kind s, t]) =
      valueOf arith vars t := by
  rw [valueOf_node]
  have h := wrappedValue_operand arith vars ht [part arith vars (.token Symbol.plus.kind s)] []
    (List.forall_mem_singleton.mpr rfl) true
  exact h.trans Option.map_id'

lemma valueOf_negative (ht : isOperand t = true) :
    valueOf arith vars (.node Symbol.signed.kind [.token Symbol.minus.kind s, t]) =
      (valueOf arith vars t).map arith.neg := by
  rw [valueOf_node]
  exact wrappedValue_operand arith vars ht [part arith vars (.token Symbol.minus.kind s)] []
    (List.forall_mem_singleton.mpr rfl) true

/-- Parentheses that are not closed have no value. -/
lemma valueOf_unclosed (l : Tree) : valueOf arith vars (.node Symbol.parens.kind [l, t, gap]) = none := by
  rw [valueOf_node]
  change wrappedValue arith false [part arith vars l, part arith vars t, part arith vars gap] = none
  have herror : ((part arith vars gap).symbol? == some .error) = true := rfl
  simp [wrappedValue, herror]

/-- A tree has the value of the expression that it denotes. -/
theorem Denotes.value (h : Denotes t e) :
    isOperand t = true ∧ valueOf arith vars t = e.value? arith vars := by
  induction h with
  | number => exact ⟨rfl, valueOf_token _ _⟩
  | name => exact ⟨rfl, valueOf_token _ _⟩
  | parens inner ih => exact ⟨rfl, (valueOf_parens ih.1).trans ih.2⟩
  | positive inner ih => exact ⟨rfl, (valueOf_positive ih.1).trans ih.2⟩
  | negative inner ih =>
    refine ⟨rfl, ?_⟩
    rw [valueOf_negative ih.1, ih.2, Expr.value?]
  | binary op left right ihl ihr =>
    refine ⟨rfl, ?_⟩
    rw [valueOf_binary op ihl.1 ihr.1, ihl.2, ihr.2, Expr.value?]

end Values

section Firmness
variable {α : Type} {arith : Arithmetic α} {vars : Bytes → Option α}
  {g : Goal} {ls rest : List (Lexeme Symbol)} {ts : List Tree} {t : Tree}

/-- An operand that has no value if there is an ERROR node in it. -/
structure Firm (arith : Arithmetic α) (vars : Bytes → Option α) (t : Tree) : Prop where
  operand : isOperand t = true
  clean : (valueOf arith vars t).isSome = true → Clean [t]

lemma exists_operator {l : Lexeme Symbol} {low high : Nat} (h : bindingPower? l.symbol = some (low, high)) :
    ∃ op : Operator, l.symbol = op.symbol := by
  rcases bindingPower?_cases h with ⟨h | h, -, -⟩ | ⟨h | h, -, -⟩
  · exact ⟨.plus, h⟩
  · exact ⟨.minus, h⟩
  · exact ⟨.times, h⟩
  · exact ⟨.dividedBy, h⟩

lemma firm_error (ts : List Tree) : Firm arith vars (.node Symbol.error.kind ts) := by
  refine ⟨rfl, fun h => ?_⟩
  rw [valueOf_of_error rfl] at h
  cases h

lemma firm_atom {l : Lexeme Symbol} (h : l.symbol = .number ∨ l.symbol = .ident) :
    Firm arith vars l.tree := by
  refine ⟨?_, fun _ => by simp⟩
  rcases h with h | h <;> rw [← tree_eq h] <;> rfl

lemma Firm.parens (ht : Firm arith vars t) {l r : Lexeme Symbol} (hl : l.symbol = .leftParen)
    (hr : r.symbol = .rightParen) : Firm arith vars (.node Symbol.parens.kind [l.tree, t, r.tree]) := by
  refine ⟨rfl, fun h => ?_⟩
  rw [← tree_eq hl, ← tree_eq hr, valueOf_parens ht.operand] at h
  simp [clean_cons_cons, ht.clean h, Symbol.kind]

lemma firm_unclosed (l : Tree) : Firm arith vars (.node Symbol.parens.kind [l, t, gap]) := by
  refine ⟨rfl, fun h => ?_⟩
  rw [valueOf_unclosed] at h
  cases h

lemma Firm.signed (ht : Firm arith vars t) {l : Lexeme Symbol} (hl : l.symbol = .plus ∨ l.symbol = .minus) :
    Firm arith vars (.node Symbol.signed.kind [l.tree, t]) := by
  refine ⟨rfl, fun h => ?_⟩
  have hvalue : (valueOf arith vars t).isSome = true := by
    rcases hl with hl | hl
    · rwa [← tree_eq hl, valueOf_positive ht.operand] at h
    · rwa [← tree_eq hl, valueOf_negative ht.operand, Option.isSome_map] at h
  simp [ht.clean hvalue, Symbol.kind]

lemma Firm.binary {u : Tree} (ht : Firm arith vars t) (hu : Firm arith vars u) {l : Lexeme Symbol}
    {op : Operator} (hl : l.symbol = op.symbol) :
    Firm arith vars (.node Symbol.binary.kind [t, l.tree, u]) := by
  refine ⟨rfl, fun h => ?_⟩
  rw [← tree_eq hl, valueOf_binary op ht.operand hu.operand, Option.isSome_iff_exists] at h
  obtain ⟨v, hv⟩ := h
  obtain ⟨x, hx, hv⟩ := Option.bind_eq_some_iff.mp hv
  obtain ⟨y, hy, -⟩ := Option.bind_eq_some_iff.mp hv
  simp [clean_cons_cons, ht.clean (Option.isSome_of_eq_some hx), hu.clean (Option.isSome_of_eq_some hy),
    Symbol.kind]

/-- Without white space the trees are one firm operand. -/
def OneFirm (arith : Arithmetic α) (vars : Bytes → Option α) (ts : List Tree) : Prop :=
  ∃ t, bare ts = [t] ∧ Firm arith vars t

/-- A goal is met by one firm operand. Operators need one on their left. -/
def Goal.Firm (arith : Arithmetic α) (vars : Bytes → Option α) : Goal → List Tree → Prop
  | .operations _ left, ts => OneFirm arith vars left → OneFirm arith vars ts
  | _, ts => OneFirm arith vars ts

/-- Every reading gives one operand, and no value to what is not well formed. -/
theorem Reads.firm (h : Reads g ls ts rest) : g.Firm arith vars ts := by
  induction h with
  | gap ends => exact ⟨Calc.gap, by simp [Calc.gap], firm_error []⟩
  | expression operand operations iho ihs =>
    obtain ⟨t, ht, hfirm⟩ := ihs iho
    exact ⟨t, by simpa using ht, hfirm⟩
  | @atom l rest atom =>
    have hvisible := Reads.operand_visible (.atom atom : Reads .operand (l :: rest) _ _)
    exact ⟨l.tree, bare_token hvisible [], firm_atom atom⟩
  | @parens l ls ts mid left inner ih =>
    have hvisible := (Reads.parens left inner).operand_visible
    obtain ⟨t, ht, hfirm⟩ := ih
    rcases closing_cases mid with ⟨r, hr, -, hclose⟩ | hclose
    · exact ⟨_, by simp [bare_token hvisible, ht, hclose], hfirm.parens left hr⟩
    · have hgap : bare [Calc.gap] = [Calc.gap] := rfl
      exact ⟨.node Symbol.parens.kind [l.tree, t, Calc.gap],
        by simp [bare_token hvisible, ht, hclose, hgap], firm_unclosed l.tree⟩
  | @signed l ls ts rest sign inner ih =>
    have hvisible := (Reads.signed sign inner).operand_visible
    obtain ⟨t, ht, hfirm⟩ := ih
    exact ⟨_, by simp [bare_token hvisible, ht], hfirm.signed sign⟩
  | @stray l rest visible starts right =>
    exact ⟨_, by rw [bare_node, bare_token visible, bare_nil], firm_error [l.tree]⟩
  | stop weaker => exact id
  | @operation power left ls op after low high ts mid out rest next binds strong right more ihr ihm =>
    rintro ⟨t, ht, hfirm⟩
    obtain ⟨u, hu, hfirm'⟩ := ihr
    obtain ⟨o, ho⟩ := exists_operator binds
    exact ihm ⟨_, by simp [ht, bare_token (not_trivia_of_pending next), hu], hfirm.binary hfirm' ho⟩

/-- Every item of a text is an operand, and has no value if it is not well formed. -/
theorem Items.firm (h : Items ls ts) : ∀ t ∈ bare ts, Firm arith vars t := by
  induction h with
  | done ends => simp
  | expression next starts item items ih =>
    obtain ⟨t, ht, hfirm⟩ := item.firm
    simpa [ht] using ⟨hfirm, ih⟩
  | stray next starts items ih => simpa using ⟨firm_error _, ih⟩

variable (arith vars) in
/-- A text has a value exactly if it has one item, without white space, with that value. -/
lemma Items.eval_eq_ok_iff (h : Items ls ts) (k : Kind) (v : α) :
    eval arith vars (.node k ts) = .ok v ↔ ∃ t, bare ts = [t] ∧ valueOf arith vars t = some v := by
  have hparts : visibleParts arith vars ts = (bare ts).map (part arith vars) := by
    rw [← visibleParts_bare, visibleParts, List.filter_eq_self, List.forall_mem_map]
    intro t ht
    have hfirm : Firm arith vars t := h.firm t ht
    exact Part.isVisible_of_isOperand hfirm.operand
  rw [eval_eq_ok_iff_visibleParts, hparts]
  rcases bare ts with _ | ⟨t, _ | ⟨u, us⟩⟩ <;> simp [part]

/-- Where there is a value there is no ERROR node. -/
lemma Items.clean_of_value (h : Items ls ts) {v : α} (ht : bare ts = [t])
    (hv : valueOf arith vars t = some v) : Clean ts := by
  rw [← clean_bare, ht]
  exact (h.firm t (ht ▸ List.mem_singleton_self t)).clean (Option.isSome_of_eq_some hv)

variable (arith vars) in
/-- The value of a text is that of the expression its significant lexemes form. -/
theorem Items.eval_iff (h : Items ls ts) (k : Kind) (v : α) :
    eval arith vars (.node k ts) = .ok v ↔
      ∃ e, Expresses .sum (significant ls) e ∧ e.value? arith vars = some v := by
  rw [h.eval_eq_ok_iff arith vars]
  constructor
  · rintro ⟨t, ht, hv⟩
    obtain ⟨u, hu⟩ := h.sound (h.clean_of_value ht hv) (by rw [ht]; rfl)
    obtain rfl : t = u := List.singleton_inj.mp (ht.symm.trans (h.complete hu))
    obtain ⟨e, hdenotes, he⟩ := hu.expresses
    exact ⟨e, he, hdenotes.value.2.symm.trans hv⟩
  · rintro ⟨e, he, hv⟩
    obtain ⟨t, ht, hdenotes⟩ := he.derives
    exact ⟨t, h.complete ht, hdenotes.value.2.trans hv⟩

/-- A text forms one expression at most. -/
theorem Items.expression_unique (h : Items ls ts) {e f : Expr} (he : Expresses .sum (significant ls) e)
    (hf : Expresses .sum (significant ls) f) : e = f := by
  obtain ⟨t, ht, hdenotes⟩ := he.derives
  obtain ⟨u, hu, hdenotes'⟩ := hf.derives
  obtain rfl : t = u := List.singleton_inj.mp ((h.complete ht).symm.trans (h.complete hu))
  exact hdenotes.unique hdenotes'

end Firmness

/-- Evaluating a text gives the value of the one expression that it forms, so it succeeds exactly if there
is one and everything in it is defined. Nothing with an ERROR node has a value, and every failure says
that the expression is invalid. -/
theorem eval_parse_iff {α : Type} (arith : Arithmetic α) (vars : Bytes → Option α) (src : Bytes)
    (cache : Cache) :
    ∃ tree, (parse src cache .never).result = .ok tree ∧
      (∀ v, eval arith vars tree = .ok v ↔
        ∃ e, Expresses .sum (significant (lex src)) e ∧ e.value? arith vars = some v) ∧
      ((∃ v, eval arith vars tree = .ok v) ↔
        ∃ e, Expresses .sum (significant (lex src)) e ∧ e.Defined arith vars) ∧
      (∀ e f, Expresses .sum (significant (lex src)) e → Expresses .sum (significant (lex src)) f →
        e = f) ∧
      (Symbol.error.kind ∈ tree.nodeKinds → ∃ err, eval arith vars tree = .error err) ∧
      ∀ err, eval arith vars tree = .error err →
        ∃ reason, err.message = "invalid expression: " ++ reason := by
  obtain ⟨ts, hitems, hparse⟩ := parse_items src cache
  have hvalue := hitems.eval_iff arith vars Symbol.root.kind
  refine ⟨_, hparse, hvalue, ?_, fun _ _ => hitems.expression_unique, ?_, fun err _ => ⟨err.reason, rfl⟩⟩
  · simp only [hvalue, ← Expr.exists_value?_iff]
    exact ⟨fun ⟨v, e, he, hv⟩ => ⟨e, he, v, hv⟩, fun ⟨e, he, v, hv⟩ => ⟨v, e, he, hv⟩⟩
  · intro herror
    cases heval : eval arith vars (.node Symbol.root.kind ts) with
    | error err => exact ⟨err, rfl⟩
    | ok v =>
      obtain ⟨t, ht, hv⟩ := (hitems.eval_eq_ok_iff arith vars _ v).mp heval
      have hclean := hitems.clean_of_value ht hv
      have hroot : Symbol.error.kind ≠ Symbol.root.kind := by decide
      rw [Tree.nodeKinds_node, List.mem_cons, or_iff_right hroot] at herror
      exact absurd herror hclean

end LosslessTree.Calc
