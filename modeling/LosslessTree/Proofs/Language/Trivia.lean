import LosslessTree.Proofs.Calc.Shape
import LosslessTree.Proofs.Decl.Reading
import LosslessTree.Proofs.Tree.Trimmed

/-! White space in arithmetic trees. It is read before an operand and before an operator, never with them, so
by their shapes nodes begin and end with an operand, an operator, a parenthesis or a gap. -/
namespace LosslessTree.Calc
open LosslessTree.Tree

def triviaKinds : List Kind := [Symbol.whitespace.kind]

/-- The nodes in which there is no white space. -/
def solidKinds : List Kind := [Symbol.error.kind]

section
variable {s : Symbol} {t : Tree} {cs ts : List Tree} {text : Bytes}

lemma Operand.not_trivia (h : Operand t) : ¬ t.IsTokenIn triviaKinds := by
  cases h with
  | token atom text =>
    refine not_isTokenIn_token ?_
    rcases atom with rfl | rfl <;> decide
  | node compound cs => exact not_isTokenIn_node _ _ cs

lemma not_trivia_of_sign (h : s = .plus ∨ s = .minus) : ¬ (token s.kind text).IsTokenIn triviaKinds := by
  refine not_isTokenIn_token ?_
  rcases h with rfl | rfl <;> decide

lemma not_trivia_of_paren (h : s = .leftParen ∨ s = .rightParen) :
    ¬ (token s.kind text).IsTokenIn triviaKinds := by
  refine not_isTokenIn_token ?_
  rcases h with rfl | rfl <;> decide

lemma Operand.closed (h : Operand t) (before : List Tree) : Closed triviaKinds (before ++ [t]) :=
  (closed_singleton.mpr h.not_trivia).append before

/-- A node other than the root ends as it begins, with no white space. -/
lemma Shape.neat (h : Shape s cs) (hs : s ≠ .root) (hbelow : ∀ c ∈ cs, c.Neat triviaKinds solidKinds) :
    (node s.kind cs).Neat triviaKinds solidKinds := by
  cases h with
  | root items => exact absurd rfl hs
  | @sum left before op text after right first blank plus blank' second right_not_sum =>
    have hlast := second.closed (left :: before ++ token op.kind text :: after)
    exact neat_of_ends (by decide) first.not_trivia hlast hbelow
  | @product left before op text after right first blank times blank' second left_not_sum right_not_binary =>
    have hlast := second.closed (left :: before ++ token op.kind text :: after)
    exact neat_of_ends (by decide) first.not_trivia hlast hbelow
  | @signed op text blanks inner sign blank operand not_binary =>
    have hlast := operand.closed (token op.kind text :: blanks)
    exact neat_of_ends (by decide) (not_trivia_of_sign sign) hlast hbelow
  | @parens text blanks inner blanks' text' blank operand blank' =>
    have hright : Closed triviaKinds [token Symbol.rightParen.kind text'] :=
      closed_singleton.mpr (not_trivia_of_paren (.inr rfl))
    have hlast := hright.append (token Symbol.leftParen.kind text :: blanks ++ inner :: blanks')
    exact neat_of_ends (by decide) (not_trivia_of_paren (.inl rfl)) hlast hbelow
  | @unclosed text blanks inner blank operand =>
    have hgap : Closed triviaKinds [inner, Calc.gap] :=
      (closed_singleton.mpr (not_isTokenIn_node _ _ _)).append [inner]
    have hlast := hgap.append (token Symbol.leftParen.kind text :: blanks)
    exact neat_of_ends (by decide) (not_trivia_of_paren (.inl rfl)) hlast hbelow
  | gap => exact neat_empty _
  | stray misplaced =>
    refine neat_single ?_ _
    rcases misplaced with rfl | rfl | rfl | rfl <;> decide

lemma Blank.isToken (h : Blank ts) (ht : t ∈ ts) : t.isToken = true := by
  obtain ⟨text, rfl⟩ := h t ht
  rfl

lemma operand_gap : Operand Calc.gap := .node (s := .error) (.inr (.inr (.inr rfl))) []

/-- What stands in a node is a token or an operand. -/
lemma Shape.children (h : Shape s cs) {c : Tree} (hc : c ∈ cs) : c.isToken = true ∨ Operand c := by
  have htoken (k : Kind) (text : Bytes) : (token k text).isToken = true := rfl
  cases h with
  | root items => exact (items c hc).symm.imp_left fun blank => blank.isToken List.mem_cons_self
  | gap => cases hc
  | _ =>
    simp only [List.mem_append, List.mem_cons, List.not_mem_nil, or_false] at hc
    grind [operand_gap, Blank.isToken]

lemma Operand.kind_ne_root (h : Operand t) : t.kind ≠ Symbol.root.kind := by
  cases h with
  | @token s atom text =>
    change s.kind ≠ _
    rcases atom with rfl | rfl <;> decide
  | @node s compound cs =>
    change s.kind ≠ _
    rcases compound with rfl | rfl | rfl | rfl <;> decide

/-- The nodes of an operand are neat, since the root is none of them. -/
lemma Shaped.neat (h : Shaped t) (ht : Operand t) : t.Neat triviaKinds solidKinds := by
  induction h with
  | token k text => exact .token k text
  | @node s cs shape below ih =>
    have hroot : s ≠ .root := fun hs => ht.kind_ne_root (congrArg Symbol.kind hs)
    refine shape.neat hroot fun c hc => ?_
    rcases shape.children hc with htoken | hoperand
    · exact neat_of_isToken htoken
    · exact ih c hc hoperand

lemma RootItem.neat (h : RootItem t) : t.Neat triviaKinds solidKinds := by
  obtain ⟨shaped, operand | blank⟩ := h
  · exact shaped.neat operand
  · exact neat_of_isToken (blank.isToken List.mem_cons_self)

end
end LosslessTree.Calc

/-! Trivia in declarations. A node is opened after the trivia before it, and what closes it is a token that was
asked for or a gap, so white space and comments stand between the pieces of a node and never at its edges. -/
namespace LosslessTree.Decl
open Lexeme LosslessTree.Tree

def triviaKinds : List Kind := [Symbol.whitespace.kind, Symbol.comment.kind]

/-- The nodes in which there are no trivia. -/
def solidKinds : List Kind := [Symbol.name.kind, Symbol.type.kind, Symbol.error.kind]

section
variable {s : Symbol} {l : Lexeme Symbol} {ls rest : List (Lexeme Symbol)} {t : Tree} {ts : List Tree}

lemma kind_not_mem_trivia (h : s.isTrivia = false) : s.kind ∉ triviaKinds := by
  revert h
  cases s <;> decide

/-- A token that is not skipped. -/
lemma not_isTokenIn_tree (h : l.symbol.isTrivia = false) : ¬ l.tree.IsTokenIn triviaKinds :=
  not_isTokenIn_token (kind_not_mem_trivia h)

lemma neat_tree (l : Lexeme Symbol) : l.tree.Neat triviaKinds solidKinds := .token _ _

lemma row_tree (h : l.symbol.isTrivia = false) : Row triviaKinds solidKinds [l.tree] :=
  row_singleton (neat_tree l) (not_isTokenIn_tree h)

/-- A node over one such token. -/
lemma row_over (h : l.symbol.isTrivia = false) (k : Kind) : Row triviaKinds solidKinds [.node k [l.tree]] :=
  row_singleton (neat_single (kind_not_mem_trivia h) k) (not_isTokenIn_node _ _ _)

lemma neat_leading (ls : List (Lexeme Symbol)) : ∀ t ∈ (leading ls).map tree, t.Neat triviaKinds solidKinds :=
  List.forall_mem_map.mpr fun l _ => neat_tree l

lemma row_absent (ls : List (Lexeme Symbol)) : Row triviaKinds solidKinds (absent ls).1 :=
  (row_singleton (neat_empty _) (not_isTokenIn_node _ _ _)).append (neat_leading ls)

lemma row_required {form : Tree → Tree}
    (hform : ∀ l : Lexeme Symbol, l.symbol = s → Row triviaKinds solidKinds [form l.tree])
    (ls : List (Lexeme Symbol)) : Row triviaKinds solidKinds (required s form ls).1 := by
  by_cases hnext : next? ls = some s
  · obtain ⟨l, rest, hl, hs⟩ := pending_eq_of_next? hnext
    rw [required, ifNext_of_eq hl hs]
    exact (hform l hs).append (neat_leading ls)
  · rw [required, ifNext_of_ne hnext]
    exact row_absent ls

lemma row_named (s : Symbol) (ls : List (Lexeme Symbol)) : Row triviaKinds solidKinds (named s ls).1 :=
  row_required (fun _ hl => row_over (hl ▸ rfl) s.kind) ls

lemma row_colon (ls : List (Lexeme Symbol)) : Row triviaKinds solidKinds (required .colon id ls).1 :=
  row_required (fun _ hl => row_tree (hl ▸ rfl)) ls

/-- Where no trivia are left to skip, what is asked for comes first. -/
lemma exists_named_pending (s : Symbol) (ls : List (Lexeme Symbol)) : ∃ t, (named s (pending ls)).1 = [t] := by
  have hlead : leading (pending ls) = [] := leading_of_pending_eq (pending_pending ls)
  by_cases hnext : next? (pending ls) = some .ident
  · obtain ⟨l, rest, hl, hs⟩ := pending_eq_of_next? hnext
    rw [named, required, ifNext_of_eq hl hs, hlead]
    exact ⟨_, rfl⟩
  · rw [named, required, ifNext_of_ne hnext, absent, hlead]
    exact ⟨_, rfl⟩

/-- A field starts with its name and ends with its type, and either may be a gap. -/
lemma row_fieldOf (ls : List (Lexeme Symbol)) : Row triviaKinds solidKinds (fieldOf ls).1 := by
  have hname := row_named .name (pending ls)
  have hcolon := row_colon (named .name (pending ls)).2
  have htype := row_named .type (required .colon id (named .name (pending ls)).2).2
  have hfield := htype.append (hcolon.append hname.neat).neat
  refine (row_singleton ?_ (not_isTokenIn_node _ _ _)).append (neat_leading ls)
  obtain ⟨t, ht⟩ := exists_named_pending .name ls
  rw [ht] at hname hfield ⊢
  exact hfield.node (closed_singleton.mp hname.closed) (by decide)

lemma neat_commaOf (ls : List (Lexeme Symbol)) : ∀ t ∈ (commaOf ls).1, t.Neat triviaKinds solidKinds := by
  by_cases hnext : next? ls = some .comma
  · obtain ⟨l, rest, hl, hs⟩ := pending_eq_of_next? hnext
    rw [commaOf, ifNext_of_eq hl hs]
    exact ((row_tree (hs ▸ rfl)).append (neat_leading ls)).neat
  · rw [commaOf, ifNext_of_ne hnext]
    exact List.forall_mem_nil _

/-- The inside of a declaration ends with its brace or a gap. -/
lemma Fields.row (h : Fields ls ts rest) : Row triviaKinds solidKinds ts := by
  induction h with
  | @close ls l rest next brace => exact (row_tree (brace ▸ rfl)).append (neat_leading ls)
  | cut ends => exact row_absent _
  | @field ls ts rest next more ih =>
    exact ih.append (List.forall_mem_append.mpr ⟨(row_fieldOf ls).neat, neat_commaOf _⟩)
  | @stray ls l after ts rest next brace keyword name more ih =>
    have herror := row_over (not_trivia_of_pending next) Symbol.error.kind
    exact (ih.append herror.neat).append (neat_leading ls)

lemma Declaration.neat (h : Declaration ls t rest) : t.Neat triviaKinds solidKinds := by
  cases h with
  | @body l ls b after ts rest keyword next brace fields =>
    have hbrace := fields.row.append (row_tree (l := b) (brace ▸ rfl)).neat
    have hopen := hbrace.append (neat_leading (named .name ls).2)
    have hhead := (row_named .name ls).append (row_tree (l := l) (keyword ▸ rfl)).neat
    exact (hopen.append hhead.neat).node (not_isTokenIn_tree (keyword ▸ rfl)) (by decide)
  | @bare l ls keyword next =>
    have hhead := (row_named .name ls).append (row_tree (l := l) (keyword ▸ rfl)).neat
    exact ((row_absent _).append hhead.neat).node (not_isTokenIn_tree (keyword ▸ rfl)) (by decide)

lemma Source.neat (h : Source ls ts) : ∀ t ∈ ts, t.Neat triviaKinds solidKinds := by
  induction h with
  | done ends => exact neat_leading _
  | declaration next item more ih =>
    exact List.forall_mem_append.mpr ⟨neat_leading _, List.forall_mem_cons.mpr ⟨item.neat, ih⟩⟩
  | stray next keyword more ih =>
    have herror := (row_over (not_trivia_of_pending next) Symbol.error.kind).neat
    exact List.forall_mem_append.mpr ⟨neat_leading _, List.forall_mem_append.mpr ⟨herror, ih⟩⟩

end
end LosslessTree.Decl

/-! Where white space and comments stand in the trees of both languages: between the pieces of a node, never at
its edges. Only the root, which holds all of the text, may begin or end with them. -/
namespace LosslessTree

/-- Without a cancellation both parsers give every text a tree in which no node but the root begins or ends with
trivia, and what stands for one name, for one type or for a mistake holds none. -/
theorem parse_trimmed (src : Bytes) (cache : Cache) :
    (∃ t, (Calc.parse src cache .never).result = .ok t ∧ t.TrimmedBelow Calc.triviaKinds Calc.solidKinds) ∧
      ∃ t, (Decl.parse src cache .never).result = .ok t ∧ t.TrimmedBelow Decl.triviaKinds Decl.solidKinds := by
  obtain ⟨ts, hitems, hcalc⟩ := Calc.parse_items src cache
  obtain ⟨us, hsource, hdecl⟩ := Decl.parse_source src cache
  have hts := hitems.shapes (Calc.lexical_lex src)
  constructor
  · exact ⟨_, hcalc, Tree.trimmedBelow_of_children (fun t ht => (hts t ht).neat) _⟩
  · exact ⟨_, hdecl, Tree.trimmedBelow_of_children hsource.neat _⟩

end LosslessTree
