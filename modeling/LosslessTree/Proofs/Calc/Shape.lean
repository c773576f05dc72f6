import LosslessTree.Proofs.Calc.Grammar

/-! The shape of arithmetic trees, well formed or not. Where an operand is missing or out of place an
ERROR node stands for it, so every node has the children its symbol promises. The layers of precedence
hold on every text as well: they are a matter of what can follow an expression of some power. -/
namespace LosslessTree.Calc
open Lexeme

/-- White space tokens only. -/
def Blank (ts : List Tree) : Prop := ∀ t ∈ ts, ∃ text, t = .token Symbol.whitespace.kind text

/-- What stands as an operand. -/
inductive Operand : Tree → Prop
  | token {s : Symbol} (atom : s = .number ∨ s = .ident) (text : Bytes) : Operand (.token s.kind text)
  | node {s : Symbol} (compound : s = .binary ∨ s = .signed ∨ s = .parens ∨ s = .error) (cs : List Tree) :
      Operand (.node s.kind cs)

/-- A BIN_EXPR that adds or subtracts. -/
inductive IsSum : Tree → Prop
  | mk {s : Symbol} {text : Bytes} {cs : List Tree} (plus : s = .plus ∨ s = .minus)
      (operator : .token s.kind text ∈ cs) : IsSum (.node Symbol.binary.kind cs)

/-- The children that the nodes of a symbol have. -/
inductive Shape : Symbol → List Tree → Prop
  | root {ts} (items : ∀ t ∈ ts, Operand t ∨ Blank [t]) : Shape .root ts
  | sum {left before s text after right} (first : Operand left) (blank : Blank before)
      (plus : s = .plus ∨ s = .minus) (blank' : Blank after) (second : Operand right)
      (right_not_sum : ¬ IsSum right) :
      Shape .binary (left :: before ++ .token (Symbol.kind s) text :: after ++ [right])
  | product {left before s text after right} (first : Operand left) (blank : Blank before)
      (times : s = .star ∨ s = .slash) (blank' : Blank after) (second : Operand right)
      (left_not_sum : ¬ IsSum left) (right_not_binary : right.kind ≠ Symbol.binary.kind) :
      Shape .binary (left :: before ++ .token (Symbol.kind s) text :: after ++ [right])
  | signed {s text blanks inner} (sign : s = .plus ∨ s = .minus) (blank : Blank blanks)
      (operand : Operand inner) (not_binary : inner.kind ≠ Symbol.binary.kind) :
      Shape .signed (.token (Symbol.kind s) text :: blanks ++ [inner])
  | parens {text blanks inner blanks' text'} (blank : Blank blanks) (operand : Operand inner)
      (blank' : Blank blanks') :
      Shape .parens (.token Symbol.leftParen.kind text :: blanks ++ inner :: blanks' ++
        [.token Symbol.rightParen.kind text'])
  | unclosed {text blanks inner} (blank : Blank blanks) (operand : Operand inner) :
      Shape .parens (.token Symbol.leftParen.kind text :: blanks ++ [inner, Calc.gap])
  | gap : Shape .error []
  | stray {s text} (misplaced : s = .star ∨ s = .slash ∨ s = .rightParen ∨ s = .unknown) :
      Shape .error [.token (Symbol.kind s) text]

/-- Every node of the tree is of a symbol, and its children have the shape for it. -/
inductive Shaped : Tree → Prop
  | token (k : Kind) (text : Bytes) : Shaped (.token k text)
  | node {s : Symbol} {cs : List Tree} (shape : Shape s cs) (below : ∀ c ∈ cs, Shaped c) :
      Shaped (.node s.kind cs)

/-- The symbols that a text is cut into. -/
def Symbol.isLexical : Symbol → Bool
  | .root | .binary | .signed | .parens | .error => false
  | _ => true

def Lexical (ls : List (Lexeme Symbol)) : Prop := ∀ l ∈ ls, l.symbol.isLexical = true

section Lexemes
variable {g : Goal} {l : Lexeme Symbol} {ls rest : List (Lexeme Symbol)} {ts : List Tree}

lemma isLexical_scan (glyph : Glyph) (glyphs : List Glyph) : (scan glyph glyphs).1.isLexical = true := by
  have hpunctuation : (punctuation glyph.point).isLexical = true := by
    unfold punctuation
    split <;> rfl
  unfold scan
  split_ifs
  · rfl
  · dsimp only
    split
    · split_ifs <;> rfl
    · rfl
  · rfl
  · exact hpunctuation

theorem lexical_lex (src : Bytes) : Lexical (lex src) := by
  unfold lex
  fun_induction Lexeme.cut scan (Utf8.decode src) with
  | case1 => exact List.forall_mem_nil _
  | case2 glyph glyphs symbol more hscan ih =>
    refine List.forall_mem_cons.mpr ⟨?_, ih⟩
    have h := isLexical_scan glyph glyphs
    rwa [hscan] at h

lemma suffix_pending (ls : List (Lexeme Symbol)) : pending ls <:+ ls := List.dropWhile_suffix _

lemma suffix_of_pending (h : pending ls = l :: rest) : rest <:+ ls :=
  (List.suffix_cons l rest).trans (h ▸ suffix_pending ls)

lemma suffix_closing (ls : List (Lexeme Symbol)) : (closing ls).2 <:+ ls := by
  by_cases h : next? ls = some .rightParen
  · obtain ⟨l, rest, hl, hs⟩ := pending_eq_of_next? h
    rw [closing, ifNext_of_eq hl hs]
    exact suffix_of_pending hl
  · rw [closing, ifNext_of_ne h]

/-- What a reading leaves is the end of what it was given. -/
lemma Reads.suffix (h : Reads g ls ts rest) : rest <:+ ls := by
  induction h with
  | gap ends => exact suffix_pending _
  | expression operand operations iho ihs => exact (ihs.trans iho).trans (suffix_pending _)
  | atom atom => exact List.suffix_cons _ _
  | parens left inner ih => exact ((suffix_closing _).trans ih).trans (List.suffix_cons _ _)
  | signed sign inner ih => exact ih.trans (List.suffix_cons _ _)
  | stray visible starts right => exact List.suffix_cons _ _
  | stop weaker => exact List.suffix_refl _
  | operation next binds strong right more ihr ihm => exact (ihm.trans ihr).trans (suffix_of_pending next)

lemma Lexical.suffix (h : Lexical ls) (hrest : rest <:+ ls) : Lexical rest :=
  fun l hl => h l (hrest.subset hl)

end Lexemes

section Operands
variable {l : Lexeme Symbol} {ls : List (Lexeme Symbol)} {ts : List Tree} {t u : Tree} {s : Symbol}
  {text : Bytes}

lemma blank_leading (ls : List (Lexeme Symbol)) : Blank ((leading ls).map tree) := by
  intro t ht
  obtain ⟨l, hl, rfl⟩ := List.mem_map.mp ht
  have htrivia := List.mem_takeWhile_imp hl
  refine ⟨l.text, ?_⟩
  rw [tree, show l.symbol = .whitespace from eq_of_beq htrivia]
  rfl

lemma tree_of_symbol (h : l.symbol = s) : l.tree = .token s.kind l.text := by
  rw [← h]
  rfl

lemma shaped_of_blank (h : Blank ts) : ∀ t ∈ ts, Shaped t := by
  intro t ht
  obtain ⟨text, rfl⟩ := h t ht
  exact .token _ _

lemma not_isSum_of_kind (h : t.kind ≠ Symbol.binary.kind) : ¬ IsSum t := by
  rintro ⟨-, -⟩
  exact h rfl

lemma Operand.not_operator (h : Operand t) (hs : s = .plus ∨ s = .minus) : .token s.kind text ≠ t := by
  intro heq
  cases h with
  | node compound cs => cases heq
  | @token s' atom text' =>
    injection heq with hkind
    rcases hs with rfl | rfl <;> rcases atom with rfl | rfl <;> cases hkind

lemma Blank.not_operator (h : Blank ts) (hs : s = .plus ∨ s = .minus) : .token s.kind text ∉ ts := by
  intro hmem
  obtain ⟨text', heq⟩ := h _ hmem
  rcases hs with rfl | rfl <;> cases heq

/-- A sum has its operator among its children, so what multiplies or divides is none. -/
lemma not_isSum_product {before after : List Tree} (ht : Operand t) (hbefore : Blank before)
    (hs : s = .star ∨ s = .slash) (hafter : Blank after) (hu : Operand u) :
    ¬ IsSum (.node Symbol.binary.kind (t :: before ++ .token s.kind text :: after ++ [u])) := by
  rintro ⟨plus, operator⟩
  simp only [List.cons_append, List.append_assoc, List.mem_cons, List.mem_append, List.not_mem_nil,
    or_false] at operator
  rcases operator with h | h | h | h | h
  · exact ht.not_operator plus h
  · exact hbefore.not_operator plus h
  · rcases plus with rfl | rfl <;> rcases hs with rfl | rfl <;> cases h
  · exact hafter.not_operator plus h
  · exact hu.not_operator plus h

end Operands

section Readings
variable {g : Goal} {power : Nat} {l op : Lexeme Symbol} {ls mid rest rest' : List (Lexeme Symbol)}
  {ts : List Tree} {t u : Tree}

/-- An operand that is well shaped and bound at least as tightly as `power`. After a sum, no operator
follows that would have to take the right side of the sum away from it. -/
structure Settled (power : Nat) (t : Tree) (rest : List (Lexeme Symbol)) : Prop where
  operand : Operand t
  shaped : Shaped t
  binary : t.kind = Symbol.binary.kind → power ≤ 3
  sum : IsSum t → power ≤ 1 ∧ Weaker 2 rest

/-- Trivia and a settled operand, with nothing after it that binds as tightly as `power`. -/
structure Settles (power : Nat) (ts : List Tree) (rest : List (Lexeme Symbol)) : Prop where
  exists_operand : ∃ blanks t, ts = blanks ++ [t] ∧ Blank blanks ∧ Settled power t rest
  weaker : Weaker power rest

/-- What reading a goal gives on every text. -/
def Goal.Shapes : Goal → List (Lexeme Symbol) → List Tree → List (Lexeme Symbol) → Prop
  | .operand, _, ts, rest => ∃ t, ts = [t] ∧ Settled 4 t rest
  | .expression power, _, ts, rest => Settles power ts rest
  | .operations power left, ls, ts, rest =>
    ∀ t, left = [t] → Settled power t ls → ∃ u, ts = [u] ∧ Settled power u rest ∧ Weaker power rest

/-- What is no BIN_EXPR is settled everywhere. -/
lemma settled_of_kind (ht : Operand t) (hshaped : Shaped t) (hk : t.kind ≠ Symbol.binary.kind) :
    Settled power t rest :=
  ⟨ht, hshaped, fun h => absurd h hk, fun h => absurd h (not_isSum_of_kind hk)⟩

lemma Settled.not_binary (h : Settled power t rest) (hpower : 4 ≤ power) :
    t.kind ≠ Symbol.binary.kind := by
  intro hk
  have := h.binary hk
  omega

lemma Settled.of_four (h : Settled 4 t rest) : Settled power t rest' :=
  settled_of_kind h.operand h.shaped (h.not_binary (Nat.le_refl 4))

lemma settled_error (hshape : Shape .error ts) (hts : ∀ t ∈ ts, Shaped t) :
    Settled power (.node Symbol.error.kind ts) rest :=
  settled_of_kind (.node (s := .error) (.inr (.inr (.inr rfl))) ts) (.node hshape hts)
    (show Symbol.error.kind ≠ Symbol.binary.kind by decide)

lemma settled_gap : Settled power gap rest := settled_error .gap (List.forall_mem_nil _)

/-- An atom stands for itself. -/
lemma settled_atom (h : l.symbol = .number ∨ l.symbol = .ident) : Settled power l.tree rest := by
  refine settled_of_kind (.token h l.text) (.token _ _) ?_
  change Symbol.kind l.symbol ≠ _
  rcases h with h | h <;> rw [h] <;> decide

/-- The trees of an expression are well shaped. -/
lemma Settles.shaped (h : Settles power ts rest) : ∀ t ∈ ts, Shaped t := by
  obtain ⟨⟨blanks, t, rfl, hblank, ht⟩, -⟩ := h
  exact List.forall_mem_append.mpr ⟨shaped_of_blank hblank, List.forall_mem_singleton.mpr ht.shaped⟩

/-- A sign takes an operand that no operator has bound. -/
lemma Settles.signed (h : Settles signPower ts mid) (hl : l.symbol = .plus ∨ l.symbol = .minus) :
    Settled power (.node Symbol.signed.kind (l.tree :: ts)) rest := by
  have hbelow : ∀ c ∈ l.tree :: ts, Shaped c := List.forall_mem_cons.mpr ⟨.token _ _, h.shaped⟩
  obtain ⟨⟨blanks, t, rfl, hblank, ht⟩, -⟩ := h
  have hshape : Shape .signed (.token l.symbol.kind l.text :: blanks ++ [t]) :=
    .signed hl hblank ht.operand (ht.not_binary (by decide))
  exact settled_of_kind (.node (s := .signed) (.inr (.inl rfl)) _) (.node hshape hbelow)
    (show Symbol.signed.kind ≠ Symbol.binary.kind by decide)

/-- Parentheses take any expression, and a gap where they are not closed. -/
lemma Settles.parens (h : Settles 0 ts mid) (hl : l.symbol = .leftParen) :
    Settled power (.node Symbol.parens.kind (l.tree :: ts ++ (closing mid).1)) rest := by
  have hinner := h.shaped
  obtain ⟨⟨blanks, t, rfl, hblank, ht⟩, -⟩ := h
  refine settled_of_kind (.node (s := .parens) (.inr (.inr (.inl rfl))) _) ?_
    (show Symbol.parens.kind ≠ Symbol.binary.kind by decide)
  rw [tree_of_symbol hl]
  by_cases hr : next? mid = some .rightParen
  · obtain ⟨r, after, hpend, hsymbol⟩ := pending_eq_of_next? hr
    rw [closing, ifNext_of_eq hpend hsymbol, tree_of_symbol hsymbol]
    have hlead := blank_leading mid
    have hshape : Shape .parens (.token Symbol.leftParen.kind l.text :: blanks ++ t :: (leading mid).map tree ++
        [.token Symbol.rightParen.kind r.text]) := .parens hblank ht.operand hlead
    refine .node (by simpa using hshape) ?_
    rw [List.forall_mem_append, List.forall_mem_append, List.forall_mem_cons]
    exact ⟨⟨.token _ _, hinner⟩, shaped_of_blank hlead, List.forall_mem_singleton.mpr (.token _ _)⟩
  · rw [closing, ifNext_of_ne hr]
    have hshape : Shape .parens (.token Symbol.leftParen.kind l.text :: blanks ++ [t, Calc.gap]) :=
      .unclosed hblank ht.operand
    refine .node (by simpa using hshape) ?_
    rw [List.forall_mem_append, List.forall_mem_cons]
    exact ⟨⟨.token _ _, hinner⟩, List.forall_mem_singleton.mpr (.node .gap (List.forall_mem_nil _))⟩

/-- An operator takes what is on its left and an expression of its right power. -/
lemma Settled.operation (h : Settled power t ls) {low high : Nat} (next : pending ls = op :: mid)
    (binds : bindingPower? op.symbol = some (low, high)) (strong : power ≤ low)
    (hright : Settles high ts rest) :
    Settled power (.node Symbol.binary.kind ([t] ++ (leading ls).map tree ++ op.tree :: ts)) rest := by
  have hlead := blank_leading ls
  have hbelow : ∀ c ∈ [t] ++ (leading ls).map tree ++ op.tree :: ts, Shaped c := by
    refine List.forall_mem_append.mpr ⟨List.forall_mem_append.mpr ⟨?_, shaped_of_blank hlead⟩, ?_⟩
    · exact List.forall_mem_singleton.mpr h.shaped
    · exact List.forall_mem_cons.mpr ⟨.token _ _, hright.shaped⟩
  have hoperand : Operand (.node Symbol.binary.kind ([t] ++ (leading ls).map tree ++ op.tree :: ts)) :=
    .node (s := .binary) (.inl rfl) _
  obtain ⟨⟨blanks, u, rfl, hblank, hu⟩, hweaker⟩ := hright
  rcases bindingPower?_cases binds with ⟨hs, rfl, rfl⟩ | ⟨hs, rfl, rfl⟩
  · have hsecond : ¬ IsSum u := by
      intro hsum
      have := (hu.sum hsum).1
      omega
    have hshape : Shape .binary (t :: (leading ls).map tree ++ op.tree :: blanks ++ [u]) :=
      .sum h.operand hlead hs hblank hu.operand hsecond
    exact ⟨hoperand, .node (by simpa [tree_of_symbol rfl] using hshape) hbelow,
      fun _ => Nat.le_trans strong (by decide), fun _ => ⟨strong, hweaker⟩⟩
  · -- after a sum no operator follows that binds like this one
    have hfirst : ¬ IsSum t := by
      intro hsum
      have := (h.sum hsum).2 3 4 (by rw [next?_of_pending next]; exact binds)
      omega
    have hshape : Shape .binary (t :: (leading ls).map tree ++ op.tree :: blanks ++ [u]) :=
      .product h.operand hlead hs hblank hu.operand hfirst (hu.not_binary (Nat.le_refl 4))
    have hnot : ¬ IsSum (.node Symbol.binary.kind (t :: (leading ls).map tree ++ op.tree :: blanks ++ [u])) :=
      not_isSum_product h.operand hlead hs hblank hu.operand
    refine ⟨hoperand, .node (by simpa [tree_of_symbol rfl] using hshape) hbelow, fun _ => strong, ?_⟩
    intro hsum
    exact absurd (by simpa [tree_of_symbol rfl] using hsum) hnot

lemma weaker_of_ends (h : next? ls = none ∨ next? ls = some .rightParen) : Weaker power (pending ls) := by
  intro low high hb
  rw [next?_pending] at hb
  rcases h with h | h <;> rw [h] at hb <;> cases hb

/-- A token that starts no operand and closes nothing. -/
lemma misplaced_of_lexical {s : Symbol} (hs : s.isLexical = true) (visible : s.isTrivia = false)
    (starts : startsOperand s = false) : s = .star ∨ s = .slash ∨ s = .rightParen ∨ s = .unknown := by
  cases s <;> simp_all [Symbol.isLexical, Symbol.isTrivia, startsOperand]

lemma settled_stray (hl : l.symbol.isLexical = true) (visible : l.symbol.isTrivia = false)
    (starts : startsOperand l.symbol = false) :
    Settled power (.node Symbol.error.kind [l.tree]) rest :=
  settled_error (.stray (misplaced_of_lexical hl visible starts))
    (List.forall_mem_singleton.mpr (.token _ _))

/-- Every reading gives one operand for its goal, with trivia before it. The induction is on the reading;
what `Settles` says of the lexemes left is what the next operator needs. -/
theorem Reads.shapes (h : Reads g ls ts rest) (hls : Lexical ls) : g.Shapes ls ts rest := by
  induction h with
  | @gap power ls ends => exact ⟨⟨_, Calc.gap, rfl, blank_leading ls, settled_gap⟩, weaker_of_ends ends⟩
  | @expression power ls ts mid out rest operand operations iho ihs =>
    have hpending := hls.suffix (suffix_pending ls)
    obtain ⟨t, rfl, ht⟩ := iho hpending
    obtain ⟨u, rfl, hu, hweaker⟩ := ihs (hpending.suffix operand.suffix) t rfl ht.of_four
    exact ⟨⟨_, u, rfl, blank_leading ls, hu⟩, hweaker⟩
  | atom atom => exact ⟨_, rfl, settled_atom atom⟩
  | parens left inner ih => exact ⟨_, rfl, (ih (hls.suffix (List.suffix_cons _ _))).parens left⟩
  | signed sign inner ih => exact ⟨_, rfl, (ih (hls.suffix (List.suffix_cons _ _))).signed sign⟩
  | stray visible starts right =>
    exact ⟨_, rfl, settled_stray (hls _ List.mem_cons_self) visible starts⟩
  | stop weaker => exact fun t ht hsettled => ⟨t, ht, hsettled, weaker⟩
  | @operation power left ls op after low high ts mid out rest next binds strong right more ihr ihm =>
    rintro t rfl ht
    have hafter := hls.suffix (suffix_of_pending next)
    exact ihm (hafter.suffix right.suffix) _ rfl (ht.operation next binds strong (ihr hafter))

/-- What may stand under the root: an operand or white space, well shaped. -/
structure RootItem (t : Tree) : Prop where
  shaped : Shaped t
  sort : Operand t ∨ Blank [t]

lemma item_of_blank (h : Blank ts) : ∀ t ∈ ts, RootItem t :=
  fun t ht => ⟨shaped_of_blank h t ht, .inr (List.forall_mem_singleton.mpr (h t ht))⟩

lemma Settled.item (h : Settled power t rest) : RootItem t := ⟨h.shaped, .inl h.operand⟩

/-- All trees of a text may stand under the root. -/
theorem Items.shapes (h : Items ls ts) (hls : Lexical ls) : ∀ t ∈ ts, RootItem t := by
  induction h with
  | @done ls ends => exact item_of_blank (blank_leading ls)
  | @expression ls s ts rest us next starts item items ih =>
    have hpending := hls.suffix (suffix_pending ls)
    obtain ⟨⟨blanks, t, rfl, hblank, ht⟩, -⟩ := item.shapes hpending
    have hmore := ih (hpending.suffix item.suffix)
    have hitem := List.forall_mem_append.mpr ⟨item_of_blank hblank, List.forall_mem_singleton.mpr ht.item⟩
    exact List.forall_mem_append.mpr
      ⟨List.forall_mem_append.mpr ⟨item_of_blank (blank_leading ls), hitem⟩, hmore⟩
  | @stray ls l rest us next starts items ih =>
    have hl := hls l ((suffix_pending ls).subset (next ▸ List.mem_cons_self))
    have hstray : Settled 0 _ rest := settled_stray hl (not_trivia_of_pending next) starts
    have hmore := ih (hls.suffix (suffix_of_pending next))
    exact List.forall_mem_append.mpr
      ⟨item_of_blank (blank_leading ls), List.forall_mem_cons.mpr ⟨hstray.item, hmore⟩⟩

/-- Every text has a tree, and every node of it has the children that its symbol promises, in the layers
of precedence. -/
theorem parse_shaped (src : Bytes) (cache : Cache) :
    ∃ tree, (parse src cache .never).result = .ok tree ∧ Shaped tree := by
  obtain ⟨ts, hitems, hparse⟩ := parse_items src cache
  have hts := hitems.shapes (lexical_lex src)
  exact ⟨_, hparse, .node (.root fun t ht => (hts t ht).sort) fun t ht => (hts t ht).shaped⟩

end Readings

end LosslessTree.Calc
