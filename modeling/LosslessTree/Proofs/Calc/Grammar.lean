import LosslessTree.Proofs.Calc.Reading
import LosslessTree.Proofs.Tree.Content

/-! The grammar of arithmetic expressions, and that the parser accepts exactly it. Binding powers and
the layers of the grammar meet at one place: an expression read with some power is derived from the
nonterminal `level` gives for that power. -/
namespace LosslessTree.Calc
open Lexeme

/-- The lexemes without white space. -/
def significant (ls : List (Lexeme Symbol)) : List (Lexeme Symbol) :=
  ls.filter fun l => l.symbol ≠ .whitespace

/-- The trees without white space. -/
def bare (ts : List Tree) : List Tree := ts.flatMap (Tree.prune (· == Symbol.whitespace.kind))

/-- No ERROR node is among the trees or below them. -/
def Clean (ts : List Tree) : Prop := Symbol.error.kind ∉ ts.flatMap Tree.nodeKinds

inductive Nonterminal where
  | sum | product | factor

/-- The lexemes derived from a nonterminal, with their tree. A sum is `product ((+|-) product)*`, a
product is `factor ((*|/) factor)*`, and both take what they have so far for their left side. -/
inductive Derives : Nonterminal → List (Lexeme Symbol) → Tree → Prop
  | atom {l} (atom : l.symbol = .number ∨ l.symbol = .ident) : Derives .factor [l] l.tree
  | parens {l ls t r} (left : l.symbol = .leftParen) (inner : Derives .sum ls t)
      (right : r.symbol = .rightParen) :
      Derives .factor (l :: ls ++ [r]) (.node Symbol.parens.kind [l.tree, t, r.tree])
  | signed {l ls t} (sign : l.symbol = .plus ∨ l.symbol = .minus) (inner : Derives .factor ls t) :
      Derives .factor (l :: ls) (.node Symbol.signed.kind [l.tree, t])
  | factor {ls t} (factor : Derives .factor ls t) : Derives .product ls t
  | multiply {ls t op rs u} (left : Derives .product ls t)
      (times : op.symbol = .star ∨ op.symbol = .slash) (right : Derives .factor rs u) :
      Derives .product (ls ++ op :: rs) (.node Symbol.binary.kind [t, op.tree, u])
  | product {ls t} (product : Derives .product ls t) : Derives .sum ls t
  | add {ls t op rs u} (left : Derives .sum ls t)
      (plus : op.symbol = .plus ∨ op.symbol = .minus) (right : Derives .product rs u) :
      Derives .sum (ls ++ op :: rs) (.node Symbol.binary.kind [t, op.tree, u])

section
variable {l : Lexeme Symbol} {ls more : List (Lexeme Symbol)}

lemma significant_eq_visible (ls : List (Lexeme Symbol)) : significant ls = visible ls :=
  List.filter_congr fun l _ => by cases l.symbol <;> rfl

lemma significant_cons (h : l.symbol.isTrivia = false) (ls : List (Lexeme Symbol)) :
    significant (l :: ls) = l :: significant ls := by
  simp_all [significant, Symbol.isTrivia]

lemma significant_pending (ls : List (Lexeme Symbol)) : significant (pending ls) = significant ls := by
  rw [significant_eq_visible, significant_eq_visible, visible_pending]

/-- What is pending is the first significant lexeme and what comes after it. -/
lemma significant_of_pending (h : pending ls = l :: more) : significant ls = l :: significant more := by
  rw [significant_eq_visible, significant_eq_visible, visible_of_pending h]

lemma pending_of_significant (h : significant ls = l :: more) :
    ∃ after, pending ls = l :: after ∧ significant after = more := by
  simp only [significant_eq_visible] at h ⊢
  exact pending_of_visible h

lemma next?_eq_head? (ls : List (Lexeme Symbol)) : next? ls = (significant ls).head?.map Lexeme.symbol := by
  cases hp : pending ls with
  | nil => rw [← significant_pending, next?, hp]; rfl
  | cons l more => rw [significant_of_pending hp, next?, hp]; rfl

@[simp] lemma bare_nil : bare [] = [] := rfl

@[simp] lemma bare_append (ts us : List Tree) : bare (ts ++ us) = bare ts ++ bare us := List.flatMap_append

@[simp] lemma bare_node (k : Kind) (ts us : List Tree) :
    bare (.node k ts :: us) = .node k (bare ts) :: bare us := by
  simp [bare]

lemma kind_beq_whitespace (s : Symbol) : (Symbols.kind s == Symbol.whitespace.kind) = s.isTrivia := by
  cases s <;> rfl

lemma bare_token (h : l.symbol.isTrivia = false) (ts : List Tree) :
    bare (l.tree :: ts) = l.tree :: bare ts := by
  simp [bare, tree, kind_beq_whitespace, h]

lemma bare_token_of_trivia (h : l.symbol.isTrivia = true) (ts : List Tree) :
    bare (l.tree :: ts) = bare ts := by
  simp [bare, tree, kind_beq_whitespace, h]

@[simp] lemma bare_leading (ls : List (Lexeme Symbol)) : bare ((leading ls).map tree) = [] := by
  induction ls with
  | nil => rfl
  | cons l ls ih =>
    by_cases h : Symbols.isTrivia l.symbol = true
    · rw [leading_cons_of_trivia h, List.map_cons, bare_token_of_trivia h, ih]
    · rw [leading_cons_of_not_trivia h]
      rfl

@[simp] lemma clean_nil : Clean [] := Tree.lacks_nil _

@[simp] lemma clean_append (ts us : List Tree) : Clean (ts ++ us) ↔ Clean ts ∧ Clean us :=
  Tree.lacks_append _ ts us

lemma clean_cons_cons (t u : Tree) (us : List Tree) : Clean (t :: u :: us) ↔ Clean [t] ∧ Clean (u :: us) :=
  clean_append [t] (u :: us)

@[simp] lemma clean_node (k : Kind) (ts us : List Tree) :
    Clean (.node k ts :: us) ↔ Symbol.error.kind ≠ k ∧ Clean ts ∧ Clean us :=
  Tree.lacks_node_cons _ k ts us

@[simp] lemma clean_token (l : Lexeme Symbol) (ts : List Tree) : Clean (l.tree :: ts) ↔ Clean ts :=
  Tree.lacks_token_cons _ _ l.text ts

@[simp] lemma not_clean_gap : ¬ Clean [gap] := by simp [gap]

/-- White space hides no ERROR node. -/
lemma clean_bare (ts : List Tree) : Clean (bare ts) ↔ Clean ts := by
  unfold Clean bare
  rw [List.flatMap_assoc, List.flatMap_congr fun t _ => Tree.nodeKinds_prune _ t]

end

lemma bindingPower?_cases {s : Symbol} {low high : Nat} (h : bindingPower? s = some (low, high)) :
    (s = .plus ∨ s = .minus) ∧ low = 1 ∧ high = 2 ∨ (s = .star ∨ s = .slash) ∧ low = 3 ∧ high = 4 := by
  cases s <;> cases h <;> simp

/-- What an expression of this power is derived from. -/
def level (power : Nat) : Nonterminal :=
  if 4 ≤ power then .factor else if 2 ≤ power then .product else .sum

section Soundness
variable {g : Goal} {power : Nat} {ls mid rest xs ws rs : List (Lexeme Symbol)} {ts : List Tree} {t u : Tree}

/-- A tree that operators of this power may take for their left side. A sum may only be taken where
no product goes on. -/
def Takes (power : Nat) (xs : List (Lexeme Symbol)) (t : Tree) (ls : List (Lexeme Symbol)) : Prop :=
  Derives .factor xs t ∨ power ≤ 3 ∧ Derives .product xs t ∨ power ≤ 1 ∧ Derives .sum xs t ∧ Weaker 2 ls

/-- What was taken up so far is an expression of this power. -/
lemma Takes.derives (h : Takes power xs t ls) : Derives (level power) xs t := by
  unfold level
  rcases h with hf | ⟨hp, h⟩ | ⟨hp, h, -⟩
  · split_ifs
    · exact hf
    · exact .factor hf
    · exact .product (.factor hf)
  · rw [if_neg (by omega)]
    split_ifs
    · exact h
    · exact .product h
  · rw [if_neg (by omega), if_neg (by omega)]
    exact h

/-- One operator with its right side makes a left side for the next operator. -/
lemma Takes.operation (h : Takes power ws t ls) {op : Lexeme Symbol} {low high : Nat}
    (hop : next? ls = some op.symbol) (hbinds : bindingPower? op.symbol = some (low, high))
    (hpower : power ≤ low) (hright : Derives (level high) rs u) (hmid : Weaker high mid) :
    Takes power (ws ++ op :: rs) (.node Symbol.binary.kind [t, op.tree, u]) mid := by
  rcases bindingPower?_cases hbinds with ⟨hs, rfl, rfl⟩ | ⟨hs, rfl, rfl⟩
  · have hsum : Derives .sum ws t := by
      rcases h with h | ⟨-, h⟩ | ⟨-, h, -⟩
      · exact .product (.factor h)
      · exact .product h
      · exact h
    exact .inr (.inr ⟨hpower, .add hsum hs hright, hmid⟩)
  · have hproduct : Derives .product ws t := by
      rcases h with h | ⟨-, h⟩ | ⟨-, -, hweaker⟩
      · exact .factor h
      · exact h
      · have := hweaker 3 4 (by rw [hop]; exact hbinds)
        omega
    exact .inr (.inl ⟨hpower, .multiply hproduct hs hright⟩)

/-- What a reading without ERROR nodes has read. -/
def Sound : Goal → List (Lexeme Symbol) → List Tree → List (Lexeme Symbol) → Prop
  | .operand, ls, ts, rest =>
    ∃ xs t, significant ls = xs ++ significant rest ∧ bare ts = [t] ∧ Derives .factor xs t
  | .expression power, ls, ts, rest =>
    ∃ xs t, significant ls = xs ++ significant rest ∧ bare ts = [t] ∧ Derives (level power) xs t ∧
      Weaker power rest
  | .operations power left, ls, ts, rest =>
    ∀ ws t, bare left = [t] → Takes power ws t ls →
      ∃ xs u, significant ls = xs ++ significant rest ∧ bare ts = [u] ∧ Derives (level power) (ws ++ xs) u ∧
        Weaker power rest

/-- What was read before a goal stays in the trees, with its ERROR nodes. -/
lemma Reads.clean_before (h : Reads g ls ts rest) (hts : Clean ts) : Clean g.before := by
  induction h with
  | stop weaker => exact hts
  | operation next binds strong right more ihr ihm =>
    have hnode := ihm hts
    simp only [Goal.before, clean_node, clean_append] at hnode
    exact hnode.2.1.1.1
  | _ => exact clean_nil

/-- Where the next lexeme is a closing parenthesis, it is taken. -/
lemma closing_of_significant {r : Lexeme Symbol} (h : significant ls = r :: rest)
    (hr : r.symbol = .rightParen) :
    bare (closing ls).1 = [r.tree] ∧ significant (closing ls).2 = rest := by
  obtain ⟨after, hpend, rfl⟩ := pending_of_significant h
  rw [closing, ifNext_of_eq hpend hr]
  simp [bare_token (not_trivia_of_pending hpend)]

/-- A closing parenthesis is taken, or a gap stands for it. -/
lemma closing_cases (ls : List (Lexeme Symbol)) :
    (∃ r, r.symbol = .rightParen ∧ significant ls = r :: significant (closing ls).2 ∧
      bare (closing ls).1 = [r.tree]) ∨ (closing ls).1 = [gap] := by
  by_cases hnext : next? ls = some .rightParen
  · obtain ⟨r, after, hpend, hr⟩ := pending_eq_of_next? hnext
    have hls := significant_of_pending hpend
    obtain ⟨htree, hrest⟩ := closing_of_significant hls hr
    exact .inl ⟨r, hr, by rw [hls, hrest], htree⟩
  · rw [closing, ifNext_of_ne hnext]
    exact .inr rfl

/-- Without a gap there is a closing parenthesis. -/
lemma closing_of_clean (h : Clean (closing ls).1) :
    ∃ r, r.symbol = .rightParen ∧ significant ls = r :: significant (closing ls).2 ∧
      bare (closing ls).1 = [r.tree] := by
  rcases closing_cases ls with hclosed | hgap
  · exact hclosed
  · rw [hgap] at h
    exact absurd h not_clean_gap

/-- A reading without ERROR nodes has read what the nonterminal of its power derives. -/
theorem Reads.sound (h : Reads g ls ts rest) (hclean : Clean ts) : Sound g ls ts rest := by
  induction h with
  | gap ends => simp at hclean
  | @expression power ls ts mid out rest operand operations iho ihs =>
    have hout := ((clean_append _ _).mp hclean).2
    obtain ⟨xs, t, hls, hts, hfactor⟩ := iho (operations.clean_before hout)
    obtain ⟨ys, u, hmid, hu, hderives, hrest⟩ := ihs hout xs t hts (.inl hfactor)
    refine ⟨xs ++ ys, u, ?_, by simpa using hu, hderives, hrest⟩
    rw [← significant_pending, hls, hmid, List.append_assoc]
  | @atom l rest atom =>
    have hvisible := Reads.operand_visible (.atom atom : Reads .operand (l :: rest) _ _)
    exact ⟨[l], l.tree, significant_cons hvisible rest, bare_token hvisible [], .atom atom⟩
  | @parens l ls ts mid left inner ih =>
    have hvisible := (Reads.parens left inner).operand_visible
    simp only [clean_node, List.cons_append, clean_token, clean_append] at hclean
    obtain ⟨xs, t, hls, hts, ht, -⟩ := ih hclean.2.1.1
    obtain ⟨r, hr, hmid, hclose⟩ := closing_of_clean hclean.2.1.2
    refine ⟨l :: xs ++ [r], _, ?_, ?_, .parens left ht hr⟩
    · rw [significant_cons hvisible, hls, hmid]
      simp
    · simp [bare_token hvisible, hts, hclose]
  | @signed l ls ts rest sign inner ih =>
    have hvisible := (Reads.signed sign inner).operand_visible
    simp only [clean_node, clean_token] at hclean
    obtain ⟨xs, t, hls, hts, ht, -⟩ := ih hclean.2.1
    refine ⟨l :: xs, _, ?_, ?_, .signed sign ht⟩
    · rw [significant_cons hvisible, hls, List.cons_append]
    · simp [bare_token hvisible, hts]
  | stray visible starts right => simp at hclean
  | @stop power left ls weaker =>
    intro ws t hleft h
    exact ⟨[], t, rfl, hleft, (List.append_nil ws).symm ▸ h.derives, weaker⟩
  | @operation power left ls op after low high ts mid out rest next binds strong right more ihr ihm =>
    intro ws t hleft h
    have hnode := more.clean_before hclean
    simp only [Goal.before, clean_node, clean_append, clean_token] at hnode
    obtain ⟨rs, u, hafter, hts, hright, hmid⟩ := ihr hnode.2.1.2
    have hbare : bare [.node Symbol.binary.kind (left ++ (leading ls).map tree ++ op.tree :: ts)] =
        [.node Symbol.binary.kind [t, op.tree, u]] := by
      simp [hleft, bare_token (not_trivia_of_pending next), hts]
    have hop : next? ls = some op.symbol := by rw [next?, next]; rfl
    obtain ⟨ys, v, hys, hout, hv, hrest⟩ := ihm hclean _ _ hbare (h.operation hop binds strong hright hmid)
    refine ⟨op :: rs ++ ys, v, ?_, hout, ?_, hrest⟩
    · rw [significant_of_pending next, hafter, hys]
      simp
    · rwa [List.append_assoc] at hv

/-- Items that leave nothing but white space have read nothing else. -/
lemma Items.significant_eq_nil (h : Items ls ts) (hclean : Clean ts) (hts : bare ts = []) :
    significant ls = [] := by
  cases h with
  | done ends =>
    rw [← significant_pending, pending_eq_nil_of_next? ends]
    rfl
  | expression next starts item items =>
    simp only [clean_append] at hclean
    obtain ⟨xs, t, -, ht, -⟩ := item.sound hclean.1.2
    simp [ht] at hts
  | stray next starts items => simp at hclean

/-- A text without ERROR nodes and with one item is derived from a sum. -/
lemma Items.sound (h : Items ls ts) (hclean : Clean ts) (hone : (bare ts).length = 1) :
    ∃ t, Derives .sum (significant ls) t := by
  cases h with
  | done ends => simp at hone
  | @expression _ s es rest us next starts item items =>
    simp only [clean_append] at hclean
    obtain ⟨xs, t, hls, ht, hsum, -⟩ := item.sound hclean.1.2
    have hus : bare us = [] := by simpa [ht] using hone
    rw [items.significant_eq_nil hclean.2 hus, List.append_nil, significant_pending] at hls
    exact ⟨t, hls ▸ hsum⟩
  | stray next starts items => simp at hclean

end Soundness

section Completeness
variable {n : Nonterminal} {power : Nat} {ls rest xs ahead : List (Lexeme Symbol)}
  {ts left out : List Tree} {t : Tree}

/-- A derivation begins with a lexeme that starts an operand. -/
lemma Derives.starts (h : Derives n xs t) : ∃ l ys, xs = l :: ys ∧ startsOperand l.symbol = true := by
  induction h with
  | @atom l atom => exact ⟨l, [], rfl, by rcases atom with h | h <;> rw [h] <;> rfl⟩
  | @parens l ls t r left inner right ih => exact ⟨l, ls ++ [r], rfl, by rw [left]; rfl⟩
  | @signed l ls t sign inner ih => exact ⟨l, ls, rfl, by rcases sign with h | h <;> rw [h] <;> rfl⟩
  | factor factor ih => exact ih
  | product product ih => exact ih
  | multiply left times right ih _ =>
    obtain ⟨l, ys, rfl, hl⟩ := ih
    exact ⟨l, _, rfl, hl⟩
  | add left plus right ih _ =>
    obtain ⟨l, ys, rfl, hl⟩ := ih
    exact ⟨l, _, rfl, hl⟩

/-- A derivation has no ERROR nodes. -/
lemma Derives.clean (h : Derives n xs t) : Clean [t] := by
  induction h with
  | atom atom => simp
  | parens left inner right ih => simp [clean_cons_cons, ih, Symbol.kind]
  | signed sign inner ih => simp [ih, Symbol.kind]
  | factor factor ih => exact ih
  | product product ih => exact ih
  | multiply left times right ihl ihr => simp [clean_cons_cons, ihl, ihr, Symbol.kind]
  | add left plus right ihl ihr => simp [clean_cons_cons, ihl, ihr, Symbol.kind]

lemma next?_of_significant {l : Lexeme Symbol} (h : significant ls = l :: rest) :
    next? ls = some l.symbol :=
  next?_of_visible ((significant_eq_visible ls).symm.trans h)

/-- No operator binds its left side tighter than 3. -/
lemma weaker_of_four_le (h : 4 ≤ power) (ls : List (Lexeme Symbol)) : Weaker power ls := by
  intro low high hb
  obtain ⟨s, -, hs⟩ := Option.bind_eq_some_iff.mp hb
  rcases bindingPower?_cases hs with ⟨-, rfl, -⟩ | ⟨-, rfl, -⟩ <;> omega

lemma weaker_cons {l : Lexeme Symbol} (hl : l.symbol.isTrivia = false)
    (h : ∀ low high, bindingPower? l.symbol = some (low, high) → low < power) (ls : List (Lexeme Symbol)) :
    Weaker power (l :: ls) := by
  intro low high hb
  rw [next?_of_significant (significant_cons hl ls)] at hb
  exact h low high hb

lemma Reads.stops (h : Reads (.operations power left) ls out rest) (hw : Weaker power ls) :
    out = left ∧ rest = ls := by
  cases h with
  | stop weaker => exact ⟨rfl, rfl⟩
  | @operation _ _ _ op after low high ts mid _ _ next binds strong right more =>
    have hlow := hw low high (by rw [next?, next]; exact binds)
    omega

/-- Where an operator binds tightly enough, a reading goes on with it. -/
lemma Reads.goes_on (h : Reads (.operations power left) ls out rest) {op : Lexeme Symbol}
    (hls : significant ls = op :: ahead) {low high : Nat}
    (hbinds : bindingPower? op.symbol = some (low, high)) (hpower : power ≤ low) :
    ∃ after ts mid, significant after = ahead ∧ Reads (.expression high) after ts mid ∧
      Reads (.operations power
        [.node Symbol.binary.kind (left ++ (leading ls).map tree ++ op.tree :: ts)]) mid out rest := by
  cases h with
  | stop weaker =>
    have hlow := weaker low high (by rw [next?_of_significant hls]; exact hbinds)
    omega
  | @operation _ _ _ op' after low' high' ts mid _ _ next binds strong right go =>
    rw [significant_of_pending next] at hls
    cases hls
    rw [hbinds] at binds
    cases binds
    exact ⟨after, ts, mid, rfl, right, go⟩

/-- A reading has come to a tree, with these significant lexemes ahead, and goes on with operators. -/
def Continues (power : Nat) (t : Tree) (ahead : List (Lexeme Symbol)) (out : List Tree)
    (rest : List (Lexeme Symbol)) : Prop :=
  ∃ left mid more, bare left = [t] ∧ significant mid = ahead ∧
    Reads (.operations power left) mid more rest ∧ bare out = bare more

lemma weaker_significant (ls : List (Lexeme Symbol)) : Weaker power (significant ls) ↔ Weaker power ls := by
  have hidem : significant (significant ls) = significant ls := by simp [significant]
  rw [Weaker, next?_eq_head?, hidem, ← next?_eq_head?, Weaker]

lemma Continues.stops (h : Continues power t ahead out rest) (hw : Weaker power ahead) :
    bare out = [t] ∧ significant rest = ahead := by
  obtain ⟨left, mid, more, hleft, rfl, hreads, hout⟩ := h
  obtain ⟨rfl, rfl⟩ := hreads.stops ((weaker_significant _).mp hw)
  exact ⟨hout.trans hleft, rfl⟩

/-- One operator is taken with its right side. -/
lemma Continues.operation {op : Lexeme Symbol} {low high : Nat} {rs : List (Lexeme Symbol)} {u : Tree}
    (h : Continues power t (op :: rs ++ ahead) out rest) (hbinds : bindingPower? op.symbol = some (low, high))
    (hpower : power ≤ low)
    (hright : ∀ ls ts mid, Reads (.expression high) ls ts mid → significant ls = rs ++ ahead →
      bare ts = [u] ∧ significant mid = ahead) :
    Continues power (.node Symbol.binary.kind [t, op.tree, u]) ahead out rest := by
  obtain ⟨left, mid, more, hleft, hmid, hreads, hout⟩ := h
  obtain ⟨after, ts, mid', hafter, hexpression, hgo⟩ := hreads.goes_on hmid hbinds hpower
  obtain ⟨hts, hmid'⟩ := hright after ts mid' hexpression hafter
  refine ⟨_, mid', more, ?_, hmid', hgo, hout⟩
  obtain ⟨after', hpend, -⟩ := pending_of_significant hmid
  simp [hleft, bare_token (not_trivia_of_pending hpend), hts]

/-- Every reading of a text that begins with a derivation finds it. A sum ends where no product
goes on; a product ends anywhere. -/
def Complete : Nonterminal → List (Lexeme Symbol) → Tree → Prop
  | .factor, xs, t => ∀ {ls ts rest ahead}, Reads .operand ls ts rest → significant ls = xs ++ ahead →
    bare ts = [t] ∧ significant rest = ahead
  | .product, xs, t => ∀ {power ls out rest ahead}, power ≤ 3 → Reads (.expression power) ls out rest →
    significant ls = xs ++ ahead → Continues power t ahead out rest
  | .sum, xs, t => ∀ {power ls out rest ahead}, power ≤ 1 → Reads (.expression power) ls out rest →
    significant ls = xs ++ ahead → Weaker 2 ahead → Continues power t ahead out rest

/-- An expression that begins with a factor goes on after it. -/
lemma Derives.continues (h : Derives .factor xs t) (hc : Complete .factor xs t)
    (hreads : Reads (.expression power) ls out rest) (hls : significant ls = xs ++ ahead) :
    Continues power t ahead out rest := by
  cases hreads with
  | gap ends =>
    obtain ⟨l, ys, rfl, hl⟩ := h.starts
    rw [next?_of_significant hls] at ends
    rcases ends with hn | hn
    · cases hn
    · rw [Option.some.inj hn] at hl
      cases hl
  | @expression _ _ ts mid more _ operand operations =>
    rw [← significant_pending] at hls
    obtain ⟨hts, hmid⟩ := hc operand hls
    exact ⟨ts, mid, more, hts, hmid, operations, by simp⟩

/-- Where nothing can go on after a factor, it is the whole expression. -/
lemma Derives.whole (h : Derives .factor xs t) (hc : Complete .factor xs t) (hpower : 4 ≤ power)
    (hreads : Reads (.expression power) ls out rest)
    (hls : significant ls = xs ++ ahead) : bare out = [t] ∧ significant rest = ahead :=
  (h.continues hc hreads hls).stops (weaker_of_four_le hpower ahead)

/-- An operand begins with its first significant lexeme. -/
lemma Reads.operand_eq {l : Lexeme Symbol} (h : Reads .operand ls ts rest)
    (hls : significant ls = l :: ahead) :
    ∃ after, ls = l :: after ∧ significant after = ahead ∧ l.symbol.isTrivia = false := by
  cases ls with
  | nil => cases hls
  | cons l' after =>
    have hvisible := h.operand_visible
    rw [significant_cons hvisible] at hls
    cases hls
    exact ⟨after, rfl, rfl, hvisible⟩

/-- What begins with a derivation is read as it was derived. The induction is on the derivation, and a
reading never has a choice: the next significant lexeme tells it what to do. -/
theorem Derives.complete (h : Derives n xs t) : Complete n xs t := by
  induction h with
  | @atom l atom =>
    intro ls ts rest ahead hreads hls
    obtain ⟨after, rfl, hafter, hvisible⟩ := hreads.operand_eq hls
    cases hreads with
    | atom _ => exact ⟨bare_token hvisible [], hafter⟩
    | _ => rcases atom with h | h <;> simp_all [startsOperand]
  | @parens l xs t r left inner right ih =>
    intro ls ts rest ahead hreads hls
    rw [List.cons_append, List.cons_append, List.append_assoc, List.singleton_append] at hls
    obtain ⟨after, rfl, hafter, hvisible⟩ := hreads.operand_eq hls
    cases hreads with
    | @parens _ _ ts mid _ hinner =>
      have hweaker : ∀ power, Weaker power (r :: ahead) :=
        fun power => weaker_cons (by rw [right]; rfl) (by simp [right, bindingPower?]) ahead
      obtain ⟨hts, hmid⟩ := (ih (by decide) hinner hafter (hweaker 2)).stops (hweaker 0)
      obtain ⟨hclose, hrest⟩ := closing_of_significant hmid right
      refine ⟨?_, hrest⟩
      simp [bare_token hvisible, hts, hclose]
    | _ => simp_all [startsOperand]
  | @signed l xs t sign inner ih =>
    intro ls ts rest ahead hreads hls
    obtain ⟨after, rfl, hafter, hvisible⟩ := hreads.operand_eq hls
    cases hreads with
    | signed _ hinner =>
      obtain ⟨hts, hrest⟩ := inner.whole ih (by decide) hinner hafter
      refine ⟨?_, hrest⟩
      simp [bare_token hvisible, hts]
    | _ => rcases sign with h | h <;> simp_all [startsOperand]
  | factor factor ih =>
    intro power ls out rest ahead hpower hreads hls
    exact factor.continues ih hreads hls
  | product product ih =>
    intro power ls out rest ahead hpower hreads hls hahead
    exact ih (Nat.le_trans hpower (by decide)) hreads hls
  | @multiply xs t op rs u left times right ihl ihr =>
    intro power ls out rest ahead hpower hreads hls
    have hbinds : bindingPower? op.symbol = some (3, 4) := by rcases times with h | h <;> rw [h] <;> rfl
    rw [List.append_assoc] at hls
    refine (ihl hpower hreads hls).operation hbinds hpower ?_
    intro ls ts mid hexpression hafter
    exact right.whole ihr (Nat.le_refl 4) hexpression hafter
  | @add xs t op rs u left plus right ihl ihr =>
    intro power ls out rest ahead hpower hreads hls hahead
    have hbinds : bindingPower? op.symbol = some (1, 2) := by rcases plus with h | h <;> rw [h] <;> rfl
    rw [List.append_assoc] at hls
    refine (ihl hpower hreads hls ?_).operation hbinds hpower ?_
    · refine weaker_cons (by rcases plus with h | h <;> rw [h] <;> rfl) ?_ (rs ++ ahead)
      rintro low high hb
      rw [hbinds] at hb
      cases hb
      decide
    · intro ls ts mid hexpression hafter
      exact (ihr (by decide) hexpression hafter).stops hahead

/-- Where only white space is left there is no further item. -/
lemma Items.bare_eq_nil (h : Items ls ts) (hls : significant ls = []) : bare ts = [] := by
  have hnext : next? ls = none := by rw [next?_eq_head?, hls]; rfl
  cases h with
  | done ends => exact bare_leading ls
  | expression next starts item items => simp [hnext] at next
  | stray next starts items => simp [next?, next] at hnext

/-- A text that is derived from a sum has that tree for its only item. -/
lemma Items.complete (h : Items ls ts) (ht : Derives .sum (significant ls) t) : bare ts = [t] := by
  obtain ⟨l, ys, hls, hl⟩ := ht.starts
  have hnext := next?_of_significant hls
  cases h with
  | done ends =>
    rw [hnext] at ends
    cases ends
  | @expression _ s es rest us next starts item items =>
    have hends : ∀ power, Weaker power [] := by simp [Weaker, next?, pending]
    have hitem : significant (pending ls) = significant ls ++ [] := by
      rw [significant_pending, List.append_nil]
    obtain ⟨hes, hrest⟩ := (ht.complete (by decide) item hitem (hends 2)).stops (hends 0)
    simp [hes, items.bare_eq_nil hrest]
  | @stray _ l' rest us next starts items =>
    rw [next?, next, List.head?_cons, Option.map_some, Option.some.injEq] at hnext
    rw [hnext, hl] at starts
    cases starts

end Completeness

def isBlank (t : Tree) : Bool := t.isToken && t.kind == Symbol.whitespace.kind

/-- The tree has no ERROR node, and one child apart from white space. -/
def Accepted (t : Tree) : Prop :=
  Symbol.error.kind ∉ t.nodeKinds ∧ (t.children.filter fun c => !isBlank c).length = 1

lemma length_bare (ts : List Tree) : (bare ts).length = (ts.filter fun t => !isBlank t).length := by
  induction ts with
  | nil => rfl
  | cons t ts ih =>
    cases t with
    | token k s =>
      by_cases h : k = Symbol.whitespace.kind <;>
        simp_all [bare, isBlank, Tree.isToken, Tree.isNode, Tree.kind]
    | node k cs => simp_all [isBlank, Tree.isToken, Tree.isNode]

lemma accepted_root_iff (ts : List Tree) :
    Accepted (.node Symbol.root.kind ts) ↔ Clean ts ∧ (bare ts).length = 1 := by
  simp [Accepted, Clean, length_bare, Tree.children, Symbol.kind]

/-- The parser accepts exactly the texts that are derived from a sum once white space is left out. The
tree of such a text is, without white space, its only derivation. -/
theorem parse_accepts_iff (src : Bytes) (cache : Cache) :
    ∃ tree, (parse src cache .never).result = .ok tree ∧
      (Accepted tree ↔ ∃ t, Derives .sum (significant (lex src)) t) ∧
      (Accepted tree → ∃ t, bare [tree] = [.node Symbol.root.kind [t]] ∧
        ∀ u, Derives .sum (significant (lex src)) u ↔ u = t) := by
  obtain ⟨ts, hitems, hparse⟩ := parse_items src cache
  have hsound : Accepted (.node Symbol.root.kind ts) → ∃ t, Derives .sum (significant (lex src)) t := by
    intro h
    obtain ⟨hclean, hone⟩ := (accepted_root_iff ts).mp h
    exact hitems.sound hclean hone
  refine ⟨_, hparse, ⟨hsound, ?_⟩, ?_⟩
  · rintro ⟨t, ht⟩
    have hts := hitems.complete ht
    rw [accepted_root_iff, ← clean_bare, hts]
    exact ⟨ht.clean, rfl⟩
  · intro h
    obtain ⟨t, ht⟩ := hsound h
    have hts := hitems.complete ht
    refine ⟨t, by simp [hts], fun u => ⟨fun hu => ?_, fun hu => hu ▸ ht⟩⟩
    have hus := hitems.complete hu
    rw [hts] at hus
    exact (List.singleton_inj.mp hus).symm

end LosslessTree.Calc
