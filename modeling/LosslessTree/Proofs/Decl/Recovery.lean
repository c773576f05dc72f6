import LosslessTree.Proofs.Decl.Revision
import LosslessTree.Proofs.Tree.Path

/-! What recovery from errors leaves behind. Whatever a text holds, its keywords begin its declarations and
stand nowhere else; fields stand in declarations, and an ERROR node takes at most one token. -/
namespace LosslessTree.Decl
open Lexeme

/-- A node of this symbol. -/
def isNodeOf (s : Symbol) (t : Tree) : Bool := t.isNode && t.kind == s.kind

/-- A token of this symbol. -/
def isTokenOf (s : Symbol) (t : Tree) : Bool := t.isToken && t.kind == s.kind

/-- The shape that the tree of these lexemes has even if they make no sense. -/
structure Recovers (ls : List (Lexeme Symbol)) (t : Tree) : Prop where
  root : isNodeOf .sourceFile t = true
  tokens : t.leaves = ls.map leaf
  /-- A declaration is a child of the root. -/
  struct_child : ∀ path s, t.at? path = some s → isNodeOf .struct s = true → ∃ i, path = [i]
  /-- The first children of the declarations are the keywords of the text, in order. -/
  keywords : (t.children.filter (isNodeOf .struct)).map (·.children.head?) =
    (ls.filter (·.symbol = .structKeyword)).map fun l => some l.tree
  /-- A keyword is the first child of a declaration. -/
  keyword_first : ∀ path k, t.at? path = some k → isTokenOf .structKeyword k = true →
    ∃ i s, path = [i, 0] ∧ t.at? [i] = some s ∧ isNodeOf .struct s = true
  /-- No keyword is hidden in another node. -/
  keyword_free : ∀ path u, t.at? path = some u →
    (∃ s ∈ [Symbol.error, .field, .name, .type], isNodeOf s u = true) →
      ∀ l ∈ u.leaves, l.kind ≠ Symbol.structKeyword.kind
  /-- A field is a child of a declaration and starts with a name. -/
  field_child : ∀ path f, t.at? path = some f → isNodeOf .field f = true →
    (∃ i j s, path = [i, j] ∧ t.at? [i] = some s ∧ isNodeOf .struct s = true) ∧
      ∃ name, f.children.head? = some name ∧ isNodeOf .name name = true
  /-- An ERROR node is empty or holds a token that is not trivia. -/
  error_token : ∀ path e, t.at? path = some e → isNodeOf .error e = true →
    e.children = [] ∨ ∃ k text, e.children = [.token k text] ∧ isTriviaKind k = false

/-- Tokens other than keywords, gaps, and nodes over one such token. -/
inductive Piece : Tree → Prop
  | token {s : Symbol} {text : Bytes} (other : s ≠ .structKeyword) : Piece (.token s.kind text)
  | gap : Piece gap
  | stray {s : Symbol} {text : Bytes} (other : s ≠ .structKeyword) (visible : s.isTrivia = false) :
      Piece (.node Symbol.error.kind [.token s.kind text])
  | ident {s : Symbol} {text : Bytes} (named : s = .name ∨ s = .type) :
      Piece (.node s.kind [.token Symbol.ident.kind text])

/-- What stands in a declaration after its keyword. -/
inductive Part : Tree → Prop
  | piece {t : Tree} (piece : Piece t) : Part t
  | field {name : Tree} {ts : List Tree} (first : isNodeOf .name name = true)
      (pieces : ∀ t ∈ name :: ts, Piece t) : Part (.node Symbol.field.kind (name :: ts))

/-- What stands below the root. -/
inductive Item : Tree → Prop
  | piece {t : Tree} (piece : Piece t) : Item t
  | struct {text : Bytes} {ts : List Tree} (parts : ∀ t ∈ ts, Part t) :
      Item (.node Symbol.struct.kind (.token Symbol.structKeyword.kind text :: ts))

section Reading
variable {ls rest : List (Lexeme Symbol)} {ts : List Tree} {t : Tree} {l : Lexeme Symbol}

lemma piece_tree (h : l.symbol ≠ .structKeyword) : Piece l.tree := .token h

lemma pieces_leading (ls : List (Lexeme Symbol)) : ∀ t ∈ (leading ls).map tree, Piece t := by
  refine List.forall_mem_map.mpr fun l hl => piece_tree ?_
  intro hkeyword
  have htrivia := List.mem_takeWhile_imp hl
  rw [hkeyword] at htrivia
  cases htrivia

lemma pieces_append {us : List Tree} (hts : ∀ t ∈ ts, Piece t) (hus : ∀ t ∈ us, Piece t) :
    ∀ t ∈ ts ++ us, Piece t :=
  List.forall_mem_append.mpr ⟨hts, hus⟩

lemma pieces_singleton (h : Piece t) : ∀ u ∈ [t], Piece u := List.forall_mem_singleton.mpr h

lemma pieces_absent (ls : List (Lexeme Symbol)) : ∀ t ∈ (absent ls).1, Piece t :=
  pieces_append (pieces_leading ls) (pieces_singleton .gap)

lemma pieces_required (s : Symbol) {form : Tree → Tree}
    (hform : ∀ l : Lexeme Symbol, l.symbol = s → Piece (form l.tree)) (ls : List (Lexeme Symbol)) :
    ∀ t ∈ (required s form ls).1, Piece t := by
  by_cases hnext : next? ls = some s
  · obtain ⟨l, rest, hl, hs⟩ := pending_eq_of_next? hnext
    rw [required, ifNext_of_eq hl hs]
    exact pieces_append (pieces_leading ls) (pieces_singleton (hform l hs))
  · rw [required, ifNext_of_ne hnext]
    exact pieces_absent ls

lemma piece_ident {s : Symbol} (hs : s = .name ∨ s = .type) (hl : l.symbol = .ident) :
    Piece (.node s.kind [l.tree]) := by
  obtain ⟨x, text⟩ := l
  subst hl
  exact .ident hs

lemma pieces_named {s : Symbol} (hs : s = .name ∨ s = .type) (ls : List (Lexeme Symbol)) :
    ∀ t ∈ (named s ls).1, Piece t :=
  pieces_required .ident (fun _ => piece_ident hs) ls

lemma parts_of_pieces (h : ∀ t ∈ ts, Piece t) : ∀ t ∈ ts, Part t := fun t ht => .piece (h t ht)

/-- A field starts with its name. -/
lemma parts_fieldOf (hname : next? ls = some .ident) : ∀ t ∈ (fieldOf ls).1, Part t := by
  obtain ⟨l, rest, hl, hs⟩ := pending_eq_of_next? hname
  have hpending : pending (pending ls) = l :: rest := by rw [pending_pending, hl]
  have hfirst : named .name (pending ls) = ([.node Symbol.name.kind [l.tree]], rest) := by
    rw [named, required, ifNext_of_eq hpending hs, leading_of_pending_eq (pending_pending ls)]
    rfl
  refine List.forall_mem_append.mpr ⟨parts_of_pieces (pieces_leading ls), List.forall_mem_singleton.mpr ?_⟩
  rw [hfirst]
  refine .field rfl ?_
  have hcolon : ∀ t ∈ (required .colon id rest).1, Piece t :=
    pieces_required .colon (fun m hm => piece_tree (hm ▸ by decide)) rest
  have htype := pieces_named (s := .type) (.inr rfl) (required .colon id rest).2
  exact pieces_append (pieces_append (pieces_singleton (piece_ident (.inl rfl) hs)) hcolon) htype

lemma pieces_commaOf (ls : List (Lexeme Symbol)) : ∀ t ∈ (commaOf ls).1, Piece t := by
  by_cases hnext : next? ls = some .comma
  · obtain ⟨l, rest, hl, hs⟩ := pending_eq_of_next? hnext
    rw [commaOf, ifNext_of_eq hl hs]
    exact pieces_append (pieces_leading ls) (pieces_singleton (piece_tree (hs ▸ by decide)))
  · rw [commaOf, ifNext_of_ne hnext]
    exact List.forall_mem_nil _

lemma piece_stray (hl : pending ls = l :: rest) (hkeyword : l.symbol ≠ .structKeyword) :
    Piece (.node Symbol.error.kind [l.tree]) :=
  .stray hkeyword (not_trivia_of_pending hl)

lemma Fields.parts (h : Fields ls ts rest) : ∀ t ∈ ts, Part t := by
  induction h with
  | @close ls l rest next brace =>
    have hbrace : Piece l.tree := piece_tree (brace ▸ by decide)
    exact parts_of_pieces (pieces_append (pieces_leading ls) (pieces_singleton hbrace))
  | cut ends => exact parts_of_pieces (pieces_absent _)
  | field next more ih =>
    exact List.forall_mem_append.mpr
      ⟨List.forall_mem_append.mpr ⟨parts_fieldOf next, parts_of_pieces (pieces_commaOf _)⟩, ih⟩
  | stray next brace keyword name more ih =>
    exact List.forall_mem_append.mpr ⟨parts_of_pieces (pieces_leading _),
      List.forall_mem_cons.mpr ⟨.piece (piece_stray next keyword), ih⟩⟩

lemma Declaration.item (h : Declaration ls t rest) : Item t := by
  cases h with
  | @body l ls b after ts rest keyword next brace fields =>
    obtain ⟨x, text⟩ := l
    subst keyword
    have hbrace : Piece b.tree := piece_tree (brace ▸ by decide)
    refine .struct (List.forall_mem_append.mpr ⟨parts_of_pieces (pieces_named (.inl rfl) ls), ?_⟩)
    exact List.forall_mem_append.mpr
      ⟨parts_of_pieces (pieces_leading _), List.forall_mem_cons.mpr ⟨.piece hbrace, fields.parts⟩⟩
  | @bare l ls keyword next =>
    obtain ⟨x, text⟩ := l
    subst keyword
    exact .struct (parts_of_pieces (pieces_append (pieces_named (.inl rfl) ls) (pieces_absent _)))

lemma Source.items (h : Source ls ts) : ∀ t ∈ ts, Item t := by
  have hleading (ls : List (Lexeme Symbol)) : ∀ t ∈ (leading ls).map tree, Item t :=
    fun t ht => .piece (pieces_leading ls t ht)
  induction h with
  | done ends => exact hleading _
  | declaration next item more ih =>
    exact List.forall_mem_append.mpr ⟨hleading _, List.forall_mem_cons.mpr ⟨item.item, ih⟩⟩
  | stray next keyword more ih =>
    exact List.forall_mem_append.mpr ⟨hleading _,
      List.forall_mem_cons.mpr ⟨.piece (piece_stray next keyword), ih⟩⟩

end Reading

section Places
variable {s : Symbol} {t u : Tree} {cs : List Tree} {path : List Nat}

lemma isNodeOf_node {x : Symbol} : isNodeOf s (.node x.kind cs) = true ↔ x = s := by
  simp only [isNodeOf, Tree.isNode, Tree.kind, Bool.true_and, beq_iff_eq]
  exact kind_injective.eq_iff

@[simp] lemma isNodeOf_token (s : Symbol) (k : Kind) (text : Bytes) : isNodeOf s (.token k text) = false := rfl

@[simp] lemma isTokenOf_node (s : Symbol) (k : Kind) (cs : List Tree) : isTokenOf s (.node k cs) = false := rfl

lemma isTokenOf_token {x : Symbol} {text : Bytes} : isTokenOf s (.token x.kind text) = true ↔ x = s := by
  simp only [isTokenOf, Tree.isToken, Tree.isNode, Tree.kind, Bool.not_false, Bool.true_and, beq_iff_eq]
  exact kind_injective.eq_iff

lemma Piece.symbol (h : Piece t) (hs : isNodeOf s t = true) : s = .error ∨ s = .name ∨ s = .type := by
  cases h with
  | token other => simp at hs
  | gap => exact .inl (isNodeOf_node.mp hs).symm
  | stray other visible => exact .inl (isNodeOf_node.mp hs).symm
  | ident named => exact isNodeOf_node.mp hs ▸ .inr named

lemma Part.symbol (h : Part t) (hs : isNodeOf s t = true) :
    s = .field ∨ s = .error ∨ s = .name ∨ s = .type := by
  cases h with
  | piece piece => exact .inr (piece.symbol hs)
  | field first pieces => exact .inl (isNodeOf_node.mp hs).symm

lemma Item.symbol (h : Item t) (hs : isNodeOf s t = true) :
    s = .struct ∨ s = .error ∨ s = .name ∨ s = .type := by
  cases h with
  | piece piece => exact .inr (piece.symbol hs)
  | struct parts => exact .inl (isNodeOf_node.mp hs).symm

lemma Piece.not_keyword (h : Piece t) : isTokenOf .structKeyword t = false := by
  cases h with
  | token other =>
    rw [Bool.eq_false_iff]
    exact fun h => other (isTokenOf_token.mp h)
  | gap => rfl
  | stray other visible => rfl
  | ident named => rfl

lemma Piece.keyword_free (h : Piece t) : ∀ l ∈ t.leaves, l.kind ≠ Symbol.structKeyword.kind := by
  have hother {x : Symbol} (hx : x ≠ .structKeyword) : x.kind ≠ Symbol.structKeyword.kind :=
    fun h => hx (kind_injective h)
  cases h with
  | token other => simpa using hother other
  | gap => simp [Decl.gap]
  | stray other visible => simpa using hother other
  | ident named => simpa using hother (x := .ident) (by decide)

lemma Part.keyword_free (h : Part t) : ∀ l ∈ t.leaves, l.kind ≠ Symbol.structKeyword.kind := by
  cases h with
  | piece piece => exact piece.keyword_free
  | field first pieces =>
    rw [Tree.leaves_node]
    intro l hl
    obtain ⟨c, hc, hl⟩ := List.mem_flatMap.mp hl
    exact (pieces c hc).keyword_free l hl

lemma Piece.error_token (h : Piece t) (herror : isNodeOf .error t = true) :
    t.children = [] ∨ ∃ k text, t.children = [.token k text] ∧ isTriviaKind k = false := by
  cases h with
  | token other => simp at herror
  | gap => exact .inl rfl
  | @stray s text other visible =>
    refine .inr ⟨s.kind, text, rfl, ?_⟩
    cases s <;> first | rfl | cases visible
  | ident named =>
    obtain rfl := isNodeOf_node.mp herror
    rcases named with h | h <;> cases h

lemma at?_token {k : Kind} {text : Bytes} (h : (Tree.token k text).at? path = some u) :
    path = [] ∧ u = .token k text := by
  cases path with
  | nil => exact ⟨rfl, (Option.some.inj h).symm⟩
  | cons i path => cases h

/-- Within a piece there is nothing but pieces. -/
lemma Piece.at? (h : Piece t) (hu : t.at? path = some u) : Piece u := by
  have hinner {k : Kind} {x : Symbol} {text : Bytes} (hx : x ≠ .structKeyword)
      (hself : Piece (.node k [.token x.kind text])) (hu : (Tree.node k [.token x.kind text]).at? path = some u) :
      Piece u := by
    cases path with
    | nil => exact Option.some.inj hu ▸ hself
    | cons i path =>
      obtain ⟨c, hc, hu⟩ := Tree.at?_cons_eq_some hu
      obtain rfl := List.mem_singleton.mp (List.mem_of_getElem? hc)
      exact (at?_token hu).2 ▸ .token hx
  cases h with
  | token other => exact (at?_token hu).2 ▸ .token other
  | gap =>
    cases path with
    | nil => exact Option.some.inj hu ▸ .gap
    | cons i path => cases hu
  | stray other visible => exact hinner other (.stray other visible) hu
  | ident named => exact hinner (by decide) (.ident named) hu

/-- Where in a file with these children a tree stands. -/
inductive Stands (cs : List Tree) : List Nat → Tree → Prop
  | root : Stands cs [] (.node Symbol.sourceFile.kind cs)
  | item {i : Nat} {u : Tree} (item : Item u) : Stands cs [i] u
  | keyword {i : Nat} {d : Tree} {text : Bytes} (declaration : cs[i]? = some d)
      (struct : isNodeOf .struct d = true) : Stands cs [i, 0] (.token Symbol.structKeyword.kind text)
  | part {i j : Nat} {d u : Tree} (declaration : cs[i]? = some d) (struct : isNodeOf .struct d = true)
      (part : Part u) : Stands cs [i, j] u
  | piece {path : List Nat} {u : Tree} (piece : Piece u) : Stands cs path u

lemma stands_of_at? (hitems : ∀ c ∈ cs, Item c)
    (h : (Tree.node Symbol.sourceFile.kind cs).at? path = some u) : Stands cs path u := by
  cases path with
  | nil => exact Option.some.inj h ▸ .root
  | cons i path =>
    obtain ⟨c, hc, hbelow⟩ := Tree.at?_cons_eq_some h
    cases path with
    | nil => exact .item (Option.some.inj hbelow ▸ hitems c (List.mem_of_getElem? hc))
    | cons j path =>
      cases hitems c (List.mem_of_getElem? hc) with
      | piece piece => exact .piece (piece.at? hbelow)
      | @struct text ts parts =>
        obtain ⟨p, hp, hinside⟩ := Tree.at?_cons_eq_some hbelow
        cases j with
        | zero =>
          obtain rfl := Option.some.inj hp
          obtain ⟨rfl, rfl⟩ := at?_token hinside
          exact .keyword hc rfl
        | succ j =>
          have hpart : Part p := parts p (List.mem_of_getElem? hp)
          cases path with
          | nil => exact .part hc rfl (Option.some.inj hinside ▸ hpart)
          | cons m path =>
            cases hpart with
            | piece piece => exact .piece (piece.at? hinside)
            | field first pieces =>
              obtain ⟨q, hq, hu⟩ := Tree.at?_cons_eq_some hinside
              exact .piece ((pieces q (List.mem_of_getElem? hq)).at? hu)

lemma at?_singleton (k : Kind) (cs : List Tree) (i : Nat) : (Tree.node k cs).at? [i] = cs[i]? := by
  simp [Tree.at?, Tree.children]

lemma Stands.path_of_struct (h : Stands cs path u) (hu : isNodeOf .struct u = true) : ∃ i, path = [i] := by
  cases h with
  | root => cases isNodeOf_node.mp hu
  | item item => exact ⟨_, rfl⟩
  | keyword declaration struct => cases hu
  | part declaration struct part => simpa using part.symbol hu
  | piece piece => simpa using piece.symbol hu

lemma Stands.path_of_keyword (h : Stands cs path u) (hu : isTokenOf .structKeyword u = true) :
    ∃ i d, path = [i, 0] ∧ cs[i]? = some d ∧ isNodeOf .struct d = true := by
  have hpiece : ¬ Piece u := fun piece => by simp [piece.not_keyword] at hu
  cases h with
  | root => cases hu
  | item item =>
    cases item with
    | piece piece => exact absurd piece hpiece
    | struct parts => cases hu
  | keyword declaration struct => exact ⟨_, _, rfl, declaration, struct⟩
  | part declaration struct part =>
    cases part with
    | piece piece => exact absurd piece hpiece
    | field first pieces => cases hu
  | piece piece => exact absurd piece hpiece

/-- A field stands in a declaration, with its name in front. -/
lemma Stands.of_field (h : Stands cs path u) (hu : isNodeOf .field u = true) :
    ∃ i j d name ts, path = [i, j] ∧ cs[i]? = some d ∧ isNodeOf .struct d = true ∧
      u.children = name :: ts ∧ isNodeOf .name name = true := by
  have hpiece : ¬ Piece u := fun piece => by simpa using piece.symbol hu
  cases h with
  | root => cases isNodeOf_node.mp hu
  | item item => simpa using item.symbol hu
  | keyword declaration struct => cases hu
  | part declaration struct part =>
    cases part with
    | piece piece => exact absurd piece hpiece
    | field first pieces => exact ⟨_, _, _, _, _, rfl, declaration, struct, rfl, first⟩
  | piece piece => exact absurd piece hpiece

/-- Nodes other than the root and declarations are parts of declarations or look like them. -/
lemma Stands.part_of_node (h : Stands cs path u) (hu : isNodeOf s u = true) (hroot : s ≠ .sourceFile)
    (hstruct : s ≠ .struct) : Part u := by
  cases h with
  | root => exact absurd (isNodeOf_node.mp hu).symm hroot
  | item item =>
    cases item with
    | piece piece => exact .piece piece
    | struct parts => exact absurd (isNodeOf_node.mp hu).symm hstruct
  | keyword declaration struct => cases hu
  | part declaration struct part => exact part
  | piece piece => exact .piece piece

lemma Part.error_token (h : Part t) (herror : isNodeOf .error t = true) :
    t.children = [] ∨ ∃ k text, t.children = [.token k text] ∧ isTriviaKind k = false := by
  cases h with
  | piece piece => exact piece.error_token herror
  | field first pieces => cases isNodeOf_node.mp herror

/-- The keywords below some items are the first children of the declarations among them. -/
lemma keywords_of_items (hitems : ∀ c ∈ cs, Item c) :
    (cs.filter (isNodeOf .struct)).map (·.children.head?) =
      ((cs.flatMap Tree.leaves).filter (·.kind = Symbol.structKeyword.kind)).map fun l =>
        some (.token l.kind l.text) := by
  have hfree {ls : List Leaf} (h : ∀ l ∈ ls, l.kind ≠ Symbol.structKeyword.kind) :
      ls.filter (·.kind = Symbol.structKeyword.kind) = [] :=
    List.filter_eq_nil_iff.mpr fun l hl => by simpa using h l hl
  induction cs with
  | nil => rfl
  | cons c cs ih =>
    obtain ⟨hc, hcs⟩ := List.forall_mem_cons.mp hitems
    rw [List.flatMap_cons, List.filter_append, List.map_append, ← ih hcs]
    cases hc with
    | piece piece =>
      have hother : ¬ isNodeOf .struct c = true := fun h => by simpa using piece.symbol h
      rw [List.filter_cons_of_neg hother, hfree piece.keyword_free]
      rfl
    | @struct text ts parts =>
      have hrest : ∀ l ∈ ts.flatMap Tree.leaves, l.kind ≠ Symbol.structKeyword.kind := by
        intro l hl
        obtain ⟨p, hp, hl⟩ := List.mem_flatMap.mp hl
        exact (parts p hp).keyword_free l hl
      rw [List.filter_cons_of_pos (isNodeOf_node.mpr rfl), Tree.leaves_node, List.flatMap_cons,
        Tree.leaves_token, List.filter_append, hfree hrest]
      simp [Tree.children]

end Places

/-- Without a cancellation every text, however malformed, has a tree that recovers at each keyword. -/
theorem parse_recovers (src : Bytes) (cache : Cache) :
    ∃ t, (parse src cache .never).result = .ok t ∧ Recovers (lex src) t := by
  obtain ⟨ts, hsource, hparse⟩ := parse_source src cache
  have hitems := hsource.items
  have hleaves : ts.flatMap Tree.leaves = (lex src).map leaf := by
    simpa [Covers] using hsource.covers
  refine ⟨_, hparse, ?_⟩
  constructor
  case root => rfl
  case tokens => rw [Tree.leaves_node, hleaves]
  case struct_child => exact fun path s hs => (stands_of_at? hitems hs).path_of_struct
  case keywords =>
    have hkind (l : Lexeme Symbol) :
        decide (l.leaf.kind = Symbol.structKeyword.kind) = decide (l.symbol = .structKeyword) :=
      decide_eq_decide.mpr kind_injective.eq_iff
    refine (keywords_of_items hitems).trans ?_
    rw [hleaves, List.filter_map, List.map_map]
    exact congrArg _ (List.filter_congr fun l _ => hkind l)
  case keyword_first =>
    intro path k hk hkeyword
    obtain ⟨i, d, rfl, hd, hstruct⟩ := (stands_of_at? hitems hk).path_of_keyword hkeyword
    exact ⟨i, d, rfl, (at?_singleton _ _ i).trans hd, hstruct⟩
  case keyword_free =>
    rintro path u hu ⟨s, hs, hnode⟩
    have hother : s ≠ .sourceFile ∧ s ≠ .struct := by
      constructor <;> rintro rfl <;> revert hs <;> decide
    exact ((stands_of_at? hitems hu).part_of_node hnode hother.1 hother.2).keyword_free
  case field_child =>
    intro path f hf hfield
    obtain ⟨i, j, d, name, us, rfl, hd, hstruct, hus, hname⟩ := (stands_of_at? hitems hf).of_field hfield
    exact ⟨⟨i, j, d, rfl, (at?_singleton _ _ i).trans hd, hstruct⟩, name, by rw [hus, List.head?_cons], hname⟩
  case error_token =>
    intro path e he herror
    exact ((stands_of_at? hitems he).part_of_node herror (by decide) (by decide)).error_token herror

end LosslessTree.Decl
