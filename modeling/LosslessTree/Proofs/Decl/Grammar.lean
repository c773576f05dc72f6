import LosslessTree.Language.Decl.View
import LosslessTree.Proofs.Cursor.Place
import LosslessTree.Proofs.Decl.Reading
import Mathlib.Data.List.Forall2

/-! The grammar of struct declarations, and that the parser accepts exactly it. A derivation keeps the
names it has met; the typed views of an accepted text give these names back, in order. -/
namespace LosslessTree.Decl
open Lexeme
open LosslessTree.Tree (Lacks)

/-- The lexemes without white space and comments. -/
def significant (ls : List (Lexeme Symbol)) : List (Lexeme Symbol) :=
  ls.filter fun l => l.symbol ≠ .whitespace ∧ l.symbol ≠ .comment

structure FieldNames where
  name : Bytes
  type : Bytes

structure StructNames where
  name : Bytes
  fields : List FieldNames

/-- A field is a name, a colon and a type. -/
inductive DerivesField : List (Lexeme Symbol) → FieldNames → Prop
  | mk {n c t} (name : n.symbol = .ident) (colon : c.symbol = .colon) (type : t.symbol = .ident) :
      DerivesField [n, c, t] ⟨n.text, t.text⟩

/-- A comma or nothing. -/
inductive OptionalComma : List (Lexeme Symbol) → Prop
  | none : OptionalComma []
  | comma {l} (comma : l.symbol = .comma) : OptionalComma [l]

/-- Fields, each with a comma after it or without. -/
inductive DerivesBody : List (Lexeme Symbol) → List FieldNames → Prop
  | nil : DerivesBody [] []
  | cons {xs sep ys f fs} (field : DerivesField xs f) (comma : OptionalComma sep) (more : DerivesBody ys fs) :
      DerivesBody (xs ++ sep ++ ys) (f :: fs)

/-- A declaration is the keyword, a name, and fields in braces. -/
inductive DerivesStruct : List (Lexeme Symbol) → StructNames → Prop
  | mk {k n l r xs fs} (keyword : k.symbol = .structKeyword) (name : n.symbol = .ident)
      (left : l.symbol = .leftBrace) (body : DerivesBody xs fs) (right : r.symbol = .rightBrace) :
      DerivesStruct (k :: n :: l :: (xs ++ [r])) ⟨n.text, fs⟩

/-- A file is any number of declarations. -/
inductive DerivesFile : List (Lexeme Symbol) → List StructNames → Prop
  | nil : DerivesFile [] []
  | cons {xs ys d ds} (struct : DerivesStruct xs d) (more : DerivesFile ys ds) :
      DerivesFile (xs ++ ys) (d :: ds)

/-- The place is read back as this field. -/
structure ShowsField (c : Cursor) (f : FieldNames) : Prop where
  name : (nameOf? c).map identText = some f.name
  type : (typeOf? c).map identText = some f.type

/-- The place is read back as this declaration. -/
structure ShowsStruct (c : Cursor) (d : StructNames) : Prop where
  name : (nameOf? c).map identText = some d.name
  fields : List.Forall₂ ShowsField (fieldsOf c) d.fields

lemma significant_eq_visible (ls : List (Lexeme Symbol)) : significant ls = visible ls := by
  refine List.filter_congr fun l _ => ?_
  cases l.symbol <;> rfl

section Views
variable {c : Cursor} {s : Symbol} {t : Tree} {text : Bytes} {f : FieldNames} {d : StructNames}

/-- The trees that are nodes. -/
def nodes (ts : List Tree) : List Tree := ts.filter Tree.isNode

/-- An identifier in a node of its own. -/
def identNode (s : Symbol) (text : Bytes) : Tree := .node s.kind [.token Symbol.ident.kind text]

/-- A tree in which this field is found. -/
def FieldShape (t : Tree) (f : FieldNames) : Prop :=
  ∃ ts, t = .node Symbol.field.kind ts ∧ nodes ts = [identNode .name f.name, identNode .type f.type]

/-- A tree in which this declaration is found. -/
def StructShape (t : Tree) (d : StructNames) : Prop :=
  ∃ ts us, t = .node Symbol.struct.kind ts ∧ nodes ts = identNode .name d.name :: us ∧
    List.Forall₂ FieldShape us d.fields

lemma map_tree_childNodes (c : Cursor) : c.childNodes.map Cursor.tree = nodes c.tree.children := by
  rw [← Cursor.map_tree_children, nodes, List.filter_map]
  rfl

lemma identText_of_tree (h : c.tree = identNode s text) : identText c = text := by
  simp [identText, Cursor.tokenOf?, Cursor.children, h, identNode, Cursor.placesFrom, Cursor.isToken,
    Cursor.kind, Tree.isToken, Tree.isNode, Tree.kind, Cursor.text]

/-- The first node of a kind is found behind nodes of other kinds. -/
lemma identText_childOf? (us : List Tree) {vs : List Tree}
    (h : nodes c.tree.children = us ++ identNode s text :: vs)
    (hus : ∀ u ∈ us, u.kind ≠ s.kind) : (c.childOf? s.kind).map identText = some text := by
  rw [← map_tree_childNodes] at h
  obtain ⟨as, bs, hnodes, rfl, hbs⟩ := List.map_eq_append_iff.mp h
  obtain ⟨b, bs, rfl, hb, rfl⟩ := List.map_eq_cons_iff.mp hbs
  have has : as.find? (Cursor.isNodeOf s.kind) = none := by
    rw [List.find?_eq_none]
    intro a ha
    have := hus a.tree (List.mem_map_of_mem ha)
    simp [Cursor.isNodeOf, Cursor.kind, this]
  have hfound : Cursor.isNodeOf s.kind b = true := by
    simp [Cursor.isNodeOf, Cursor.isNode, Cursor.kind, hb, identNode, Tree.isNode, Tree.kind]
  rw [Cursor.childOf?, hnodes, List.find?_append, has, List.find?_cons_of_pos hfound]
  exact congrArg some (identText_of_tree hb)

/-- Nodes of one kind are found behind nodes of other kinds. -/
lemma forall₂_childrenOf {α : Type} {R : Tree → α → Prop} {k : Kind} {us vs : List Tree} {xs : List α}
    (hc : nodes c.tree.children = us ++ vs) (hus : ∀ u ∈ us, u.kind ≠ k) (h : List.Forall₂ R vs xs)
    (hk : ∀ t x, R t x → t.kind = k) : List.Forall₂ (fun d x => R d.tree x) (c.childrenOf k) xs := by
  have hmap : (c.childrenOf k).map Cursor.tree = (nodes c.tree.children).filter fun t => t.kind == k := by
    rw [← map_tree_childNodes, List.filter_map, Cursor.childrenOf]
    refine congrArg _ (List.filter_congr fun d hd => ?_)
    rw [Cursor.isNodeOf, (List.mem_filter.mp hd).2]
    rfl
  have hvs : ∀ v ∈ vs, v.kind = k :=
    ((List.forall₂_and_left _ _).mp (h.imp fun t x ht => ⟨hk t x ht, ht⟩)).1
  rw [hc, List.filter_append, List.filter_eq_nil_iff.mpr (by simpa using hus), List.nil_append,
    List.filter_eq_self.mpr (by simpa using hvs)] at hmap
  rwa [← hmap, List.forall₂_map_left_iff] at h

lemma FieldShape.shows (h : FieldShape c.tree f) : ShowsField c f := by
  obtain ⟨ts, hc, hts⟩ := h
  have hnodes : nodes c.tree.children = [identNode .name f.name, identNode .type f.type] := by
    rw [hc]
    exact hts
  refine ⟨identText_childOf? [] hnodes (by simp), identText_childOf? [identNode .name f.name] hnodes ?_⟩
  simp [identNode, Tree.kind, Symbol.kind]

lemma StructShape.shows (h : StructShape c.tree d) : ShowsStruct c d := by
  obtain ⟨ts, us, hc, hts, hus⟩ := h
  have hnodes : nodes c.tree.children = [identNode .name d.name] ++ us := by
    rw [hc]
    exact hts
  refine ⟨identText_childOf? [] hnodes (by simp), ?_⟩
  have hfields := forall₂_childrenOf hnodes (by simp [identNode, Tree.kind, Symbol.kind]) hus
    (k := Symbol.field.kind) (by rintro t x ⟨ts, rfl, -⟩; rfl)
  exact hfields.imp fun _ _ => FieldShape.shows

/-- The declarations found in a file. -/
lemma shows_structs {ds : List StructNames} (h : List.Forall₂ StructShape (nodes c.tree.children) ds) :
    List.Forall₂ ShowsStruct (structs c) ds := by
  have hstructs := forall₂_childrenOf (c := c) (List.nil_append _).symm (by simp) h
    (k := Symbol.struct.kind) (by rintro t x ⟨ts, us, rfl, -⟩; rfl)
  exact hstructs.imp fun _ _ => StructShape.shows

end Views

section Pieces
variable {s : Symbol} {form : Tree → Tree} {ls rest more : List (Lexeme Symbol)} {l n c t : Lexeme Symbol}

@[simp] lemma nodes_nil : nodes [] = [] := rfl

@[simp] lemma nodes_append (ts us : List Tree) : nodes (ts ++ us) = nodes ts ++ nodes us := List.filter_append ts us

@[simp] lemma nodes_node (k : Kind) (ts us : List Tree) : nodes (.node k ts :: us) = .node k ts :: nodes us := rfl

@[simp] lemma nodes_tree (l : Lexeme Symbol) (ts : List Tree) : nodes (l.tree :: ts) = nodes ts := rfl

@[simp] lemma nodes_leading (ls : List (Lexeme Symbol)) : nodes ((leading ls).map tree) = [] := by
  simp [nodes, tree, Tree.isNode]

@[simp] lemma lacks_tree (k : Kind) (l : Lexeme Symbol) (ts : List Tree) : Lacks k (l.tree :: ts) ↔ Lacks k ts :=
  Tree.lacks_token_cons ..

@[simp] lemma lacks_leading (k : Kind) (ls : List (Lexeme Symbol)) : Lacks k ((leading ls).map tree) := by
  simp [Lacks]

lemma not_lacks_absent (ls : List (Lexeme Symbol)) : ¬ Lacks Symbol.error.kind (absent ls).1 := by
  simp [absent, gap]

lemma required_eq (hp : pending ls = l :: rest) (hl : l.symbol = s) :
    required s form ls = ((leading ls).map tree ++ [form l.tree], rest) :=
  ifNext_of_eq hp hl

/-- Without a gap the lexeme asked for comes next. -/
lemma required_of_lacks (h : Lacks Symbol.error.kind (required s form ls).1) :
    ∃ l rest, pending ls = l :: rest ∧ l.symbol = s := by
  by_cases hnext : next? ls = some s
  · exact pending_eq_of_next? hnext
  · rw [required, ifNext_of_ne hnext] at h
    exact absurd h (not_lacks_absent ls)

/-- A name, a colon and a type come next, with only trivia between them. -/
def FieldAhead (ls : List (Lexeme Symbol)) (n c t : Lexeme Symbol) (rest : List (Lexeme Symbol)) : Prop :=
  (n.symbol = .ident ∧ c.symbol = .colon ∧ t.symbol = .ident) ∧
    ∃ ms os, pending ls = n :: ms ∧ pending ms = c :: os ∧ pending os = t :: rest

lemma FieldAhead.visible_eq (h : FieldAhead ls n c t rest) : visible ls = n :: c :: t :: visible rest := by
  obtain ⟨-, ms, os, hn, hc, ht⟩ := h
  rw [visible_of_pending hn, visible_of_pending hc, visible_of_pending ht]

/-- Such a field is read without a gap, and its names are found in the tree. -/
lemma FieldAhead.fieldOf_eq (h : FieldAhead ls n c t rest) :
    ∃ u, fieldOf ls = ((leading ls).map tree ++ [u], rest) ∧ Lacks Symbol.error.kind [u] ∧
      FieldShape u ⟨n.text, t.text⟩ := by
  obtain ⟨⟨hn, hc, ht⟩, ms, os, hname, hcolon, htype⟩ := h
  have hvisible : pending (pending ls) = n :: ms := (pending_pending ls).trans hname
  have hlead : leading (pending ls) = [] := leading_of_pending_eq (pending_pending ls)
  refine ⟨.node Symbol.field.kind (.node Symbol.name.kind [n.tree] :: (leading ms).map tree ++
    (c.tree :: (leading os).map tree ++ [.node Symbol.type.kind [t.tree]])), ?_, ?_, ?_⟩
  · simp [fieldOf, named, required_eq hvisible hn, required_eq hcolon hc, required_eq htype ht, hlead]
  · simp [Symbol.kind]
  · refine ⟨_, rfl, ?_⟩
    simp only [List.cons_append, nodes_node, nodes_append, nodes_leading, nodes_tree, nodes_nil, List.nil_append]
    rw [tree, tree, hn, ht]
    rfl

lemma fieldAhead_of_lacks (h : Lacks Symbol.error.kind (fieldOf ls).1) :
    ∃ n c t rest, FieldAhead ls n c t rest := by
  simp only [fieldOf, named, Tree.lacks_append, Tree.lacks_node_cons] at h
  obtain ⟨-, -, ⟨⟨hname, hcolon⟩, htype⟩, -⟩ := h
  obtain ⟨n, ms, hn, hns⟩ := required_of_lacks hname
  rw [required_eq hn hns] at hcolon htype
  obtain ⟨c, os, hc, hcs⟩ := required_of_lacks hcolon
  rw [required_eq hc hcs] at htype
  obtain ⟨t, rest, ht, hts⟩ := required_of_lacks htype
  rw [pending_pending] at hn
  exact ⟨n, c, t, rest, ⟨hns, hcs, hts⟩, ms, os, hn, hc, ht⟩

lemma fieldAhead_of_visible (h : visible ls = n :: c :: t :: more)
    (hs : n.symbol = .ident ∧ c.symbol = .colon ∧ t.symbol = .ident) :
    ∃ rest, FieldAhead ls n c t rest ∧ visible rest = more := by
  obtain ⟨ms, hn, hms⟩ := pending_of_visible h
  obtain ⟨os, hc, hos⟩ := pending_of_visible hms
  obtain ⟨rest, ht, hrest⟩ := pending_of_visible hos
  exact ⟨rest, ⟨hs, ms, os, hn, hc, ht⟩, hrest⟩

/-- A comma is taken where there is one, and nothing else. -/
lemma commaOf_cases (ls : List (Lexeme Symbol)) :
    (∃ l, l.symbol = .comma ∧ visible ls = l :: visible (commaOf ls).2 ∧
      (commaOf ls).1 = (leading ls).map tree ++ [l.tree]) ∨
    (next? ls ≠ some .comma ∧ commaOf ls = ([], ls)) := by
  by_cases h : next? ls = some .comma
  · obtain ⟨l, rest, hp, hl⟩ := pending_eq_of_next? h
    rw [commaOf, ifNext_of_eq hp hl]
    exact .inl ⟨l, hl, visible_of_pending hp, rfl⟩
  · rw [commaOf, ifNext_of_ne h]
    exact .inr ⟨h, rfl⟩

lemma commaOf_trees (ls : List (Lexeme Symbol)) :
    Lacks Symbol.error.kind (commaOf ls).1 ∧ nodes (commaOf ls).1 = [] := by
  rcases commaOf_cases ls with ⟨l, -, -, htrees⟩ | ⟨-, hnone⟩
  · rw [htrees]
    simp
  · rw [hnone]
    simp

end Pieces

section Soundness
variable {ls rest : List (Lexeme Symbol)} {ts : List Tree} {t : Tree}

/-- The inside of a declaration without ERROR nodes is a body and its closing brace. -/
lemma Fields.sound (h : Fields ls ts rest) (hts : Lacks Symbol.error.kind ts) :
    ∃ xs fs r, DerivesBody xs fs ∧ r.symbol = .rightBrace ∧ visible ls = xs ++ r :: visible rest := by
  induction h with
  | @close ls l rest next brace => exact ⟨[], [], l, .nil, brace, visible_of_pending next⟩
  | cut ends => exact absurd hts (not_lacks_absent _)
  | @field ls ts rest next more ih =>
    simp only [Tree.lacks_append] at hts
    obtain ⟨n, c, t, after, hahead⟩ := fieldAhead_of_lacks hts.1.1
    obtain ⟨u, hfield, -⟩ := hahead.fieldOf_eq
    obtain ⟨xs, fs, r, hbody, hr, hrest⟩ := ih hts.2
    have hderives := DerivesField.mk hahead.1.1 hahead.1.2.1 hahead.1.2.2
    rw [hfield] at hrest
    rw [hahead.visible_eq]
    rcases commaOf_cases after with ⟨l, hl, hvisible, -⟩ | ⟨-, hnone⟩
    · refine ⟨_, _, r, .cons hderives (.comma hl) hbody, hr, ?_⟩
      rw [hvisible, hrest]
      simp
    · rw [hnone] at hrest
      refine ⟨_, _, r, .cons hderives .none hbody, hr, ?_⟩
      rw [hrest]
      simp
  | stray next brace keyword name more ih => simp at hts

/-- A declaration without ERROR nodes is derived. -/
lemma Declaration.sound (h : Declaration ls t rest) (ht : Lacks Symbol.error.kind [t]) :
    ∃ xs d, DerivesStruct xs d ∧ visible ls = xs ++ visible rest := by
  cases h with
  | @body k ls b after ts rest keyword next brace fields =>
    simp only [Tree.lacks_node_cons, List.cons_append, lacks_tree, Tree.lacks_append] at ht
    obtain ⟨n, ms, hn, hname⟩ := required_of_lacks ht.2.1.1
    obtain ⟨xs, fs, r, hbody, hr, hafter⟩ := fields.sound ht.2.1.2.2
    rw [named, required_eq hn hname] at next
    have hk : pending (k :: ls) = k :: ls :=
      pending_cons_of_not_trivia (by rw [keyword]; decide) ls
    refine ⟨_, _, .mk keyword hname brace hbody hr, ?_⟩
    rw [visible_of_pending hk, visible_of_pending hn, visible_of_pending next, hafter]
    simp
  | bare keyword next =>
    simp only [Tree.lacks_node_cons, List.cons_append, lacks_tree, Tree.lacks_append] at ht
    exact absurd ht.2.1.2 (not_lacks_absent _)

/-- A text without ERROR nodes is derived. -/
lemma Source.sound (h : Source ls ts) (hts : Lacks Symbol.error.kind ts) : ∃ ds, DerivesFile (visible ls) ds := by
  induction h with
  | done ends =>
    rw [visible_eq_nil_iff.mpr ends]
    exact ⟨[], .nil⟩
  | @declaration ls t rest us next item more ih =>
    rw [Tree.lacks_append, ← List.singleton_append, Tree.lacks_append] at hts
    obtain ⟨xs, d, hstruct, hls⟩ := item.sound hts.2.1
    obtain ⟨ds, hfile⟩ := ih hts.2.2
    rw [← visible_pending, hls]
    exact ⟨d :: ds, .cons hstruct hfile⟩
  | stray next keyword more ih => simp at hts

end Soundness

section Completeness
variable {ls rest xs more : List (Lexeme Symbol)} {ts : List Tree} {t : Tree} {r : Lexeme Symbol}
  {fs : List FieldNames} {d : StructNames} {ds : List StructNames}

/-- After a field comes another, or the end of the body. -/
lemma DerivesBody.next?_ne_comma (h : DerivesBody xs fs) (hr : r.symbol = .rightBrace)
    (hls : visible ls = xs ++ r :: more) : next? ls ≠ some .comma := by
  cases h with
  | nil => simp [next?_of_visible hls, hr]
  | cons field comma _ =>
    obtain ⟨name, -, -⟩ := field
    rw [next?_of_visible (l := _) (by simpa using hls), name]
    decide

lemma OptionalComma.complete {sep : List (Lexeme Symbol)} (h : OptionalComma sep) (hbody : DerivesBody xs fs)
    (hr : r.symbol = .rightBrace) (hls : visible ls = sep ++ (xs ++ r :: more)) :
    visible (commaOf ls).2 = xs ++ r :: more := by
  cases h with
  | none =>
    rcases commaOf_cases ls with ⟨l, hl, hvisible, -⟩ | ⟨-, hnone⟩
    · exact absurd (hl ▸ next?_of_visible hvisible) (hbody.next?_ne_comma hr hls)
    · rw [hnone]
      exact hls
  | @comma l hl =>
    rcases commaOf_cases ls with ⟨l', -, hvisible, -⟩ | ⟨hne, -⟩
    · exact (List.cons.inj (hvisible.symm.trans hls)).2
    · exact absurd (hl ▸ next?_of_visible hls) hne

/-- The inside of a declaration that begins with a body is read as it was derived: the next visible
lexeme leaves no choice. -/
lemma DerivesBody.complete (hbody : DerivesBody xs fs) (hr : r.symbol = .rightBrace) (h : Fields ls ts rest)
    (hls : visible ls = xs ++ r :: more) :
    Lacks Symbol.error.kind ts ∧ List.Forall₂ FieldShape (nodes ts) fs ∧ visible rest = more := by
  induction hbody generalizing ls ts with
  | nil =>
    have hnext := next?_of_visible hls
    cases h with
    | close next brace =>
      rw [visible_of_pending next] at hls
      exact ⟨by simp, by simp, (List.cons.inj hls).2⟩
    | cut ends => simp [hnext, hr] at ends
    | field next _ => simp [hnext, hr] at next
    | stray next brace => simp_all [next?_of_pending next]
  | @cons ys sep zs f fs field comma hmore ih =>
    obtain ⟨name, colon, type⟩ := field
    rw [List.append_assoc, List.append_assoc] at hls
    have hnext := next?_of_visible hls
    cases h with
    | close next brace => simp_all [next?_of_pending next]
    | cut ends => simp [hnext, name] at ends
    | stray next brace keyword hname => simp_all [next?_of_pending next]
    | @field _ ts _ next hfields =>
      obtain ⟨after, hahead, hafter⟩ := fieldAhead_of_visible hls ⟨name, colon, type⟩
      obtain ⟨u, hfield, hlacks, hshape⟩ := hahead.fieldOf_eq
      rw [hfield] at hfields ⊢
      obtain ⟨hclean, hshapes, hrest⟩ := ih hfields (comma.complete hmore hr hafter)
      obtain ⟨hcomma, hnodes⟩ := commaOf_trees after
      obtain ⟨us, rfl, -⟩ := id hshape
      rw [Tree.lacks_append, Tree.lacks_append, Tree.lacks_append]
      exact ⟨⟨⟨⟨lacks_leading _ _, hlacks⟩, hcomma⟩, hclean⟩, by simpa [hnodes] using ⟨hshape, hshapes⟩, hrest⟩

/-- A declaration that begins with a derived one is read as it was derived. -/
lemma DerivesStruct.complete (hd : DerivesStruct xs d) (h : Declaration ls t rest)
    (hls : visible ls = xs ++ more) :
    Lacks Symbol.error.kind [t] ∧ StructShape t d ∧ visible rest = more := by
  obtain ⟨hk, hn, hl, hbody, hr⟩ := hd
  have hvisible : ∀ k : Lexeme Symbol, k.symbol = .structKeyword → ¬ Symbols.isTrivia k.symbol = true := by
    intro k hk
    rw [hk]
    decide
  cases h with
  | @body k' ls b after ts rest keyword next brace fields =>
    rw [visible_cons (hvisible k' keyword)] at hls
    obtain ⟨ms, hms, hmore⟩ := pending_of_visible (List.cons.inj hls).2
    rw [named, required_eq hms hn] at next ⊢
    rw [visible_of_pending next] at hmore
    have hafter := (List.cons.inj hmore).2
    obtain ⟨hclean, hshapes, hrest⟩ := hbody.complete hr fields (hafter.trans (List.append_assoc ..))
    refine ⟨by simpa [Symbol.kind] using hclean, ⟨_, nodes ts, rfl, ?_, hshapes⟩, hrest⟩
    simp only [List.cons_append, nodes_tree, nodes_append, nodes_leading, nodes_node, nodes_nil, List.nil_append]
    rw [tree, hn]
    rfl
  | @bare k' ls keyword next =>
    rw [visible_cons (hvisible k' keyword)] at hls
    obtain ⟨ms, hms, hmore⟩ := pending_of_visible (List.cons.inj hls).2
    rw [named, required_eq hms hn] at next
    exact absurd (hl ▸ next?_of_visible hmore) next

/-- A derived text is read as it was derived. -/
lemma DerivesFile.complete (hfile : DerivesFile xs ds) (h : Source ls ts) (hls : visible ls = xs) :
    Lacks Symbol.error.kind ts ∧ List.Forall₂ StructShape (nodes ts) ds := by
  induction hfile generalizing ls ts with
  | nil =>
    have hnext := visible_eq_nil_iff.mp hls
    cases h with
    | done ends => simp
    | declaration next item more => simp [hnext] at next
    | stray next keyword more => simp [next?_of_pending next] at hnext
  | @cons xs ys d ds struct _ ih =>
    have hnext : next? ls = some .structKeyword := by
      obtain ⟨hk, -⟩ := struct
      rw [next?_of_visible (l := _) hls, hk]
    cases h with
    | done ends => simp [hnext] at ends
    | stray next keyword more => simp_all [next?_of_pending next]
    | @declaration _ t rest us next item more =>
      obtain ⟨hclean, hshape, hrest⟩ := struct.complete item ((visible_pending ls).trans hls)
      obtain ⟨hus, hshapes⟩ := ih more hrest
      obtain ⟨vs, ws, rfl, -⟩ := id hshape
      rw [Tree.lacks_append, ← List.singleton_append, Tree.lacks_append]
      exact ⟨⟨lacks_leading _ _, hclean, hus⟩, by simpa using ⟨hshape, hshapes⟩⟩

end Completeness

/-- The parser gives a tree without ERROR nodes exactly to the texts that are derived once trivia are left
out. The typed views of such a tree give back the declarations of the derivation, in order, each with
its name and its fields. -/
theorem parse_derives_iff (src : Bytes) (cache : Cache) :
    ∃ tree, (parse src cache .never).result = .ok tree ∧
      (Cursor.ofRoot tree).cast? Symbol.sourceFile.kind = some (Cursor.ofRoot tree) ∧
      (Symbol.error.kind ∉ tree.nodeKinds ↔ ∃ ds, DerivesFile (significant (lex src)) ds) ∧
      ∀ ds, DerivesFile (significant (lex src)) ds →
        List.Forall₂ ShowsStruct (structs (Cursor.ofRoot tree)) ds := by
  obtain ⟨ts, hsource, hparse⟩ := parse_source src cache
  have hclean : Symbol.error.kind ∉ (Tree.node Symbol.sourceFile.kind ts).nodeKinds ↔
      Lacks Symbol.error.kind ts := by
    simp [Lacks, Symbol.kind]
  rw [significant_eq_visible]
  refine ⟨_, hparse, rfl, hclean.trans ⟨hsource.sound, ?_⟩, ?_⟩
  · rintro ⟨ds, hds⟩
    exact (hds.complete hsource rfl).1
  · intro ds hds
    exact shows_structs (hds.complete hsource rfl).2

end LosslessTree.Decl
