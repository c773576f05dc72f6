import LosslessTree.Language.Decl.Parser
import LosslessTree.Proofs.Language.Feed

/-! How struct declarations are read, as rules over lexemes: which trees a reading gives and what it
leaves. The parser follows the rules on every text. -/
namespace LosslessTree.Decl
open Lexeme

/-- An empty ERROR node. -/
def gap : Tree := .node Symbol.error.kind []

/-- A gap, after pending trivia. -/
def absent (ls : List (Lexeme Symbol)) : Reading Symbol := ((leading ls).map tree ++ [gap], pending ls)

/-- The next lexeme in the form asked for, if it has this symbol, else a gap. -/
def required (s : Symbol) (form : Tree → Tree) (ls : List (Lexeme Symbol)) : Reading Symbol :=
  ifNext s ls (fun l rest => ((leading ls).map tree ++ [form l.tree], rest)) (absent ls)

/-- A name in a node of its own. -/
def named (s : Symbol) : List (Lexeme Symbol) → Reading Symbol := required .ident fun t => .node s.kind [t]

/-- A name, a colon and a type; each of them may be a gap. -/
def fieldOf (ls : List (Lexeme Symbol)) : Reading Symbol :=
  let name := named .name (pending ls)
  let colon := required .colon id name.2
  let type := named .type colon.2
  ((leading ls).map tree ++ [.node Symbol.field.kind (name.1 ++ colon.1 ++ type.1)], type.2)

/-- A comma, if there is one. -/
def commaOf (ls : List (Lexeme Symbol)) : Reading Symbol :=
  ifNext .comma ls (fun l rest => ((leading ls).map tree ++ [l.tree], rest)) ([], ls)

/-- The inside of a declaration, up to its closing brace or a gap in its place. -/
inductive Fields : List (Lexeme Symbol) → List Tree → List (Lexeme Symbol) → Prop
  | close {ls l rest} (next : pending ls = l :: rest) (brace : l.symbol = .rightBrace) :
      Fields ls ((leading ls).map tree ++ [l.tree]) rest
  | cut {ls} (ends : next? ls = none ∨ next? ls = some .structKeyword) :
      Fields ls (absent ls).1 (absent ls).2
  | field {ls ts rest} (next : next? ls = some .ident)
      (more : Fields (commaOf (fieldOf ls).2).2 ts rest) :
      Fields ls ((fieldOf ls).1 ++ (commaOf (fieldOf ls).2).1 ++ ts) rest
  | stray {ls l after ts rest} (next : pending ls = l :: after) (brace : l.symbol ≠ .rightBrace)
      (keyword : l.symbol ≠ .structKeyword) (name : l.symbol ≠ .ident) (more : Fields after ts rest) :
      Fields ls ((leading ls).map tree ++ .node Symbol.error.kind [l.tree] :: ts) rest

/-- A declaration, from its keyword on. -/
inductive Declaration : List (Lexeme Symbol) → Tree → List (Lexeme Symbol) → Prop
  | body {l ls b after ts rest} (keyword : l.symbol = .structKeyword)
      (next : pending (named .name ls).2 = b :: after) (brace : b.symbol = .leftBrace)
      (fields : Fields after ts rest) :
      Declaration (l :: ls) (.node Symbol.struct.kind
        (l.tree :: (named .name ls).1 ++ ((leading (named .name ls).2).map tree ++ b.tree :: ts))) rest
  | bare {l ls} (keyword : l.symbol = .structKeyword)
      (next : next? (named .name ls).2 ≠ some .leftBrace) :
      Declaration (l :: ls) (.node Symbol.struct.kind
        (l.tree :: (named .name ls).1 ++ (absent (named .name ls).2).1)) (absent (named .name ls).2).2

/-- Declarations and stray tokens up to the end of the text. -/
inductive Source : List (Lexeme Symbol) → List Tree → Prop
  | done {ls} (ends : next? ls = none) : Source ls ((leading ls).map tree)
  | declaration {ls t rest us} (next : next? ls = some .structKeyword)
      (item : Declaration (pending ls) t rest) (more : Source rest us) :
      Source ls ((leading ls).map tree ++ t :: us)
  | stray {ls l rest us} (next : pending ls = l :: rest) (keyword : l.symbol ≠ .structKeyword)
      (more : Source rest us) :
      Source ls ((leading ls).map tree ++ .node Symbol.error.kind [l.tree] :: us)

lemma covers_absent (ls : List (Lexeme Symbol)) : Covers ls (absent ls).1 (absent ls).2 :=
  (Covers.leading ls).trans (.empty _ _)

lemma covers_required (s : Symbol) {f : Tree → Tree} (hf : ∀ t, (f t).leaves = t.leaves)
    (ls : List (Lexeme Symbol)) : Covers ls (required s f ls).1 (required s f ls).2 := by
  refine .ifNext s (fun l rest h => ?_) (covers_absent ls)
  have htoken : Covers (l :: rest) [f l.tree] rest := by simp [Covers, hf]
  exact (Covers.upTo h).trans htoken

lemma covers_named (s : Symbol) (ls : List (Lexeme Symbol)) : Covers ls (named s ls).1 (named s ls).2 :=
  covers_required .ident (by simp) ls

lemma covers_fieldOf (ls : List (Lexeme Symbol)) : Covers ls (fieldOf ls).1 (fieldOf ls).2 := by
  have hname := covers_named .name (pending ls)
  have hcolon := covers_required .colon (f := id) (fun _ => rfl) (named .name (pending ls)).2
  exact (Covers.leading ls).trans (((hname.trans hcolon).trans (covers_named .type _)).node _)

lemma covers_commaOf (ls : List (Lexeme Symbol)) : Covers ls (commaOf ls).1 (commaOf ls).2 :=
  Covers.ifNext Symbol.comma (fun l rest h => (Covers.upTo h).trans (.token l rest)) (.refl ls)

lemma Fields.covers {ls rest : List (Lexeme Symbol)} {ts : List Tree} (h : Fields ls ts rest) :
    Covers ls ts rest := by
  induction h with
  | @close ls l rest next brace =>
    exact (Covers.upTo next).trans (.token l rest)
  | cut ends => exact covers_absent _
  | @field ls ts rest next more ih => exact ((covers_fieldOf ls).trans (covers_commaOf _)).trans ih
  | @stray ls l after ts rest next brace keyword name more ih =>
    exact (Covers.upTo next).trans (((Covers.token l after).node _).trans ih)

lemma Declaration.covers {ls rest : List (Lexeme Symbol)} {t : Tree} (h : Declaration ls t rest) :
    Covers ls [t] rest := by
  cases h with
  | @body l ls b after ts rest keyword next brace fields =>
    have hname := (Covers.token l ls).trans (covers_named .name ls)
    have hlead := Covers.upTo next
    exact (hname.trans (hlead.trans ((Covers.token b after).trans fields.covers))).node _
  | @bare l ls keyword next =>
    exact (((Covers.token l ls).trans (covers_named .name ls)).trans (covers_absent _)).node _

/-- The declarations and stray tokens of a text hold its lexemes, all of them and in order. -/
theorem Source.covers {ls : List (Lexeme Symbol)} {ts : List Tree} (h : Source ls ts) : Covers ls ts [] := by
  induction h with
  | @done ls ends =>
    exact .upTo (pending_eq_nil_of_next? ends)
  | @declaration ls t rest us next item more ih => exact (Covers.leading ls).trans (item.covers.trans ih)
  | @stray ls l rest us next keyword more ih =>
    exact (Covers.upTo next).trans (((Covers.token l rest).node _).trans ih)

section
variable {p q : Parser} {ts : List Tree}

lemma adds_missing (hp : p.Live) :
    p.Adds (absent p.rest).1 (missing p) ∧ (missing p).rest = (absent p.rest).2 := by
  obtain ⟨hadds, hrest⟩ := hp.eatTrivia
  have hq := hadds.live hp
  exact ⟨hadds.trans ((hq.start .error).adds_self.node hq), hrest⟩

lemma adds_wrapIdent (hp : p.Live) (s : Symbol) :
    p.Adds (named s p.rest).1 (wrapIdent s p) ∧ (wrapIdent s p).rest = (named s p.rest).2 :=
  hp.ifNext .ident (fun _ _ h => hp.bumpInto h s) (adds_missing hp)

lemma adds_expect (hp : p.Live) (s : Symbol) :
    p.Adds (required s id p.rest).1 (expect s p) ∧ (expect s p).rest = (required s id p.rest).2 :=
  hp.ifNext s (fun _ _ h => hp.bump h) (adds_missing hp)

lemma adds_field (hp : p.Live) : p.Adds (fieldOf p.rest).1 (field p) ∧ (field p).rest = (fieldOf p.rest).2 := by
  obtain ⟨hadds, hrest⟩ := hp.eatTrivia
  have hq := hadds.live hp
  have hs := hq.start .field
  obtain ⟨hname, hr₁⟩ := adds_wrapIdent hs .name
  obtain ⟨hcolon, hr₂⟩ := adds_expect (hname.live hs) .colon
  obtain ⟨htype, hr₃⟩ := adds_wrapIdent (hcolon.live (hname.live hs)) .type
  have hnode := ((hname.trans hcolon).trans htype).node hq
  rw [hr₂, hr₁, show (p.eatTrivia.start .field).rest = pending p.rest from hrest] at hnode hr₃
  exact ⟨hadds.trans hnode, hr₃⟩

/-- A comma after a field is taken along. -/
lemma adds_comma (hp : p.Live) :
    p.Adds (commaOf p.rest).1 (if p.peek = some .comma then p.bump else p) ∧
      (if p.peek = some .comma then p.bump else p).rest = (commaOf p.rest).2 :=
  hp.ifNext .comma (fun _ _ h => hp.bump h) ⟨hp.adds_self, rfl⟩

/-- The inside of a declaration is read by the rules. -/
lemma fields_follow (hp : p.Live) : ∃ ts, Fields p.rest ts (fields p).rest ∧ p.Adds ts (fields p) := by
  fun_induction fields p with
  | case1 p h =>
    rw [hp.peek] at h
    obtain ⟨l, rest, hl, hs⟩ := pending_eq_of_next? h
    obtain ⟨hbump, hrest⟩ := hp.bump hl
    exact ⟨_, hrest ▸ .close hl hs, hbump⟩
  | case2 p h =>
    rw [hp.peek] at h
    obtain ⟨hgap, hrest⟩ := adds_missing hp
    exact ⟨_, hrest ▸ .cut (.inl h), hgap⟩
  | case3 p h =>
    rw [hp.peek] at h
    obtain ⟨hgap, hrest⟩ := adds_missing hp
    exact ⟨_, hrest ▸ .cut (.inr h), hgap⟩
  | case4 p h q ih =>
    rw [hp.peek] at h
    simp only [dite_eq_ite] at ih
    obtain ⟨hfield, hr₁⟩ := adds_field hp
    obtain ⟨hcomma, hr₂⟩ := adds_comma (hfield.live hp)
    obtain ⟨ts, hmore, hts⟩ := ih (hcomma.live (hfield.live hp))
    rw [hr₂, hr₁] at hmore
    rw [hr₁] at hcomma
    exact ⟨_, .field h hmore, (hfield.trans hcomma).trans hts⟩
  | case5 p s hbrace hkeyword hname h ih =>
    rw [hp.peek] at h
    obtain ⟨l, rest, hl, rfl⟩ := pending_eq_of_next? h
    obtain ⟨herror, hrest⟩ := hp.bumpInto hl .error
    obtain ⟨ts, hmore, hts⟩ := ih (herror.live hp)
    rw [show (errorBump p).rest = rest from hrest] at hmore
    have hall := herror.trans hts
    rw [List.append_assoc, List.singleton_append] at hall
    exact ⟨_, .stray hl hbrace hkeyword hname hmore, hall⟩

/-- A declaration is read by the rules from its keyword on; trivia before it stay outside. -/
lemma declaration_follows (hp : p.Live) {l : Lexeme Symbol} {ls : List (Lexeme Symbol)}
    (hpend : pending p.rest = l :: ls) (hl : l.symbol = .structKeyword) :
    ∃ t, Declaration (l :: ls) t (declaration p).rest ∧
      p.Adds ((leading p.rest).map tree ++ [t]) (declaration p) := by
  obtain ⟨hlead, hrest⟩ := hp.eatTrivia
  have hq := hlead.live hp
  have hs : (startNode .struct p).Live := hq.start .struct
  have hopen : (startNode .struct p).rest = l :: ls := hrest.trans hpend
  have hvisible : pending (l :: ls) = l :: ls := hpend ▸ pending_pending p.rest
  obtain ⟨hkeyword, hr₁⟩ := hs.bump ((congrArg pending hopen).trans hvisible)
  rw [hopen, leading_of_pending_eq hvisible] at hkeyword
  have hk := hkeyword.live hs
  obtain ⟨hname, hr₂⟩ := adds_wrapIdent hk .name
  rw [hr₁] at hname hr₂
  have hhead := hkeyword.trans hname
  have hn := hhead.live hs
  unfold declaration
  by_cases hbrace : next? (named .name ls).2 = some .leftBrace
  · obtain ⟨b, after, hb, hsymbol⟩ := pending_eq_of_next? hbrace
    obtain ⟨hopened, hr₃⟩ := hn.bump (hr₂.symm ▸ hb)
    obtain ⟨ts, hinner, hts⟩ := fields_follow (hopened.live hn)
    rw [hr₃] at hinner
    rw [hr₂] at hopened
    simp only [hn.peek, hr₂, if_pos hbrace]
    have hbody := hhead.trans (hopened.trans hts)
    rw [List.append_assoc (List.map tree (leading (named .name ls).2)), List.singleton_append] at hbody
    exact ⟨_, .body hl hb hsymbol hinner, hlead.trans (hbody.node hq)⟩
  · obtain ⟨hgap, hr₃⟩ := adds_missing hn
    rw [hr₂] at hgap hr₃
    simp only [hn.peek, hr₂, if_neg hbrace]
    refine ⟨_, ?_, hlead.trans ((hhead.trans hgap).node hq)⟩
    change Declaration _ _ (missing _).rest
    rw [hr₃]
    exact .bare hl hbrace

/-- The parser reads what it is given to the end, by the rules. -/
theorem declarations_follow (hp : p.Live) : ∃ ts, Source p.rest ts ∧ p.Adds ts (declarations p) := by
  fun_induction declarations p with
  | case1 p h =>
    obtain ⟨hadds, hrest⟩ := hp.eatTrivia
    rw [(hadds.live hp).peek, hrest, next?_pending] at h
    exact ⟨_, .done h, hadds⟩
  | case2 p h ih =>
    obtain ⟨hadds, hrest⟩ := hp.eatTrivia
    have hq := hadds.live hp
    rw [hq.peek, hrest, next?_pending] at h
    obtain ⟨l, ls, hl, hs⟩ := pending_eq_of_next? h
    have hpend : pending p.eatTrivia.rest = l :: ls := by rw [hrest, pending_pending, hl]
    obtain ⟨t, hitem, ht⟩ := declaration_follows hq hpend hs
    obtain ⟨us, hmore, hus⟩ := ih (ht.live hq)
    rw [hrest, leading_of_pending_eq (pending_pending p.rest)] at ht
    exact ⟨_, .declaration h (hl ▸ hitem) hmore, hadds.trans (ht.trans hus)⟩
  | case3 p s hkeyword h ih =>
    obtain ⟨hadds, hrest⟩ := hp.eatTrivia
    have hq := hadds.live hp
    rw [hq.peek, hrest, next?_pending] at h
    obtain ⟨l, ls, hl, rfl⟩ := pending_eq_of_next? h
    have hpend : pending p.eatTrivia.rest = l :: ls := by rw [hrest, pending_pending, hl]
    obtain ⟨herror, hr⟩ := hq.bumpInto hpend .error
    obtain ⟨us, hmore, hus⟩ := ih (herror.live hq)
    rw [hrest, leading_of_pending_eq (pending_pending p.rest)] at herror
    rw [show (errorBump p.eatTrivia).rest = ls from hr] at hmore
    exact ⟨_, .stray hl hkeyword hmore, hadds.trans (herror.trans hus)⟩

/-- Without a cancellation every text has a tree: a root over its declarations and stray tokens. The cache
was asked for everything in it. -/
theorem parse_never (src : Bytes) (cache : Cache) :
    ∃ ts, Source (lex src) ts ∧ parse src cache .never =
      ⟨.ok (.node Symbol.sourceFile.kind ts),
        (cache.serve (Tree.node Symbol.sourceFile.kind ts).subtrees).2, .never⟩ := by
  obtain ⟨ts, hsource, hadds⟩ := declarations_follow (Feed.live_root .sourceFile (lex src) cache)
  exact ⟨ts, hsource, hadds.outcome "decl"⟩

theorem parse_source (src : Bytes) (cache : Cache) :
    ∃ ts, Source (lex src) ts ∧ (parse src cache .never).result = .ok (.node Symbol.sourceFile.kind ts) := by
  obtain ⟨ts, hsource, hparse⟩ := parse_never src cache
  exact ⟨ts, hsource, congrArg Parsed.result hparse⟩

end

end LosslessTree.Decl
