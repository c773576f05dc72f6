import LosslessTree.Proofs.Decl.Reading
import LosslessTree.Proofs.Language.Cancellation

/-! Cancelling the parser of struct declarations. Whatever it expects when it is stopped, it finds only the
end of the text, so it marks gaps and closes what is open. -/
namespace LosslessTree.Decl
open Feed Lexeme

section
variable {limit : Feed.Limit Symbol} {p q : Parser}

lemma steady_missing : limit.Steady missing :=
  (Limit.steady_id.node Symbol.error).comp Limit.steady_eatTrivia

lemma steady_errorBump : limit.Steady errorBump :=
  (Limit.steady_bump.node Symbol.error).comp Limit.steady_eatTrivia

lemma steady_wrapIdent (s : Symbol) : limit.Steady (wrapIdent s) := by
  have hfound : limit.Steady fun p => (startNode s p).bump.finish :=
    (Limit.steady_bump.node s).comp Limit.steady_eatTrivia
  exact hfound.choose (c := (· = some .ident)) steady_missing

lemma steady_expect (s : Symbol) : limit.Steady (expect s) :=
  Limit.steady_bump.choose (c := (· = some s)) steady_missing

lemma steady_field : limit.Steady field := by
  have hname : limit.Steady (wrapIdent .name) := steady_wrapIdent .name
  have hparts := (steady_wrapIdent .type).comp ((steady_expect .colon).comp hname)
  exact (hparts.node Symbol.field).comp Limit.steady_eatTrivia

/-- A field with the comma after it, if there is one. -/
def fieldComma (p : Parser) : Parser := if (field p).peek = some .comma then (field p).bump else field p

lemma steady_fieldComma : limit.Steady fieldComma := by
  have hcomma : limit.Steady fun p => if p.peek = some .comma then p.bump else p :=
    Limit.steady_bump.choose (c := (· = some Symbol.comma)) Limit.steady_id
  exact hcomma.comp steady_field

lemma fields_eq (p : Parser) : fields p =
    match p.peek with
    | some .rightBrace => p.bump
    | none | some .structKeyword => missing p
    | some .ident => fields (fieldComma p)
    | some _ => fields (errorBump p) := by
  rw [fields]
  split <;> simp_all [fieldComma]

lemma stopped_fields (hp : limit.Stopped p) : limit.Stopped (fields p) := by
  rw [fields_eq, hp.peek]
  exact steady_missing.stopped p hp

/-- The limited parser follows through the inside of a declaration. -/
lemma kept_fields (hq : limit.OnTime q) : limit.Shadow (fields (limit.on q)) (fields q) := by
  fun_induction fields q with
  | case1 q h =>
    rw [fields_eq (limit.on q), Limit.peek_on, h]
    exact Limit.steady_bump.onTime q hq
  | case2 q h =>
    rw [fields_eq (limit.on q), Limit.peek_on, h]
    exact steady_missing.onTime q hq
  | case3 q h =>
    rw [fields_eq (limit.on q), Limit.peek_on, h]
    exact steady_missing.onTime q hq
  | case4 q h r ih =>
    rw [fields_eq (limit.on q), Limit.peek_on, h]
    simp only [dite_eq_ite] at ih
    exact (steady_fieldComma.onTime q hq).step (f := fields) (g := fields) (fun _ hp => stopped_fields hp) ih
  | case5 q s hbrace hkeyword hname h ih =>
    have hstray : fields (limit.on q) = fields (errorBump (limit.on q)) := by
      rw [fields_eq (limit.on q), Limit.peek_on, h]
      cases s <;> first | rfl | contradiction
    rw [hstray]
    exact (steady_errorBump.onTime q hq).step (fun _ hp => stopped_fields hp) ih

lemma steady_fields : limit.Steady fields := by
  refine ⟨fun q hq => ?_, fun p hp => stopped_fields hp, fun q hq => kept_fields hq⟩
  obtain ⟨ts, -, hts⟩ := fields_follow hq
  exact ⟨ts, hts⟩

lemma steady_declaration : limit.Steady declaration := by
  have hbody : limit.Steady fun p => if p.peek = some .leftBrace then fields p.bump else missing p :=
    (steady_fields.comp Limit.steady_bump).choose (c := (· = some Symbol.leftBrace)) steady_missing
  have hinner := hbody.comp ((steady_wrapIdent .name).comp Limit.steady_bump)
  exact (hinner.node Symbol.struct).comp Limit.steady_eatTrivia

/-- What stands next in the root: a declaration, or a token that starts none. -/
def item (s : Symbol) (p : Parser) : Parser := if s = .structKeyword then declaration p else errorBump p

lemma steady_item (s : Symbol) : limit.Steady (item s) := by
  unfold item
  split_ifs
  · exact steady_declaration
  · exact steady_errorBump

lemma declarations_of_none (h : p.eatTrivia.peek = none) : declarations p = p.eatTrivia := by
  rw [declarations]
  split <;> simp_all

lemma declarations_of_some {s : Symbol} (h : p.eatTrivia.peek = some s) :
    declarations p = declarations (item s p.eatTrivia) := by
  rw [declarations, item]
  split <;> simp_all

lemma stopped_declarations (hp : limit.Stopped p) : limit.Stopped (declarations p) := by
  have htrivia := Limit.steady_eatTrivia.stopped p hp
  rwa [declarations_of_none htrivia.peek]

/-- The limited parser follows from one item to those after it. -/
lemma kept_item {s : Symbol} (h : q.eatTrivia.peek = some s) (hq : limit.OnTime q)
    (ih : limit.OnTime (item s q.eatTrivia) → limit.Shadow (declarations (limit.on (item s q.eatTrivia)))
      (declarations (item s q.eatTrivia))) :
    limit.Shadow (declarations (limit.on q)) (declarations (item s q.eatTrivia)) := by
  rcases Limit.steady_eatTrivia.onTime q hq with ⟨htrivia, heq⟩ | hstopped
  · have hsome : (limit.on q).eatTrivia.peek = some s := by rw [heq, Limit.peek_on, h]
    rw [declarations_of_some hsome, heq]
    exact ((steady_item s).onTime _ htrivia).step (fun _ hp => stopped_declarations hp) ih
  · right
    rwa [declarations_of_none hstopped.peek]

/-- The limited parser follows to the end of the text. -/
theorem kept_declarations (hq : limit.OnTime q) :
    limit.Shadow (declarations (limit.on q)) (declarations q) := by
  fun_induction declarations q with
  | case1 q h =>
    rcases Limit.steady_eatTrivia.onTime q hq with ⟨htrivia, heq⟩ | hstopped
    · have hnone : (limit.on q).eatTrivia.peek = none := by rw [heq, Limit.peek_on, h]
      rw [declarations_of_none hnone, heq]
      exact htrivia.shadow
    · right
      rwa [declarations_of_none hstopped.peek]
  | case2 q h ih => exact kept_item h hq ih
  | case3 q s hkeyword h ih =>
    have hs : item s q.eatTrivia = errorBump q.eatTrivia := if_neg hkeyword
    have hitem := kept_item h hq
    rw [hs] at hitem
    exact hitem ih

lemma live_item (hp : p.Live) (s : Symbol) : (item s p.eatTrivia).Live := by
  obtain ⟨hadds, -⟩ := hp.eatTrivia
  have hlive := hadds.live hp
  have hsteady : (⟨{}, [], 0⟩ : Feed.Limit Symbol).Steady (item s) := steady_item s
  obtain ⟨ts, hts⟩ := hsteady.adds _ hlive
  exact hts.live hlive

/-- At the end of the text nothing is left to feed. -/
lemma rest_declarations (hp : p.Live) : (declarations p).rest = [] := by
  fun_induction declarations p with
  | case1 p h =>
    obtain ⟨hadds, hrest⟩ := hp.eatTrivia
    rw [(hadds.live hp).peek, hrest, next?_pending] at h
    rw [hrest, pending_eq_nil_of_next? h]
  | case2 p h ih => exact ih (live_item hp .structKeyword)
  | case3 p s hkeyword h ih =>
    have hitem := live_item hp s
    rw [item, if_neg hkeyword] at hitem
    exact ih hitem

end

/-- What parsing comes to if only so many checks pass. -/
theorem checksLexemes (src : Bytes) (cache : Cache) (n : Nat) :
    ChecksLexemes "decl" (lex src) cache (parse src cache) n := by
  have hroot := Limit.onTime_root Symbol.sourceFile (lex src) cache n
  obtain ⟨ts, -, hparse⟩ := parse_source src cache
  have hkept := kept_declarations hroot
  rw [Limit.on_root] at hkept
  exact hkept.checksLexemes (rest_declarations hroot.live) hparse rfl rfl

end LosslessTree.Decl
