import LosslessTree.Language.Decl.Lexer
import LosslessTree.Language.Feed

/-! Parsing struct declarations by descent. A token that fits nowhere goes into an ERROR node, a
missing part becomes an empty one, and the keyword always begins a new declaration. -/
namespace LosslessTree.Decl

abbrev Parser := Feed Symbol

/-- Opens a node after pending trivia, which stays outside it. -/
def startNode (s : Symbol) (p : Parser) : Parser := p.eatTrivia.start s

def missing (p : Parser) : Parser := (startNode .error p).finish

def errorBump (p : Parser) : Parser := (startNode .error p).bump.finish

/-- Wraps the next name, or marks that there is none. -/
def wrapIdent (s : Symbol) (p : Parser) : Parser :=
  if p.peek = some .ident then (startNode s p).bump.finish else missing p

def expect (s : Symbol) (p : Parser) : Parser := if p.peek = some s then p.bump else missing p

/-- A field `name: Type`. -/
def field (p : Parser) : Parser :=
  (wrapIdent .type (expect .colon (wrapIdent .name (startNode .field p)))).finish

theorem left_startNode_le (s : Symbol) (p : Parser) : (startNode s p).left ≤ p.left :=
  Feed.left_eatTrivia_le p

theorem left_missing_le (p : Parser) : (missing p).left ≤ p.left := left_startNode_le .error p

/-- A token that is put into a node of its own is read. -/
theorem left_bump_startNode_lt {p : Parser} (s : Symbol) (hp : 0 < p.left) :
    (startNode s p).bump.left < p.left := by
  have := Feed.left_bump_le (startNode s p)
  have := left_startNode_le s p
  omega

theorem left_errorBump_lt {p : Parser} (hp : 0 < p.left) : (errorBump p).left < p.left :=
  left_bump_startNode_lt .error hp

theorem left_bump_le (p : Parser) : p.bump.left ≤ p.left := by
  have := Feed.left_bump_le p
  omega

theorem left_wrapIdent_le (s : Symbol) (p : Parser) : (wrapIdent s p).left ≤ p.left := by
  unfold wrapIdent
  split
  · exact Nat.le_trans (left_bump_le (startNode s p)) (left_startNode_le s p)
  · exact left_missing_le p

theorem left_expect_le (s : Symbol) (p : Parser) : (expect s p).left ≤ p.left := by
  unfold expect
  split
  · exact left_bump_le p
  · exact left_missing_le p

/-- A field that starts with a name takes at least that. -/
theorem left_field_lt {p : Parser} (h : p.peek = some .ident) : (field p).left < p.left := by
  have hp := Feed.left_pos_of_peek h
  have hn := left_wrapIdent_le .name (startNode .field p)
  have hc := left_expect_le .colon (wrapIdent .name (startNode .field p))
  have ht := left_wrapIdent_le .type (expect .colon (wrapIdent .name (startNode .field p)))
  have hs := left_startNode_le .field p
  change (wrapIdent .type (expect .colon (wrapIdent .name (startNode .field p)))).left < p.left
  cases hcancel : p.eatTrivia.cancelled with
  | true =>
    have : (startNode .field p).left = 0 := by simp [startNode, Feed.start, Feed.left, hcancel]
    omega
  | false =>
    have hk : (startNode .field p).peek = some .ident := (Feed.peek_eatTrivia hcancel).trans h
    have : (wrapIdent .name (startNode .field p)).left < (startNode .field p).left := by
      rw [wrapIdent, if_pos hk]
      exact left_bump_startNode_lt .name (Feed.left_pos_of_peek hk)
    omega

/-- The fields up to the closing brace, the end or the next declaration. -/
def fields (p : Parser) : Parser :=
  match _h : p.peek with
  | some .rightBrace => p.bump
  | none | some .structKeyword => missing p
  | some .ident =>
    let q := field p
    fields (if q.peek = some .comma then q.bump else q)
  | some _ => fields (errorBump p)
termination_by p.left
decreasing_by
  · have := left_field_lt _h
    have := left_bump_le (field p)
    split <;> omega
  · exact left_errorBump_lt (Feed.left_pos_of_peek _h)

/-- A declaration `struct Name { field: Type, ... }`. -/
def declaration (p : Parser) : Parser :=
  let p := wrapIdent .name (startNode .struct p).bump
  (if p.peek = some .leftBrace then fields p.bump else missing p).finish

theorem left_fields_le (p : Parser) : (fields p).left ≤ p.left := by
  fun_induction fields p with
  | case1 p _ => exact left_bump_le p
  | case2 p _ => exact left_missing_le p
  | case3 p _ => exact left_missing_le p
  | case4 p h q ih =>
    have hf := left_field_lt h
    have hb := left_bump_le q
    have hq : (if q.peek = some .comma then q.bump else q).left ≤ q.left := by
      split
      · exact hb
      · exact Nat.le_refl _
    exact Nat.le_trans ih (Nat.le_trans hq (Nat.le_of_lt hf))
  | case5 p s _ _ _ h ih =>
    exact Nat.le_trans ih (Nat.le_of_lt (left_errorBump_lt (Feed.left_pos_of_peek h)))

theorem left_declaration_lt {p : Parser} (hp : 0 < p.left) : (declaration p).left < p.left := by
  have hs := left_bump_startNode_lt .struct hp
  have hn := left_wrapIdent_le .name (startNode .struct p).bump
  have hb := left_bump_le (wrapIdent .name (startNode .struct p).bump)
  have hf := left_fields_le (wrapIdent .name (startNode .struct p).bump).bump
  have hm := left_missing_le (wrapIdent .name (startNode .struct p).bump)
  unfold declaration
  change Feed.left (if _ then _ else _) < _
  split <;> omega

def declarations (p : Parser) : Parser :=
  match _h : p.eatTrivia.peek with
  | none => p.eatTrivia
  | some .structKeyword => declarations (declaration p.eatTrivia)
  | some _ => declarations (errorBump p.eatTrivia)
termination_by p.left
decreasing_by
  · exact Nat.lt_of_lt_of_le (left_declaration_lt (Feed.left_pos_of_peek _h)) (Feed.left_eatTrivia_le p)
  · exact Nat.lt_of_lt_of_le (left_errorBump_lt (Feed.left_pos_of_peek _h)) (Feed.left_eatTrivia_le p)

def parse (src : Bytes) (cache : Cache) (cancellation : Cancellation) : Parsed :=
  let lexemes := lex src
  let p : Parser := { rest := lexemes, builder := { cache := cache }, cancellation := cancellation }
  (declarations (p.start .sourceFile)).outcome "decl"

end LosslessTree.Decl
