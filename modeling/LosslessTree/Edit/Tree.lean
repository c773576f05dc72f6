import LosslessTree.Cursor.Replace
import LosslessTree.Cursor.Search
import LosslessTree.Edit.Basic

/-! Edits of trees. An edit stays inside one token, which gets a new text and keeps its kind; a token
whose text becomes empty goes away. -/
namespace LosslessTree.TextEdit

/-- The token that an edit falls into: for an insertion the one that starts or holds the offset, or the
last one. -/
def target (root : Cursor) (r : TextRange) : Except EditError Cursor :=
  if r.isEmpty then
    match (if r.start < root.length then root.tokenAt? r.start else none).orElse
        fun _ => root.tokens.getLast? with
    | some token => .ok token
    | none => .error (.noToken r.start)
  else match (root.covering? r).filter Cursor.isToken with
    | some token => .ok token
    | none => .error (.spansTokens r)

/-- The whole tree without the subtree at a place; the root itself stays. -/
def removeAt (c : Cursor) : Tree :=
  match c.parent? with
  | none => c.tree
  | some parent => parent.rebuild (.node parent.kind (parent.tree.children.eraseIdx c.index))

/-- Applies one edit. With a relexer the new token text must be one token of the old kind. -/
def apply (root : Tree) (e : TextEdit) (relex? : Option (Bytes → Option Kind)) :
    Except EditError Tree :=
  match validate [e] root.length with
  | .error problem => .error problem
  | .ok () =>
    match target (.ofRoot root) e.range with
    | .error problem => .error problem
    | .ok token =>
      let range := e.range.shift (-token.offset)
      let text := token.text.take range.start.toNat ++ e.text ++ token.text.drop range.stop.toNat
      if text.isEmpty then .ok (removeAt token)
      else match relex? with
        | none => .ok (token.withText text)
        | some relex =>
          if relex text = some token.kind then .ok (token.withText text)
          else .error (.tokenChanged text token.range)

/-- Applies sorted edits, the last one first. -/
def applySorted (root : Tree) (relex? : Option (Bytes → Option Kind)) :
    List TextEdit → Except EditError Tree
  | [] => .ok root
  | e :: rest =>
    match applySorted root relex? rest with
    | .error problem => .error problem
    | .ok root => apply root e relex?

/-- Applies a batch, or nothing of it. -/
def applyAll (root : Tree) (edits : List TextEdit) (relex? : Option (Bytes → Option Kind)) :
    Except EditError Tree :=
  match prepare edits root.length with
  | .error problem => .error problem
  | .ok sorted => applySorted root relex? sorted

end LosslessTree.TextEdit
