import LosslessTree.Cursor.View
import LosslessTree.Language.Decl.Lexer

/-! Typed views of struct declarations. -/
namespace LosslessTree.Decl

def structs (file : Cursor) : List Cursor := file.childrenOf Symbol.struct.kind
def fieldsOf (struct : Cursor) : List Cursor := struct.childrenOf Symbol.field.kind
def nameOf? (c : Cursor) : Option Cursor := c.childOf? Symbol.name.kind
def typeOf? (c : Cursor) : Option Cursor := c.childOf? Symbol.type.kind

/-- The identifier under a NAME or TYPE. -/
def identText (c : Cursor) : Bytes :=
  match c.tokenOf? Symbol.ident.kind with
  | some token => token.text
  | none => []

end LosslessTree.Decl
