import LosslessTree.Command.Session
import LosslessTree.Json.Layout

/-! The command that lists languages. -/
namespace LosslessTree.Command

def languagesJson (languages : List Language) : Json :=
  .array (languages.map fun l =>
    .object [("name", .string l.name), ("extensions", .array (l.extensions.map .string))])

/-- A table with a line for each language. -/
def languagesTable (theme : Theme) (languages : List Language) : Bytes :=
  let heading : Bytes := "LANGUAGE"
  let width := ((languages.map fun l => Cells.width l.name).foldl max heading.length : Nat)
  let row (l : Language) : Bytes :=
    theme.nodeKind.render (Cells.padRight l.name width) ++ [0x20, 0x20] ++
      theme.dim.render (Bytes.join [0x20] l.extensions) ++ [0x0A]
  theme.tableHeader.render (Cells.padRight heading width ++ "  EXTENSIONS") ++ [0x0A] ++
    languages.flatMap row

def languages (a : Arguments) : Job Unit := do
  let session ← Session.load a []
  let found := session.registry.sorted
  if session.config.format = Bytes.ofString "json" then
    let pieces := Json.pretty Json.defaultWidth (languagesJson found)
    Job.print (if session.colorMode.isEnabled then Json.colored pieces else Json.plain pieces)
  else Job.print (languagesTable (.ofMode session.colorMode) found)

end LosslessTree.Command
