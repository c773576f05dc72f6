import LosslessTree.Command.Catalog
import LosslessTree.Report.Style

/-! Help texts. -/
namespace LosslessTree.Command

/-- The styles of a help text. -/
structure HelpTheme where
  command : Style := {}
  heading : Style := {}
  subcommand : Style := {}
  flag : Style := {}
  dim : Style := {}
  deriving DecidableEq, Repr

namespace HelpTheme

def plain : HelpTheme := {}

def colored : HelpTheme where
  command := { bold := true, color := some .cyan }
  heading := { bold := true, color := some .yellow }
  subcommand := { color := some .green }
  flag := { color := some .blue }
  dim := { color := some .gray }

end HelpTheme

namespace Help

/-- The name of a flag in its column; one without a letter leaves room for it. -/
def flagNames (theme : HelpTheme) (f : Flag) : Bytes :=
  let name := theme.flag.render ("--" ++ Bytes.ofString f.name)
  let names : Bytes := match f.letter with
    | some letter => "  " ++ theme.flag.render [0x2D, letter] ++ ", " ++ name
    | none => "      " ++ name
  if f.isSwitch then names else names ++ " " ++ theme.dim.render f.kind.valueWord

def flagLine (theme : HelpTheme) (f : Flag) : Bytes :=
  let initially : Bytes :=
    if f.initially.isEmpty then [] else " (default " ++ Quoted.encode f.initially ++ ")"
  flagNames theme f ++ "   " ++ Bytes.ofString f.usage ++ initially

/-- The flags by name, a line each. -/
def flagLines (theme : HelpTheme) (flags : List Flag) : Bytes :=
  let sorted := flags.mergeSort fun a b => Bytes.le a.name b.name
  Bytes.join [0x0A] (sorted.map (flagLine theme))

/-- The least width of the column with the names of commands. -/
def nameWidth : Int := 11

def childLine (theme : HelpTheme) (s : Spec) : Bytes :=
  0x0A :: ("  " ++ theme.subcommand.render (Cells.padRight s.name nameWidth) ++ " " ++
    Bytes.ofString s.short)

/-- How a command is called. -/
def usageLine (s : Spec) : Bytes :=
  let words := [s.parameters, if s.mentionsFlags then "[flags]" else ""].filter (!·.isEmpty)
  s.typed ++ (words.map fun w => Bytes.ofString (" " ++ w)).flatten

/-- A block under a heading, with an empty line before it. -/
def block (theme : HelpTheme) (heading : String) (body : Bytes) : Bytes :=
  "\n\n" ++ theme.heading.render (Bytes.ofString heading) ++ body

/-- How a command and the commands below it are called, and with which flags. -/
def usage (theme : HelpTheme) (s : Spec) (ownFlags : List Flag) : Bytes :=
  let children := s.children.mergeSort fun a b => Bytes.le a.name b.name
  let call : Bytes := if s.isRunnable then theme.command.render (usageLine s) else []
  let groupCall : Bytes :=
    if children.isEmpty then [] else theme.command.render s.typed ++ " [command]"
  let calls : Bytes := theme.heading.render "Usage:" ++ "\n  " ++ call ++ "\n  " ++ groupCall
  let aliases : Bytes :=
    if s.aliases.isEmpty then []
    else block theme "Aliases:" ("\n  " ++ theme.dim.render (Bytes.ofString (", ".intercalate s.aliases)))
  let commands : Bytes :=
    if children.isEmpty then []
    else block theme "Available Commands:" (children.flatMap (childLine theme))
  let own : Bytes :=
    if ownFlags.isEmpty then [] else block theme "Flags:" (0x0A :: flagLines theme ownFlags)
  let inherited : Bytes :=
    if s.inherited.isEmpty then []
    else block theme "Global Flags:" (0x0A :: flagLines theme s.inherited)
  let more : Bytes :=
    if children.isEmpty then []
    else "\n\nUse \"" ++ theme.command.render (s.typed ++ " [command] --help") ++
      "\" for more information about a command."
  calls ++ aliases ++ commands ++ own ++ inherited ++ more ++ "\n"

/-- A text without blanks at the ends of its lines. -/
def trimLines (text : Bytes) : Bytes :=
  Bytes.join [0x0A] ((Bytes.split Bytes.newline text).map
    (Bytes.trimRight fun b => b == Bytes.space || b == Bytes.tab))

/-- The help on a command. -/
def text (theme : HelpTheme) (s : Spec) : Bytes :=
  let description := if s.long.isEmpty then s.short else s.long
  theme.command.render s.typed ++ "\n\n" ++ trimLines (Bytes.ofString description) ++ "\n\n" ++
    usage theme s (s.own ++ [s.helpFlag])

end Help
end LosslessTree.Command
