import LosslessTree.Command.Spec

/-! The commands of the program and their flags. -/
namespace LosslessTree.Command

/-- The flags that every command has. -/
def globalFlags : List Flag :=
  [{ name := "config", kind := .text, usage := "path to config file" },
    { name := "no-config", kind := .bool, usage := "ignore user and project config files" },
    { name := "language", letter := some 0x6C, kind := .text
      usage := "force a language instead of detecting it" },
    { name := "format", kind := .text, usage := "output format: text, json" },
    { name := "color", kind := .text, usage := "colorize output: auto, always, never"
      initially := "auto" },
    { name := "log-level", kind := .text, usage := "log level: debug, info, warn, error" },
    { name := "jobs", letter := some 0x6A, kind := .int
      usage := "number of parallel workers (0 = one per CPU)" },
    { name := "debug", kind := .bool, usage := "enable debug logging" }]

/-- The flags of commands that look for files. -/
def discoveryFlags : List Flag :=
  [{ name := "shared-cache", kind := .bool, usage := "intern every file through one shared cache" },
    { name := "follow-symlinks", kind := .bool, usage := "follow directory symlinks" },
    { name := "include", kind := .list, usage := "only parse files matching these globs" },
    { name := "exclude", kind := .list, usage := "skip files and directories matching these globs" }]

namespace Catalog

def lines (texts : List String) : String := "\n".intercalate texts

def program : Spec where
  path := []
  short := "Inspect and edit lossless syntax trees"
  long := lines
    ["syntree parses source files into lossless syntax trees.",
      "",
      "Every byte of the input, whitespace and malformed text included, is kept in",
      "the tree, so printing a tree reproduces its file exactly. Trees can be dumped,",
      "measured across whole directories, and edited without re-parsing."]

def parse : Spec where
  path := ["parse"]
  parameters := "[paths...]"
  short := "Parse files and print their syntax trees"
  long := lines
    ["Parse files and print their syntax trees.",
      "",
      "Directories are walked recursively for files of every registered language.",
      "Use \"-\" to read standard input; its language is detected from the content",
      "unless --language is given.",
      "",
      "Examples:",
      "  syntree parse expr.calc             # Print one tree",
      "  syntree parse --depth 2 docs/       # Print the top of every tree in docs",
      "  syntree parse --format json a.decl  # Nested JSON output",
      "  echo '1 + 2' | syntree parse -l calc -"]
  flags := discoveryFlags ++
    [{ name := "depth", kind := .int, usage := "stop printing below this depth (0 = unlimited)" },
      { name := "no-offsets", kind := .bool, usage := "omit start..end ranges" },
      { name := "compact", kind := .bool, usage := "minify JSON output" },
      { name := "summary", kind := .bool, usage := "print aggregate statistics after the trees" },
      { name := "strict", kind := .bool, usage := "exit with an error when trees contain ERROR nodes" }]
  action := some .parse

def edit : Spec where
  path := ["edit"]
  parameters := "FILE"
  short := "Apply text edits to a file's syntax tree"
  long := lines
    ["Apply text edits to a file's syntax tree.",
      "",
      "Each edit replaces a byte range start..end of the original text. Edits that",
      "stay inside one token, and leave it lexing as the same kind of token, are",
      "applied to the tree directly, rebuilding only the path from that token to the",
      "root. Other edits are applied to the text, which is then parsed again.",
      "",
      "A batch of edits can be read from a JSON file holding an array of",
      "\x7b\"start\": 0, \"end\": 1, \"text\": \"x\"\x7d objects, or an object with such an array",
      "under \"edits\". A \"range\": \"0..1\" string may replace start and end.",
      "",
      "Examples:",
      "  syntree edit expr.calc --at 4..5 --text 3          # Print the edited text",
      "  syntree edit expr.calc --at 4..5 --text 3 --tree   # Print the edited tree",
      "  syntree edit notes.md --edits fixes.json --write --backup",
      "  syntree edit notes.md --restore                     # Undo a --backup write"]
  flags :=
    [{ name := "at", kind := .text, usage := "byte range to replace, as start..end" },
      { name := "text", kind := .text, usage := "replacement text for --at" },
      { name := "edits", kind := .text, usage := "JSON file with a batch of edits" },
      { name := "write", letter := some 0x77, kind := .bool
        usage := "write the result back to FILE" },
      { name := "backup", kind := .bool
        usage := "keep a copy of the original next to FILE when writing" },
      { name := "reparse", kind := .bool
        usage := "always apply edits to the text and parse again" },
      { name := "tree", kind := .bool, usage := "print the edited tree instead of its text" },
      { name := "restore", kind := .bool, usage := "put back the original saved by --backup" }]
  arity := .exactly 1
  action := some .edit
  choice := ["at", "edits", "restore"]

def stats : Spec where
  path := ["stats"]
  parameters := "[paths...]"
  short := "Measure the trees of many files"
  long := lines
    ["Parse files and print a table of tree statistics.",
      "",
      "Each row shows the size of one file's tree: nodes, tokens, depth and the",
      "number of ERROR nodes. With --shared-cache all workers intern through one",
      "cache, and the summary shows how many subtrees were shared across files.",
      "",
      "Examples:",
      "  syntree stats                       # Every known file below .",
      "  syntree stats --shared-cache src/   # Measure subtree sharing",
      "  syntree stats --summary-only docs/  # Totals only",
      "  syntree stats --format json docs/   # Machine-readable statistics"]
  flags := discoveryFlags ++
    [{ name := "summary-only", kind := .bool, usage := "print totals without the per-file table" }]
  action := some .stats

def languages : Spec where
  path := ["langs"]
  aliases := ["languages"]
  short := "List the supported languages"
  long := lines
    ["List the languages syntree can parse and the file extensions that",
      "select each of them."]
  arity := .none
  action := some .languages

def init : Spec where
  path := ["init"]
  short := "Create a syntree configuration file"
  long := lines
    ["Create a .syntree.yml configuration file in the current directory.",
      "",
      "By default every setting is written commented out with its default value.",
      "",
      "Examples:",
      "  syntree init                       Create .syntree.yml",
      "  syntree init --full                Write every setting uncommented",
      "  syntree init --format json         Create .syntree.json instead",
      "  syntree init --output custom.yml   Write to a custom file path"]
  flags :=
    [{ name := "force", letter := some 0x66, kind := .bool
       usage := "overwrite an existing configuration file" },
      { name := "full", kind := .bool, usage := "write every setting uncommented" },
      { name := "format", kind := .text, usage := "file format: yaml or json", initially := "yaml" },
      { name := "output", letter := some 0x6F, kind := .text
        usage := "output file path (default .syntree.yml or .syntree.json)" }]
  arity := .none
  action := some .init

def config : Spec where
  path := ["config"]
  short := "Inspect syntree configuration"
  long := lines
    ["Inspect how syntree resolves its configuration.",
      "",
      "Settings are layered: defaults, then the user config, the project config, an",
      "explicit --config file, SYNTREE_* environment variables and finally flags."]
  arity := .none

def configShow : Spec where
  path := ["config", "show"]
  short := "Print the resolved configuration as YAML"
  arity := .none
  action := some .showConfig

def configPath : Spec where
  path := ["config", "path"]
  short := "Show where configuration files are looked up"
  arity := .none
  action := some .locateConfig

def configEnv : Spec where
  path := ["config", "env"]
  short := "List the environment variables syntree reads"
  arity := .none
  action := some .listVariables

def configValidate : Spec where
  path := ["config", "validate"]
  parameters := "FILE"
  short := "Check a configuration file for errors"
  arity := .exactly 1
  action := some .checkConfig

def version : Spec where
  path := ["version"]
  short := "Print version information"
  long := "Print the version, commit hash, and build date of syntree."
  arity := .none
  action := some .version

def help : Spec where
  path := ["help"]
  parameters := "[command]"
  short := "Help about any command"
  long := lines
    ["Help provides help for any command in the application.",
      "Simply type syntree help [path to command] for full details."]
  action := some .help

def completion : Spec where
  path := ["completion"]
  short := "Generate the autocompletion script for the specified shell"
  long := lines
    ["Generate the autocompletion script for syntree for the specified shell.",
      "See each sub-command's help for details on how to use the generated script.",
      ""]
  arity := .none

/-- The command that prints the script for one shell. -/
def completionFor (shell : String) (instructions : List String) (mentionsFlags : Bool) : Spec where
  path := ["completion", shell]
  short := "Generate the autocompletion script for " ++ shell
  long := lines (instructions ++ [""])
  flags :=
    [{ name := "no-descriptions", kind := .bool, usage := "disable completion descriptions" }]
  arity := .none
  action := some .completion
  mentionsFlags := mentionsFlags

/-- What every new shell needs to know. -/
def restartNote : String := "You will need to start a new shell for this setup to take effect."

def completions : List Spec :=
  [completionFor "bash"
      ["Generate the autocompletion script for the bash shell.",
        "",
        "This script depends on the 'bash-completion' package.",
        "If it is not installed already, you can install it via your OS's package manager.",
        "",
        "To load completions in your current shell session:",
        "",
        "\tsource <(syntree completion bash)",
        "",
        "To load completions for every new session, execute once:",
        "",
        "#### Linux:",
        "",
        "\tsyntree completion bash > /etc/bash_completion.d/syntree",
        "",
        "#### macOS:",
        "",
        "\tsyntree completion bash > $(brew --prefix)/etc/bash_completion.d/syntree",
        "",
        restartNote] false,
    completionFor "zsh"
      ["Generate the autocompletion script for the zsh shell.",
        "",
        "If shell completion is not already enabled in your environment you will need",
        "to enable it.  You can execute the following once:",
        "",
        "\techo \"autoload -U compinit; compinit\" >> ~/.zshrc",
        "",
        "To load completions in your current shell session:",
        "",
        "\tsource <(syntree completion zsh)",
        "",
        "To load completions for every new session, execute once:",
        "",
        "#### Linux:",
        "",
        "\tsyntree completion zsh > \"$\x7bfpath[1]\x7d/_syntree\"",
        "",
        "#### macOS:",
        "",
        "\tsyntree completion zsh > $(brew --prefix)/share/zsh/site-functions/_syntree",
        "",
        restartNote] true,
    completionFor "fish"
      ["Generate the autocompletion script for the fish shell.",
        "",
        "To load completions in your current shell session:",
        "",
        "\tsyntree completion fish | source",
        "",
        "To load completions for every new session, execute once:",
        "",
        "\tsyntree completion fish > ~/.config/fish/completions/syntree.fish",
        "",
        restartNote] true,
    completionFor "powershell"
      ["Generate the autocompletion script for powershell.",
        "",
        "To load completions in your current shell session:",
        "",
        "\tsyntree completion powershell | Out-String | Invoke-Expression",
        "",
        "To load completions for every new session, add the output of the above command",
        "to your powershell profile."] true]

end Catalog

/-- All commands below the program itself. -/
def catalog : List Spec :=
  [Catalog.parse, Catalog.edit, Catalog.stats, Catalog.languages, Catalog.init, Catalog.config,
    Catalog.version, Catalog.help, Catalog.completion, Catalog.configShow, Catalog.configPath,
    Catalog.configEnv, Catalog.configValidate] ++ Catalog.completions

namespace Spec

def children (s : Spec) : List Spec :=
  catalog.filter fun c => c.path.length == s.path.length + 1 && s.path.isPrefixOf c.path

/-- The global flags that no flag of its own replaces. -/
def inherited (s : Spec) : List Flag :=
  if s.path.isEmpty then []
  else globalFlags.filter fun g => s.flags.all (·.name != g.name)

/-- The flags that belong to a command itself; the global ones belong to the program. -/
def own (s : Spec) : List Flag := if s.path.isEmpty then globalFlags ++ s.flags else s.flags

/-- The flags that can be given. -/
def knownFlags (s : Spec) : List Flag := s.own ++ s.inherited

end Spec
end LosslessTree.Command
