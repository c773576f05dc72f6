import LosslessTree.Command.Arguments
import LosslessTree.Command.Suggestion

/-! Finding the command that arguments ask for. The first argument that is neither a flag nor the value of
one names a command below the current one, and so on. -/
namespace LosslessTree.Command

/-- Whether the argument after a flag is taken for its value. A flag that is not known counts as one with a
value. -/
def takesValue (flags : List Flag) (argument : Bytes) : Bool :=
  if argument.contains 0x3D then false
  else if Arguments.terminator.isPrefixOf argument then
    !flags.any fun f => f.isNamed (argument.drop 2) && f.isSwitch
  else argument.head? == some 0x2D && argument.length == 2 &&
    !flags.any fun f => f.letter == argument.getLast? && f.isSwitch

/-- The first argument that is no flag, and the arguments without it. A flag with a value that only one
argument follows ends the search. -/
def firstWord? (flags : List Flag) : List Bytes → Option (Bytes × List Bytes)
  | [] => none
  | argument :: rest =>
    if argument = Arguments.terminator then none
    else if takesValue flags argument then
      match rest with
      | value :: next :: rest =>
        (firstWord? flags (next :: rest)).map fun (word, others) => (word, argument :: value :: others)
      | _ => none
    else if argument.isEmpty || argument.head? == some 0x2D then
      (firstWord? flags rest).map fun (word, others) => (word, argument :: others)
    else some (argument, rest)

theorem length_firstWord? (flags : List Flag) (arguments : List Bytes) {word : Bytes}
    {others : List Bytes} (h : firstWord? flags arguments = some (word, others)) :
    others.length + 1 = arguments.length := by
  fun_induction firstWord? flags arguments generalizing word others with
  | case1 => simp at h
  | case2 => simp at h
  | case3 argument _ _ value next rest ih =>
    obtain ⟨⟨w, o⟩, ho, he⟩ := Option.map_eq_some_iff.1 h
    obtain ⟨rfl, rfl⟩ := Prod.mk.inj he
    have := ih ho
    simp only [List.length_cons] at this ⊢
    omega
  | case4 => simp at h
  | case5 argument rest _ _ _ ih =>
    obtain ⟨⟨w, o⟩, ho, he⟩ := Option.map_eq_some_iff.1 h
    obtain ⟨rfl, rfl⟩ := Prod.mk.inj he
    have := ih ho
    simp only [List.length_cons]
    omega
  | case6 argument rest =>
    obtain ⟨rfl, rfl⟩ := Prod.mk.inj (Option.some.inj h)
    simp

/-- The command that arguments ask for, from a command on, and the arguments that are left for it. -/
def locateFrom (s : Spec) (arguments : List Bytes) : Spec × List Bytes :=
  match _h : firstWord? s.knownFlags arguments with
  | none => (s, arguments)
  | some (word, others) =>
    match s.children.find? (Spec.answersTo word) with
    | none => (s, arguments)
    | some child => locateFrom child others
termination_by arguments.length
decreasing_by
  have := length_firstWord? _ _ _h
  omega

structure Located where
  spec : Spec
  arguments : List Bytes

/-- The name that no command has, with what may have been meant. -/
inductive LookupError where
  | unknownCommand (word : Bytes) (suggestions : List Spec)

def unknownCommandMessage (word : Bytes) (s : Spec) : Bytes :=
  "unknown command " ++ Quoted.encode word ++ " for " ++ Quoted.encode s.typed

def LookupError.message : LookupError → Bytes
  | .unknownCommand word suggestions =>
    unknownCommandMessage word Catalog.program ++ Suggestion.text suggestions

/-- The command that arguments ask for. The program itself takes no arguments, so a word left for it is
the name of no command. -/
def locate (arguments : List Bytes) : Except LookupError Located :=
  let (s, rest) := locateFrom Catalog.program arguments
  match if s.path.isEmpty then firstWord? s.knownFlags rest else none with
  | some (word, _) => .error (.unknownCommand word (Suggestion.forWord s word))
  | none => .ok ⟨s, rest⟩

end LosslessTree.Command
