import LosslessTree.Yaml.Resolve
import LosslessTree.Yaml.Scanner

/-! Composing the first document of a text. Nodes know their line and their tag; an alias knows the number
of the anchored node it stands for. -/
namespace LosslessTree.Yaml

inductive Node where
  | scalar (line : Nat) (tag value : Bytes)
  | sequence (line : Nat) (tag : Bytes) (items : List Node)
  | mapping (line : Nat) (tag : Bytes) (entries : List (Node × Node))
  | alias (line : Nat) (name : Bytes) (target : Nat)

namespace Node

def line : Node → Nat
  | .scalar line .. | .sequence line .. | .mapping line .. | .alias line .. => line

end Node

structure Document where
  root : Node
  /-- The anchored nodes by their number. -/
  anchored : List (Nat × Node)

structure Composer where
  scanner : Scanner
  /-- What tag handles stand for. -/
  handles : List (Bytes × Bytes) := [("!", "!"), ("!!", Tag.standard)]
  /-- The numbers of the anchors, the latest first. -/
  names : List (Bytes × Nat) := []
  anchored : List (Nat × Node) := []

abbrev Compose := StateT Composer (Except Error)

namespace Compose

/-- The next token. -/
def peek : Compose Token := do
  let c ← get
  let s ← (c.scanner.prepare : Except Error Scanner)
  set { c with scanner := s }
  pure (s.queue.headD ⟨.streamEnd, s.mark, s.mark⟩)

def skip : Compose Unit := modify fun c => { c with scanner := c.scanner.drop }

def fail {α : Type} (context here : Mark) (problem : Problem) : Compose α :=
  throw (Error.ofParse context here problem)

/-- What stands before the content of a node. -/
structure Properties where
  start : Mark
  anchor : Option Bytes := none
  /-- Empty if there is none. -/
  tag : Bytes := []

def tagText (start mark : Mark) (handle suffix : Bytes) : Compose Bytes := do
  if handle.isEmpty then pure suffix
  else match (← get).handles.lookup handle with
    | some expansion => pure (expansion ++ suffix)
    | none => fail start mark .undefinedHandle

/-- Reads an anchor and a tag, in either order. -/
def properties : Compose Properties := do
  let t ← peek
  match t.kind with
  | .anchor name =>
    skip
    let u ← peek
    match u.kind with
    | .tag handle suffix =>
      skip
      let _ ← peek
      pure ⟨t.start, some name, ← tagText t.start u.start handle suffix⟩
    | _ => pure ⟨t.start, some name, []⟩
  | .tag handle suffix =>
    skip
    let u ← peek
    match u.kind with
    | .anchor name =>
      skip
      let _ ← peek
      pure ⟨t.start, some name, ← tagText t.start t.start handle suffix⟩
    | _ => pure ⟨t.start, none, ← tagText t.start t.start handle suffix⟩
  | _ => pure ⟨t.start, none, []⟩

/-- A tag that says nothing leaves the default. -/
def tagOr (tag default : Bytes) : Bytes :=
  if tag.isEmpty || tag == [0x21] then default else Tag.short tag

/-- The tag of a scalar without one. -/
def scalarTag (isPlain : Bool) (value : Bytes) : Bytes :=
  if !isPlain then Tag.str
  else if value = Bytes.ofString "<<" then Tag.merge
  else (resolve value true).tag

def scalarNode (p : Properties) (isPlain : Bool) (value : Bytes) : Node :=
  .scalar (p.start.line + 1) (tagOr p.tag (scalarTag isPlain value)) value

def emptyAt (mark : Mark) : Node := scalarNode { start := mark } true []

/-- Gives an anchor the next number; the node follows when it is complete. -/
def openAnchor (name : Option Bytes) : Compose (Option Nat) := do
  match name with
  | none => pure none
  | some name =>
    let c ← get
    set { c with names := (name, c.names.length) :: c.names }
    pure (some c.names.length)

def closeAnchor (number : Option Nat) (n : Node) : Compose Node := do
  match number with
  | none => pure n
  | some i =>
    modify fun c => { c with anchored := (i, n) :: c.anchored }
    pure n

mutual

/-- A node. In a block, sequences that are not indented under their key may be allowed. -/
def node (fuel : Nat) (inBlock indentless : Bool) : Compose Node := do
  match fuel with
  | 0 => fail {} {} .noContent
  | fuel + 1 =>
    let t ← peek
    match t.kind with
    | .alias name =>
      skip
      match (← get).names.lookup name with
      | some i => pure (.alias (t.start.line + 1) name i)
      | none => throw { problem := .unknownAnchor name }
    | _ =>
      let p ← properties
      let t ← peek
      let line := p.start.line + 1
      let sequence (items : Compose (List Node)) : Compose Node := do
        let number ← openAnchor p.anchor
        closeAnchor number (.sequence line (tagOr p.tag Tag.seq) (← items))
      let mapping (entries : Compose (List (Node × Node))) : Compose Node := do
        let number ← openAnchor p.anchor
        closeAnchor number (.mapping line (tagOr p.tag Tag.map) (← entries))
      match t.kind with
      | .scalar value isPlain =>
        skip
        closeAnchor (← openAnchor p.anchor) (scalarNode p isPlain value)
      | .flowSequenceStart => do
        skip
        sequence (flowItems fuel t.start true)
      | .flowMappingStart => do
        skip
        mapping (flowEntries fuel t.start true)
      | kind =>
        if kind = .blockEntry ∧ indentless then sequence (indentlessItems fuel)
        else if kind = .blockSequenceStart ∧ inBlock then do
          skip
          sequence (blockItems fuel t.start)
        else if kind = .blockMappingStart ∧ inBlock then do
          skip
          mapping (blockEntries fuel t.start)
        else if p.anchor.isSome ∨ !p.tag.isEmpty then do
          closeAnchor (← openAnchor p.anchor) (scalarNode p true [])
        else fail p.start t.start .noContent

/-- The items of a flow sequence after its bracket or an item. -/
def flowItems (fuel : Nat) (start : Mark) (first : Bool) : Compose (List Node) := do
  match fuel with
  | 0 => fail {} {} .noContent
  | fuel + 1 =>
    let t ← peek
    if t.kind = .flowSequenceEnd then
      skip
      pure []
    else
      let t ←
        if first then pure t
        else if t.kind = .flowEntry then do
          skip
          peek
        else fail start t.start .noCommaOrBracket
      if t.kind = .key then do
        skip
        let n ← flowPair fuel (t.start.line + 1)
        pure (n :: (← flowItems fuel start false))
      else if t.kind = .flowSequenceEnd then do
        skip
        pure []
      else do
        let n ← node fuel false false
        pure (n :: (← flowItems fuel start false))

/-- An item of a flow sequence that is a single pair. -/
def flowPair (fuel : Nat) (line : Nat) : Compose Node := do
  match fuel with
  | 0 => fail {} {} .noContent
  | fuel + 1 =>
    let t ← peek
    let key ←
      if t.kind = .value ∨ t.kind = .flowEntry ∨ t.kind = .flowSequenceEnd then do
        skip
        pure (emptyAt t.stop)
      else node fuel false false
    let t ← peek
    let value ←
      if t.kind = .value then do
        skip
        let u ← peek
        if u.kind = .flowEntry ∨ u.kind = .flowSequenceEnd then pure (emptyAt u.start)
        else node fuel false false
      else pure (emptyAt t.start)
    pure (.mapping line Tag.map [(key, value)])

def flowEntries (fuel : Nat) (start : Mark) (first : Bool) : Compose (List (Node × Node)) := do
  match fuel with
  | 0 => fail {} {} .noContent
  | fuel + 1 =>
    let t ← peek
    if t.kind = .flowMappingEnd then
      skip
      pure []
    else
      let t ←
        if first then pure t
        else if t.kind = .flowEntry then do
          skip
          peek
        else fail start t.start .noCommaOrBrace
      if t.kind = .key then do
        skip
        let u ← peek
        let key ←
          if u.kind = .value ∨ u.kind = .flowEntry ∨ u.kind = .flowMappingEnd then
            pure (emptyAt u.start)
          else node fuel false false
        let v ← peek
        let value ←
          if v.kind = .value then do
            skip
            let w ← peek
            if w.kind = .flowEntry ∨ w.kind = .flowMappingEnd then pure (emptyAt w.start)
            else node fuel false false
          else pure (emptyAt v.start)
        pure ((key, value) :: (← flowEntries fuel start false))
      else if t.kind = .flowMappingEnd then do
        skip
        pure []
      else do
        let key ← node fuel false false
        let u ← peek
        pure ((key, emptyAt u.start) :: (← flowEntries fuel start false))

def blockItems (fuel : Nat) (start : Mark) : Compose (List Node) := do
  match fuel with
  | 0 => fail {} {} .noContent
  | fuel + 1 =>
    let t ← peek
    if t.kind = .blockEntry then do
      skip
      let u ← peek
      let n ←
        if u.kind = .blockEntry ∨ u.kind = .blockEnd then pure (emptyAt t.stop)
        else node fuel true false
      pure (n :: (← blockItems fuel start))
    else if t.kind = .blockEnd then do
      skip
      pure []
    else fail start t.start .noEntryMark

def indentlessItems (fuel : Nat) : Compose (List Node) := do
  match fuel with
  | 0 => fail {} {} .noContent
  | fuel + 1 =>
    let t ← peek
    if t.kind = .blockEntry then do
      skip
      let u ← peek
      let n ←
        if u.kind = .blockEntry ∨ u.kind = .key ∨ u.kind = .value ∨ u.kind = .blockEnd then
          pure (emptyAt t.stop)
        else node fuel true false
      pure (n :: (← indentlessItems fuel))
    else pure []

def blockEntries (fuel : Nat) (start : Mark) : Compose (List (Node × Node)) := do
  match fuel with
  | 0 => fail {} {} .noContent
  | fuel + 1 =>
    let t ← peek
    if t.kind = .key then do
      skip
      let u ← peek
      let key ←
        if u.kind = .key ∨ u.kind = .value ∨ u.kind = .blockEnd then pure (emptyAt t.stop)
        else node fuel true true
      let v ← peek
      let value ←
        if v.kind = .value then do
          skip
          let w ← peek
          if w.kind = .key ∨ w.kind = .value ∨ w.kind = .blockEnd then pure (emptyAt v.stop)
          else node fuel true true
        else pure (emptyAt v.start)
      pure ((key, value) :: (← blockEntries fuel start))
    else if t.kind = .blockEnd then do
      skip
      pure []
    else fail start t.start .noKey

end

/-- The directives before a document. -/
def directives (fuel : Nat) (version : Bool) (tags : List Bytes) : Compose Unit := do
  match fuel with
  | 0 => pure ()
  | fuel + 1 =>
    let t ← peek
    match t.kind with
    | .version major minor =>
      if version then fail {} t.start .repeatedVersion
      else if major ≠ 1 ∨ minor ≠ 1 then fail {} t.start .incompatibleVersion
      else do
        skip
        directives fuel true tags
    | .tagDirective handle expansion =>
      if tags.contains handle then fail {} t.start .repeatedTag
      else do
        modify fun c => { c with handles := (handle, expansion) :: c.handles }
        skip
        directives fuel version (handle :: tags)
    | _ => pure ()

/-- The root of the first document; nothing if there is no document. -/
def document (fuel : Nat) : Compose (Option Node) := do
  let _ ← peek
  skip
  let t ← peek
  match t.kind with
  | .streamEnd => pure none
  | .version .. | .tagDirective .. | .documentStart =>
    directives fuel false []
    let t ← peek
    if t.kind = .documentStart then
      skip
      let u ← peek
      let root ← match u.kind with
        | .version .. | .tagDirective .. | .documentStart | .documentEnd | .streamEnd =>
          pure (emptyAt u.start)
        | _ => node fuel true false
      let _ ← peek
      pure (some root)
    else fail {} t.start .noDocumentStart
  | _ =>
    let root ← node fuel true false
    let _ ← peek
    pure (some root)

end Compose

/-- The first document of a text. -/
def parse (text : Bytes) : Except Error (Option Document) := do
  let scanner ← Scanner.ofText text
  let (root, c) ← (Compose.document (4 * text.length + 16)).run { scanner := scanner }
  pure (root.map fun root => ⟨root, c.anchored⟩)

end LosslessTree.Yaml
