import LosslessTree.Bytes.Basic

/-! What can be wrong with a YAML text. -/
namespace LosslessTree.Yaml

inductive Problem where
  | invalidLeadingOctet | incompleteOctets | invalidTrailingOctet | invalidLength | invalidCharacter
  | controlCharacter
  | noToken | valuesNotAllowed | entriesNotAllowed | keysNotAllowed | noColon
  | documentIndicatorInQuotes | endInQuotes | unknownEscape | noHexNumber | badEscapeCode
  | tabInPlain | zeroIndentation | noCommentOrBreak | tabInBlock
  | noAnchorName | noTagEnd | noTagClose | noTagUri | noTagHandleEnd
  | noDirectiveName | badDirectiveName | unknownDirective | noVersion | longVersion | noVersionPoint
  | noBlankAfterDirective
  | noDocumentStart | incompatibleVersion | repeatedVersion | repeatedTag
  | undefinedHandle | noContent
  | noEntryMark | noKey | noCommaOrBracket | noCommaOrBrace
  | unknownAnchor (name : Bytes)
  | recursiveAnchor (name : Bytes)
  | badTagged (found value wanted : Bytes)
  | badBinary
  | mergeNeedsMap
  deriving DecidableEq, Repr

def Problem.message : Problem → Bytes
  | .invalidLeadingOctet => "invalid leading UTF-8 octet"
  | .incompleteOctets => "incomplete UTF-8 octet sequence"
  | .invalidTrailingOctet => "invalid trailing UTF-8 octet"
  | .invalidLength => "invalid length of a UTF-8 sequence"
  | .invalidCharacter => "invalid Unicode character"
  | .controlCharacter => "control characters are not allowed"
  | .noToken => "found character that cannot start any token"
  | .valuesNotAllowed => "mapping values are not allowed in this context"
  | .entriesNotAllowed => "block sequence entries are not allowed in this context"
  | .keysNotAllowed => "mapping keys are not allowed in this context"
  | .noColon => "could not find expected ':'"
  | .documentIndicatorInQuotes => "found unexpected document indicator"
  | .endInQuotes => "found unexpected end of stream"
  | .unknownEscape => "found unknown escape character"
  | .noHexNumber => "did not find expected hexdecimal number"
  | .badEscapeCode => "found invalid Unicode character escape code"
  | .tabInPlain => "found a tab character that violates indentation"
  | .zeroIndentation => "found an indentation indicator equal to 0"
  | .noCommentOrBreak => "did not find expected comment or line break"
  | .tabInBlock => "found a tab character where an indentation space is expected"
  | .noAnchorName => "did not find expected alphabetic or numeric character"
  | .noTagEnd => "did not find expected whitespace or line break"
  | .noTagClose => "did not find the expected '>'"
  | .noTagUri => "did not find expected tag URI"
  | .noTagHandleEnd => "did not find expected '!'"
  | .noDirectiveName => "could not find expected directive name"
  | .badDirectiveName => "found unexpected non-alphabetical character"
  | .unknownDirective => "found unknown directive name"
  | .noVersion => "did not find expected version number"
  | .longVersion => "found extremely long version number"
  | .noVersionPoint => "did not find expected digit or '.' character"
  | .noBlankAfterDirective => "did not find expected whitespace"
  | .noDocumentStart => "did not find expected <document start>"
  | .incompatibleVersion => "found incompatible YAML document"
  | .repeatedVersion => "found duplicate %YAML directive"
  | .repeatedTag => "found duplicate %TAG directive"
  | .undefinedHandle => "found undefined tag handle"
  | .noContent => "did not find expected node content"
  | .noEntryMark => "did not find expected '-' indicator"
  | .noKey => "did not find expected key"
  | .noCommaOrBracket => "did not find expected ',' or ']'"
  | .noCommaOrBrace => "did not find expected ',' or '\x7d'"
  | .unknownAnchor name => "unknown anchor '" ++ name ++ "' referenced"
  | .recursiveAnchor name => "anchor '" ++ name ++ "' value contains itself"
  | .badTagged found value wanted =>
    "cannot decode " ++ found ++ " `" ++ value ++ "` as a " ++ wanted
  | .badBinary => "!!binary value contains invalid base64 data"
  | .mergeNeedsMap => "map merge requires map or sequence of maps as the value"

/-- A problem and, unless it is zero, the line to blame. -/
structure Error where
  line : Nat := 0
  problem : Problem
  deriving DecidableEq, Repr

def Error.message (e : Error) : Bytes :=
  if e.line = 0 then e.problem.message
  else "line " ++ Bytes.ofNat e.line ++ ": " ++ e.problem.message

end LosslessTree.Yaml
