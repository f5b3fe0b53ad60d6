/-! What can be wrong with a YAML text, and the line and column where it shows, from one. -/

namespace ConfigTree.Yaml

inductive Problem
  | controlCharacter
  | missingColon
  | unexpectedEntry
  | unexpectedKey
  | unexpectedValue
  | unexpectedCharacter
  | unexpectedColon
  | tabIndentation
  | unexpectedDocumentMark
  | unexpectedEnd
  | invalidEscape
  | invalidBlockHeader
  | invalidDirective
  | invalidAnchor
  | invalidTag
  | unknownHandle
  | expectedDocument
  | expectedNode
  | expectedEntry
  | expectedKey
  | expectedFlowEntry
  | unknownAnchor
  | tooManyAliases
  | recursionLimit
  | severalDocuments
  | unknownTag
  | tagMismatch
  | wideInteger
  | compoundKey
  deriving DecidableEq, Repr

def Problem.message : Problem → String
  | controlCharacter => "control characters are not allowed"
  | missingColon => "could not find expected ':'"
  | unexpectedEntry => "block sequence entries are not allowed in this context"
  | unexpectedKey => "mapping keys are not allowed in this context"
  | unexpectedValue => "mapping values are not allowed in this context"
  | unexpectedCharacter => "found character that cannot start any token"
  | unexpectedColon => "found unexpected ':'"
  | tabIndentation => "found a tab character that violates indentation"
  | unexpectedDocumentMark => "found unexpected document indicator"
  | unexpectedEnd => "found unexpected end of stream"
  | invalidEscape => "found an invalid escape sequence"
  | invalidBlockHeader => "found an invalid block scalar header"
  | invalidDirective => "found an invalid directive"
  | invalidAnchor => "did not find expected alphabetic or numeric character"
  | invalidTag => "did not find expected tag"
  | unknownHandle => "found undefined tag handle"
  | expectedDocument => "did not find expected document start"
  | expectedNode => "did not find expected node content"
  | expectedEntry => "did not find expected '-' indicator"
  | expectedKey => "did not find expected key"
  | expectedFlowEntry => "did not find expected ',' or closing bracket"
  | unknownAnchor => "unknown anchor"
  | tooManyAliases => "repetition limit exceeded"
  | recursionLimit => "recursion limit exceeded"
  | severalDocuments => "more than one document is not supported"
  | unknownTag => "tags are not supported"
  | tagMismatch => "the value does not fit its tag"
  | wideInteger => "integer out of range"
  | compoundKey => "a key must be a scalar"

structure Mark where
  line : Nat
  column : Nat
  deriving DecidableEq, Repr, Inhabited

structure Fault where
  problem : Problem
  mark : Mark
  deriving DecidableEq, Repr

def Fault.message (f : Fault) : String :=
  f.problem.message ++ " at line " ++ toString (f.mark.line + 1) ++ " column " ++
    toString (f.mark.column + 1)

end ConfigTree.Yaml
