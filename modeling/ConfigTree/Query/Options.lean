import ConfigTree.Error
import ConfigTree.Value

/-! How a query is run and its output is laid out. -/

namespace ConfigTree.Query

structure Options where
  /-- Sets path segments apart, in requests and in display paths. -/
  inputDelimiter : Char
  /-- Takes the place of the input delimiter in labels. -/
  outputDelimiter : Char
  format : Format
  /-- Records start with `label=`. -/
  showKeys : Bool
  /-- Strings are written without quotes. -/
  raw : Bool
  /-- Records are set apart by spaces, not ended by newlines. -/
  noNewline : Bool
  /-- A walk also puts out lengths and keys. -/
  expand : Bool
  maxDepth : Nat
  deriving DecidableEq, Repr

instance : Inhabited Options := ⟨⟨'.', '.', .text, false, false, false, false, defaultMaxDepth⟩⟩

end ConfigTree.Query
