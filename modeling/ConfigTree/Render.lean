import ConfigTree.Error
import ConfigTree.Json.Printer
import ConfigTree.Listing
import ConfigTree.MessagePack
import ConfigTree.Yaml.Printer

/-! A whole tree as bytes in each format.  Text has no form of its own for a tree and takes that of
config text. -/

namespace ConfigTree.Node

def render (n : Node) : Format → List UInt8
  | .text | .config => Text.bytes (ConfigText.print n).toList
  | .json => Text.bytes (Json.printPretty n.toValue).toList
  | .compactJson => Text.bytes (Json.print n.toValue).toList
  | .yaml => Text.bytes (Yaml.print n.toValue).toList
  | .messagePack => MessagePack.encode n.toValue

end ConfigTree.Node
