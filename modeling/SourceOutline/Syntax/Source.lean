import SourceOutline.Syntax.Node
import SourceOutline.Text.Utf8

/-! Source text as octets, and the text of a node. -/
namespace SourceOutline.Syntax

structure Source where
  bytes : ByteArray

def Source.ofString (s : String) : Source :=
  ⟨Text.Utf8.encode s⟩

/-- The text a node covers, read leniently. Places beyond the end of the source cover nothing. -/
def Source.text (source : Source) (n : Node) : String :=
  String.ofList (Text.Utf8.decode (source.bytes.extract n.startByte n.endByte).toList)

end SourceOutline.Syntax
