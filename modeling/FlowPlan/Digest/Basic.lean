import FlowPlan.Digest.Blake3
import FlowPlan.Text.Hex
import FlowPlan.Text.Utf8

namespace FlowPlan

/-- The hash of some bytes. -/
structure Digest where
  bytes : List UInt8
  deriving DecidableEq

namespace Digest

def ofBytes (bytes : List UInt8) : Digest := ⟨Blake3.hash bytes⟩

def ofText (text : String) : Digest := ofBytes (Text.toUtf8 text)

def toText (d : Digest) : String := Text.hexOfBytes d.bytes

/-- The first eight digits, enough to tell plans apart in reports. -/
def short (d : Digest) : String := String.ofList (d.toText.toList.take 8)

end Digest

end FlowPlan
