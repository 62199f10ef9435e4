/-
# Machine words in JSON

Fields of a fixed width take integers of their range only.
-/
import Relayout.Json.Field

namespace Relayout.Json

def toUInt8? (j : Json) : Option UInt8 := (j.toUnsigned? 8).map UInt8.ofNat

def toUInt32? (j : Json) : Option UInt32 := (j.toUnsigned? 32).map UInt32.ofNat

def toUInt64? (j : Json) : Option UInt64 := (j.toUnsigned? 64).map UInt64.ofNat

def toInt32? (j : Json) : Option Int32 := (j.toSigned? 32).map Int32.ofInt

def toInt64? (j : Json) : Option Int64 := (j.toSigned? 64).map Int64.ofInt

end Relayout.Json
