/-!
# Little-endian bytes

Words as bytes, lowest byte first.
-/

namespace Dalvik.Bytes

/-- The two bytes of a 16-bit word. -/
def ofUInt16 (v : UInt16) : List UInt8 := [v.toUInt8, (v >>> 8).toUInt8]

/-- The four bytes of a 32-bit word. -/
def ofUInt32 (v : UInt32) : List UInt8 :=
  [v.toUInt8, (v >>> 8).toUInt8, (v >>> 16).toUInt8, (v >>> 24).toUInt8]

/-- The bytes of a sequence of code units. -/
def ofUnits (units : List UInt16) : List UInt8 := units.flatMap ofUInt16

/-- The 16-bit word with the given bytes. -/
def toUInt16 (a b : UInt8) : UInt16 := a.toUInt16 ||| (b.toUInt16 <<< 8)

/-- The 32-bit word with the given bytes. -/
def toUInt32 (a b c d : UInt8) : UInt32 :=
  a.toUInt32 ||| (b.toUInt32 <<< 8) ||| (c.toUInt32 <<< 16) ||| (d.toUInt32 <<< 24)

end Dalvik.Bytes
