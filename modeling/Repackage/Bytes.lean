/-!
# Bytes

A class file is a list of bytes. Numbers in it are big-endian words of one, two, four
or eight bytes; `ofWord16` and its siblings write them and `word16` and its siblings
put them together again.
-/

namespace Repackage

abbrev Bytes := List UInt8

namespace Bytes

def ofWord16 (n : UInt16) : Bytes := [(n >>> 8).toUInt8, n.toUInt8]

def ofWord32 (n : UInt32) : Bytes := ofWord16 (n >>> 16).toUInt16 ++ ofWord16 n.toUInt16

def ofWord64 (n : UInt64) : Bytes := ofWord32 (n >>> 32).toUInt32 ++ ofWord32 n.toUInt32

def word16 (a b : UInt8) : UInt16 := a.toUInt16 <<< 8 ||| b.toUInt16

def word32 (a b : UInt16) : UInt32 := a.toUInt32 <<< 16 ||| b.toUInt32

def word64 (a b : UInt32) : UInt64 := a.toUInt64 <<< 32 ||| b.toUInt64

end Bytes

end Repackage
