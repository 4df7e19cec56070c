import Scenograph.Json.Reader

namespace Scenograph

structure Color where
  red : Float
  green : Float
  blue : Float
  alpha : Float
  deriving DecidableEq, Repr

structure ColorBytes where
  alpha : UInt8
  red : UInt8
  green : UInt8
  blue : UInt8
  deriving DecidableEq, Repr

namespace Color

def opaqueOf (red green blue : Float) : Color :=
  ⟨red, green, blue, 1⟩

def black : Color :=
  ⟨0, 0, 0, 1⟩

def white : Color :=
  ⟨1, 1, 1, 1⟩

def transparent : Color :=
  ⟨0, 0, 0, 0⟩

instance : Inhabited Color := ⟨black⟩

def ofBytes (bytes : ColorBytes) : Color :=
  { red := bytes.red.toFloat / 255
    green := bytes.green.toFloat / 255
    blue := bytes.blue.toFloat / 255
    alpha := bytes.alpha.toFloat / 255 }

def componentByte (v : Float) : UInt8 :=
  let scaled := (v * 255).round
  if scaled < 0 then 0 else if 255 < scaled then 255 else scaled.toUInt8

def toBytes (c : Color) : ColorBytes :=
  { alpha := componentByte c.alpha
    red := componentByte c.red
    green := componentByte c.green
    blue := componentByte c.blue }

end Color

def utf8Bytes (text : String) : List Nat :=
  text.toUTF8.toList.map UInt8.toNat

def hexByteDigit? (b : Nat) : Option Nat :=
  if b < 128 then Json.hexDigit? (Char.ofNat b) else none

def hexByte? (a b : Nat) : Option UInt8 := do
  let low ← hexByteDigit? b
  let high ← if a = 43 then some 0 else hexByteDigit? a
  return UInt8.ofNat (high * 16 + low)

def hexColorBytes? : List Nat → Option ColorBytes
  | [r₁, r₂, g₁, g₂, b₁, b₂] => do
      return ⟨255, ← hexByte? r₁ r₂, ← hexByte? g₁ g₂, ← hexByte? b₁ b₂⟩
  | [a₁, a₂, r₁, r₂, g₁, g₂, b₁, b₂] => do
      return ⟨← hexByte? a₁ a₂, ← hexByte? r₁ r₂, ← hexByte? g₁ g₂, ← hexByte? b₁ b₂⟩
  | _ => none

def upperHex (b : UInt8) : List Char :=
  [(Nat.digitChar (b.toNat / 16)).toUpper, (Nat.digitChar (b.toNat % 16)).toUpper]

namespace Color

def ofHex? (text : String) : Option Color :=
  let digits := (utf8Bytes text).dropWhile (· == 35)
  (hexColorBytes? digits).map ofBytes

def toHex (c : Color) : String :=
  let bytes := c.toBytes
  String.ofList ('#' :: (upperHex bytes.alpha ++ upperHex bytes.red ++ upperHex bytes.green
    ++ upperHex bytes.blue))

end Color

end Scenograph
