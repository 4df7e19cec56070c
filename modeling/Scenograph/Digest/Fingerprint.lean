import Scenograph.Digest.Sha256

namespace Scenograph.Fingerprint

def littleEndian8 (n : Nat) : List UInt8 :=
  [0, 8, 16, 24, 32, 40, 48, 56].map fun shift => UInt8.ofNat (n >>> shift)

def textBytes (text : String) : List UInt8 :=
  text.toUTF8.toList

/-- A text with its length in front, so that texts cannot run into each other. -/
def part (text : String) : List UInt8 :=
  let bytes := textBytes text
  littleEndian8 bytes.length ++ bytes

def stream (texts : List String) : List UInt8 :=
  texts.flatMap part

def ofTexts (texts : List String) : List UInt8 :=
  Sha256.digest (stream texts)

def hexChars (b : UInt8) : List Char :=
  [Nat.digitChar (b.toNat / 16), Nat.digitChar (b.toNat % 16)]

def toHex (fingerprint : List UInt8) : String :=
  String.ofList (fingerprint.flatMap hexChars)

def short (fingerprint : List UInt8) : String :=
  String.ofList ((fingerprint.flatMap hexChars).take 12)

end Scenograph.Fingerprint
