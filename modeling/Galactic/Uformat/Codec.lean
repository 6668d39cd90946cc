import Galactic.Lib.ByteWord
import Galactic.Net.Parse

/-!
# The uSID carrier format

`internal/plumbing/ebpf/uformat`: the fixed-offset fields of a 128-bit uSID. Block (48 bits), Node-ID (16),
Function (4), Argument (12), Slot (16), and a tail of 32 zero bits. -/

namespace Galactic.Uformat

open Net (Addr)

/-- A uSID. `Encode` only builds IPv6 addresses without a zone, so one is kept as its sixteen bytes. -/
abbrev Usid := List.Vector UInt8 16

def Usid.addr (u : Usid) : Addr := .v6 u ""

def blockMax : UInt64 := 0xffffffffffff
def argumentMax : UInt16 := 0xfff

structure Fields where
  block : UInt64
  nodeID : UInt16
  function : UInt8
  argument : UInt16
  slot : UInt16
  deriving DecidableEq, Repr

/-- The verb `%#x`. -/
def hex (n : Nat) : String := "0x" ++ String.ofList (Nat.toDigits 16 n)

def validateBlock (block : UInt64) : Except String Unit :=
  if blockMax < block then
    .error ("uformat: block " ++ hex block.toNat ++ " overflows the 48-bit Block field (max " ++
      hex blockMax.toNat ++ ")")
  else .ok ()

def as16 (addr : Addr) : Except String (List UInt8) :=
  if addr.is6 then .ok addr.as16 else .error ("uformat: " ++ addr.string ++ " is not a 16-byte IPv6 address")

/-- `Decode`: an address with a byte in the padding is an error that names the first such byte. -/
def decode (addr : Addr) : Except String Fields := do
  let b ← as16 addr
  match (List.range' 12 4).find? (fun i => b.getD i 0 ≠ 0) with
  | some i => .error ("uformat: " ++ addr.string ++ " has non-zero padding at byte " ++ toString i ++
      " (bits 97-128 must be zero)")
  | none =>
    .ok { block := ByteWord.Endian.big.uint64 (b.take 8) >>> 16
          nodeID := ByteWord.uint16 (b.getD 6 0) (b.getD 7 0)
          function := b.getD 8 0 >>> 4
          argument := (b.getD 8 0 &&& 0x0f).toUInt16 <<< 8 ||| (b.getD 9 0).toUInt16
          slot := ByteWord.uint16 (b.getD 10 0) (b.getD 11 0) }

def Fields.bytes (f : Fields) : Usid :=
  ⟨ByteWord.bigEndian64 (f.block <<< 16 ||| f.nodeID.toUInt64) ++
    [f.function <<< 4 ||| ((f.argument >>> 8).toUInt8 &&& 0x0f), f.argument.toUInt8] ++
    ByteWord.bigEndian16 f.slot ++ [0, 0, 0, 0], rfl⟩

def encode (f : Fields) : Except String Usid := do
  validateBlock f.block
  if 0x0f < f.function then
    .error ("uformat: function " ++ hex f.function.toNat ++ " overflows the 4-bit Function field")
  else if argumentMax < f.argument then
    .error ("uformat: argument " ++ hex f.argument.toNat ++ " overflows the 12-bit Argument field")
  else .ok f.bytes

end Galactic.Uformat
