import CLexer.Text.Utf8

/-!
# Streams of bytes

A reader of a file asks for one character at a time, but the bytes come in blocks, and a block is
decoded as a whole. So a fault inside a block is found before any of its characters is handed
out, and all characters of the blocks before it are handed out first.

Two things can be held back at the end of a block, to see what follows: bytes that only begin a
character, which are put in front of the next block, and a carriage return, which may be half of
a line end. When the next block does not decode, a carriage return that was held back is lost.
-/

set_option autoImplicit false

namespace CLexer.Text

/-- How many bytes are read at a time. -/
def blockSize : Nat := 8192

/-- The blocks that bytes come in. All but the last one are full. -/
def blocks : List UInt8 → List (List UInt8)
  | [] => []
  | b :: rest => (b :: rest.take (blockSize - 1)) :: blocks (rest.drop (blockSize - 1))
termination_by bytes => bytes.length

namespace Utf8

/-- The first two of three bytes that would make a surrogate. -/
def isSurrogateStart : List UInt8 → Bool
  | [a, b] => a.toNat == 0xed && 0xa0 ≤ b.toNat && b.toNat ≤ 0xbf
  | _ => false

/-- Could the fault vanish if more bytes came? That is so for a character that the bytes only
begin. The first two bytes of a surrogate are waited for as well: the reason against them is only
looked for when a third one is there. -/
def Fault.isHeldBack (f : Fault) (bytes : List UInt8) : Bool :=
  f.reason == .unexpectedEnd || isSurrogateStart (bytes.drop f.start)

/-- The outcome with characters in front that were decoded before. -/
def Decoded.after (chars : List Char) (d : Decoded) : Decoded :=
  { d with chars := chars ++ d.chars }

/-- Decodes blocks one after another. A fault starts where it does in its block, with the bytes
counted in that were `held` back for it. -/
def decodeBlocks (held : List UInt8) : List (List UInt8) → Decoded
  | [] => decode held
  | block :: rest =>
      let bytes := held ++ block
      let d := decode bytes
      match d.fault with
      | none => (decodeBlocks [] rest).after d.chars
      | some f =>
          if f.isHeldBack bytes then (decodeBlocks (bytes.drop f.start) rest).after d.chars
          else ⟨[], some f⟩

/-- Characters without a carriage return at their end. -/
def dropReturn (cs : List Char) : List Char :=
  if cs.getLast? = some '\r' then cs.dropLast else cs

/-- What a reader that asks for one character at a time gets to see of bytes. -/
def decodeStream (bytes : List UInt8) : Decoded :=
  let d := decodeBlocks [] (blocks bytes)
  if d.fault.isSome then { d with chars := dropReturn d.chars } else d

end Utf8

end CLexer.Text
