import CLexer.Text.Hex

/-!
# UTF-8

Decoding of bytes to characters. A sequence that does not decode is described by the bytes that
form its longest acceptable beginning, by where it starts, and by what is wrong with it: the
first byte cannot start a character, the next one cannot go on with it, or the bytes end inside
the character. Surrogates, overlong forms and code points above the last one are ruled out by the
second byte of their sequence.
-/

set_option autoImplicit false

namespace CLexer.Text.Utf8

/-- What is wrong with a byte sequence. -/
inductive Reason where
  | invalidStart
  | invalidContinuation
  | unexpectedEnd
deriving DecidableEq

def Reason.text : Reason → String
  | .invalidStart => "invalid start byte"
  | .invalidContinuation => "invalid continuation byte"
  | .unexpectedEnd => "unexpected end of data"

/-- A sequence that does not decode. -/
structure Fault where
  /-- How many bytes stand before the sequence. -/
  start : Nat
  /-- The bytes of the sequence that were acceptable, and at least the first one. -/
  bytes : List UInt8
  reason : Reason
deriving DecidableEq

def Fault.message (f : Fault) : String :=
  let which :=
    match f.bytes with
    | [b] => "byte 0x" ++ String.ofList (hexDigits 2 b.toNat) ++ " in position " ++ toString f.start
    | bs => "bytes in position " ++ toString f.start ++ "-" ++ toString (f.start + bs.length - 1)
  "'utf-8' codec can't decode " ++ which ++ ": " ++ f.reason.text

/-- What the first byte of a character of several bytes asks for: how many bytes follow, the
range of the next one, and the bits of the code point that the first byte holds. -/
structure Lead where
  following : Nat
  low : Nat
  high : Nat
  bits : Nat

/-- The lead of a byte that starts a character of several bytes. -/
def lead? (b : Nat) : Option Lead :=
  if 0xc2 ≤ b && b ≤ 0xdf then some ⟨1, 0x80, 0xbf, b - 0xc0⟩
  else if b == 0xe0 then some ⟨2, 0xa0, 0xbf, 0⟩
  else if b == 0xed then some ⟨2, 0x80, 0x9f, 0xd⟩
  else if 0xe1 ≤ b && b ≤ 0xef then some ⟨2, 0x80, 0xbf, b - 0xe0⟩
  else if b == 0xf0 then some ⟨3, 0x90, 0xbf, 0⟩
  else if b == 0xf4 then some ⟨3, 0x80, 0x8f, 4⟩
  else if 0xf1 ≤ b && b ≤ 0xf3 then some ⟨3, 0x80, 0xbf, b - 0xf0⟩
  else none

/-- Where the decoder stands between two bytes. -/
inductive State where
  | between
  /-- Inside a character: what is still asked for, and the bytes taken so far, last one first. -/
  | inside (lead : Lead) (taken : List UInt8)

/-- The bytes of a character that has been started. -/
def State.taken : State → List UInt8
  | .between => []
  | .inside _ taken => taken.reverse

/-- One byte: the state after it and the character that it completes, or the reason against it. -/
def step : State → UInt8 → Except Reason (State × Option Char)
  | .between, b =>
      if b.toNat < 0x80 then .ok (.between, some (Char.ofNat b.toNat))
      else
        match lead? b.toNat with
        | some l => .ok (.inside l [b], none)
        | none => .error .invalidStart
  | .inside l taken, b =>
      if l.low ≤ b.toNat && b.toNat ≤ l.high then
        let bits := l.bits * 64 + (b.toNat - 0x80)
        if l.following ≤ 1 then .ok (.between, some (Char.ofNat bits))
        else .ok (.inside ⟨l.following - 1, 0x80, 0xbf, bits⟩ (b :: taken), none)
      else .error .invalidContinuation

/-- The outcome of decoding: the characters before the first fault, and the fault. -/
structure Decoded where
  chars : List Char
  fault : Option Fault := none

/-- Decodes from a state in which `offset` bytes have been read. The characters already decoded
are given last one first. -/
def decodeFrom (q : State) (offset : Nat) (done : List Char) : List UInt8 → Decoded
  | [] =>
      match q with
      | .between => ⟨done.reverse, none⟩
      | .inside _ _ => ⟨done.reverse, some ⟨offset - q.taken.length, q.taken, .unexpectedEnd⟩⟩
  | b :: rest =>
      match step q b with
      | .ok (q', some c) => decodeFrom q' (offset + 1) (c :: done) rest
      | .ok (q', none) => decodeFrom q' (offset + 1) done rest
      | .error reason =>
          let bad := if reason = .invalidStart then [b] else q.taken
          ⟨done.reverse, some ⟨offset - q.taken.length, bad, reason⟩⟩

/-- Decodes bytes up to the first fault. -/
def decode (bytes : List UInt8) : Decoded :=
  decodeFrom .between 0 [] bytes

end CLexer.Text.Utf8

namespace CLexer.Text

/-- Decoding in which each byte is the code point of its character. -/
def decodeLatin1 (bytes : List UInt8) : List Char :=
  bytes.map (fun b => Char.ofNat b.toNat)

end CLexer.Text
