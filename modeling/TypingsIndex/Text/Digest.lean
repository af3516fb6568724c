import TypingsIndex.Text.Basic

/-!
# Content digests

The digest of a text is the SHA-256 of its UTF-8 bytes, written as sixty-four lower-case hexadecimal
digits. A file whose digest has not changed is not read as declarations again.

The message is padded to blocks of sixty-four bytes, each block is expanded into a schedule of
sixty-four words, and the schedule is mixed into eight words of state, all arithmetic being modulo
2³².
-/

set_option autoImplicit false

namespace TypingsIndex

/-- The digest of a text, in hexadecimal. -/
structure Digest where
  hex : String
  deriving DecidableEq, Repr, Inhabited

namespace Digest

/-- The first thirty-two bits of the fractional parts of the cube roots of the first sixty-four
primes. -/
def roundConstants : Array UInt32 :=
  #[0x428a2f98, 0x71374491, 0xb5c0fbcf, 0xe9b5dba5, 0x3956c25b, 0x59f111f1, 0x923f82a4, 0xab1c5ed5,
    0xd807aa98, 0x12835b01, 0x243185be, 0x550c7dc3, 0x72be5d74, 0x80deb1fe, 0x9bdc06a7, 0xc19bf174,
    0xe49b69c1, 0xefbe4786, 0x0fc19dc6, 0x240ca1cc, 0x2de92c6f, 0x4a7484aa, 0x5cb0a9dc, 0x76f988da,
    0x983e5152, 0xa831c66d, 0xb00327c8, 0xbf597fc7, 0xc6e00bf3, 0xd5a79147, 0x06ca6351, 0x14292967,
    0x27b70a85, 0x2e1b2138, 0x4d2c6dfc, 0x53380d13, 0x650a7354, 0x766a0abb, 0x81c2c92e, 0x92722c85,
    0xa2bfe8a1, 0xa81a664b, 0xc24b8b70, 0xc76c51a3, 0xd192e819, 0xd6990624, 0xf40e3585, 0x106aa070,
    0x19a4c116, 0x1e376c08, 0x2748774c, 0x34b0bcb5, 0x391c0cb3, 0x4ed8aa4a, 0x5b9cca4f, 0x682e6ff3,
    0x748f82ee, 0x78a5636f, 0x84c87814, 0x8cc70208, 0x90befffa, 0xa4506ceb, 0xbef9a3f7, 0xc67178f2]

/-- The eight words of state. -/
structure State where
  a : UInt32
  b : UInt32
  c : UInt32
  d : UInt32
  e : UInt32
  f : UInt32
  g : UInt32
  h : UInt32

/-- The state before the first block: the first thirty-two bits of the fractional parts of the square
roots of the first eight primes. -/
def State.initial : State :=
  ⟨0x6a09e667, 0xbb67ae85, 0x3c6ef372, 0xa54ff53a, 0x510e527f, 0x9b05688c, 0x1f83d9ab, 0x5be0cd19⟩

/-- Rotate a word to the right, by less than thirty-two bits and at least one. -/
def rotateRight (word : UInt32) (amount : UInt32) : UInt32 :=
  (word >>> amount) ||| (word <<< (32 - amount))

/-- The message, a one bit, zeros up to eight bytes before the end of a block, and the length of the
message in bits. -/
def pad (message : ByteArray) : ByteArray :=
  let zeros := (119 - message.size % 64) % 64
  let marked := message.push 0x80
  let filled := (List.range zeros).foldl (fun bytes _ => bytes.push 0) marked
  let bits := message.size * 8
  (List.range 8).foldl (fun bytes i => bytes.push (bits >>> (8 * (7 - i))).toUInt8) filled

/-- The four bytes from `start` on as one word, the first byte being the highest. -/
def wordAt (bytes : ByteArray) (start : Nat) : UInt32 :=
  let byte (i : Nat) : UInt32 :=
    (if h : start + i < bytes.size then bytes[start + i] else 0).toUInt32
  (byte 0 <<< 24) ||| (byte 1 <<< 16) ||| (byte 2 <<< 8) ||| byte 3

/-- The sixteen words of a block, then forty-eight more, each from four words before it. -/
def schedule (bytes : ByteArray) (start : Nat) : Array UInt32 :=
  let first := Array.ofFn fun i : Fin 16 => wordAt bytes (start + 4 * i.val)
  (List.range 48).foldl (fun words k =>
    let word (back : Nat) : UInt32 := words.getD (k + 16 - back) 0
    let far := word 15
    let near := word 2
    let s0 := rotateRight far 7 ^^^ rotateRight far 18 ^^^ (far >>> 3)
    let s1 := rotateRight near 17 ^^^ rotateRight near 19 ^^^ (near >>> 10)
    words.push (word 16 + s0 + word 7 + s1)) first

/-- One round: mix a word of the schedule and its constant into the state. -/
def State.mix (s : State) (word constant : UInt32) : State :=
  let s1 := rotateRight s.e 6 ^^^ rotateRight s.e 11 ^^^ rotateRight s.e 25
  let choice := (s.e &&& s.f) ^^^ ((~~~ s.e) &&& s.g)
  let t1 := s.h + s1 + choice + constant + word
  let s0 := rotateRight s.a 2 ^^^ rotateRight s.a 13 ^^^ rotateRight s.a 22
  let majority := (s.a &&& s.b) ^^^ (s.a &&& s.c) ^^^ (s.b &&& s.c)
  ⟨t1 + s0 + majority, s.a, s.b, s.c, s.d + t1, s.e, s.f, s.g⟩

/-- Word by word sum of two states. -/
def State.add (s t : State) : State :=
  ⟨s.a + t.a, s.b + t.b, s.c + t.c, s.d + t.d, s.e + t.e, s.f + t.f, s.g + t.g, s.h + t.h⟩

/-- Sixty-four rounds over the block that starts at `start`, added to the state before them. -/
def State.compress (s : State) (bytes : ByteArray) (start : Nat) : State :=
  let words := schedule bytes start
  s.add ((List.range 64).foldl (fun t k => t.mix (words.getD k 0) (roundConstants.getD k 0)) s)

/-- The state after every block of a padded message. -/
def finalState (message : ByteArray) : State :=
  let bytes := pad message
  (List.range (bytes.size / 64)).foldl (fun s k => s.compress bytes (64 * k)) State.initial

/-- A word as eight hexadecimal digits. -/
def hexWord (word : UInt32) : List Char :=
  (List.range 8).map fun i => Text.hexDigit (word.toNat >>> (4 * (7 - i)) % 16)

/-- The digest of a text. -/
def ofText (text : String) : Digest :=
  let s := finalState text.toUTF8
  ⟨String.ofList ([s.a, s.b, s.c, s.d, s.e, s.f, s.g, s.h].flatMap hexWord)⟩

end Digest

end TypingsIndex
