/-
# SHA-256

The digest of a message: it is padded to whole blocks of 64 bytes, each block is stretched into
a schedule of 64 words, and every word turns the chaining state of eight words once. Words are
of 32 bits, and all sums are taken modulo their range.
-/

namespace Upkeep

/-- A digest of 32 bytes. -/
structure Digest where
  bytes : List UInt8
  length_eq : bytes.length = 32

namespace Digest

/-- Digests of the same bytes are equal. -/
@[ext] theorem ext {a b : Digest} (h : a.bytes = b.bytes) : a = b := by
  cases a; cases b; simp_all

instance : DecidableEq Digest := fun a b =>
  if h : a.bytes = b.bytes then isTrue (ext h)
  else isFalse fun hab => h (hab ▸ rfl)

end Digest

namespace Sha256

/-- The round constants: the first 32 bits of the fractions of the cube roots of the first 64
primes. -/
def constants : List UInt32 := [
  0x428a2f98, 0x71374491, 0xb5c0fbcf, 0xe9b5dba5, 0x3956c25b, 0x59f111f1,
  0x923f82a4, 0xab1c5ed5, 0xd807aa98, 0x12835b01, 0x243185be, 0x550c7dc3,
  0x72be5d74, 0x80deb1fe, 0x9bdc06a7, 0xc19bf174, 0xe49b69c1, 0xefbe4786,
  0x0fc19dc6, 0x240ca1cc, 0x2de92c6f, 0x4a7484aa, 0x5cb0a9dc, 0x76f988da,
  0x983e5152, 0xa831c66d, 0xb00327c8, 0xbf597fc7, 0xc6e00bf3, 0xd5a79147,
  0x06ca6351, 0x14292967, 0x27b70a85, 0x2e1b2138, 0x4d2c6dfc, 0x53380d13,
  0x650a7354, 0x766a0abb, 0x81c2c92e, 0x92722c85, 0xa2bfe8a1, 0xa81a664b,
  0xc24b8b70, 0xc76c51a3, 0xd192e819, 0xd6990624, 0xf40e3585, 0x106aa070,
  0x19a4c116, 0x1e376c08, 0x2748774c, 0x34b0bcb5, 0x391c0cb3, 0x4ed8aa4a,
  0x5b9cca4f, 0x682e6ff3, 0x748f82ee, 0x78a5636f, 0x84c87814, 0x8cc70208,
  0x90befffa, 0xa4506ceb, 0xbef9a3f7, 0xc67178f2]

/-- The chaining state. -/
structure State where
  a : UInt32
  b : UInt32
  c : UInt32
  d : UInt32
  e : UInt32
  f : UInt32
  g : UInt32
  h : UInt32

/-- The state before the first block: the first 32 bits of the fractions of the square roots of
the first eight primes. -/
def initial : State :=
  ⟨0x6a09e667, 0xbb67ae85, 0x3c6ef372, 0xa54ff53a, 0x510e527f, 0x9b05688c, 0x1f83d9ab, 0x5be0cd19⟩

/-- Turns the bits of a word to the right. -/
@[inline] def rotate (word : UInt32) (count : UInt32) : UInt32 :=
  (word >>> count) ||| (word <<< (32 - count))

/-- The four bytes of a word, the most significant first. -/
def wordBytes (word : UInt32) : List UInt8 :=
  [(word >>> 24).toUInt8, (word >>> 16).toUInt8, (word >>> 8).toUInt8, word.toUInt8]

/-- The words of a message, each of four bytes. Bytes that fill no word are dropped. -/
def words : List UInt8 → List UInt32
  | p :: q :: r :: s :: rest =>
    ((p.toUInt32 <<< 24) ||| (q.toUInt32 <<< 16) ||| (r.toUInt32 <<< 8) ||| s.toUInt32) ::
      words rest
  | _ => []

/-- The padding of a message of `length` bytes: a one bit, zeros, and the length in bits as a
number of 64 bits, up to a multiple of 64 bytes. -/
def padding (length : Nat) : List UInt8 :=
  let bits := 8 * length
  0x80 :: List.replicate ((119 - length % 64) % 64) 0 ++
    wordBytes (UInt32.ofNat (bits / UInt32.size)) ++ wordBytes (UInt32.ofNat bits)

/-- The next word of a schedule, given the words before it, the latest first. -/
def nextWord (before : List UInt32) : UInt32 :=
  let w2 := before.getD 1 0
  let w7 := before.getD 6 0
  let w15 := before.getD 14 0
  let w16 := before.getD 15 0
  let s0 := rotate w15 7 ^^^ rotate w15 18 ^^^ (w15 >>> 3)
  let s1 := rotate w2 17 ^^^ rotate w2 19 ^^^ (w2 >>> 10)
  w16 + s0 + w7 + s1

/-- Extends a schedule, given latest first, by a number of words. -/
def extend : Nat → List UInt32 → List UInt32
  | 0, before => before
  | n + 1, before => extend n (nextWord before :: before)

/-- The schedule of a block of sixteen words. -/
def schedule (block : List UInt32) : List UInt32 :=
  (extend 48 block.reverse).reverse

/-- One round, with its constant and its word of the schedule. -/
def round (s : State) (input : UInt32 × UInt32) : State :=
  let s1 := rotate s.e 6 ^^^ rotate s.e 11 ^^^ rotate s.e 25
  let choice := (s.e &&& s.f) ^^^ ((~~~ s.e) &&& s.g)
  let t1 := s.h + s1 + choice + input.1 + input.2
  let s0 := rotate s.a 2 ^^^ rotate s.a 13 ^^^ rotate s.a 22
  let majority := (s.a &&& s.b) ^^^ (s.a &&& s.c) ^^^ (s.b &&& s.c)
  let t2 := s0 + majority
  ⟨t1 + t2, s.a, s.b, s.c, s.d + t1, s.e, s.f, s.g⟩

/-- Adds two states word by word. -/
def State.add (s t : State) : State :=
  ⟨s.a + t.a, s.b + t.b, s.c + t.c, s.d + t.d, s.e + t.e, s.f + t.f, s.g + t.g, s.h + t.h⟩

/-- Takes a block into the chaining state. -/
def compress (s : State) (block : List UInt32) : State :=
  s.add ((constants.zip (schedule block)).foldl round s)

/-- Takes the blocks of a padded message in, from the first to the last. -/
def absorb (s : State) (message : List UInt8) : State :=
  match message with
  | [] => s
  | byte :: rest =>
    absorb (compress s (words ((byte :: rest).take 64))) ((byte :: rest).drop 64)
termination_by message.length
decreasing_by simp only [List.length_drop, List.length_cons]; omega

/-- The digest that a state stands for. -/
def State.digest (s : State) : Digest where
  bytes := [s.a, s.b, s.c, s.d, s.e, s.f, s.g, s.h].flatMap wordBytes
  length_eq := rfl

/-- The digest of a message. -/
def digest (message : List UInt8) : Digest :=
  (absorb initial (message ++ padding message.length)).digest

end Sha256

end Upkeep
