/-
# Keyed digests

A message is authenticated by a digest of it that only the holder of a key can compute: the key,
brought to the length of a block, is mixed into an inner digest of the message and again into an
outer digest of the inner one.
-/

import Upkeep.Digest.Sha256

namespace Upkeep.Hmac

/-- The number of bytes in a block of the digest. -/
def blockSize : Nat := 64

/-- The key at the length of a block: digested if it is longer, and filled up with zeros. -/
def blockKey (key : List UInt8) : List UInt8 :=
  let short := if key.length > blockSize then (Sha256.digest key).bytes else key
  short ++ List.replicate (blockSize - short.length) 0

/-- The digest of a message under a key. -/
def digest (key message : List UInt8) : Digest :=
  let block := blockKey key
  let inner := Sha256.digest (block.map (· ^^^ 0x36) ++ message)
  Sha256.digest (block.map (· ^^^ 0x5C) ++ inner.bytes)

end Upkeep.Hmac
