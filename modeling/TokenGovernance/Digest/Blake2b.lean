/-
# BLAKE2b with 32-byte digests

The unkeyed hash with an output of 256 bits. The input is cut into blocks of 128 bytes;
each block is compressed into a chain of eight words together with the number of bytes read so far,
and the last block, filled up with zeros, with a mark that it is the last.
-/

import TokenGovernance.ByteString

namespace TokenGovernance
namespace Blake2b

/-- A word turned to the right by `n` bits. -/
def rotateRight (x n : UInt64) : UInt64 := (x >>> n) ||| (x <<< (64 - n))

/-- The initial chain: the fractional parts of the square roots of the first eight primes. -/
def initial : Vector UInt64 8 :=
  #v[0x6a09e667f3bcc908, 0xbb67ae8584caa73b, 0x3c6ef372fe94f82b, 0xa54ff53a5f1d36f1,
     0x510e527fade682d1, 0x9b05688c2b3e6c1f, 0x1f83d9abfb41bd6b, 0x5be0cd19137e2179]

/-- The order in which each round reads the words of a block; the rounds beyond the tenth begin
again at the first. -/
def schedule : List (Vector (Fin 16) 16) :=
  [#v[0, 1, 2, 3, 4, 5, 6, 7, 8, 9, 10, 11, 12, 13, 14, 15],
   #v[14, 10, 4, 8, 9, 15, 13, 6, 1, 12, 0, 2, 11, 7, 5, 3],
   #v[11, 8, 12, 0, 5, 2, 15, 13, 10, 14, 3, 6, 7, 1, 9, 4],
   #v[7, 9, 3, 1, 13, 12, 11, 14, 2, 6, 5, 10, 4, 0, 15, 8],
   #v[9, 0, 5, 7, 2, 4, 10, 15, 14, 1, 11, 12, 6, 8, 3, 13],
   #v[2, 12, 6, 10, 0, 11, 8, 3, 4, 13, 7, 5, 15, 14, 1, 9],
   #v[12, 5, 1, 15, 14, 13, 4, 10, 0, 7, 6, 3, 9, 2, 8, 11],
   #v[13, 11, 7, 14, 12, 1, 3, 9, 5, 0, 15, 4, 8, 6, 2, 10],
   #v[6, 15, 14, 9, 11, 3, 0, 8, 12, 2, 13, 7, 1, 4, 10, 5],
   #v[10, 2, 8, 4, 7, 6, 1, 5, 15, 11, 9, 14, 3, 12, 13, 0],
   #v[0, 1, 2, 3, 4, 5, 6, 7, 8, 9, 10, 11, 12, 13, 14, 15],
   #v[14, 10, 4, 8, 9, 15, 13, 6, 1, 12, 0, 2, 11, 7, 5, 3]]

/-- Mixes two words of a block into four words of the working vector. -/
def mix (v : Vector UInt64 16) (a b c d : Fin 16) (x y : UInt64) : Vector UInt64 16 :=
  let v := v.set a (v[a] + v[b] + x)
  let v := v.set d (rotateRight (v[d] ^^^ v[a]) 32)
  let v := v.set c (v[c] + v[d])
  let v := v.set b (rotateRight (v[b] ^^^ v[c]) 24)
  let v := v.set a (v[a] + v[b] + y)
  let v := v.set d (rotateRight (v[d] ^^^ v[a]) 16)
  let v := v.set c (v[c] + v[d])
  v.set b (rotateRight (v[b] ^^^ v[c]) 63)

/-- One round: the columns of the working vector, then its diagonals. -/
def round (block : Vector UInt64 16) (v : Vector UInt64 16) (order : Vector (Fin 16) 16) :
    Vector UInt64 16 :=
  let word (i : Fin 16) : UInt64 := block[order[i]]
  let v := mix v 0 4 8 12 (word 0) (word 1)
  let v := mix v 1 5 9 13 (word 2) (word 3)
  let v := mix v 2 6 10 14 (word 4) (word 5)
  let v := mix v 3 7 11 15 (word 6) (word 7)
  let v := mix v 0 5 10 15 (word 8) (word 9)
  let v := mix v 1 6 11 12 (word 10) (word 11)
  let v := mix v 2 7 8 13 (word 12) (word 13)
  mix v 3 4 9 14 (word 14) (word 15)

/-- The words of a block of at most 128 bytes, filled up with zeros. -/
def words (bytes : ByteString) : Vector UInt64 16 :=
  Vector.ofFn fun i =>
    UInt64.ofNat (ByteString.ofLittleEndian ((bytes.drop (8 * i.val)).take 8))

/-- The chain after a block, `count` bytes having been read with it. -/
def compress (chain : Vector UInt64 8) (block : ByteString) (count : Nat) (isLast : Bool) :
    Vector UInt64 8 :=
  let start : Vector UInt64 16 := chain ++ initial
  let start := start.set 12 (start[12] ^^^ UInt64.ofNat count)
  let start := start.set 13 (start[13] ^^^ UInt64.ofNat (count >>> 64))
  let start := if isLast then start.set 14 (~~~ start[14]) else start
  let final := schedule.foldl (round (words block)) start
  Vector.ofFn fun i => chain[i] ^^^ final[i.val] ^^^ final[i.val + 8]

/-- The chain after the rest of the input, `count` bytes having been read before it. -/
def absorb (chain : Vector UInt64 8) (count : Nat) (bytes : ByteString) : Vector UInt64 8 :=
  if bytes.length ≤ 128 then compress chain bytes (count + bytes.length) true
  else absorb (compress chain (bytes.take 128) (count + 128) false) (count + 128) (bytes.drop 128)
termination_by bytes.length
decreasing_by simp; omega

/-- The chain before any input: a digest of 32 bytes, no key, and one message in sequence. -/
def start : Vector UInt64 8 := initial.set 0 (initial[0] ^^^ 0x01010020)

/-- The digest of an input: the first four words of its chain. -/
def hash (bytes : ByteString) : ByteString :=
  ((absorb start 0 bytes).toList.take 4).flatMap fun w => ByteString.littleEndian 8 w.toNat

/-- The first four words of the chain make 32 bytes. -/
theorem length_hash (bytes : ByteString) : (hash bytes).length = 32 := by
  have h : ∀ ws : List UInt64,
      (ws.flatMap fun w => ByteString.littleEndian 8 w.toNat).length = 8 * ws.length := by
    intro ws
    induction ws with
    | nil => rfl
    | cons w ws ih => simp [ih]; omega
  simp [hash, h]

end Blake2b
end TokenGovernance
