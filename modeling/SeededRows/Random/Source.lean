/-
  SeededRows.Random.Source

  The source of random words: the ChaCha stream cipher with eight rounds, keyed from a
  64-bit seed by a PCG32 generator. A source is a pure value; taking a word gives the word
  and the source that follows.
-/
namespace SeededRows.Random

/-- The key of a stream. -/
abbrev Key := Vector UInt32 8

/-- One block of the stream. -/
abbrev Block := Vector UInt32 16

/-- Rotates a word to the left by less than its width. -/
def rotate (x : UInt32) (amount : UInt32) : UInt32 := (x <<< amount) ||| (x >>> (32 - amount))

/-- One step of the generator that derives keys. -/
def expand (state : UInt64) : UInt64 := state * 6364136223846793005 + 11634580027462260723

/-- The word that the generator shows in a state: the high bits, folded and rotated. -/
def expandedWord (state : UInt64) : UInt32 :=
  let folded := (((state >>> 18) ^^^ state) >>> 27).toUInt32
  let amount := (state >>> 59).toUInt32
  (folded >>> amount) ||| (folded <<< ((32 - amount) % 32))

/-- The key of a seed. -/
def keyOfSeed (seed : UInt64) : Key :=
  Vector.ofFn fun i => expandedWord (Nat.repeat expand (i.val + 1) seed)

/-- The key with a number mixed into its first two words, the low half first. -/
def Key.mix (key : Key) (n : UInt64) : Key :=
  (key.set 0 (key[0] ^^^ n.toUInt32)).set 1 (key[1] ^^^ (n >>> 32).toUInt32)

/-- Mixes four words of a block. -/
def quarterRound (s : Block) (a b c d : Fin 16) : Block :=
  let s := s.set a (s[a] + s[b])
  let s := s.set d (rotate (s[d] ^^^ s[a]) 16)
  let s := s.set c (s[c] + s[d])
  let s := s.set b (rotate (s[b] ^^^ s[c]) 12)
  let s := s.set a (s[a] + s[b])
  let s := s.set d (rotate (s[d] ^^^ s[a]) 8)
  let s := s.set c (s[c] + s[d])
  s.set b (rotate (s[b] ^^^ s[c]) 7)

/-- A round on the columns followed by a round on the diagonals. -/
def doubleRound (s : Block) : Block :=
  let s := quarterRound s 0 4 8 12
  let s := quarterRound s 1 5 9 13
  let s := quarterRound s 2 6 10 14
  let s := quarterRound s 3 7 11 15
  let s := quarterRound s 0 5 10 15
  let s := quarterRound s 1 6 11 12
  let s := quarterRound s 2 7 8 13
  quarterRound s 3 4 9 14

/-- The block of a key before mixing: constants, key, block number, and a zero nonce. -/
def initialBlock (key : Key) (number : UInt64) : Block :=
  #v[0x61707865, 0x3320646e, 0x79622d32, 0x6b206574,
     key[0], key[1], key[2], key[3], key[4], key[5], key[6], key[7],
     number.toUInt32, (number >>> 32).toUInt32, 0, 0]

/-- The words of one block of the stream. -/
def block (key : Key) (number : UInt64) : Block :=
  let start := initialBlock key number
  (Nat.repeat doubleRound 4 start).zipWith (· + ·) start

/-- A position in the stream of a key: the number of the next block, and the words of the
current one that have not been taken. -/
structure Source where
  key : Key
  next : UInt64
  pending : List UInt32

namespace Source

/-- The start of the stream of a key. -/
def ofKey (key : Key) : Source := ⟨key, 0, []⟩

/-- The start of the stream of a seed. -/
def ofSeed (seed : UInt64) : Source := ofKey (keyOfSeed seed)

/-- Takes a word of 32 bits. -/
def word (s : Source) : UInt32 × Source :=
  match s.pending with
  | w :: rest => (w, { s with pending := rest })
  | [] =>
    let words := block s.key s.next
    (words[0], { s with next := s.next + 1, pending := words.toList.tail })

/-- Takes a word of 64 bits: two words, the low one first. -/
def wide (s : Source) : UInt64 × Source :=
  let (low, s) := s.word
  let (high, s) := s.word
  (low.toUInt64 ||| (high.toUInt64 <<< 32), s)

/-- Takes sixteen bytes: four words, each with its low byte first. -/
def bytes16 (s : Source) : List UInt8 × Source :=
  let (a, s) := s.word
  let (b, s) := s.word
  let (c, s) := s.word
  let (d, s) := s.word
  let parts (w : UInt32) := [w.toUInt8, (w >>> 8).toUInt8, (w >>> 16).toUInt8, (w >>> 24).toUInt8]
  (parts a ++ parts b ++ parts c ++ parts d, s)

end Source

end SeededRows.Random
