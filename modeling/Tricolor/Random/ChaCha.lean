/-!
# The ChaCha8 stream of random words

A 64-bit seed is expanded to a key of eight words by a linear
congruential generator with a permuted output. The key and a block
counter fill a block of sixteen words, which eight rounds of mixing turn
into the next sixteen words of the stream.
-/

namespace Tricolor

namespace Random

/-- Sixteen words. -/
abbrev Block := Vector UInt32 16

/-- Rotates a word left by `n` bits, where `0 < n < 32`. -/
def rotateLeft (x n : UInt32) : UInt32 :=
  (x <<< n) ||| (x >>> (32 - n))

/-- One step of a quarter round: word `a` takes up word `b`, and word
`d` is mixed with the sum and rotated. -/
def mix (a b d : Fin 16) (n : UInt32) (x : Block) : Block :=
  let x := x.set a (x[a] + x[b])
  x.set d (rotateLeft (x[d] ^^^ x[a]) n)

/-- Mixes four words of a block. -/
def quarterRound (a b c d : Fin 16) (x : Block) : Block :=
  x |> mix a b d 16 |> mix c d b 12 |> mix a b d 8 |> mix c d b 7

/-- A round over the columns and one over the diagonals. -/
def doubleRound (x : Block) : Block :=
  x |> quarterRound 0 4 8 12 |> quarterRound 1 5 9 13 |> quarterRound 2 6 10 14
    |> quarterRound 3 7 11 15 |> quarterRound 0 5 10 15 |> quarterRound 1 6 11 12
    |> quarterRound 2 7 8 13 |> quarterRound 3 4 9 14

/-- The block that is mixed: constants, key, counter with the low word
first, and zeros. -/
def initialBlock (key : Vector UInt32 8) (counter : UInt64) : Block :=
  #v[0x61707865, 0x3320646e, 0x79622d32, 0x6b206574,
    key[0], key[1], key[2], key[3], key[4], key[5], key[6], key[7],
    counter.toUInt32, (counter >>> 32).toUInt32, 0, 0]

/-- The words that the stream yields for a counter. -/
def outputBlock (key : Vector UInt32 8) (counter : UInt64) : Block :=
  let block := initialBlock key counter
  let mixed := block |> doubleRound |> doubleRound |> doubleRound |> doubleRound
  mixed.zipWith (· + ·) block

/-- The next state of the generator that expands a seed. -/
def expandStep (s : UInt64) : UInt64 :=
  s * 6364136223846793005 + 11634580027462260723

/-- The key word that a state yields: a folded state, rotated right by
its topmost bits. -/
def expandWord (s : UInt64) : UInt32 :=
  let x := (((s >>> 18) ^^^ s) >>> 27).toUInt32
  let n := (s >>> 59).toUInt32
  -- a rotation by zero bits must not shift by the full width
  (x >>> n) ||| (x <<< ((32 - n) % 32))

/-- The key of a seed: the words of eight successive states. -/
def expandSeed (seed : UInt64) : Vector UInt32 8 :=
  let states := Vector.ofFn fun (i : Fin 8) => Nat.repeat expandStep (i.val + 1) seed
  states.map expandWord

/-- A position in the stream. -/
structure Generator where
  key : Vector UInt32 8
  /-- The number of the next block. -/
  counter : UInt64
  /-- Words of the last block that are not used yet. -/
  pending : List UInt32

namespace Generator

/-- The start of the stream of a seed. -/
def ofSeed (seed : UInt64) : Generator := ⟨expandSeed seed, 0, []⟩

/-- The next word of the stream. -/
def next (g : Generator) : UInt32 × Generator :=
  match g.pending with
  | word :: rest => (word, { g with pending := rest })
  | [] =>
    let block := outputBlock g.key g.counter
    (block[0], { g with counter := g.counter + 1, pending := block.toList.tail })

end Generator

/-- A random value, drawn from a stream. -/
abbrev Draw := StateM Generator

namespace Draw

/-- The next word of the stream. -/
def word : Draw UInt32 := Generator.next

/-- A random truth value: the top bit of a word. -/
def bool : Draw Bool := do
  return (← word) >>> 31 == 1

/-- A random number below `n`. The word times `n` has the number in its
upper half; if the lower half shows that more bits could still carry,
one more word decides. -/
def below (n : Nat) : Draw Nat := do
  -- the halves of a 64-bit product
  let product := (← word).toNat * n
  let high := product / UInt32.size
  let low := product % UInt32.size
  if UInt32.size - n < low then
    let more := (← word).toNat * n / UInt32.size
    return if UInt32.size ≤ low + more then high + 1 else high
  else
    return high

end Draw

end Random

end Tricolor
