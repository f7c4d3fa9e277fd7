import Dice.Source.Words

/-! The generator ChaCha with twenty rounds. A block of sixteen words of 32 bits is mixed
from a key, a stream and the number of the block; read row by row and two at a time, the
lower one first, its words are eight of 64 bits. -/

namespace Dice

namespace ChaCha

/-- Four words of 32 bits, one in each column. -/
structure Row where
  a : UInt32
  b : UInt32
  c : UInt32
  d : UInt32
deriving Repr, DecidableEq

namespace Row

def zipWith (f : UInt32 → UInt32 → UInt32) (x y : Row) : Row :=
  ⟨f x.a y.a, f x.b y.b, f x.c y.c, f x.d y.d⟩

instance : Add Row := ⟨zipWith (· + ·)⟩

/-- Takes the columns where two rows differ, and moves their bits `k` places up. -/
def differ (k : UInt32) (x y : Row) : Row :=
  zipWith (fun x y => let z := x ^^^ y; (z <<< k) ||| (z >>> (32 - k))) x y

/-- Every word moves to the column before it, and the first word to the last column. -/
def turn (x : Row) : Row := ⟨x.b, x.c, x.d, x.a⟩

/-- Two words of 64 bits. -/
def words (x : Row) : List UInt64 :=
  [x.a.toUInt64 ||| (x.b.toUInt64 <<< 32), x.c.toUInt64 ||| (x.d.toUInt64 <<< 32)]

/-- The halves of two words of 64 bits, the lower ones first. -/
def ofWords (x y : UInt64) : Row :=
  ⟨x.toUInt32, (x >>> 32).toUInt32, y.toUInt32, (y >>> 32).toUInt32⟩

end Row

structure Block where
  a : Row
  b : Row
  c : Row
  d : Row
deriving Repr, DecidableEq

namespace Block

/-- Mixes the words of every column. -/
def mix (block : Block) : Block :=
  let a := block.a + block.b
  let d := block.d.differ 16 a
  let c := block.c + d
  let b := block.b.differ 12 c
  let a := a + b
  let d := d.differ 8 a
  let c := c + d
  ⟨a, b.differ 7 c, c, d⟩

/-- Two rounds: the columns are mixed, and then the diagonals. -/
def mixTwice (block : Block) : Block :=
  let ⟨a, b, c, d⟩ := block.mix
  let ⟨a, b, c, d⟩ := mix ⟨a, b.turn, c.turn.turn, d.turn.turn.turn⟩
  ⟨a, b.turn.turn.turn, c.turn.turn, d.turn⟩

def words (block : Block) : List UInt64 :=
  block.a.words ++ block.b.words ++ block.c.words ++ block.d.words

end Block

/-- The words at the head of every block. -/
def constants : Row := ⟨0x61707865, 0x3320646e, 0x79622d32, 0x6b206574⟩

end ChaCha

/-- The generator: its key in two rows, its stream, and how many words have been taken. -/
structure ChaCha where
  upper : ChaCha.Row
  lower : ChaCha.Row
  stream : UInt64
  taken : Nat
deriving Repr, DecidableEq

namespace ChaCha

def ofKey (upper lower : Row) (stream : UInt64) : ChaCha := ⟨upper, lower, stream, 0⟩

def block (g : ChaCha) (number : UInt64) : Block :=
  let start : Block := ⟨constants, g.upper, g.lower, .ofWords number g.stream⟩
  let mixed := Nat.repeat Block.mixTwice 10 start
  ⟨start.a + mixed.a, start.b + mixed.b, start.c + mixed.c, start.d + mixed.d⟩

def nextWord (g : ChaCha) : UInt64 × ChaCha :=
  ((g.block (g.taken / 8).toUInt64).words.getD (g.taken % 8) 0, { g with taken := g.taken + 1 })

/-- The first words for a key of zeros. -/
example : (ofKey ⟨0, 0, 0, 0⟩ ⟨0, 0, 0, 0⟩ 0).nextWord.1 = 0x903df1a0ade0b876 := by
  decide +kernel

instance : Words ChaCha := ⟨nextWord, 8 * UInt64.size⟩

instance : Source ChaCha := ⟨Words.throwDie⟩

instance : LawfulSource ChaCha where
  one_le _ := Words.one_le_throwDie _
  le_sides := Words.throwDie_le

end ChaCha

end Dice
