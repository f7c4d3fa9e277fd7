import Dice.Source.Words

/-! The generator xoshiro256++, started from a seed or from a pair of words. -/

namespace Dice

structure Xoshiro where
  s0 : UInt64
  s1 : UInt64
  s2 : UInt64
  s3 : UInt64
deriving Repr, DecidableEq

namespace Xoshiro

def rotateLeft (x : UInt64) (k : UInt64) : UInt64 := (x <<< k) ||| (x >>> (64 - k))

def nextWord (g : Xoshiro) : UInt64 × Xoshiro :=
  let word := rotateLeft (g.s0 + g.s3) 23 + g.s0
  let s2 := g.s2 ^^^ g.s0
  let s3 := g.s3 ^^^ g.s1
  let s1 := g.s1 ^^^ s2
  let s0 := g.s0 ^^^ s3
  (word, ⟨s0, s1, s2 ^^^ (g.s1 <<< 17), rotateLeft s3 45⟩)

/-- The `n`th word after `seed` in the sequence that spreads a seed over the state. -/
def spread (seed : UInt64) (n : UInt64) : UInt64 :=
  let z := seed + n * 0x9e3779b97f4a7c15
  let z := (z ^^^ (z >>> 30)) * 0xbf58476d1ce4e5b9
  let z := (z ^^^ (z >>> 27)) * 0x94d049bb133111eb
  z ^^^ (z >>> 31)

def ofSeed (seed : UInt64) : Xoshiro :=
  ⟨spread seed 1, spread seed 2, spread seed 3, spread seed 4⟩

/-- Two words, and after them their complements. -/
def ofPair (high low : UInt64) : Xoshiro := ⟨high, low, ~~~high, ~~~low⟩

instance : Words Xoshiro := ⟨nextWord, (1 <<< 256) - 1⟩

instance : Source Xoshiro := ⟨Words.throwDie⟩

instance : LawfulSource Xoshiro where
  one_le _ := Words.one_le_throwDie _
  le_sides := Words.throwDie_le

end Xoshiro

end Dice
