/-! Rows of words as `.npy` files, version 1.0: a header of 96 bytes that gives the kind
of the numbers and how many there are, and then each number in eight bytes, the
least one first and negative numbers in two's complement. -/

namespace Dice.Npy

/-- The length of the header after its own ten first bytes. -/
def headerLength : Nat := 86

/-- The dictionary of the header, for a row of `length` numbers. -/
def dictionary (length : Nat) : String :=
  "\x7b'descr': '<i8', 'fortran_order': False, 'shape': (" ++ toString length ++ ",), \x7d"

def asciiBytes (text : String) : List UInt8 := text.toList.map fun c => c.toNat.toUInt8

/-- The `width` lowest bytes of a number, the lowest first. -/
def littleEndian : (width : Nat) → Nat → List UInt8
  | 0, _ => []
  | width + 1, n => n.toUInt8 :: littleEndian width (n / 256)

/-- The remainder by which a word stands for a number of either sign. -/
def twosComplement (n : Int) : Nat := (n % UInt64.size).toNat

def header (length : Nat) : List UInt8 :=
  let text := asciiBytes (dictionary length)
  [0x93] ++ asciiBytes "NUMPY" ++ [1, 0] ++ littleEndian 2 headerLength
    ++ text.rightpad (headerLength - 1) 0x20 ++ [0x0a]

def encode (row : List Int) : List UInt8 :=
  header row.length ++ row.flatMap fun n => littleEndian 8 (twosComplement n)

end Dice.Npy
