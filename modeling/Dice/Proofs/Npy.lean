import Dice.Proofs.Decimal
import Dice.Tally.Npy
import Dice.Word
import Mathlib.Data.Nat.Digits.Defs

/-! Reading `.npy` files. The reader looks for what it needs to know in the dictionary of
the header: the kind of the numbers, their order and the shape of the array. It is stated
without the writer. Main statement: it reads every row of words that a tally can have
back from its file. -/

namespace Dice.Npy

/-! ### The reader -/

/-- The number with these bytes, of which the first is the lowest. -/
def ofLittleEndian : List UInt8 → Nat
  | [] => 0
  | byte :: bytes => byte.toNat + 256 * ofLittleEndian bytes

/-- The number of either sign for which a word of 64 bits stands. -/
def ofTwosComplement (n : Nat) : Int := if n ≤ Word.greatest then n else n - UInt64.size

/-- What stands behind the first place at which a text says `label`. -/
def behind? (label : List Char) : List Char → Option (List Char)
  | [] => if label = [] then some [] else none
  | c :: text =>
    if label.isPrefixOf (c :: text) then some ((c :: text).drop label.length)
    else behind? label text

/-- The bytes at the beginning of every file of version 1.0. -/
def signature : List UInt8 := [0x93, 0x4e, 0x55, 0x4d, 0x50, 0x59, 1, 0]

/-- The text of the header, which declares its own length, and the bytes behind it. -/
def parts? (bytes : List UInt8) : Option (List Char × List UInt8) :=
  let length := ofLittleEndian ((bytes.drop 8).take 2)
  let rest := bytes.drop 10
  if signature.isPrefixOf bytes ∧ length ≤ rest.length then
    some ((rest.take length).map fun byte => Char.ofNat byte.toNat, rest.drop length)
  else none

/-- The only length of a shape, behind whose parenthesis the text begins. -/
def onlyLength? (text : List Char) : Option Nat :=
  let digits := text.takeWhile Char.isDigit
  if digits ≠ [] ∧ ",)".toList.isPrefixOf (text.dropWhile Char.isDigit) then
    some (Nat.ofDigitChars 10 digits 0)
  else none

/-- The length of the row that a header declares. -/
def shapeIn? (text : List Char) : Option Nat := do onlyLength? (← behind? "'shape': (".toList text)

/-- Whether a header declares words of 64 bits, the lowest byte of each in front. -/
def declaresWords (text : List Char) : Bool :=
  (behind? "'descr': ".toList text).any ("'<i8'".toList.isPrefixOf ·) &&
    (behind? "'fortran_order': ".toList text).any ("False".toList.isPrefixOf ·) &&
    text.getLast? == some '\n'

/-- As many words as there are. -/
def words : (length : Nat) → List UInt8 → List Int
  | 0, _ => []
  | length + 1, bytes =>
    ofTwosComplement (ofLittleEndian (bytes.take 8)) :: words length (bytes.drop 8)

/-- The length of the row in a file. -/
def shape? (bytes : List UInt8) : Option Nat := do shapeIn? (← parts? bytes).1

/-- The row in a file of words. -/
def decode? (bytes : List UInt8) : Option (List Int) := do
  let (text, data) ← parts? bytes
  let length ← shapeIn? text
  if declaresWords text ∧ data.length = 8 * length then some (words length data) else none

/-! ### Words -/

@[simp] theorem length_littleEndian (width n : Nat) : (littleEndian width n).length = width := by
  induction width generalizing n with
  | zero => rfl
  | succ width ih => rw [littleEndian, List.length_cons, ih]

theorem ofLittleEndian_littleEndian {width n : Nat} (h : n < Nat.pow 256 width) :
    ofLittleEndian (littleEndian width n) = n := by
  induction width generalizing n with
  | zero =>
    have hn : n = 0 := Nat.lt_one_iff.mp h
    rw [hn]
    rfl
  | succ width ih =>
    have hdiv : n / 256 < Nat.pow 256 width := Nat.div_lt_of_lt_mul (by rwa [Nat.mul_comm])
    have hbyte : n.toUInt8.toNat = n % 256 := rfl
    rw [littleEndian, ofLittleEndian, ih hdiv, hbyte, Nat.mod_add_div]

theorem twosComplement_lt (n : Int) : twosComplement n < Nat.pow 256 8 := by
  have hpos := Int.emod_nonneg n (b := UInt64.size) (by decide)
  have hlt := Int.emod_lt_of_pos n (b := UInt64.size) (by decide)
  have hsize : Nat.pow 256 8 = UInt64.size := by decide
  rw [twosComplement, hsize]
  omega

theorem ofTwosComplement_twosComplement {n : Int} (h : Word.Fits n) :
    ofTwosComplement (twosComplement n) = n := by
  obtain ⟨hleast, hgreatest⟩ := h
  have hsize : (UInt64.size : Int) = 18446744073709551616 := rfl
  simp only [ofTwosComplement, twosComplement, Word.least, Word.greatest, hsize] at *
  split <;> omega

theorem words_flatMap {row : List Int} (h : ∀ n ∈ row, Word.Fits n) :
    words row.length (row.flatMap fun n => littleEndian 8 (twosComplement n)) = row := by
  induction row with
  | nil => rfl
  | cons n row ih =>
    have hlength : (littleEndian 8 (twosComplement n)).length = 8 := length_littleEndian _ _
    rw [List.flatMap_cons, List.length_cons, words, List.take_left' hlength,
      List.drop_left' hlength, ofLittleEndian_littleEndian (twosComplement_lt n),
      ofTwosComplement_twosComplement (h n List.mem_cons_self),
      ih fun m hm => h m (List.mem_cons_of_mem n hm)]

theorem length_flatMap_littleEndian (row : List Int) :
    (row.flatMap fun n => littleEndian 8 (twosComplement n)).length = 8 * row.length := by
  induction row with
  | nil => rfl
  | cons n row ih =>
    rw [List.flatMap_cons, List.length_append, length_littleEndian, ih, List.length_cons]
    omega

/-! ### Headers -/

/-- What a dictionary says in front of the length. -/
def opening : List Char := "\x7b'descr': '<i8', 'fortran_order': False, 'shape': (".toList

/-- What it says behind the length. -/
def closing : List Char := ",), \x7d".toList

theorem toList_dictionary (length : Nat) :
    (dictionary length).toList = opening ++ (Nat.toDigits 10 length ++ closing) := by
  have happend (a b c : String) : (a ++ b ++ c).toList = a.toList ++ (b.toList ++ c.toList) := by
    rw [String.toList_append, String.toList_append, List.append_assoc]
  have hdigits : (toString length).toList = Nat.toDigits 10 length := by
    rw [Nat.toString_eq_repr, Nat.toList_repr]
  rw [← hdigits]
  exact happend _ _ _

theorem length_dictionary (length : Nat) :
    (dictionary length).length = 56 + (Nat.toDigits 10 length).length := by
  have hopening : opening.length = 51 := rfl
  have hclosing : closing.length = 5 := rfl
  rw [← String.length_toList, toList_dictionary, List.length_append, List.length_append, hopening,
    hclosing]
  omega

theorem toNat_lt_of_mem_dictionary (length : Nat) :
    ∀ c ∈ (dictionary length).toList, c.toNat < 256 := by
  have hopening : opening.all fun c => c.toNat < 256 := rfl
  have hclosing : closing.all fun c => c.toNat < 256 := rfl
  intro c hc
  rw [toList_dictionary, List.mem_append, List.mem_append] at hc
  rcases hc with hc | hc | hc
  · exact of_decide_eq_true (List.all_eq_true.mp hopening c hc)
  · have hnine : '9'.toNat = 57 := rfl
    have hdigit := Char.isDigit_iff_toNat.mp (isDigit_toDigits length c hc)
    omega
  · exact of_decide_eq_true (List.all_eq_true.mp hclosing c hc)

/-- The bytes of a text read as its characters again. -/
theorem map_ofNat_asciiBytes {text : String} (h : ∀ c ∈ text.toList, c.toNat < 256) :
    ((asciiBytes text).map fun byte => Char.ofNat byte.toNat) = text.toList := by
  rw [asciiBytes, List.map_map]
  refine (List.map_congr_left fun c hc => ?_).trans (List.map_id _)
  have hbyte : c.toNat.toUInt8.toNat = c.toNat := Nat.mod_eq_of_lt (h c hc)
  rw [Function.comp_apply, hbyte, Char.ofNat_toNat, id_eq]

/-- The dictionary, then blanks, then the end of the line. -/
def headerText (length : Nat) : List Char :=
  (dictionary length).toList ++
    (List.replicate (headerLength - 1 - (dictionary length).length) ' ' ++ ['\n'])

section Fitting

variable {length : Nat} (h : (dictionary length).length < headerLength)

include h

theorem length_headerText : (headerText length).length = headerLength := by
  rw [headerText, List.length_append, List.length_append, String.length_toList,
    List.length_replicate, List.length_singleton]
  omega

theorem header_eq : ∃ bytes, header length = signature ++ (littleEndian 2 headerLength ++ bytes) ∧
    bytes.length = headerLength ∧
    (bytes.map fun byte => Char.ofNat byte.toNat) = headerText length := by
  let padding := List.replicate (headerLength - 1 - (dictionary length).length) (0x20 : UInt8)
  let bytes := asciiBytes (dictionary length) ++ (padding ++ [0x0a])
  have htext : (bytes.map fun byte => Char.ofNat byte.toNat) = headerText length := by
    rw [List.map_append, map_ofNat_asciiBytes (toNat_lt_of_mem_dictionary length), List.map_append,
      List.map_replicate]
    rfl
  refine ⟨bytes, ?_, ?_, htext⟩
  · have hlength : (asciiBytes (dictionary length)).length = (dictionary length).length := by
      rw [asciiBytes, List.length_map, String.length_toList]
    rw [header, List.rightpad, hlength]
    simp only [List.append_assoc]
    rfl
  · rw [← length_headerText h, ← htext, List.length_map]

theorem length_header : (header length).length = 96 := by
  obtain ⟨bytes, hheader, hlength, -⟩ := header_eq h
  rw [hheader, List.length_append, List.length_append, length_littleEndian, hlength]
  rfl

theorem parts?_header_append (data : List UInt8) :
    parts? (header length ++ data) = some (headerText length, data) := by
  obtain ⟨bytes, hheader, hlength, htext⟩ := header_eq h
  have hdeclared : ofLittleEndian (littleEndian 2 headerLength) = headerLength := rfl
  have hfile : header length ++ data =
      signature ++ (littleEndian 2 headerLength ++ (bytes ++ data)) := by
    rw [hheader, List.append_assoc, List.append_assoc]
  have hbehind : (header length ++ data).drop 8 =
      littleEndian 2 headerLength ++ (bytes ++ data) := by
    rw [hfile]
    rfl
  have hrest : (header length ++ data).drop 10 = bytes ++ data := by
    rw [hfile]
    rfl
  have hsignature : signature.isPrefixOf (header length ++ data) := by
    rw [hfile]
    rfl
  have htwo : ((header length ++ data).drop 8).take 2 = littleEndian 2 headerLength := by
    rw [hbehind]
    rfl
  have hle : headerLength ≤ (bytes ++ data).length := by
    rw [List.length_append]
    omega
  simp only [parts?, htwo, hdeclared, hrest]
  rw [if_pos ⟨hsignature, hle⟩, List.take_left' hlength, List.drop_left' hlength, htext]

end Fitting

theorem headerText_eq (length : Nat) : ∃ blanks, headerText length =
    opening ++ (Nat.toDigits 10 length ++ (closing ++ (blanks ++ ['\n']))) := by
  rw [headerText, toList_dictionary, List.append_assoc, List.append_assoc]
  exact ⟨_, rfl⟩

theorem onlyLength?_append (length : Nat) (rest : List Char) :
    onlyLength? (Nat.toDigits 10 length ++ (',' :: ')' :: rest)) = some length := by
  have hcomma : ¬ ','.isDigit := by decide
  have hdigits := isDigit_toDigits length
  have hclosed : ",)".toList.isPrefixOf (',' :: ')' :: rest) := rfl
  rw [onlyLength?, List.takeWhile_append_of_pos hdigits, List.dropWhile_append_of_pos hdigits,
    List.takeWhile_cons_of_neg hcomma, List.dropWhile_cons_of_neg hcomma, List.append_nil,
    if_pos ⟨Nat.toDigits_ne_nil, hclosed⟩, Nat.ofDigitChars_ten_toDigits]

theorem shapeIn?_headerText (length : Nat) : shapeIn? (headerText length) = some length := by
  obtain ⟨blanks, htext⟩ := headerText_eq length
  have hbehind : behind? "'shape': (".toList (headerText length) =
      some (Nat.toDigits 10 length ++ (closing ++ (blanks ++ ['\n']))) := by
    rw [htext]
    rfl
  rw [shapeIn?, hbehind]
  exact onlyLength?_append length _

theorem declaresWords_headerText (length : Nat) : declaresWords (headerText length) := by
  obtain ⟨blanks, htext⟩ := headerText_eq length
  have hkind : (behind? "'descr': ".toList (headerText length)).any
      ("'<i8'".toList.isPrefixOf ·) := by
    rw [htext]
    rfl
  have horder : (behind? "'fortran_order': ".toList (headerText length)).any
      ("False".toList.isPrefixOf ·) := by
    rw [htext]
    rfl
  have hend : (headerText length).getLast? = some '\n' := by
    rw [htext]
    simp only [← List.append_assoc, List.getLast?_concat]
  rw [declaresWords, hkind, horder, hend]
  rfl

/-! ### Files -/

section Files

variable {row : List Int} (h : (dictionary row.length).length < headerLength)

include h

theorem length_encode : (encode row).length = 96 + 8 * row.length := by
  rw [encode, List.length_append, length_header h, length_flatMap_littleEndian]

theorem shape?_encode : shape? (encode row) = some row.length := by
  rw [shape?, encode, parts?_header_append h, Option.bind_eq_bind, Option.bind_some,
    shapeIn?_headerText]

theorem decode?_encode (hwords : ∀ n ∈ row, Word.Fits n) : decode? (encode row) = some row := by
  have hdata := length_flatMap_littleEndian row
  have hdeclared := declaresWords_headerText row.length
  rw [decode?, encode, parts?_header_append h]
  simp only [Option.bind_eq_bind, Option.bind_some, shapeIn?_headerText, hdeclared, hdata, and_self,
    ↓reduceIte, words_flatMap hwords]

end Files

end Dice.Npy
