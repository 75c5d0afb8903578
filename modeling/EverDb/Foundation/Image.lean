import Mathlib.Algebra.Group.Nat.Defs
import Mathlib.Logic.Basic
import Mathlib.Tactic.Set

/-!
# Byte images with little-endian words

An image is a total map from offsets to bytes. A 32-bit word at index `i`
occupies the bytes `4 * i` to `4 * i + 3`, least significant first, so that a
byte view and a word view of one block of memory agree. Word values are natural
numbers; storing one keeps it modulo `2 ^ 32`.
-/

namespace EverDb.Foundation

/-- The bytes of one block of memory, by offset. -/
abbrev Image := Nat → UInt8

namespace Image

/-- Byte `place` of a word, least significant first. -/
def wordByte (value place : Nat) : UInt8 := UInt8.ofNat (value / 256 ^ place)

/-- The word stored at word index `index`. -/
def word (image : Image) (index : Nat) : Nat :=
  (image (4 * index)).toNat + 256 * (image (4 * index + 1)).toNat +
    65536 * (image (4 * index + 2)).toNat + 16777216 * (image (4 * index + 3)).toNat

/-- Store a word at word index `index`. -/
def setWord (image : Image) (index value : Nat) : Image := fun offset =>
  if offset / 4 = index then wordByte value (offset % 4) else image offset

/-- Store one byte. -/
def setByte (image : Image) (place : Nat) (value : UInt8) : Image := fun offset =>
  if offset = place then value else image offset

/-- The image of zeros. -/
def zero : Image := fun _ => 0

/-- `memcpy`: copy `count` bytes of `source` from `start` on to offset `target`. -/
def blit (image : Image) (target : Nat) (source : Image) (start count : Nat) : Image :=
  fun offset =>
    if target ≤ offset ∧ offset < target + count then source (start + (offset - target))
    else image offset

/-- The `count` bytes at `start`. -/
def slice (image : Image) (start count : Nat) : List UInt8 :=
  (List.range count).map fun step => image (start + step)

/-- The bytes of a list from offset zero on, followed by zeros. -/
def ofList (bytes : List UInt8) : Image := fun offset => bytes.getD offset 0

/-- An image holding one word at offset zero. -/
def ofWord (value : Nat) : Image := setWord zero 0 value

variable {image : Image} {index place value : Nat} {byte : UInt8}

/-- A word has 32 bits. -/
theorem word_lt (image : Image) (index : Nat) : word image index < 4294967296 := by
  have b0 := (image (4 * index)).toNat_lt
  have b1 := (image (4 * index + 1)).toNat_lt
  have b2 := (image (4 * index + 2)).toNat_lt
  have b3 := (image (4 * index + 3)).toNat_lt
  simp only [word]
  omega

/-- A byte of a word as a number. -/
@[simp] theorem wordByte_toNat (value place : Nat) :
    (wordByte value place).toNat = value / 256 ^ place % 256 := by
  simp [wordByte, UInt8.toNat_ofNat']

/-- A word reads back as it was stored, modulo the word span. -/
theorem word_setWord_mod (image : Image) (index value : Nat) :
    word (setWord image index value) index = value % 4294967296 := by
  have i0 : 4 * index / 4 = index := by omega
  have i1 : (4 * index + 1) / 4 = index := by omega
  have i2 : (4 * index + 2) / 4 = index := by omega
  have i3 : (4 * index + 3) / 4 = index := by omega
  have r0 : 4 * index % 4 = 0 := by omega
  have r1 : (4 * index + 1) % 4 = 1 := by omega
  have r2 : (4 * index + 2) % 4 = 2 := by omega
  have r3 : (4 * index + 3) % 4 = 3 := by omega
  simp only [word, setWord, i0, i1, i2, i3, r0, r1, r2, r3, if_true, wordByte_toNat]
  omega

/-- A 32-bit value reads back exactly. -/
theorem word_setWord_self (bounded : value < 4294967296) :
    word (setWord image index value) index = value := by
  rw [word_setWord_mod, Nat.mod_eq_of_lt bounded]

/-- Storing a word leaves every other word alone. -/
theorem word_setWord_of_ne (other : place ≠ index) :
    word (setWord image index value) place = word image place := by
  have i0 : 4 * place / 4 ≠ index := by omega
  have i1 : (4 * place + 1) / 4 ≠ index := by omega
  have i2 : (4 * place + 2) / 4 ≠ index := by omega
  have i3 : (4 * place + 3) / 4 ≠ index := by omega
  simp only [word, setWord, i0, i1, i2, i3, if_false]

/-- Both cases of reading after storing a word. -/
theorem word_setWord (bounded : value < 4294967296) :
    word (setWord image index value) place = if place = index then value else word image place := by
  by_cases same : place = index
  · subst same; simp [word_setWord_self bounded]
  · simp [same, word_setWord_of_ne same]

/-- Each byte of a word is a byte of the image. -/
theorem wordByte_word (image : Image) (index : Nat) {step : Nat} (small : step < 4) :
    wordByte (word image index) step = image (4 * index + step) := by
  have b0 := (image (4 * index)).toNat_lt
  have b1 := (image (4 * index + 1)).toNat_lt
  have b2 := (image (4 * index + 2)).toNat_lt
  have b3 := (image (4 * index + 3)).toNat_lt
  apply UInt8.toNat_inj.mp
  rw [wordByte_toNat, word]
  rcases (by omega : step = 0 ∨ step = 1 ∨ step = 2 ∨ step = 3) with rfl | rfl | rfl | rfl
  · simp only [Nat.add_zero, Nat.pow_zero, Nat.div_one]
    omega
  all_goals omega

/-- Storing the word that is there changes nothing. -/
theorem setWord_word (image : Image) (index : Nat) :
    setWord image index (word image index) = image := by
  ext offset
  unfold setWord
  split
  · rename_i here
    subst here
    rw [wordByte_word image _ (Nat.mod_lt _ (by decide)), Nat.div_add_mod]
  · rfl

/-- Storing a word leaves the bytes of other words alone. -/
theorem setWord_byte_of_ne {offset : Nat} (other : offset / 4 ≠ index) :
    setWord image index value offset = image offset := by
  simp [setWord, other]

/-- Two images that agree on the four bytes agree on the word. -/
theorem word_congr {left right : Image} {source target : Nat}
    (agree : ∀ step, step < 4 → left (4 * source + step) = right (4 * target + step)) :
    word left source = word right target := by
  have b0 := agree 0 (by omega)
  have b1 := agree 1 (by omega)
  have b2 := agree 2 (by omega)
  have b3 := agree 3 (by omega)
  simp only [Nat.add_zero] at b0
  simp only [word, b0, b1, b2, b3]

/-- The words of the zero image. -/
@[simp] theorem word_zero (index : Nat) : word zero index = 0 := rfl

/-- The byte that was written is read back. -/
theorem setByte_self : setByte image place byte place = byte := by simp [setByte]

/-- Writing a byte leaves the others. -/
theorem setByte_of_ne {offset : Nat} (other : offset ≠ place) :
    setByte image place byte offset = image offset := by simp [setByte, other]

/-- Storing a byte leaves the words it is not part of alone. -/
theorem word_setByte_of_ne (other : place / 4 ≠ index) :
    word (setByte image place byte) index = word image index := by
  apply word_congr
  intro step small
  exact setByte_of_ne (by omega)

/-- A copy reads its source inside the window. -/
theorem blit_inside {target start count offset : Nat} {source : Image}
    (low : target ≤ offset) (high : offset < target + count) :
    blit image target source start count offset = source (start + (offset - target)) := by
  simp [blit, low, high]

/-- A copy changes nothing outside its window. -/
theorem blit_outside {target start count offset : Nat} {source : Image}
    (outside : offset < target ∨ target + count ≤ offset) :
    blit image target source start count offset = image offset := by
  have missed : ¬(target ≤ offset ∧ offset < target + count) := by omega
  simp [blit, missed]

/-- A copy changes no word that lies outside its window. -/
theorem word_blit_outside {target start count : Nat} {source : Image}
    (outside : 4 * index + 4 ≤ target ∨ target + count ≤ 4 * index) :
    word (blit image target source start count) index = word image index := by
  apply word_congr
  intro step small
  exact blit_outside (by omega)

/-- A slice has the length asked for. -/
@[simp] theorem slice_length (image : Image) (start count : Nat) :
    (slice image start count).length = count := by simp [slice]

/-- The bytes of a slice. -/
theorem slice_getElem {start count step : Nat} (inside : step < (slice image start count).length) :
    (slice image start count)[step] = image (start + step) := by
  simp [slice]

/-- Two windows with the same bytes are the same slice. -/
theorem slice_congr {left right : Image} {source target count : Nat}
    (agree : ∀ step, step < count → left (source + step) = right (target + step)) :
    slice left source count = slice right target count := by
  apply List.ext_getElem
  · simp
  · intro step inside _
    simp only [slice_length] at inside
    rw [slice_getElem, slice_getElem]
    exact agree step inside

/-- A slice inside a window copied from the start. -/
theorem slice_blit_start {count offset size : Nat} {source : Image}
    (inside : offset + size ≤ count) :
    slice (blit image 0 source 0 count) offset size = slice source offset size := by
  apply slice_congr
  intro step small
  rw [blit_inside (by omega) (by omega), Nat.zero_add, Nat.sub_zero]

/-- The whole copied window. -/
theorem slice_blit_self {target start count : Nat} {source : Image} :
    slice (blit image target source start count) target count = slice source start count := by
  apply slice_congr
  intro step small
  rw [blit_inside (by omega) (by omega)]
  congr 1
  omega

/-- A slice outside a copied window is as it was. -/
theorem slice_blit_outside {target start count offset size : Nat} {source : Image}
    (outside : offset + size ≤ target ∨ target + count ≤ offset) :
    slice (blit image target source start count) offset size = slice image offset size := by
  apply slice_congr
  intro step small
  exact blit_outside (by omega)

/-- Storing a word changes no slice that lies before it. -/
theorem slice_setWord_outside {offset size : Nat}
    (outside : offset + size ≤ 4 * index ∨ 4 * index + 4 ≤ offset) :
    slice (setWord image index value) offset size = slice image offset size := by
  apply slice_congr
  intro step small
  exact setWord_byte_of_ne (by omega)

/-- The bytes of a zero word are zero. -/
theorem byte_of_word_eq_zero {offset : Nat} (zeroed : word image (offset / 4) = 0) :
    image offset = 0 := by
  generalize inside : offset / 4 = index at zeroed
  simp only [word] at zeroed
  have place : offset = 4 * index + offset % 4 := by omega
  have small : offset % 4 < 4 := Nat.mod_lt _ (by decide)
  apply UInt8.toNat_inj.mp
  rw [place, UInt8.toNat_zero]
  rcases (by omega : offset % 4 = 0 ∨ offset % 4 = 1 ∨ offset % 4 = 2 ∨ offset % 4 = 3) with
    first | other | other | other
  · rw [first, Nat.add_zero]
    omega
  all_goals rw [other]; omega

/-- A word of zero bytes is zero. -/
theorem word_eq_zero (zeroed : ∀ step, step < 4 → image (4 * index + step) = 0) :
    word image index = 0 := by
  have b0 := zeroed 0 (by omega)
  have b1 := zeroed 1 (by omega)
  have b2 := zeroed 2 (by omega)
  have b3 := zeroed 3 (by omega)
  simp only [Nat.add_zero] at b0
  simp [word, b0, b1, b2, b3]

/-- Equal slices have equal bytes. -/
theorem byte_of_slice_eq {left right : Image} {source target count step : Nat}
    (same : slice left source count = slice right target count) (inside : step < count) :
    left (source + step) = right (target + step) := by
  have read := congrArg (fun bytes : List UInt8 => bytes[step]?) same
  simpa [slice, inside] using read

/-- The four bytes at a word's place are that word's bytes. -/
theorem word_of_slice {left right : Image} {source target : Nat}
    (same : slice left (4 * source) 4 = slice right (4 * target) 4) :
    word left source = word right target :=
  word_congr fun _ small => byte_of_slice_eq same small

/-- The first word of a buffer made of a word. -/
theorem word_ofWord (bounded : value < 4294967296) : word (ofWord value) 0 = value :=
  word_setWord_self bounded

/-- A window of a list's image is the corresponding part of the list. -/
theorem slice_ofList (bytes : List UInt8) : slice (ofList bytes) 0 bytes.length = bytes := by
  apply List.ext_getElem
  · simp
  · intro step inside within
    rw [slice_getElem]
    simp [ofList, List.getElem?_eq_getElem within]

end Image

end EverDb.Foundation
