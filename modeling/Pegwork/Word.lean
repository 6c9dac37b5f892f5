import Pegwork.Number.Shortest
import Pegwork.Text.Quoted

/-!
# Fixed-width words

The values that binary formats are made of: integers of 8 to 128 bits, with or without sign, and
floating-point numbers of 32 and 64 bits. A word is its bits; its *image* is the list of its bytes,
the least significant first.

* `Word.image` and `Word.ofImage` are inverse to each other on images of the right length.
* `Word.text` and `Word.ofText?` write and read a value: integers in decimal, floating-point
  numbers by their bits.
-/

namespace Pegwork

/-- The widths of integers. -/
inductive Width where
  /-- One byte. -/
  | bits8
  /-- Two bytes. -/
  | bits16
  /-- Four bytes. -/
  | bits32
  /-- Eight bytes. -/
  | bits64
  /-- Sixteen bytes. -/
  | bits128
  deriving DecidableEq, Repr

/-- The number of bytes of a width. -/
def Width.bytes : Width → Nat
  | bits8 => 1
  | bits16 => 2
  | bits32 => 4
  | bits64 => 8
  | bits128 => 16

/-- A type of fixed-width values. -/
inductive WordType where
  /-- Whole numbers from zero on. -/
  | unsigned (width : Width)
  /-- Whole numbers of both signs. -/
  | signed (width : Width)
  /-- Floating-point numbers of four bytes. -/
  | single
  /-- Floating-point numbers of eight bytes. -/
  | double
  deriving DecidableEq, Repr

namespace WordType

/-- The number of bytes of an image. -/
def size : WordType → Nat
  | unsigned w => w.bytes
  | signed w => w.bytes
  | single => 4
  | double => 8

theorem size_pos (t : WordType) : 0 < t.size := by
  cases t with
  | unsigned w => cases w <;> decide
  | signed w => cases w <;> decide
  | single => decide
  | double => decide

/-- The type with a given short name. -/
def ofName? : String → Option WordType
  | "u8" => some (unsigned .bits8)
  | "i8" => some (signed .bits8)
  | "u16" => some (unsigned .bits16)
  | "i16" => some (signed .bits16)
  | "u32" => some (unsigned .bits32)
  | "i32" => some (signed .bits32)
  | "u64" => some (unsigned .bits64)
  | "i64" => some (signed .bits64)
  | "u128" => some (unsigned .bits128)
  | "i128" => some (signed .bits128)
  | "f32" => some single
  | "f64" => some double
  | _ => none

end WordType

/-! ## Images -/

/-- The `n` lowest bytes of a number, the least significant first. -/
def bytesOf : Nat → Nat → List UInt8
  | 0, _ => []
  | n + 1, value => UInt8.ofNat (value % 256) :: bytesOf n (value / 256)

/-- The number with the given bytes, the least significant first. -/
def ofBytes : List UInt8 → Nat
  | [] => 0
  | b :: bytes => b.toNat + 256 * ofBytes bytes

@[simp] theorem length_bytesOf (n value : Nat) : (bytesOf n value).length = n := by
  induction n generalizing value with
  | zero => rfl
  | succ n ih => simp [bytesOf, ih]

/-- A value of a fixed-width type. -/
structure Word (t : WordType) where
  /-- The bits of the value. -/
  bits : BitVec (8 * t.size)
  deriving DecidableEq, Repr

namespace Word

variable {t : WordType}

/-- The word with all bits zero. -/
def zero (t : WordType) : Word t := ⟨0⟩

/-- The bytes of a word, the least significant first. -/
def image (w : Word t) : List UInt8 := bytesOf t.size w.bits.toNat

/-- The word with a given image. -/
def ofImage (t : WordType) (bytes : List UInt8) : Word t := ⟨BitVec.ofNat _ (ofBytes bytes)⟩

@[simp] theorem length_image (w : Word t) : w.image.length = t.size := length_bytesOf _ _

/-! ## Text -/

/-- The bits in hexadecimal, all digits written. -/
def hexBits (w : Word t) : String :=
  "0x" ++ String.join (w.image.reverse.map Text.hexByte)

/-- The value as text: integers in decimal, floating-point numbers by their bits. -/
def text (w : Word t) : String :=
  match t with
  | .unsigned _ => toString w.bits.toNat
  | .signed _ => toString w.bits.toInt
  | .single | .double => w.hexBits

/-- The value as it is written in diagnostics. -/
def describe (w : Word t) : String :=
  match t with
  | .unsigned _ => toString w.bits.toNat
  | .signed _ => toString w.bits.toInt
  | .single => Number.Format.single.text .diagnostic w.bits.toNat
  | .double => Number.Format.double.text .diagnostic w.bits.toNat

/-- The value of a hexadecimal digit. -/
def hexValue? (c : Char) : Option Nat :=
  if '0' ≤ c ∧ c ≤ '9' then some (c.toNat - '0'.toNat)
  else if 'a' ≤ c ∧ c ≤ 'f' then some (c.toNat - 'a'.toNat + 10)
  else if 'A' ≤ c ∧ c ≤ 'F' then some (c.toNat - 'A'.toNat + 10)
  else none

/-- The number written by hexadecimal digits. -/
def ofHex? (digits : List Char) : Option Nat :=
  digits.foldlM (fun n c => (hexValue? c).map (16 * n + ·)) 0

/-- Reads what `text` writes. An integer out of range is refused. -/
def ofText? (t : WordType) (s : String) : Option (Word t) :=
  match t, s.toList with
  | .unsigned w, _ =>
    (Number.readWhole (Nat.pow 2 (8 * w.bytes)) s).map fun value => ⟨BitVec.ofNat _ value⟩
  | .signed w, '-' :: digits =>
    (Number.readWhole (Nat.pow 2 (8 * w.bytes - 1) + 1) (String.ofList digits)).map fun value =>
      ⟨BitVec.ofInt _ (-(value : Int))⟩
  | .signed w, _ =>
    (Number.readWhole (Nat.pow 2 (8 * w.bytes - 1)) s).map fun value => ⟨BitVec.ofNat _ value⟩
  | _, '0' :: 'x' :: digits => (ofHex? digits).map fun value => ⟨BitVec.ofNat _ value⟩
  | _, _ => none

end Word

end Pegwork
