import Mathlib
import Pegwork.Store

/-!
# Images of words

The image of a word is its bits in groups of eight, the lowest first. Every word has one image of the
length of its type, and every list of that length is the image of one word, whatever the bits stand
for: signs and the many ways to write "not a number" are kept.

* `bytesOf` and `ofBytes` are inverse to each other, for any number of bytes.
* `laid old new` is what stands in memory after bytes have been copied over older ones.
* `Word.decode` cuts bytes into words. It undoes the concatenation of images.
-/

namespace Pegwork

/-! ## Numbers as bytes -/

theorem ofBytes_bytesOf (n value : Nat) : ofBytes (bytesOf n value) = value % 256 ^ n := by
  induction n generalizing value with
  | zero => simp [bytesOf, ofBytes, Nat.mod_one]
  | succ n ih =>
    have hbyte : (UInt8.ofNat (value % 256)).toNat = value % 256 := by simp
    rw [bytesOf, ofBytes, ih, hbyte, pow_succ', Nat.mod_mul]

theorem ofBytes_lt (bytes : List UInt8) : ofBytes bytes < 256 ^ bytes.length := by
  induction bytes with
  | nil => simp [ofBytes]
  | cons b bytes ih =>
    have hb := b.toNat_lt
    rw [ofBytes, List.length_cons, pow_succ]
    omega

theorem bytesOf_ofBytes (bytes : List UInt8) : bytesOf bytes.length (ofBytes bytes) = bytes := by
  induction bytes with
  | nil => rfl
  | cons b bytes ih =>
    have hb := b.toNat_lt
    have hlow : (b.toNat + 256 * ofBytes bytes) % 256 = b.toNat := by omega
    have hhigh : (b.toNat + 256 * ofBytes bytes) / 256 = ofBytes bytes := by omega
    rw [List.length_cons, ofBytes, bytesOf, hlow, hhigh, ih, UInt8.ofNat_toNat]

/-- The byte with the number `i` counts for `256 ^ i`. -/
theorem getElem?_bytesOf {n i : Nat} (value : Nat) (hi : i < n) :
    (bytesOf n value)[i]? = some (UInt8.ofNat (value / 256 ^ i % 256)) := by
  induction n generalizing i value with
  | zero => omega
  | succ n ih =>
    cases i with
    | zero => simp [bytesOf]
    | succ i =>
      rw [bytesOf, List.getElem?_cons_succ, ih (value / 256) (by omega), Nat.div_div_eq_div_mul,
        pow_succ']

/-! ## Copying over older bytes -/

/-- The bytes `old` after as many of the bytes `new` as there is room for have been copied over
them, from the first on. -/
def laid (old new : List UInt8) : List UInt8 := new.take old.length ++ old.drop new.length

@[simp] theorem laid_nil (old : List UInt8) : laid old [] = old := by simp [laid]

@[simp] theorem nil_laid (new : List UInt8) : laid [] new = [] := by simp [laid]

@[simp] theorem laid_cons (old new : List UInt8) (a b : UInt8) :
    laid (a :: old) (b :: new) = b :: laid old new := by
  simp [laid]

@[simp] theorem length_laid (old new : List UInt8) : (laid old new).length = old.length := by
  simp only [laid, List.length_append, List.length_take, List.length_drop]
  omega

/-- As many bytes are replaced as there are of both. -/
theorem laid_eq_take_append_drop (old new : List UInt8) :
    laid old new =
      new.take (min new.length old.length) ++ old.drop (min new.length old.length) := by
  rcases Nat.le_total new.length old.length with h | h
  · rw [Nat.min_eq_left h, laid, List.take_of_length_le h, List.take_length]
  · rw [Nat.min_eq_right h, laid, List.drop_eq_nil_of_le h, List.drop_length]

/-- Enough new bytes cover all of the old ones. -/
theorem laid_of_length_le {old new : List UInt8} (h : old.length ≤ new.length) :
    laid old new = new.take old.length := by
  rw [laid, List.drop_eq_nil_of_le h, List.append_nil]

/-- Bytes are found at the front of others if and only if copying the others over bytes of the same
number replaces all of these and leaves the sought ones. -/
theorem prefix_iff_laid_eq {bytes old new : List UInt8} (h : bytes.length = old.length) :
    bytes <+: new ↔ old.length ≤ new.length ∧ laid old new = bytes := by
  constructor
  · intro hprefix
    have hle : old.length ≤ new.length := h ▸ hprefix.length_le
    exact ⟨hle, by rw [laid_of_length_le hle, ← h, ← List.prefix_iff_eq_take.1 hprefix]⟩
  · rintro ⟨hle, hlaid⟩
    rw [← hlaid, laid_of_length_le hle]
    exact List.take_prefix _ _

/-- The second part of the old bytes gets what the first has no room for. -/
theorem laid_append (old more new : List UInt8) :
    laid (old ++ more) new = laid old new ++ laid more (new.drop old.length) := by
  induction old generalizing new with
  | nil => simp
  | cons a old ih =>
    cases new with
    | nil => simp
    | cons b new => simp [ih]

/-! ## Words -/

namespace Word

variable {t : WordType}

/-- As many different words as images. -/
theorem two_pow_bits (t : WordType) : 2 ^ (8 * t.size) = 256 ^ t.size := by
  rw [pow_mul]
  norm_num

@[simp] theorem ofImage_image (w : Word t) : ofImage t w.image = w := by
  have hbits : w.bits.toNat < 256 ^ t.size := two_pow_bits t ▸ w.bits.isLt
  have hnumber : ofBytes w.image = w.bits.toNat := by
    rw [image, ofBytes_bytesOf, Nat.mod_eq_of_lt hbits]
  rw [ofImage, hnumber, BitVec.ofNat_toNat, BitVec.setWidth_eq]

theorem image_ofImage {bytes : List UInt8} (h : bytes.length = t.size) :
    (ofImage t bytes).image = bytes := by
  have hbits : ofBytes bytes < 2 ^ (8 * t.size) := by
    rw [two_pow_bits, ← h]
    exact ofBytes_lt bytes
  rw [image, ofImage, BitVec.toNat_ofNat, Nat.mod_eq_of_lt hbits, ← h, bytesOf_ofBytes]

@[simp] theorem length_flatMap_image (words : List (Word t)) :
    (words.flatMap image).length = words.length * t.size := by
  induction words with
  | nil => simp
  | cons w words ih => simp [ih, Nat.add_mul, Nat.add_comm]

/-! ### Cutting bytes into words -/

/-- The first `n` words of which the images stand one after the other in some bytes. -/
def decode (t : WordType) : (n : Nat) → List UInt8 → List (Word t)
  | 0, _ => []
  | n + 1, bytes => ofImage t (bytes.take t.size) :: decode t n (bytes.drop t.size)

@[simp] theorem length_decode (n : Nat) (bytes : List UInt8) : (decode t n bytes).length = n := by
  induction n generalizing bytes with
  | zero => rfl
  | succ n ih => simp [decode, ih]

/-- The words that were concatenated are found again, whatever follows them. -/
theorem decode_flatMap_image (words : List (Word t)) (tail : List UInt8) :
    decode t words.length (words.flatMap image ++ tail) = words := by
  induction words with
  | nil => rfl
  | cons w words ih =>
    have hlength : w.image.length = t.size := length_image w
    rw [List.flatMap_cons, List.append_assoc, List.length_cons, decode, List.take_left' hlength,
      List.drop_left' hlength, ofImage_image, ih]

/-- Words of which the concatenated images are known are known themselves. -/
theorem eq_decode_of_flatMap_image {words : List (Word t)} {bytes : List UInt8}
    (h : words.flatMap image = bytes.take (words.length * t.size)) :
    words = decode t words.length bytes := by
  have hwords := decode_flatMap_image words (bytes.drop (words.length * t.size))
  rwa [h, List.take_append_drop, eq_comm] at hwords

end Word

end Pegwork
