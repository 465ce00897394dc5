import Mathlib.Algebra.Ring.Nat
import Mathlib.Data.List.Induction
import Mathlib.Tactic.Ring
import Mathlib.Tactic.Common

/-!
# Big-endian words

Natural numbers as byte strings of a fixed width, most significant byte first. The value of a byte
string determines the string among those of its length, and reading a word back out of a longer
buffer gives its value.

## Main definitions

* `BigEndian.encode width n`, `BigEndian.value bs`
* `BigEndian.wordAt width bs pos`: the value of the word that starts at a position
* `BigEndian.encodeAll width ns`: an array of words

## Main results

* `BigEndian.value_encode`: the value of an encoding, below the bound of its width
* `BigEndian.wordAt_append`: a word that follows `pos` bytes is the word at `pos`
* `BigEndian.take_drop_encodeAll`: the bytes of an element of an array
-/

namespace BigEndian

/-- The `width` big-endian bytes of `n`; higher bits are dropped. -/
def encode : (width n : ℕ) → List UInt8
  | 0, _ => []
  | width + 1, n => encode width (n / 256) ++ [UInt8.ofNat n]

/-- The number a byte string stands for. -/
def value (bs : List UInt8) : ℕ := bs.foldl (fun acc b => acc * 256 + b.toNat) 0

/-- The number in the `width` bytes from `pos` on. -/
def wordAt (width : ℕ) (bs : List UInt8) (pos : ℕ) : ℕ := value ((bs.drop pos).take width)

@[simp] theorem length_encode (width n : ℕ) : (encode width n).length = width := by
  induction width generalizing n with
  | zero => rfl
  | succ width ih => simp [encode, ih]

@[simp] theorem value_nil : value [] = 0 := rfl

theorem value_append_singleton (bs : List UInt8) (b : UInt8) :
    value (bs ++ [b]) = value bs * 256 + b.toNat := by
  simp [value, List.foldl_append]

theorem value_lt (bs : List UInt8) : value bs < 256 ^ bs.length := by
  induction bs using List.reverseRecOn with
  | nil => simp
  | append_singleton bs b ih =>
    have hb : b.toNat < 256 := b.toNat_lt
    rw [value_append_singleton, List.length_append, List.length_singleton, pow_succ]
    omega

theorem value_encode_mod (width n : ℕ) : value (encode width n) = n % 256 ^ width := by
  induction width generalizing n with
  | zero => simp [encode, Nat.mod_one]
  | succ width ih =>
    -- The last byte is the remainder, and the others encode the quotient.
    have hbyte : (UInt8.ofNat n).toNat = n % 256 := by simp
    rw [encode, value_append_singleton, ih, hbyte, pow_succ', Nat.mod_mul]
    ring

/-- **The value of an encoding.** -/
theorem value_encode {width n : ℕ} (h : n < 256 ^ width) : value (encode width n) = n := by
  rw [value_encode_mod, Nat.mod_eq_of_lt h]

/-- **Reading a word out of a buffer**: a word that follows `pos` bytes is the word at `pos`. -/
theorem wordAt_append {width pos : ℕ} {pre word : List UInt8} (hpre : pre.length = pos)
    (hword : word.length = width) (post : List UInt8) :
    wordAt width (pre ++ word ++ post) pos = value word := by
  subst hpre hword
  simp [wordAt]

/-! ## Arrays of words -/

/-- Words of one width, one after the other. -/
def encodeAll (width : ℕ) (ns : List ℕ) : List UInt8 := ns.flatMap (encode width)

@[simp] theorem encodeAll_nil (width : ℕ) : encodeAll width [] = [] := rfl

@[simp] theorem encodeAll_cons (width n : ℕ) (ns : List ℕ) :
    encodeAll width (n :: ns) = encode width n ++ encodeAll width ns := rfl

@[simp] theorem length_encodeAll (width : ℕ) (ns : List ℕ) :
    (encodeAll width ns).length = width * ns.length := by
  induction ns with
  | nil => rfl
  | cons n ns ih =>
    rw [encodeAll_cons, List.length_append, ih, length_encode, List.length_cons, Nat.mul_succ,
      Nat.add_comm]

/-- **Reading an element of an array**, with any bytes around it. -/
theorem take_drop_encodeAll {width k n : ℕ} {ns : List ℕ} (h : ns[k]? = some n)
    {pre : List UInt8} {pos : ℕ} (hpos : pos = pre.length + width * k) (post : List UInt8) :
    ((pre ++ encodeAll width ns ++ post).drop pos).take width = encode width n := by
  induction ns generalizing k pre pos with
  | nil => simp at h
  | cons m ns ih =>
    cases k with
    | zero =>
      cases h
      subst hpos
      simp
    | succ k =>
      -- The first word joins the bytes before the array.
      rw [encodeAll_cons, ← List.append_assoc pre]
      apply ih (by simpa using h)
      rw [hpos, List.length_append, length_encode, Nat.mul_succ]
      omega

end BigEndian
