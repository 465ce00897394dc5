import ChainLens.Domain.Types
import Mathlib.Tactic.IntervalCases

/-!
# Text forms of bytes and integers

## Main definitions

* `hexEncode`, `hexDecode`, `trimStart0x`: the hex text of a byte string
* `parseI64`, `parseU128`: the decimal texts of integers
* `formatFixed`: the text of a float with a fixed number of decimals

## Main results

* `hexDecodeTrimmed_hexText`: the text of a byte string is decoded to it
* `parseI64_toString`: when a number is read back as a signed integer of 64 bits
-/

namespace ChainLens

/-- `hex::encode`: two lower-case digits for each byte. -/
def hexEncode (bytes : Bytes) : String :=
  .ofList (bytes.flatMap fun b => [Nat.digitChar (b.toNat / 16), Nat.digitChar (b.toNat % 16)])

/-- The value of a hex digit of either case. -/
def hexDigit (c : Char) : Option ℕ :=
  if '0' ≤ c ∧ c ≤ '9' then some (c.toNat - '0'.toNat)
  else if 'a' ≤ c ∧ c ≤ 'f' then some (c.toNat - 'a'.toNat + 10)
  else if 'A' ≤ c ∧ c ≤ 'F' then some (c.toNat - 'A'.toNat + 10)
  else none

/-- `hex::decode`: an even number of hex digits, two for each byte. -/
def hexDecode : List Char → Option Bytes
  | [] => some []
  | [_] => none
  | high :: low :: rest => do
    let high ← hexDigit high
    let low ← hexDigit low
    return UInt8.ofNat (16 * high + low) :: (← hexDecode rest)

/-- `trim_start_matches("0x")`, which removes the prefix as often as it occurs. -/
def trimStart0x : List Char → List Char
  | '0' :: 'x' :: rest => trimStart0x rest
  | text => text

/-- `hex::decode(text.trim_start_matches("0x"))`. -/
def hexDecodeTrimmed (text : String) : Option Bytes := hexDecode (trimStart0x text.toList)

/-- `text.parse::<i64>().ok()`: an optional sign and at least one digit. -/
def parseI64 (text : String) : Option Int :=
  let (negative, digits) := match text.toList with
    | '-' :: digits => (true, digits)
    | '+' :: digits => (false, digits)
    | digits => (false, digits)
  if digits = [] ∨ ¬ digits.all Char.isDigit then none
  else
    let magnitude : Int := digits.foldl (fun acc c => 10 * acc + (c.toNat - '0'.toNat)) 0
    let value := if negative then -magnitude else magnitude
    if -(i64Max + 1) ≤ value ∧ value ≤ i64Max then some value else none

def u128Max : ℕ := 340282366920938463463374607431768211455

/-- `text.parse::<u128>().ok()`: an optional plus sign and at least one digit. -/
def parseU128 (text : String) : Option ℕ :=
  let digits := match text.toList with
    | '+' :: digits => digits
    | digits => digits
  if digits = [] ∨ ¬ digits.all Char.isDigit then none
  else
    let value := digits.foldl (fun acc c => 10 * acc + (c.toNat - '0'.toNat)) 0
    if value ≤ u128Max then some value else none

/-! ## Hex texts -/

/-- `format!("0x{}", hex::encode(bytes))`. -/
def hexText (bytes : Bytes) : String := "0x" ++ hexEncode bytes

theorem hexDigit_digitChar {n : ℕ} (h : n < 16) : hexDigit (Nat.digitChar n) = some n := by
  interval_cases n <;> rfl

theorem digitChar_ne_x {n : ℕ} (h : n < 16) : Nat.digitChar n ≠ 'x' := by
  interval_cases n <;> decide

theorem hexDecode_hexEncode (bytes : Bytes) : hexDecode (hexEncode bytes).toList = some bytes := by
  rw [hexEncode, String.toList_ofList]
  induction bytes with
  | nil => rfl
  | cons b bytes ih =>
    have hb : b.toNat < 256 := b.toNat_lt
    have hvalue : 16 * (b.toNat / 16) + b.toNat % 16 = b.toNat := by omega
    simp only [List.flatMap_cons, List.cons_append, List.nil_append, hexDecode]
    rw [hexDigit_digitChar (by omega), hexDigit_digitChar (by omega), ih]
    show some (UInt8.ofNat (16 * (b.toNat / 16) + b.toNat % 16) :: bytes) = some (b :: bytes)
    rw [hvalue, UInt8.ofNat_toNat]

/-- Only the prefix is cut off, since no digit is an `x`. -/
theorem trimStart0x_hexEncode (bytes : Bytes) :
    trimStart0x (hexEncode bytes).toList = (hexEncode bytes).toList := by
  rw [hexEncode, String.toList_ofList]
  cases bytes with
  | nil => rfl
  | cons b bytes =>
    simp only [List.flatMap_cons, List.cons_append, List.nil_append]
    unfold trimStart0x
    split
    next rest heq =>
      simp only [List.cons.injEq] at heq
      exact absurd heq.2.1 (digitChar_ne_x (by omega))
    next => rfl

/-- **The text of a byte string is decoded to it.** -/
@[simp] theorem hexDecodeTrimmed_hexText (bytes : Bytes) :
    hexDecodeTrimmed (hexText bytes) = some bytes := by
  rw [hexDecodeTrimmed, hexText, String.toList_append]
  show hexDecode (trimStart0x ('0' :: 'x' :: (hexEncode bytes).toList)) = some bytes
  rw [trimStart0x, trimStart0x_hexEncode, hexDecode_hexEncode]

/-- A text has at least a byte for each character. -/
theorem length_le_utf8ByteSize (text : String) : text.toList.length ≤ text.utf8ByteSize := by
  obtain ⟨cs, rfl⟩ : ∃ cs, text = String.ofList cs := ⟨text.toList, (String.ofList_toList).symm⟩
  rw [String.toList_ofList]
  induction cs with
  | nil => exact Nat.zero_le _
  | cons c cs ih =>
    have hpos : 0 < c.utf8Size := c.utf8Size_pos
    rw [← List.singleton_append, String.ofList_append, String.utf8ByteSize_append,
      List.length_append, List.length_singleton]
    have : (String.ofList [c]).utf8ByteSize = c.utf8Size := String.utf8ByteSize_singleton
    omega

theorem length_hexText (bytes : Bytes) : (hexText bytes).toList.length = 2 + 2 * bytes.length := by
  have hprefix : "0x".toList.length = 2 := rfl
  rw [hexText, hexEncode, String.toList_append, List.length_append, hprefix, String.toList_ofList,
    List.length_flatMap]
  simp [Nat.mul_comm]

theorem hexEncode_inj {bs cs : Bytes} : hexEncode bs = hexEncode cs ↔ bs = cs := by
  refine ⟨fun h => ?_, congrArg _⟩
  have hdecode := hexDecode_hexEncode bs
  rw [h, hexDecode_hexEncode] at hdecode
  exact (Option.some.inj hdecode).symm

theorem hexText_inj {bs cs : Bytes} : hexText bs = hexText cs ↔ bs = cs := by
  rw [hexText, hexText, String.append_right_inj, hexEncode_inj]

/-! ## Decimals -/

/-- The value of digits, as an integer. -/
theorem foldl_digits {digits : List Char} (h : ∀ c ∈ digits, c.isDigit) (init : ℕ) :
    digits.foldl (fun (acc : Int) c => 10 * acc + (c.toNat - '0'.toNat)) init =
      (Nat.ofDigitChars 10 digits init : Int) := by
  induction digits generalizing init with
  | nil => rfl
  | cons c digits ih =>
    have hdigit : '0'.toNat ≤ c.toNat := by
      have := h c List.mem_cons_self
      simp only [Char.isDigit, Bool.and_eq_true, decide_eq_true_eq] at this
      exact this.1
    rw [List.foldl_cons, Nat.ofDigitChars_cons, ← ih fun d hd => h d (List.mem_cons_of_mem _ hd)]
    congr 1
    rw [Nat.cast_add, Nat.cast_mul, Nat.cast_sub hdigit]
    rfl

/-- **A number is read back if it has 63 bits.** -/
theorem parseI64_toString (n : ℕ) :
    parseI64 (toString n) = if n ≤ i64Max then some (n : Int) else none := by
  have htext : (toString n).toList = Nat.toDigits 10 n := Nat.toList_repr
  have hdigits : ∀ c ∈ Nat.toDigits 10 n, c.isDigit := fun c hc =>
    Nat.isDigit_of_mem_toDigits (by decide) (by decide) hc
  have hvalue : (Nat.toDigits 10 n).foldl
      (fun (acc : Int) c => 10 * acc + (c.toNat - '0'.toNat)) 0 = n := by
    have := foldl_digits hdigits 0
    rwa [Nat.ofDigitChars_ten_toDigits] at this
  have hvalid : ¬ (Nat.toDigits 10 n = [] ∨ ¬ (Nat.toDigits 10 n).all Char.isDigit) := by
    rw [not_or, not_not]
    exact ⟨Nat.toDigits_ne_nil, List.all_eq_true.mpr hdigits⟩
  simp only [parseI64, htext]
  -- No digit is a sign.
  split
  next digits heq => exact absurd (hdigits '-' (heq ▸ List.mem_cons_self)) (by decide)
  next digits heq => exact absurd (hdigits '+' (heq ▸ List.mem_cons_self)) (by decide)
  next =>
    simp only [if_neg hvalid, hvalue, Bool.false_eq_true, if_false]
    refine if_congr ?_ rfl rfl
    omega

/-- `num / den` rounded to an integer, ties to the even one. -/
def roundHalfEven (num den : ℕ) : ℕ :=
  let quotient := num / den
  let remainder := num % den
  if den < 2 * remainder ∨ 2 * remainder = den ∧ quotient % 2 = 1 then quotient + 1 else quotient

/-- `n` parts of a power of ten, written with that many decimals. -/
def decimalText (digits n : ℕ) : String :=
  let unit := Nat.pow 10 digits
  let fraction := toString (n % unit)
  toString (n / unit) ++ "." ++ .ofList (List.replicate (digits - fraction.length) '0') ++ fraction

/-- `format!("{:.digits$}", f)`: the value of the float, rounded to that many decimals. -/
def formatFixed (digits : ℕ) (f : Float) : String :=
  let minus (sign : Float.Model.UnpackedFloat.Sign) : String :=
    match sign with
    | .negative => "-"
    | .positive => ""
  match f.toModel.unpack with
  | .finite sign mantissa exponent _ =>
    let scaled := mantissa * Nat.pow 10 digits
    minus sign ++ decimalText digits
      (if 0 ≤ exponent then scaled * Nat.pow 2 exponent.toNat
      else roundHalfEven scaled (Nat.pow 2 (-exponent).toNat))
  | .zero sign => minus sign ++ decimalText digits 0
  | .infinity sign => minus sign ++ "inf"
  | .notANumber => "NaN"

/-- A tie is rounded to the even digit. -/
example : formatFixed 6 (Float.ofNat 1 / 128) = "0.007812" := by decide +kernel

end ChainLens
