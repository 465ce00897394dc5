import ChainLens.Domain.Text
import Mathlib.Data.List.Induction

/-!
# Decimal texts

Digits are read as an integer whatever zeros stand before it, so that a text of a fixed length can
be read if it is a number padded with zeros.

## Main results

* `eq_leftpad_of_isDigit`: a text of digits is its number, padded with zeros
* `parseI64_unsigned`, `parseU128_digits`: when a text of digits is read
* `parseI64_hexEncode_iff`: the byte strings whose hex text is read as an integer
-/

namespace ChainLens

section Digits

variable {digits : List Char}

theorem digitChar_of_isDigit {c : Char} (h : c.isDigit) :
    ∃ n, n < 10 ∧ c = Nat.digitChar n := by
  simp only [Char.isDigit, Bool.and_eq_true, decide_eq_true_eq] at h
  obtain ⟨hlow, hhigh⟩ := h
  have hlow : 48 ≤ c.toNat := hlow
  have hhigh : c.toNat ≤ 57 := hhigh
  refine ⟨c.toNat - 48, by omega, ?_⟩
  apply Char.toNat_inj.mp
  rw [Nat.toNat_digitChar_of_lt_ten (by omega)]
  omega

/-- **A text of digits is its number, padded with zeros.** -/
theorem eq_leftpad_of_isDigit (h : ∀ c ∈ digits, c.isDigit) (hne : digits ≠ []) :
    digits = (Nat.toDigits 10 (Nat.ofDigitChars 10 digits 0)).leftpad digits.length '0' := by
  induction digits using List.reverseRecOn with
  | nil => exact absurd rfl hne
  | append_singleton digits c ih =>
    obtain ⟨n, hn, rfl⟩ := digitChar_of_isDigit (h c (by simp))
    rw [Nat.ofDigitChars_append, Nat.ofDigitChars_cons_digitChar_of_lt_ten hn,
      Nat.ofDigitChars_nil, List.length_append, List.length_singleton]
    rcases eq_or_ne digits [] with rfl | hdigits
    · simp [Nat.toDigits_of_lt_base hn, List.leftpad]
    · have hinit := ih (fun d hd => h d (List.mem_append_left _ hd)) hdigits
      generalize Nat.ofDigitChars 10 digits 0 = value at hinit ⊢
      have hlength : 0 < digits.length := List.length_pos_iff.mpr hdigits
      rcases Nat.eq_zero_or_pos value with rfl | hpos
      -- Before the last digit there are zeros only.
      · have hzeros : digits = List.replicate digits.length '0' := by
          refine hinit.trans ?_
          rw [Nat.toDigits_zero, List.leftpad, List.length_singleton, ← List.replicate_succ',
            Nat.sub_add_cancel hlength]
        rw [Nat.mul_zero, Nat.zero_add, Nat.toDigits_of_lt_base hn, List.leftpad,
          List.length_singleton, Nat.add_sub_cancel, ← hzeros]
      · rw [Nat.toDigits_eq_if (by omega), if_neg (by omega),
          show (10 * value + n) / 10 = value by omega, show (10 * value + n) % 10 = n by omega,
          List.leftpad, List.length_append, List.length_singleton, Nat.add_sub_add_right,
          ← List.append_assoc]
        exact congrArg (· ++ [Nat.digitChar n]) hinit

theorem isDigit_toDigits (n : ℕ) : ∀ c ∈ Nat.toDigits 10 n, c.isDigit := fun _ hc =>
  Nat.isDigit_of_mem_toDigits (by decide) (by decide) hc

theorem isDigit_leftpad (n k : ℕ) : ∀ c ∈ (Nat.toDigits 10 n).leftpad k '0', c.isDigit := by
  intro c hc
  rcases List.mem_append.mp hc with hzero | hdigit
  · rw [List.eq_of_mem_replicate hzero]
    rfl
  · exact isDigit_toDigits n c hdigit

@[simp] theorem ofDigitChars_leftpad (n k : ℕ) :
    Nat.ofDigitChars 10 ((Nat.toDigits 10 n).leftpad k '0') 0 = n := by
  rw [List.leftpad, Nat.ofDigitChars_append, Nat.ofDigitChars_replicate_zero, Nat.mul_zero,
    Nat.ofDigitChars_ten_toDigits]

/-! ## Reading digits -/

/-- Without a sign, the digits are read if their value has 63 bits. -/
theorem parseI64_unsigned (hminus : ∀ rest, digits ≠ '-' :: rest)
    (hplus : ∀ rest, digits ≠ '+' :: rest) {k : Int} :
    parseI64 (.ofList digits) = some k ↔ digits ≠ [] ∧ (∀ c ∈ digits, c.isDigit) ∧
      Nat.ofDigitChars 10 digits 0 ≤ i64Max ∧ k = Nat.ofDigitChars 10 digits 0 := by
  simp only [parseI64, String.toList_ofList]
  split
  next hinvalid =>
    refine ⟨by simp, ?_⟩
    rintro ⟨hne, hdigits, -⟩
    rcases hinvalid with hnil | hall
    · exact absurd hnil hne
    · exact absurd (List.all_eq_true.mpr hdigits) hall
  next hvalid =>
    rw [not_or, not_not, List.all_eq_true] at hvalid
    have hvalue := foldl_digits hvalid.2 0
    rw [Nat.cast_zero] at hvalue
    simp only [Bool.false_eq_true, if_false, hvalue]
    split
    next hrange =>
      rw [Option.some.injEq]
      exact ⟨fun hk => ⟨hvalid.1, hvalid.2, by omega, hk.symm⟩, fun hk => hk.2.2.2.symm⟩
    next hrange => exact ⟨by simp, fun hk => absurd hk.2.2.1 (by omega)⟩

theorem parseU128_digits (h : ∀ c ∈ digits, c.isDigit) (hne : digits ≠ []) :
    parseU128 (.ofList digits) =
      if Nat.ofDigitChars 10 digits 0 ≤ u128Max then some (Nat.ofDigitChars 10 digits 0)
      else none := by
  simp only [parseU128, String.toList_ofList]
  split
  next rest => exact absurd (h '+' List.mem_cons_self) (by decide)
  next =>
    rw [if_neg (by rw [not_or, not_not]; exact ⟨hne, List.all_eq_true.mpr h⟩)]
    rfl

end Digits

/-- **A number is read back if it has 128 bits.** -/
theorem parseU128_toString (n : ℕ) :
    parseU128 (toString n) = if n ≤ u128Max then some n else none := by
  have htext : toString n = .ofList (Nat.toDigits 10 n) := Nat.toString_eq_ofList_toDigits
  rw [htext, parseU128_digits (isDigit_toDigits n) Nat.toDigits_ne_nil,
    Nat.ofDigitChars_ten_toDigits]

/-! ## Hex texts without letters -/

theorem digitChar_ne_sign (n : ℕ) : Nat.digitChar n ≠ '-' ∧ Nat.digitChar n ≠ '+' :=
  ⟨Nat.digitChar_ne '-' (by decide), Nat.digitChar_ne '+' (by decide)⟩

/-- **Which byte strings have a hex text that is read as an integer**: their text is a number of 63
bits, padded with zeros. -/
theorem parseI64_hexEncode_iff {bytes : Bytes} (hne : bytes ≠ []) {k : Int} :
    parseI64 (hexEncode bytes) = some k ↔ ∃ n : ℕ, n ≤ i64Max ∧ k = n ∧
      (hexEncode bytes).toList = (Nat.toDigits 10 n).leftpad (2 * bytes.length) '0' := by
  generalize hdigits : (hexEncode bytes).toList = digits
  have htext : hexEncode bytes = .ofList digits := by rw [← hdigits, String.ofList_toList]
  have hlength : digits.length = 2 * bytes.length := by
    rw [← hdigits, hexEncode, String.toList_ofList, List.length_flatMap]
    simp [Nat.mul_comm]
  have hsign : (∀ rest, digits ≠ '-' :: rest) ∧ ∀ rest, digits ≠ '+' :: rest := by
    obtain ⟨b, bytes, rfl⟩ := List.exists_cons_of_ne_nil hne
    rw [hexEncode, String.toList_ofList, List.flatMap_cons] at hdigits
    obtain ⟨hminus, hplus⟩ := digitChar_ne_sign (b.toNat / 16)
    subst hdigits
    exact ⟨fun rest h => hminus (List.cons.inj h).1, fun rest h => hplus (List.cons.inj h).1⟩
  rw [htext, parseI64_unsigned hsign.1 hsign.2]
  constructor
  · rintro ⟨hnil, hall, hle, rfl⟩
    refine ⟨_, hle, rfl, ?_⟩
    rw [← hlength]
    exact eq_leftpad_of_isDigit hall hnil
  · rintro ⟨n, hle, rfl, hpad⟩
    have hvalue : Nat.ofDigitChars 10 digits 0 = n := by rw [hpad, ofDigitChars_leftpad]
    refine ⟨?_, ?_, ?_, ?_⟩
    · rintro rfl
      exact hne (List.length_eq_zero_iff.mp (by simpa using hlength.symm))
    · rw [hpad]
      exact isDigit_leftpad n _
    · rwa [hvalue]
    · rw [hvalue]

end ChainLens
