import ChainLens.Rpc.Deserialize
import Mathlib.Data.Nat.Digits.Defs

/-!
# The grammar of the hex quantities

A quantity is the prefix and hex digits, and its value has 64 bits. The routine that reads the
digits takes a plus sign before them as well.

## Main definitions

* `hexValue`: the value of hex digits
* `HexQuantity.Spells`: the texts of an integer
* `HexQuantity.SpellsSigned`: its texts with a sign

## Main results

* `HexQuantity.parse_spells_iff`: when a text is read exactly
-/

namespace ChainLens

/-- The value of hex digits, the most significant one first. -/
def hexValue (digits : List Char) : Option ℕ :=
  (digits.mapM hexDigit).map fun values => Nat.ofDigits 16 values.reverse

namespace HexQuantity

/-- The text is the prefix, and digits of this value. -/
def Spells (s : String) (n : ℕ) : Prop :=
  ∃ digits, s.toList = '0' :: 'x' :: digits ∧ hexValue digits = some n

/-- The text has a plus sign between the prefix and at least one digit. -/
def SpellsSigned (s : String) (n : ℕ) : Prop :=
  ∃ digits, s.toList = '0' :: 'x' :: '+' :: digits ∧ digits ≠ [] ∧ hexValue digits = some n

section Digits

variable {max value n : ℕ} {digits : List Char}

theorem ofDigits_reverse (values : List ℕ) :
    Nat.ofDigits 16 values.reverse = values.foldl (fun value digit => 16 * value + digit) 0 := by
  rw [Nat.ofDigits_eq_foldr, List.foldr_reverse]
  simp only [Nat.cast_id, add_comm]

theorem le_foldl (values : List ℕ) (value : ℕ) :
    value ≤ values.foldl (fun value digit => 16 * value + digit) value := by
  induction values generalizing value with
  | nil => exact Nat.le_refl _
  | cons digit values ih =>
    have := ih (16 * value + digit)
    rw [List.foldl_cons]
    omega

/-- Digits are read behind a value exactly if the value of all of them is not too large: what
comes later makes it no smaller. -/
theorem accumulate_eq_ok_iff (hvalue : value ≤ max) :
    accumulate max value digits = .ok n ↔
      ∃ values, digits.mapM hexDigit = some values ∧
        values.foldl (fun value digit => 16 * value + digit) value = n ∧ n ≤ max := by
  induction digits generalizing value with
  | nil =>
    simp only [accumulate, List.mapM_nil, Option.pure_def, Option.some.injEq, Except.ok.injEq]
    constructor
    · rintro rfl
      exact ⟨[], rfl, rfl, hvalue⟩
    · rintro ⟨_, rfl, hfold, -⟩
      exact hfold
  | cons c digits ih =>
    simp only [accumulate, List.mapM_cons]
    cases hexDigit c with
    | none => simp
    | some digit =>
      dsimp only
      split
      next hle =>
        rw [ih hle]
        cases digits.mapM hexDigit with
        | none => simp
        | some values => simp
      next hgt =>
        -- Further digits do not make a value smaller.
        refine ⟨by simp, ?_⟩
        rintro ⟨values, hvalues, hfold, hle⟩
        cases hrest : digits.mapM hexDigit with
        | none => simp [hrest] at hvalues
        | some rest =>
          obtain rfl : digit :: rest = values := by simpa [hrest] using hvalues
          have := le_foldl rest (16 * value + digit)
          rw [List.foldl_cons] at hfold
          omega

theorem accumulate_zero_iff :
    accumulate u64Max 0 digits = .ok n ↔ hexValue digits = some n ∧ n < 2 ^ 64 := by
  rw [accumulate_eq_ok_iff (Nat.zero_le _), hexValue, Option.map_eq_some_iff]
  simp only [ofDigits_reverse]
  have hbound : n ≤ u64Max ↔ n < 2 ^ 64 := by
    unfold u64Max
    omega
  rw [hbound]
  constructor
  · rintro ⟨values, hvalues, hfold, hlt⟩
    exact ⟨⟨values, hvalues, hfold⟩, hlt⟩
  · rintro ⟨⟨values, hvalues, hfold⟩, hlt⟩
    exact ⟨values, hvalues, hfold, hlt⟩

theorem hexValue_plus (digits : List Char) : hexValue ('+' :: digits) = none := by
  simp [hexValue, show hexDigit '+' = none by decide]

/-- What the routine reads: digits, with or without a sign. -/
theorem fromStrRadix16_eq_ok_iff :
    fromStrRadix16 u64Max digits = .ok n ↔
      n < 2 ^ 64 ∧ (digits ≠ [] ∧ hexValue digits = some n ∨
        ∃ rest, digits = '+' :: rest ∧ rest ≠ [] ∧ hexValue rest = some n) := by
  unfold fromStrRadix16
  split
  next => simp
  next => simp [hexValue_plus]
  next rest hne =>
    -- A sign is dropped before digits, but not alone.
    have hrest : rest ≠ [] := hne
    simp [accumulate_zero_iff, hexValue_plus, hrest, and_comm]
  next hnil _ hplus =>
    rw [accumulate_zero_iff]
    constructor
    · rintro ⟨hvalue, hlt⟩
      exact ⟨hlt, .inl ⟨hnil, hvalue⟩⟩
    · rintro ⟨hlt, ⟨-, hvalue⟩ | ⟨rest, hrest, -⟩⟩
      · exact ⟨hvalue, hlt⟩
      · exact absurd hrest (hplus rest)

end Digits

/-! ## Texts -/

section Texts

variable {s : String} {n : ℕ}

/-- A sign is no digit. -/
theorem SpellsSigned.not_spells {k : ℕ} (hsigned : SpellsSigned s k) : ¬ Spells s n := by
  rintro ⟨digits, hs, hvalue⟩
  obtain ⟨rest, hsign, -, -⟩ := hsigned
  obtain rfl : '+' :: rest = digits := by simpa using hsign.symm.trans hs
  rw [hexValue_plus] at hvalue
  cases hvalue

/-- What is read: the texts of the integers of 64 bits, without or with a sign. -/
theorem parse_eq_ok_iff : parse s = .ok n ↔ n < 2 ^ 64 ∧ (Spells s n ∨ SpellsSigned s n) := by
  unfold parse Spells SpellsSigned
  split
  next hs =>
    -- The prefix alone is read as zero.
    rw [hs]
    constructor
    · intro h
      cases h
      exact ⟨by omega, .inl ⟨[], rfl, rfl⟩⟩
    · rintro ⟨-, ⟨digits, hdigits, hvalue⟩ | ⟨digits, hdigits, -⟩⟩
      · obtain rfl : [] = digits := by simpa using hdigits
        obtain rfl : 0 = n := Option.some.inj hvalue
        rfl
      · simp at hdigits
  next digits hne hs =>
    -- Only the message of an error is changed.
    have hmap : ((fromStrRadix16 u64Max digits).mapError fun e =>
        "invalid hex quantity " ++ s ++ ": " ++ e) = .ok n ↔
          fromStrRadix16 u64Max digits = .ok n := by
      cases fromStrRadix16 u64Max digits <;> simp [Except.mapError]
    rw [hmap, fromStrRadix16_eq_ok_iff, hs]
    have hdigits : digits ≠ [] := hne
    simp [hdigits]
  next hother =>
    refine ⟨nofun, ?_⟩
    rintro ⟨-, ⟨digits, hdigits, -⟩ | ⟨digits, hdigits, -⟩⟩
    · exact absurd hdigits (hother _)
    · exact absurd hdigits (hother _)

end Texts

/-- **When a text is read exactly**: it has no sign before digits of 64 bits. The texts that
requests send are read back. -/
theorem parse_spells_iff (s : String) :
    ((∀ n, parse s = .ok n ↔ Spells s n ∧ n < 2 ^ 64) ↔
      ¬ ∃ n, n < 2 ^ 64 ∧ SpellsSigned s n) ∧
    ∀ n, n < 2 ^ 64 → parse (quantityText n) = .ok n := by
  constructor
  · constructor
    · rintro hexact ⟨n, hlt, hsigned⟩
      have hread := (hexact n).mp (parse_eq_ok_iff.mpr ⟨hlt, .inr hsigned⟩)
      exact hsigned.not_spells hread.1
    · intro hnone n
      rw [parse_eq_ok_iff]
      constructor
      · rintro ⟨hlt, hspells | hsigned⟩
        · exact ⟨hspells, hlt⟩
        · exact absurd ⟨n, hlt, hsigned⟩ hnone
      · rintro ⟨hspells, hlt⟩
        exact ⟨hlt, .inl hspells⟩
  · intro n hlt
    have hle : n ≤ u64Max := by
      unfold u64Max
      omega
    have hread := parse_quantityText_toOption n
    rw [if_pos hle] at hread
    cases hparse : parse (quantityText n) with
    | error e => simp [hparse, Except.toOption] at hread
    | ok m =>
      rw [hparse] at hread
      rw [Option.some.inj hread]

/-- A sign is read like nothing. -/
theorem parse_plus : parse "0x+1" = .ok 1 ∧ ∀ n, ¬ Spells "0x+1" n := by
  refine ⟨by decide +kernel, fun n => ?_⟩
  have hsigned : SpellsSigned "0x+1" 1 := ⟨['1'], by decide +kernel, by simp, by decide⟩
  exact hsigned.not_spells

end HexQuantity

end ChainLens
