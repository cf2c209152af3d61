import Mathlib.Data.Int.Init
import Mathlib.Data.Nat.Notation
import Mathlib.Data.List.TakeWhile
import Tlm.Config

/-!
# Reading numbers back (`tlm-config.c`)

The store keeps text. `tlm_config_get_int` and `tlm_config_get_uint` promise the
same thing in the same words, the number if the text can be converted and the
caller's `retval` otherwise, and use two conversions that fail in different ways:

* `atoi` cannot fail. Text without a numeral is `0`, and a numeral outside the
  range of `gint` is cut down to 32 bits.
* `sscanf` with `%u` does report a missing numeral, but takes a minus sign and cuts
  down as `atoi` does. The test for a leading `-` in front of it is about the
  **first character** of the text, so blanks hide the sign from it, and `-0` is
  turned away although it denotes a number in range.

The law the two are measured against is `converted`; the exact texts on which each
keeps it are `getInt_iff` and `getUInt_iff`. The same conversions read back what the
setters print (`scanInt_repr`, `scanUInt_repr`).
-/

namespace Tlm

/-! ## Numerals -/

/-- The integer a scanned numeral denotes. -/
def denoted (numeral : Bool × ℕ) : ℤ :=
  if numeral.1 then -(numeral.2 : ℤ) else numeral.2

/-- **The law.** The number a text denotes if it has a leading numeral and the
number lies in `[lo, hi]`; the caller's value otherwise. -/
def converted (lo hi : ℤ) (s : String) (retval : ℤ) : ℤ :=
  match (scanNumeral s.toList).map denoted with
  | none => retval
  | some v => if lo ≤ v ∧ v ≤ hi then v else retval

theorem isSpace_eq_false_of_isDigit {c : Char} (h : c.isDigit) : isSpace c = false := by
  simp only [Char.isDigit, Bool.and_eq_true, decide_eq_true_eq] at h
  simp only [isSpace, Bool.or_eq_false_iff, decide_eq_false_iff_not]
  refine ⟨⟨⟨⟨⟨?_, ?_⟩, ?_⟩, ?_⟩, ?_⟩, ?_⟩ <;> rintro rfl <;> revert h <;> decide

theorem ne_sign_of_isDigit {c : Char} (h : c.isDigit) : c ≠ '-' ∧ c ≠ '+' := by
  constructor <;> rintro rfl <;> revert h <;> decide

/-- Digits alone are a numeral without sign. -/
theorem scanNumeral_digits {ds : List Char} (hne : ds ≠ []) (hds : ∀ c ∈ ds, c.isDigit) :
    scanNumeral ds = some (false, digitsValue ds) := by
  obtain ⟨c, cs, rfl⟩ := List.exists_cons_of_ne_nil hne
  have hc : c.isDigit := hds c (by simp)
  obtain ⟨hminus, hplus⟩ := ne_sign_of_isDigit hc
  have htake : (c :: cs).takeWhile Char.isDigit = c :: cs := List.takeWhile_eq_self_iff.mpr hds
  simp [scanNumeral, isSpace_eq_false_of_isDigit hc, hminus, hplus, htake]

/-- Digits behind a minus are a numeral with the sign. -/
theorem scanNumeral_minus_digits {ds : List Char} (hne : ds ≠ []) (hds : ∀ c ∈ ds, c.isDigit) :
    scanNumeral ('-' :: ds) = some (true, digitsValue ds) := by
  obtain ⟨c, cs, rfl⟩ := List.exists_cons_of_ne_nil hne
  have htake : (c :: cs).takeWhile Char.isDigit = c :: cs := List.takeWhile_eq_self_iff.mpr hds
  have hminus : isSpace '-' = false := by decide
  simp [scanNumeral, hminus, htake]

theorem digitsValue_toDigits (n : ℕ) : digitsValue (Nat.toDigits 10 n) = n := by
  have h := Nat.ofDigitChars_ten_toDigits (n := n)
  rw [Nat.ofDigitChars_eq_foldl] at h
  exact h

theorem isDigit_of_mem_decimal (n : ℕ) : ∀ c ∈ Nat.toDigits 10 n, c.isDigit := by
  intro c hc
  exact Nat.isDigit_of_mem_toDigits (by decide) (by decide) hc

/-- What `%u` prints is read back as a numeral without sign. -/
theorem scanNumeral_natRepr (n : ℕ) : scanNumeral n.repr.toList = some (false, n) := by
  rw [Nat.toList_repr, scanNumeral_digits Nat.toDigits_ne_nil (isDigit_of_mem_decimal n),
    digitsValue_toDigits]

/-- What `%d` prints is read back as a numeral that denotes the number. -/
theorem scanNumeral_intRepr (v : ℤ) : ∃ p, scanNumeral v.repr.toList = some p ∧ denoted p = v := by
  by_cases hv : 0 ≤ v
  · refine ⟨(false, v.toNat), ?_, ?_⟩
    · rw [Int.repr_eq_if, if_pos hv, scanNumeral_natRepr]
    · exact Int.toNat_of_nonneg hv
  · refine ⟨(true, (-v).toNat), ?_, ?_⟩
    · have h := scanNumeral_minus_digits Nat.toDigits_ne_nil (isDigit_of_mem_decimal (-v).toNat)
      rw [digitsValue_toDigits] at h
      rw [Int.repr_eq_if, if_neg hv, String.toList_append, Nat.toList_repr]
      exact h
    · simp only [denoted, if_true]
      omega

/-- A printed number starts with a digit, or with a minus. -/
theorem head_natRepr (n : ℕ) : ∃ c cs, n.repr.toList = c :: cs ∧ c.isDigit := by
  obtain ⟨c, cs, h⟩ := List.exists_cons_of_ne_nil (Nat.toDigits_ne_nil (n := n) (b := 10))
  refine ⟨c, cs, Nat.toList_repr.trans h, isDigit_of_mem_decimal n c ?_⟩
  rw [h]
  exact List.mem_cons_self

theorem head_intRepr (v : ℤ) : ∃ c cs, v.repr.toList = c :: cs ∧ (c = '-' ∨ c.isDigit) := by
  rw [Int.repr_eq_if]
  split
  · obtain ⟨c, cs, h, hc⟩ := head_natRepr v.toNat
    exact ⟨c, cs, h, .inr hc⟩
  · exact ⟨'-', (-v).toNat.repr.toList, by rw [String.toList_append]; rfl, .inl rfl⟩

/-! ## The conversions on a numeral -/

/-- A `gint` survives being cut down to a `long` and stored into an `int`. -/
theorem bmod_saturated {neg : Bool} {n : ℕ} (hlo : -2 ^ 31 ≤ denoted (neg, n))
    (hhi : denoted (neg, n) ≤ 2 ^ 31 - 1) :
    Int.bmod (if neg then max (-(n : ℤ)) (-2 ^ 63) else min (n : ℤ) (2 ^ 63 - 1)) (2 ^ 32) =
      denoted (neg, n) := by
  cases neg with
  | false =>
    simp only [denoted, Bool.false_eq_true, if_false] at hlo hhi ⊢
    rw [Int.min_eq_left (by omega), Int.bmod_eq_of_le (by omega) (by omega)]
  | true =>
    simp only [denoted, if_true] at hlo hhi ⊢
    rw [Int.max_eq_left (by omega), Int.bmod_eq_of_le (by omega) (by omega)]

/-- A numeral in the range of `gint` is read as the number it denotes. -/
theorem scanInt_of_mem {s : String} {p : Bool × ℕ} (h : scanNumeral s.toList = some p)
    (hlo : -2 ^ 31 ≤ denoted p) (hhi : denoted p ≤ 2 ^ 31 - 1) : scanInt s = some (denoted p) := by
  obtain ⟨neg, n⟩ := p
  simp only [scanInt, h, Option.map_some]
  exact congrArg some (bmod_saturated hlo hhi)

theorem scanInt_repr {v : ℤ} (hlo : -2 ^ 31 ≤ v) (hhi : v ≤ 2 ^ 31 - 1) :
    scanInt v.repr = some v := by
  obtain ⟨p, hp, rfl⟩ := scanNumeral_intRepr v
  exact scanInt_of_mem hp hlo hhi

/-- A numeral without sign in the range of `guint` is read as its digits' value. -/
theorem scanUInt_of_lt {s : String} {n : ℕ} (h : scanNumeral s.toList = some (false, n))
    (hn : n < 2 ^ 32) : scanUInt s = some n := by
  have hfits : ¬ 2 ^ 64 ≤ n := by omega
  simp only [scanUInt, h, Option.map_some, strtoul, if_neg hfits, Bool.false_eq_true, if_false]
  rw [Nat.mod_eq_of_lt hn]

theorem scanUInt_repr {n : ℕ} (hn : n < 2 ^ 32) : scanUInt n.repr = some n :=
  scanUInt_of_lt (scanNumeral_natRepr n) hn

/-! ## The two getters against the law -/

namespace Config

/-- `tlm_config_get_int` keeps the law on the stored text, whatever the caller passes. -/
def IntConverted (cfg : Config) (group : Option String) (key s : String) : Prop :=
  ∀ retval : Int32,
    cfg.getInt group key retval.toInt = converted (-2 ^ 31) (2 ^ 31 - 1) s retval.toInt

/-- `tlm_config_get_uint` keeps the law on the stored text, whatever the caller passes. -/
def UIntConverted (cfg : Config) (group : Option String) (key s : String) : Prop :=
  ∀ retval : UInt32,
    (cfg.getUInt group key retval.toNat : ℤ) = converted 0 (2 ^ 32 - 1) s retval.toNat

variable {cfg : Config} {group : Option String} {key s : String}

theorem converted_of_mem {lo hi retval : ℤ} {p : Bool × ℕ} (hp : scanNumeral s.toList = some p)
    (hlo : lo ≤ denoted p) (hhi : denoted p ≤ hi) : converted lo hi s retval = denoted p := by
  simp [converted, hp, hlo, hhi]

theorem converted_of_not_mem {lo hi retval : ℤ}
    (h : ∀ p, scanNumeral s.toList = some p → ¬(lo ≤ denoted p ∧ denoted p ≤ hi)) :
    converted lo hi s retval = retval := by
  unfold converted
  cases hp : scanNumeral s.toList with
  | none => rfl
  | some p => exact if_neg (h p hp)

/-- `atoi` never gives way to the caller's value. -/
theorem not_intConverted_of_not_mem (h : cfg.getString group key = some s)
    (hs : ∀ p, scanNumeral s.toList = some p →
      ¬(-2 ^ 31 ≤ denoted p ∧ denoted p ≤ 2 ^ 31 - 1)) :
    ¬cfg.IntConverted group key s := by
  intro hlaw
  have h0 := hlaw 0
  have h1 := hlaw 1
  rw [converted_of_not_mem hs] at h0 h1
  simp only [getInt, h] at h0 h1
  rw [h0] at h1
  exact absurd h1 (by decide)

theorem getInt_iff (h : cfg.getString group key = some s) :
    cfg.IntConverted group key s ↔
      ∃ p, scanNumeral s.toList = some p ∧ -2 ^ 31 ≤ denoted p ∧ denoted p ≤ 2 ^ 31 - 1 := by
  constructor
  · intro hlaw
    by_contra hnot
    apply not_intConverted_of_not_mem h _ hlaw
    intro p hp hmem
    exact hnot ⟨p, hp, hmem⟩
  · rintro ⟨p, hp, hlo, hhi⟩ retval
    rw [converted_of_mem hp hlo hhi]
    simp [getInt, h, scanInt_of_mem hp hlo hhi]

/-- A minus in front of everything is the numeral's sign. -/
theorem sign_of_head_minus {p : Bool × ℕ} (hhead : s.toList.head? = some '-')
    (hp : scanNumeral s.toList = some p) : p.1 = true := by
  obtain ⟨t, ht⟩ := List.head?_eq_some_iff.mp hhead
  have hminus : isSpace '-' = false := by decide
  rw [ht] at hp
  simp only [scanNumeral, List.dropWhile_cons, hminus, Bool.false_eq_true, if_false] at hp
  cases hd : t.takeWhile Char.isDigit with
  | nil => simp [hd] at hp
  | cons d ds =>
    simp only [hd, Option.some.injEq] at hp
    rw [← hp]

/-- Past the test for the minus, a numeral's value does not depend on the caller's. -/
theorem getUInt_of_head_ne {p : Bool × ℕ} (h : cfg.getString group key = some s)
    (hhead : s.toList.head? ≠ some '-') (hp : scanNumeral s.toList = some p) :
    ∃ w, scanUInt s = some w ∧ ∀ retval, cfg.getUInt group key retval = w := by
  obtain ⟨w, hw⟩ : ∃ w, scanUInt s = some w := by simp [scanUInt, hp]
  exact ⟨w, hw, fun retval => by simp [getUInt, h, hhead, hw]⟩

/-- A number out of range that gets past the test comes back as something else. -/
theorem not_uintConverted_of_not_mem {p : Bool × ℕ} (h : cfg.getString group key = some s)
    (hhead : s.toList.head? ≠ some '-') (hp : scanNumeral s.toList = some p)
    (hout : ¬(0 ≤ denoted p ∧ denoted p ≤ 2 ^ 32 - 1)) : ¬cfg.UIntConverted group key s := by
  intro hlaw
  obtain ⟨w, -, hconst⟩ := getUInt_of_head_ne h hhead hp
  have hret : ∀ retval : UInt32, (w : ℤ) = retval.toNat := by
    intro retval
    have := hlaw retval
    rwa [hconst, converted_of_not_mem (by simpa [hp] using hout)] at this
  have h01 := (hret 0).symm.trans (hret 1)
  exact absurd h01 (by decide)

theorem uintConverted_of_head {p : Bool × ℕ} (h : cfg.getString group key = some s)
    (hhead : s.toList.head? = some '-') (hp : scanNumeral s.toList = some p) :
    cfg.UIntConverted group key s ↔ p.2 ≠ 0 := by
  have hcode : ∀ retval, cfg.getUInt group key retval = retval := by
    intro retval
    simp [getUInt, h, hhead]
  have hsign := sign_of_head_minus hhead hp
  have hden : denoted p = -(p.2 : ℤ) := by simp [denoted, hsign]
  constructor
  · intro hlaw hzero
    have := hlaw 1
    rw [hcode, converted_of_mem hp (by omega) (by omega)] at this
    rw [hden, hzero] at this
    exact absurd this (by decide)
  · intro hne retval
    rw [hcode, converted_of_not_mem]
    rw [hp]
    rintro _ ⟨⟩
    omega

theorem uintConverted_of_head_ne {p : Bool × ℕ} (h : cfg.getString group key = some s)
    (hhead : s.toList.head? ≠ some '-') (hp : scanNumeral s.toList = some p) :
    cfg.UIntConverted group key s ↔ 0 ≤ denoted p ∧ denoted p ≤ 2 ^ 32 - 1 := by
  constructor
  · intro hlaw
    by_contra hout
    exact not_uintConverted_of_not_mem h hhead hp hout hlaw
  · rintro ⟨hlo, hhi⟩ retval
    obtain ⟨w, hw, hconst⟩ := getUInt_of_head_ne h hhead hp
    rw [hconst, converted_of_mem hp hlo hhi]
    obtain ⟨neg, n⟩ := p
    cases neg with
    | false =>
      simp only [denoted, Bool.false_eq_true, if_false] at hhi ⊢
      rw [scanUInt_of_lt hp (by omega)] at hw
      rw [← Option.some.inj hw]
    | true =>
      -- in range and negated: the number is zero, and so is its negation modulo `2 ^ 64`
      simp only [denoted, if_true] at hlo ⊢
      obtain rfl : n = 0 := by omega
      simp only [scanUInt, hp, Option.map_some] at hw
      rw [← Option.some.inj hw]
      decide

theorem uintConverted_of_none (h : cfg.getString group key = some s)
    (hp : scanNumeral s.toList = none) : cfg.UIntConverted group key s := by
  intro retval
  rw [converted_of_not_mem (by simp [hp])]
  simp [getUInt, h, scanUInt, hp]

theorem getUInt_iff (h : cfg.getString group key = some s) :
    cfg.UIntConverted group key s ↔
      ∀ p, scanNumeral s.toList = some p →
        if s.toList.head? = some '-' then p.2 ≠ 0
        else 0 ≤ denoted p ∧ denoted p ≤ 2 ^ 32 - 1 := by
  cases hp : scanNumeral s.toList with
  | none => simp [uintConverted_of_none h hp]
  | some p =>
    by_cases hhead : s.toList.head? = some '-'
    · simp [uintConverted_of_head h hhead hp, hhead]
    · simp [uintConverted_of_head_ne h hhead hp, hhead]

/-- **Where the getters fall back as promised.** For the stored text: `get_int` exactly
when there is a numeral and it is in range, since it never falls back at all;
`get_uint` unless the numeral is out of range behind something other than a leading
minus, or is a zero with a leading minus. -/
theorem conversions_iff (h : cfg.getString group key = some s) :
    (cfg.IntConverted group key s ↔
      ∃ p, scanNumeral s.toList = some p ∧ -2 ^ 31 ≤ denoted p ∧ denoted p ≤ 2 ^ 31 - 1) ∧
    (cfg.UIntConverted group key s ↔
      ∀ p, scanNumeral s.toList = some p →
        if s.toList.head? = some '-' then p.2 ≠ 0
        else 0 ≤ denoted p ∧ denoted p ≤ 2 ^ 32 - 1) :=
  ⟨getInt_iff h, getUInt_iff h⟩

/-- On `42` both keep the law. -/
theorem conversions_forty_two :
    (ofGeneral fun _ => some "42").IntConverted (some general) "NSEATS" "42" ∧
      (ofGeneral fun _ => some "42").UIntConverted (some general) "NSEATS" "42" := by
  have hs : (ofGeneral fun _ => some "42").getString (some general) "NSEATS" = some "42" := by
    decide
  have hp : scanNumeral "42".toList = some (false, 42) := by decide
  obtain ⟨hint, huint⟩ := conversions_iff hs
  refine ⟨hint.mpr ⟨(false, 42), hp, by decide, by decide⟩, huint.mpr ?_⟩
  rw [hp]
  rintro _ ⟨⟩
  decide

/-- A text without numeral comes back as `0` instead of the caller's `7`, and a
negative number behind a blank as a large positive one instead of the caller's `0`. -/
theorem getters_do_not_fall_back :
    (ofGeneral fun _ => some "none").getInt (some general) "NSEATS" 7 = 0 ∧
      converted (-2 ^ 31) (2 ^ 31 - 1) "none" 7 = 7 ∧
      (ofGeneral fun _ => some " -5").getUInt (some general) "NWATCH" 0 = 4294967291 ∧
      converted 0 (2 ^ 32 - 1) " -5" 0 = 0 := by
  decide

end Config

end Tlm
