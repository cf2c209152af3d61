import Mathlib.Data.List.TakeWhile
import Mathlib.Data.Nat.Notation

/-!
# Strings of bytes

C strings, and what GLib does with them: stripping blanks, and escaping and unescaping
what is not printable. A string is the list of its bytes without the terminator; a
`NUL` that an operation puts in the middle ends the string there (`cstring`).

`gStrcompress` is the inverse of `gStrescape` on every string (`gStrcompress_gStrescape`):
an octal escape always has its three digits, so a digit behind it is not taken for one
of its own.
-/

namespace Tlm

/-- The bytes of an ASCII text. -/
def asciiBytes (s : String) : List UInt8 := s.toList.map fun c => UInt8.ofNat c.toNat

/-- A C string: the bytes before the first `NUL`. -/
def cstring (s : List UInt8) : List UInt8 := s.takeWhile fun c => c ≠ 0

theorem mem_cstring_ne {s : List UInt8} {c : UInt8} (h : c ∈ cstring s) : c ≠ 0 := by
  have := List.mem_takeWhile_imp h
  simpa using this

theorem cstring_of_not_mem {s : List UInt8} (h : (0 : UInt8) ∉ s) : cstring s = s := by
  rw [cstring, List.takeWhile_eq_self_iff]
  intro c hc
  have : c ≠ 0 := fun h0 => h (h0 ▸ hc)
  simpa using this

/-! ## Blanks -/

/-- `g_ascii_isspace`; the vertical tab is none. -/
def gAsciiIsspace (c : UInt8) : Bool := c = 9 || c = 10 || c = 12 || c = 13 || c = 32

/-- `g_strstrip`. -/
def gStrstrip (s : List UInt8) : List UInt8 :=
  ((s.dropWhile gAsciiIsspace).reverse.dropWhile gAsciiIsspace).reverse

/-- Nothing is left of blanks, and of nothing else. -/
theorem gStrstrip_eq_nil_iff {s : List UInt8} :
    gStrstrip s = [] ↔ ∀ c ∈ s, gAsciiIsspace c = true := by
  rw [gStrstrip, List.reverse_eq_nil_iff, List.dropWhile_eq_nil_iff]
  simp only [List.mem_reverse]
  constructor
  · intro h c hc
    rw [← List.takeWhile_append_dropWhile (p := gAsciiIsspace) (l := s)] at hc
    rcases List.mem_append.mp hc with hc | hc
    · exact List.mem_takeWhile_imp hc
    · exact h c hc
  · exact fun h c hc => h c ((List.dropWhile_sublist _).subset hc)

/-- A string that neither starts nor ends with a blank stays. -/
theorem gStrstrip_of_ends {a b : UInt8} {s : List UInt8} (ha : gAsciiIsspace a = false)
    (hb : gAsciiIsspace b = false) : gStrstrip (a :: (s ++ [b])) = a :: (s ++ [b]) := by
  rw [gStrstrip, List.dropWhile_cons_of_neg (by simp [ha]), List.reverse_cons, List.reverse_append]
  simp [hb]

/-! ## Escapes -/

/-- The backslash. -/
def backslash : UInt8 := 92

/-- The letter `g_strescape` writes for a control character. -/
def escapeLetter (c : UInt8) : Option UInt8 :=
  if c = 8 then some 98 else if c = 12 then some 102 else if c = 10 then some 110
  else if c = 13 then some 114 else if c = 9 then some 116 else if c = 11 then some 118
  else none

/-- What `g_strescape` writes for a byte. -/
def escapeByte (c : UInt8) : List UInt8 :=
  match escapeLetter c with
  | some letter => [backslash, letter]
  | none =>
    if c = backslash ∨ c = 34 then [backslash, c]
    else if c < 32 ∨ 127 ≤ c then
      [backslash, .ofNat (48 + c.toNat / 64), .ofNat (48 + c.toNat / 8 % 8), .ofNat (48 + c.toNat % 8)]
    else [c]

/-- `g_strescape (s, NULL)`. -/
def gStrescape (s : List UInt8) : List UInt8 := s.flatMap escapeByte

/-- An octal digit. -/
def isOctal (c : UInt8) : Bool := 48 ≤ c && c ≤ 55

/-- The byte some octal digits denote, cut to eight bits. -/
def octalValue (digits : List UInt8) : UInt8 :=
  .ofNat (digits.foldl (fun n d => 8 * n + (d.toNat - 48)) 0)

/-- What a character behind a backslash stands for, digits apart. -/
def unescapeLetter (c : UInt8) : UInt8 :=
  if c = 98 then 8 else if c = 102 then 12 else if c = 110 then 10 else if c = 114 then 13
  else if c = 116 then 9 else if c = 118 then 11 else c

/-- `g_strcompress`. A backslash at the end is dropped. -/
def gStrcompress : List UInt8 → List UInt8
  | [] => []
  | c :: rest =>
    if c = backslash then
      match rest with
      | [] => []
      | d :: rest' =>
        let digits := ((d :: rest').take 3).takeWhile isOctal
        if isOctal d then octalValue digits :: gStrcompress ((d :: rest').drop digits.length)
        else unescapeLetter d :: gStrcompress rest'
    else c :: gStrcompress rest
termination_by s => s.length

theorem gStrcompress_cons_of_ne {c : UInt8} {s : List UInt8} (h : c ≠ backslash) :
    gStrcompress (c :: s) = c :: gStrcompress s := by
  rw [gStrcompress.eq_def]
  simp [h]

theorem gStrcompress_letter {d : UInt8} {s : List UInt8} (h : isOctal d = false) :
    gStrcompress (backslash :: d :: s) = unescapeLetter d :: gStrcompress s := by
  rw [gStrcompress.eq_def]
  simp [h]

theorem gStrcompress_octal {d e f : UInt8} {s : List UInt8} (hd : isOctal d = true)
    (he : isOctal e = true) (hf : isOctal f = true) :
    gStrcompress (backslash :: d :: e :: f :: s) = octalValue [d, e, f] :: gStrcompress s := by
  rw [gStrcompress.eq_def]
  simp [hd, he, hf]

theorem escapeLetter_spec {c letter : UInt8} (h : escapeLetter c = some letter) :
    isOctal letter = false ∧ unescapeLetter letter = c ∧
      98 ≤ letter.toNat ∧ letter.toNat ≤ 118 := by
  unfold escapeLetter at h
  repeat
    split at h
    · subst c
      obtain rfl := Option.some.inj h
      decide
  exact absurd h (by simp)

theorem isOctal_ofNat {n : ℕ} (h : n < 8) : isOctal (.ofNat (48 + n)) = true := by
  simp [isOctal, UInt8.le_iff_toNat_le]
  omega

theorem octalValue_digits (c : UInt8) :
    octalValue [.ofNat (48 + c.toNat / 64), .ofNat (48 + c.toNat / 8 % 8), .ofNat (48 + c.toNat % 8)] =
      c := by
  have hc := c.toNat_lt
  apply UInt8.toNat.inj
  simp [octalValue]
  omega

/-- Unescaping takes back one byte's escape, whatever comes behind it. -/
theorem gStrcompress_escapeByte (c : UInt8) (s : List UInt8) :
    gStrcompress (escapeByte c ++ s) = c :: gStrcompress s := by
  unfold escapeByte
  cases hletter : escapeLetter c with
  | some letter =>
    obtain ⟨hoctal, hback, -⟩ := escapeLetter_spec hletter
    have hback' : gStrcompress (backslash :: letter :: s) = c :: gStrcompress s := by
      rw [gStrcompress_letter hoctal, hback]
    exact hback'
  | none =>
    dsimp only
    split
    next hspecial =>
      obtain rfl | rfl := hspecial
      · exact gStrcompress_letter (by decide)
      · exact gStrcompress_letter (by decide)
    next hspecial =>
      split
      next =>
        have hc := c.toNat_lt
        rw [List.cons_append, List.cons_append, List.cons_append, List.cons_append, List.nil_append,
          gStrcompress_octal (isOctal_ofNat (by omega)) (isOctal_ofNat (by omega))
            (isOctal_ofNat (by omega)), octalValue_digits]
      next => exact gStrcompress_cons_of_ne (fun h => hspecial (.inl h))

/-- **Escapes come back.** -/
theorem gStrcompress_gStrescape (s : List UInt8) : gStrcompress (gStrescape s) = s := by
  induction s with
  | nil => simp [gStrescape, gStrcompress]
  | cons c s ih =>
    have hcons : gStrescape (c :: s) = escapeByte c ++ gStrescape s := rfl
    rw [hcons, gStrcompress_escapeByte, ih]

theorem backslash_escaped {c x : UInt8} (h : x = backslash) :
    (32 ≤ x.toNat ∧ x.toNat < 127) ∧ (x = 34 ∨ x = 39 → x = c) := by
  subst h
  exact ⟨by decide, fun hquote => absurd hquote (by decide)⟩

/-- Digits and letters lie outside the quotes. -/
theorem alphanumeric_escaped {c x : UInt8} (hlo : 48 ≤ x.toNat) (hhi : x.toNat < 127) :
    (32 ≤ x.toNat ∧ x.toNat < 127) ∧ (x = 34 ∨ x = 39 → x = c) := by
  refine ⟨⟨by omega, hhi⟩, ?_⟩
  rintro (rfl | rfl)
  · exact absurd hlo (by decide)
  · exact absurd hlo (by decide)

/-- What a byte is escaped to is printable, and has a quote only if the byte is one. -/
theorem mem_escapeByte {c x : UInt8} (h : x ∈ escapeByte c) :
    (32 ≤ x.toNat ∧ x.toNat < 127) ∧ (x = 34 ∨ x = 39 → x = c) := by
  unfold escapeByte at h
  cases hletter : escapeLetter c with
  | some letter =>
    obtain ⟨-, -, hlo, hhi⟩ := escapeLetter_spec hletter
    simp only [hletter, List.mem_cons, List.not_mem_nil, or_false] at h
    obtain rfl | rfl := h
    · exact backslash_escaped rfl
    · exact alphanumeric_escaped (by omega) (by omega)
  | none =>
    simp only [hletter] at h
    split at h
    next hspecial =>
      -- the only way a quote gets in: its own, behind a backslash
      simp only [List.mem_cons, List.not_mem_nil, or_false] at h
      obtain rfl | rfl := h
      · exact backslash_escaped rfl
      · obtain rfl | rfl := hspecial
        · exact backslash_escaped rfl
        · exact ⟨by decide, fun _ => rfl⟩
    next =>
      split at h
      next =>
        have hc := c.toNat_lt
        simp only [List.mem_cons, List.not_mem_nil, or_false] at h
        obtain rfl | rfl | rfl | rfl := h
        · exact backslash_escaped rfl
        -- three octal digits
        all_goals
          apply alphanumeric_escaped
          · simp
            omega
          · simp
            omega
      next hprintable =>
        obtain rfl := List.mem_singleton.mp h
        simp only [UInt8.lt_iff_toNat_lt, UInt8.le_iff_toNat_le, not_or, Nat.not_lt,
          Nat.not_le] at hprintable
        exact ⟨hprintable, fun _ => rfl⟩

/-- What a string is escaped to is printable, and has a quote only if the string has it. -/
theorem mem_gStrescape {s : List UInt8} {x : UInt8} (h : x ∈ gStrescape s) :
    (32 ≤ x.toNat ∧ x.toNat < 127) ∧ (x = 34 ∨ x = 39 → x ∈ s) := by
  obtain ⟨c, hc, hx⟩ := List.mem_flatMap.mp h
  obtain ⟨hrange, hquote⟩ := mem_escapeByte hx
  refine ⟨hrange, fun hq => ?_⟩
  rw [hquote hq]
  exact hc

end Tlm
