/-
# Formatted output and number scanning

The conversions of the C library the programs use, with floating-point values
idealised as exact rationals: `%0wd` and `%0w.pf` on the printing side, `atoi`
and `atof` on the reading side. Printing rounds to nearest, ties to even, on the
exact value; the sign is written before the zero padding. Reading follows
`strtol` and `strtod`: leading blanks, an optional sign, the longest number, and
whatever follows is ignored. `strtod` also reads the words INF, INFINITY and NAN, and
`atof` is its value in the rationals, where these words, like any text without a number,
read as 0.

The round trip `atof_formatFixed` is what the producers and consumers of a text
share: reading a printed number gives the number rounded to the printed places.
-/

import Mathlib.Data.Rat.Floor
import Mathlib.Tactic.FieldSimp
import Mathlib.Tactic.Positivity
import Embsys.Math.Digits
import Embsys.Math.Rounding
import Embsys.C.Memory

namespace Embsys.C

open Embsys.Math

/-- Conversion of a floating-point value to an integer: truncation towards zero. -/
def truncate (x : ℚ) : ℤ :=
  x.num.tdiv x.den

/-- Truncation is the floor above zero and the ceiling below. -/
theorem truncate_eq (x : ℚ) : truncate x = if 0 ≤ x then ⌊x⌋ else ⌈x⌉ := by
  unfold truncate
  split_ifs with hx
  · rw [Rat.floor_def', Int.tdiv_eq_ediv_of_nonneg (Rat.num_nonneg.mpr hx)]
  · have hneg : 0 ≤ -x.num := by
      rw [← Rat.num_neg_eq_neg_num]
      exact Rat.num_nonneg.mpr (by linarith)
    rw [Rat.ceil_def', ← Int.tdiv_eq_ediv_of_nonneg hneg, Int.neg_tdiv, neg_neg]

/-- Truncation erases the sign of the numbers just below zero, and of these only. -/
theorem truncate_neg_iff (x : ℚ) : truncate x < 0 ↔ x ≤ -1 := by
  rw [truncate_eq]
  split_ifs with hx
  · refine iff_of_false (not_lt.mpr (Int.floor_nonneg.mpr hx)) ?_
    linarith
  · rw [← Int.le_sub_one_iff, zero_sub, Int.ceil_le, Int.cast_neg, Int.cast_one]

/-! ## Printing -/

/-- Zero padding up to `width`, the sign first and counted in the width. -/
def signed (width : ℕ) (negative : Bool) (body : List Char) : List Char :=
  if negative then '-' :: List.leftpad (width - 1) '0' body
  else List.leftpad width '0' body

/-- `%0<width>d`. -/
def formatInt (width : ℕ) (n : ℤ) : List Char :=
  signed width (n < 0) (Nat.toDigits 10 n.natAbs)

/-- The magnitude of `x` counted in units of the last printed place. -/
def scaled (precision : ℕ) (x : ℚ) : ℕ :=
  (roundEven (|x| * 10 ^ precision)).toNat

/-- `%0<width>.<precision>f`, for a positive precision. -/
def formatFixed (width precision : ℕ) (x : ℚ) : List Char :=
  signed width (x < 0)
    (Nat.toDigits 10 (scaled precision x / 10 ^ precision) ++
      '.' :: padded precision (scaled precision x % 10 ^ precision))

/-- The number a fixed-point text stands for: `x` rounded to `precision` places. -/
def roundTo (precision : ℕ) (x : ℚ) : ℚ :=
  roundEven (x * 10 ^ precision) / 10 ^ precision

/-! ## Scanning -/

/-- `isspace`. -/
def isSpace (c : Char) : Bool :=
  c = ' ' ∨ (9 ≤ c.toNat ∧ c.toNat ≤ 13)

/-- An optional sign: whether it was a minus, and the text after it. -/
def splitSign : List Char → Bool × List Char
  | '-' :: rest => (true, rest)
  | '+' :: rest => (false, rest)
  | text => (false, text)

/-- `atoi`. -/
def atoi (text : List Char) : ℤ :=
  let (negative, rest) := splitSign (text.dropWhile isSpace)
  let magnitude : ℤ := digitsValue (rest.takeWhile Char.isDigit)
  if negative then -magnitude else magnitude

/-- The `int` that `atoi` returns for any text: `strtol` stops at the bounds of its 64
bits, and the cast keeps the low 32. -/
def atoiInt (text : List Char) : ℤ :=
  (max (-2 ^ 63) (min (atoi text) (2 ^ 63 - 1))).bmod (2 ^ 32)

/-- A mantissa of `strtod`: digits around at most one point, and the text after it.
There is none without a digit. -/
def scanMantissa (base : ℕ) (isDigit : Char → Bool) (value : List Char → ℕ)
    (text : List Char) : Option (ℚ × List Char) :=
  let whole := text.takeWhile isDigit
  let (fraction, rest) :=
    match text.dropWhile isDigit with
    | '.' :: after => (after.takeWhile isDigit, after.dropWhile isDigit)
    | after => ([], after)
  if whole = [] ∧ fraction = [] then none
  else some (value whole + value fraction / (base : ℚ) ^ fraction.length, rest)

/-- The exponent of `strtod` after its marker letter, zero when there is none. -/
def scanExponent (marker : Char) : List Char → ℤ
  | c :: text =>
      if c.toLower = marker then
        let (negative, rest) := splitSign text
        let magnitude : ℤ := digitsValue (rest.takeWhile Char.isDigit)
        if negative then -magnitude else magnitude
      else 0
  | [] => 0

/-- A decimal number with an optional power of ten. -/
def scanDecimal (text : List Char) : ℚ :=
  match scanMantissa 10 Char.isDigit digitsValue text with
  | some (mantissa, rest) => mantissa * 10 ^ scanExponent 'e' rest
  | none => 0

def isHexDigit (c : Char) : Bool :=
  c.isDigit || ('a' ≤ c.toLower && c.toLower ≤ 'f')

def hexValue (text : List Char) : ℕ :=
  text.foldl (fun value c =>
    16 * value + if c.isDigit then c.toNat - 48 else c.toLower.toNat - 87) 0

/-- The text after `0x`: a hexadecimal number with an optional power of two. -/
def scanHex (text : List Char) : ℚ :=
  match scanMantissa 16 isHexDigit hexValue text with
  | some (mantissa, rest) => mantissa * 2 ^ scanExponent 'p' rest
  | none => 0

/-- The unsigned number of `strtod`. -/
def scanNumber : List Char → ℚ
  | '0' :: x :: text => if x.toLower = 'x' then scanHex text else scanDecimal ('0' :: x :: text)
  | text => scanDecimal text

/-- `atof` in the rationals, with 0 for an infinity and for NaN. -/
def atof (text : List Char) : ℚ :=
  let (negative, rest) := splitSign (text.dropWhile isSpace)
  if negative then -scanNumber rest else scanNumber rest

/-- A floating-point value: a number, an infinity with its sign, or NaN. -/
inductive FloatValue
  | finite (x : ℚ)
  | inf (negative : Bool)
  | nan
  deriving DecidableEq

/-- The value in the rationals, where an infinity and NaN have none. -/
def FloatValue.rational : FloatValue → ℚ
  | finite x => x
  | _ => 0

/-- `strtod`. The words are read in letters of either case, and INFINITY starts with INF. -/
def strtod (text : List Char) : FloatValue :=
  let (negative, rest) := splitSign (text.dropWhile isSpace)
  if ['i', 'n', 'f'].isPrefixOf (rest.map Char.toLower) then .inf negative
  else if ['n', 'a', 'n'].isPrefixOf (rest.map Char.toLower) then .nan
  else .finite (if negative then -scanNumber rest else scanNumber rest)

/-! ## What is printed -/

theorem leftpad_append (width : ℕ) (c : Char) (first second : List Char) :
    List.leftpad width c (first ++ second) =
      List.leftpad (width - second.length) c first ++ second := by
  simp only [List.leftpad, List.length_append, List.append_assoc]
  congr 2
  omega

theorem formatInt_natCast (width n : ℕ) : formatInt width n = padded width n := by
  simp [formatInt, signed, padded]

/-- The sign a fixed-point text starts with. -/
def signText (x : ℚ) : List Char :=
  if x < 0 then ['-'] else []

theorem length_signText_le (x : ℚ) : (signText x).length ≤ 1 := by
  unfold signText
  split_ifs <;> simp

/-- The shape of a fixed-point text: sign, padded whole part, point and exactly
`precision` further digits. -/
theorem formatFixed_eq {width precision : ℕ} (hprecision : 0 < precision) (x : ℚ) :
    formatFixed width precision x =
      signText x ++
        padded (width - (signText x).length - (precision + 1))
          (scaled precision x / 10 ^ precision) ++
        '.' :: padded precision (scaled precision x % 10 ^ precision) := by
  have hlength : (padded precision (scaled precision x % 10 ^ precision)).length = precision :=
    length_padded_of_lt hprecision (Nat.mod_lt _ (by positivity))
  by_cases hx : x < 0
  · simp only [formatFixed, signed, signText, hx, decide_true, if_true, leftpad_append,
      List.length_cons, hlength]
    rfl
  · simp only [formatFixed, signed, signText, hx, decide_false, if_false, leftpad_append,
      List.length_cons, hlength]
    rfl

/-- A fixed-point text is made of digits, points and minus signs. -/
theorem mem_formatFixed {width precision : ℕ} (hprecision : 0 < precision) {x : ℚ} {c : Char}
    (hc : c ∈ formatFixed width precision x) : c.isDigit ∨ c = '.' ∨ c = '-' := by
  rw [formatFixed_eq hprecision] at hc
  simp only [List.mem_append, List.mem_cons, signText] at hc
  rcases hc with (hsign | hwhole) | rfl | hfraction
  · split_ifs at hsign with hx
    · exact Or.inr (Or.inr (List.mem_singleton.mp hsign))
    · exact absurd hsign List.not_mem_nil
  · exact Or.inl (allDigits_padded _ _ c hwhole)
  · exact Or.inr (Or.inl rfl)
  · exact Or.inl (allDigits_padded _ _ c hfraction)

/-- The width is a minimum. -/
theorem le_length_formatFixed (width precision : ℕ) (x : ℚ) :
    width ≤ (formatFixed width precision x).length := by
  unfold formatFixed signed
  split
  · rw [List.length_cons, List.length_leftpad]
    omega
  · rw [List.length_leftpad]
    omega

/-! ## What is read back -/

theorem not_isSpace_of_isDigit {c : Char} (hc : c.isDigit) : ¬ isSpace c := by
  obtain ⟨hlow, -⟩ := (isDigit_iff_toNat c).mp hc
  simp only [isSpace, decide_eq_true_eq, not_or]
  refine ⟨?_, by omega⟩
  rintro rfl
  simp at hlow

theorem splitSign_of_isDigit {c : Char} (hc : c.isDigit) (text : List Char) :
    splitSign (c :: text) = (false, c :: text) := by
  unfold splitSign
  split
  · rename_i heq
    rw [(List.cons.inj heq).1] at hc
    exact absurd hc (by decide)
  · rename_i heq
    rw [(List.cons.inj heq).1] at hc
    exact absurd hc (by decide)
  · rfl

theorem takeWhile_allDigits {text : List Char} (rest : List Char) (htext : AllDigits text)
    (hrest : ∀ c, rest.head? = some c → ¬ c.isDigit) :
    (text ++ rest).takeWhile Char.isDigit = text ∧
      (text ++ rest).dropWhile Char.isDigit = rest := by
  have hstop : rest.takeWhile Char.isDigit = [] ∧ rest.dropWhile Char.isDigit = rest := by
    cases rest with
    | nil => exact ⟨rfl, rfl⟩
    | cons c rest => simp [hrest c rfl]
  rw [List.takeWhile_append_of_pos htext, List.dropWhile_append_of_pos htext, hstop.1, hstop.2]
  exact ⟨List.append_nil text, rfl⟩

/-- `atoi` on a text of digits is its value. -/
theorem atoi_digits {text : List Char} (htext : AllDigits text) :
    atoi text = digitsValue text := by
  have htake := (takeWhile_allDigits [] htext (by simp)).1
  rw [List.append_nil] at htake
  cases htext' : text with
  | nil => rfl
  | cons c rest =>
      have hc : c.isDigit := htext c (by simp [htext'])
      have hsign : splitSign ((c :: rest).dropWhile isSpace) = (false, c :: rest) := by
        rw [List.dropWhile_cons_of_neg (by simpa using not_isSpace_of_isDigit hc)]
        exact splitSign_of_isDigit hc rest
      rw [htext'] at htake
      simp [atoi, hsign, htake]

/-- The mantissa of a decimal text is all of it. -/
theorem scanDecimal_point {whole fraction : List Char} (hwhole : AllDigits whole)
    (hne : whole ≠ []) (hfraction : AllDigits fraction) :
    scanDecimal (whole ++ '.' :: fraction) =
      digitsValue whole + digitsValue fraction / 10 ^ fraction.length := by
  obtain ⟨htake, hdrop⟩ := takeWhile_allDigits ('.' :: fraction) hwhole (by
    simp only [List.head?_cons, Option.some.injEq]
    rintro c rfl
    decide)
  obtain ⟨htake', hdrop'⟩ := takeWhile_allDigits [] hfraction (by simp)
  rw [List.append_nil] at htake' hdrop'
  simp [scanDecimal, scanMantissa, htake, hdrop, htake', hdrop', hne, scanExponent]

theorem scanDecimal_digits {whole : List Char} (hwhole : AllDigits whole) (hne : whole ≠ []) :
    scanDecimal whole = digitsValue whole := by
  obtain ⟨htake, hdrop⟩ := takeWhile_allDigits [] hwhole (by simp)
  rw [List.append_nil] at htake hdrop
  simp [scanDecimal, scanMantissa, htake, hdrop, hne, scanExponent]

theorem toLower_of_isDigit {c : Char} (hc : c.isDigit) : c.toLower = c := by
  obtain ⟨-, hhigh⟩ := (isDigit_iff_toNat c).mp hc
  unfold Char.toLower
  rw [dif_neg]
  intro hupper
  have := hupper.1
  rw [ge_iff_le, UInt32.le_iff_toNat_le] at this
  change 65 ≤ c.toNat at this
  omega

theorem toLower_ne_x_of_isDigit {c : Char} (hc : c.isDigit) : c.toLower ≠ 'x' := by
  rw [toLower_of_isDigit hc]
  rintro rfl
  exact absurd hc (by decide)

/-- Without an `x` in the second place a number is read as a decimal one. -/
theorem scanNumber_eq_scanDecimal {text : List Char}
    (htext : ∀ c ∈ text, c.isDigit ∨ c = '.') : scanNumber text = scanDecimal text := by
  unfold scanNumber
  split
  · rename_i x rest
    have hx : x.toLower ≠ 'x' := by
      rcases htext x (by simp) with hdigit | rfl
      · exact toLower_ne_x_of_isDigit hdigit
      · decide
    rw [if_neg hx]
  · rfl

/-- A text that starts with a letter has no number. -/
theorem scanNumber_eq_zero {c : Char} (rest : List Char) (hdigit : ¬ c.isDigit) (hpoint : c ≠ '.') :
    scanNumber (c :: rest) = 0 := by
  have hdecimal : scanDecimal (c :: rest) = 0 := by
    simp [scanDecimal, scanMantissa, hdigit, hpoint]
  unfold scanNumber
  split
  · rename_i heq
    rw [(List.cons.inj heq).1] at hdigit
    exact absurd (by decide) hdigit
  · exact hdecimal

/-- **The words of `strtod`.** The rational reading is the value of `strtod`, with 0 for its
words. -/
theorem rational_strtod (text : List Char) : (strtod text).rational = atof text := by
  unfold strtod atof
  generalize splitSign (text.dropWhile isSpace) = scanned
  obtain ⟨negative, rest⟩ := scanned
  have hword : ∀ d word, (d :: word).isPrefixOf (rest.map Char.toLower) → ¬ d.isDigit → d ≠ '.' →
      scanNumber rest = 0 := by
    intro d word hstart hdigit hpoint
    cases rest with
    | nil => simp at hstart
    | cons c rest =>
        have hlower : d = c.toLower := by
          simpa using (List.cons_prefix_cons.mp (List.isPrefixOf_iff_prefix.mp hstart)).1
        apply scanNumber_eq_zero
        · intro hc
          rw [toLower_of_isDigit hc] at hlower
          exact hdigit (hlower ▸ hc)
        · rintro rfl
          exact hpoint hlower
  dsimp only
  by_cases hinf : ['i', 'n', 'f'].isPrefixOf (rest.map Char.toLower)
  · rw [if_pos hinf, hword 'i' _ hinf (by decide) (by decide)]
    simp [FloatValue.rational]
  rw [if_neg hinf]
  by_cases hnan : ['n', 'a', 'n'].isPrefixOf (rest.map Char.toLower)
  · rw [if_pos hnan, hword 'n' _ hnan (by decide) (by decide)]
    simp [FloatValue.rational]
  · rw [if_neg hnan]
    rfl

/-- The sign in front of a number is read apart from it. -/
theorem atof_sign (negative : Bool) {c : Char} (hc : c.isDigit) (rest : List Char) :
    atof ((if negative then ['-'] else []) ++ c :: rest) =
      (if negative then -1 else 1) * scanNumber (c :: rest) := by
  cases negative with
  | true =>
      have hspace : isSpace '-' = false := by decide
      simp [atof, hspace, splitSign]
  | false => simp [atof, not_isSpace_of_isDigit hc, splitSign_of_isDigit hc]

/-- **Reading a fixed-point text.** -/
theorem atof_decimal (negative : Bool) {whole fraction : List Char} (hwhole : AllDigits whole)
    (hne : whole ≠ []) (hfraction : AllDigits fraction) :
    atof ((if negative then ['-'] else []) ++ whole ++ '.' :: fraction) =
      (if negative then -1 else 1) *
        (digitsValue whole + digitsValue fraction / 10 ^ fraction.length) := by
  rw [← scanDecimal_point hwhole hne hfraction, ← scanNumber_eq_scanDecimal (by
    intro c hc
    rcases List.mem_append.mp hc with hwholeMem | hrest
    · exact Or.inl (hwhole c hwholeMem)
    · rcases List.mem_cons.mp hrest with rfl | hfractionMem
      · exact Or.inr rfl
      · exact Or.inl (hfraction c hfractionMem))]
  cases whole with
  | nil => exact absurd rfl hne
  | cons c rest =>
      rw [List.append_assoc, List.cons_append]
      exact atof_sign negative (hwhole c (by simp)) _

theorem atof_digits (negative : Bool) {whole : List Char} (hwhole : AllDigits whole)
    (hne : whole ≠ []) :
    atof ((if negative then ['-'] else []) ++ whole) =
      (if negative then -1 else 1) * digitsValue whole := by
  rw [← scanDecimal_digits hwhole hne,
    ← scanNumber_eq_scanDecimal fun c hc => Or.inl (hwhole c hc)]
  cases whole with
  | nil => exact absurd rfl hne
  | cons c rest => exact atof_sign negative (hwhole c (by simp)) rest

/-! ## The round trip -/

/-- Rounding to places, in terms of the printed magnitude and sign. -/
theorem roundTo_eq_scaled (precision : ℕ) (x : ℚ) :
    roundTo precision x =
      (if x < 0 then -1 else 1) * ((scaled precision x : ℚ) / 10 ^ precision) := by
  have hpow : (0 : ℚ) < 10 ^ precision := by positivity
  have hmagnitude : ((scaled precision x : ℕ) : ℚ) = roundEven (|x| * 10 ^ precision) := by
    have hnonneg : 0 ≤ roundEven (|x| * 10 ^ precision) := roundEven_nonneg (by positivity)
    rw [scaled, ← Int.cast_natCast, Int.toNat_of_nonneg hnonneg]
  rw [hmagnitude, roundTo]
  split_ifs with hx
  · rw [abs_of_neg hx, neg_mul x, roundEven_neg]
    push_cast
    ring
  · rw [abs_of_nonneg (not_lt.mp hx), one_mul]

/-- **Round trip.** Reading a printed number gives it rounded to the printed places. -/
theorem atof_formatFixed {width precision : ℕ} (hprecision : 0 < precision) (x : ℚ) :
    atof (formatFixed width precision x) = roundTo precision x := by
  have hlength : (padded precision (scaled precision x % 10 ^ precision)).length = precision :=
    length_padded_of_lt hprecision (Nat.mod_lt _ (by positivity))
  have hread := atof_decimal (x < 0) (allDigits_padded
      (width - (signText x).length - (precision + 1)) (scaled precision x / 10 ^ precision))
    (padded_ne_nil _ _) (allDigits_padded precision (scaled precision x % 10 ^ precision))
  simp only [decide_eq_true_eq, digitsValue_padded, hlength] at hread
  rw [← signText] at hread
  rw [formatFixed_eq hprecision, roundTo_eq_scaled, hread]
  congr 1
  have hpow : (10 : ℚ) ^ precision ≠ 0 := by positivity
  have hdiv : ((scaled precision x : ℕ) : ℚ) =
      (10 ^ precision : ℕ) * (scaled precision x / 10 ^ precision : ℕ) +
        (scaled precision x % 10 ^ precision : ℕ) := by
    exact_mod_cast (Nat.div_add_mod _ _).symm
  rw [eq_div_iff hpow, hdiv, add_mul, div_mul_cancel₀ _ hpow]
  push_cast
  ring

example : formatFixed 7 2 (-1 / 8) = ['-', '0', '0', '0', '.', '1', '2'] := by decide +kernel

/-- Printing to `precision` places moves a number by at most half a unit of the
last place. -/
theorem abs_roundTo_sub_le (precision : ℕ) (x : ℚ) :
    |roundTo precision x - x| ≤ 1 / 2 / 10 ^ precision := by
  have hpow : (0 : ℚ) < 10 ^ precision := by positivity
  have herror := abs_roundEven_sub_le (x * 10 ^ precision)
  have hsplit : roundTo precision x - x =
      (roundEven (x * 10 ^ precision) - x * 10 ^ precision) / 10 ^ precision := by
    rw [roundTo]
    field_simp
  rw [hsplit, abs_div, abs_of_pos hpow]
  exact div_le_div_of_nonneg_right herror hpow.le

/-- Printing never passes an integer. -/
theorem le_roundTo (precision : ℕ) {n : ℤ} {x : ℚ} (h : (n : ℚ) ≤ x) :
    (n : ℚ) ≤ roundTo precision x := by
  have hpow : (0 : ℚ) < 10 ^ precision := by positivity
  rw [roundTo, le_div_iff₀ hpow]
  have hscaled : ((n * 10 ^ precision : ℤ) : ℚ) ≤ x * 10 ^ precision := by
    push_cast
    exact mul_le_mul_of_nonneg_right h hpow.le
  exact_mod_cast le_roundEven hscaled

theorem roundTo_le (precision : ℕ) {n : ℤ} {x : ℚ} (h : x ≤ (n : ℚ)) :
    roundTo precision x ≤ (n : ℚ) := by
  have hpow : (0 : ℚ) < 10 ^ precision := by positivity
  rw [roundTo, div_le_iff₀ hpow]
  have hscaled : x * 10 ^ precision ≤ ((n * 10 ^ precision : ℤ) : ℚ) := by
    push_cast
    exact mul_le_mul_of_nonneg_right h hpow.le
  exact_mod_cast roundEven_le hscaled

/-- Printing reaches an integer from half a unit of the last place below it on: at
a positive precision the integer is an even number of such units, so ties go up. -/
theorem roundTo_lt_iff {precision : ℕ} (hprecision : 0 < precision) (n : ℤ) (x : ℚ) :
    roundTo precision x < n ↔ x < n - 1 / 2 / 10 ^ precision := by
  have hpow : (0 : ℚ) < 10 ^ precision := by positivity
  have heven : Even (n * 10 ^ precision) := by
    refine Even.mul_left ?_ n
    exact (by decide : Even (10 : ℤ)).pow_of_ne_zero (by omega)
  have hround := even_le_roundEven_iff heven (x * 10 ^ precision)
  push_cast at hround
  calc roundTo precision x < n
      ↔ roundEven (x * 10 ^ precision) < n * 10 ^ precision := by
        rw [roundTo, div_lt_iff₀ hpow]
        exact_mod_cast Iff.rfl
    _ ↔ x * 10 ^ precision < n * 10 ^ precision - 1 / 2 := by
        rw [← not_le, hround, not_le]
    _ ↔ x < n - 1 / 2 / 10 ^ precision := by
        rw [← lt_div_iff₀ hpow, sub_div, mul_div_cancel_right₀ _ hpow.ne']

/-- Printing is odd. -/
theorem roundTo_neg (precision : ℕ) (x : ℚ) : roundTo precision (-x) = -roundTo precision x := by
  rw [roundTo, roundTo, neg_mul, roundEven_neg, Int.cast_neg, neg_div]

/-- Printing passes an integer only from more than half a unit above it on. -/
theorem roundTo_le_iff {precision : ℕ} (hprecision : 0 < precision) (n : ℤ) (x : ℚ) :
    roundTo precision x ≤ n ↔ x ≤ n + 1 / 2 / 10 ^ precision := by
  have hneg := roundTo_lt_iff hprecision (-n) (-x)
  rw [roundTo_neg, Int.cast_neg, neg_lt_neg_iff] at hneg
  rw [← not_lt, hneg, not_lt, ← neg_add', neg_le_neg_iff]

/-- A printed value below an integer is at least one unit of the last place below it. -/
theorem roundTo_le_of_lt {precision : ℕ} {n : ℤ} {x : ℚ} (h : roundTo precision x < n) :
    roundTo precision x ≤ n - 1 / 10 ^ precision := by
  have hpow : (0 : ℚ) < 10 ^ precision := by positivity
  rw [roundTo, div_lt_iff₀ hpow] at h
  have hunits : roundEven (x * 10 ^ precision) < n * 10 ^ precision := by exact_mod_cast h
  have hunits' : (roundEven (x * 10 ^ precision) : ℚ) ≤ n * 10 ^ precision - 1 := by
    exact_mod_cast Int.le_sub_one_of_lt hunits
  rwa [roundTo, div_le_iff₀ hpow, sub_mul, div_mul_cancel₀ _ hpow.ne']

/-- A number that is not negative has as many digits before the point as its
printed value: a text has room for `places` of them exactly when it prints below
the next power of ten. -/
theorem length_formatFixed_le_iff {width precision places : ℕ} (hprecision : 0 < precision)
    (hplaces : 0 < places) (hwidth : width ≤ places + 1 + precision) {x : ℚ} (hx : 0 ≤ x) :
    (formatFixed width precision x).length ≤ places + 1 + precision ↔
      roundTo precision x < 10 ^ places := by
  have hpow : (0 : ℚ) < 10 ^ precision := by positivity
  have hfraction : (padded precision (scaled precision x % 10 ^ precision)).length = precision :=
    length_padded_of_lt hprecision (Nat.mod_lt _ (by positivity))
  have hlength : (formatFixed width precision x).length =
      max (width - (precision + 1)) (Nat.toDigits 10 (scaled precision x / 10 ^ precision)).length +
        (precision + 1) := by
    rw [formatFixed_eq hprecision, signText, if_neg (not_lt.mpr hx), List.length_append,
      List.length_cons, hfraction, List.nil_append, padded, List.length_leftpad]
    simp
  calc (formatFixed width precision x).length ≤ places + 1 + precision
      ↔ (Nat.toDigits 10 (scaled precision x / 10 ^ precision)).length ≤ places := by
        rw [hlength]
        omega
    _ ↔ scaled precision x < 10 ^ places * 10 ^ precision := by
        rw [Nat.length_toDigits_le_iff (by decide) hplaces, Nat.div_lt_iff_lt_mul (by positivity)]
    _ ↔ roundTo precision x < 10 ^ places := by
        rw [roundTo_eq_scaled, if_neg (not_lt.mpr hx), one_mul, div_lt_iff₀ hpow]
        exact_mod_cast Iff.rfl

/-- At least one digit stands before the point. -/
theorem lt_length_formatFixed {width precision : ℕ} (hprecision : 0 < precision) (x : ℚ) :
    precision + 1 < (formatFixed width precision x).length := by
  have hwhole := List.length_pos_of_ne_nil (padded_ne_nil
    (width - (signText x).length - (precision + 1)) (scaled precision x / 10 ^ precision))
  have hfraction : (padded precision (scaled precision x % 10 ^ precision)).length = precision :=
    length_padded_of_lt hprecision (Nat.mod_lt _ (by positivity))
  rw [formatFixed_eq hprecision, List.length_append, List.length_append, List.length_cons,
    hfraction]
  omega

/-! ## Texts cut to their width -/

/-- A text longer than its width has no padding, and cut to the width it still
starts with the leading digits of the number. -/
theorem take_formatFixed {width precision : ℕ} (hprecision : 0 < precision)
    (hwidth : precision + 3 ≤ width) {x : ℚ}
    (hlong : width < (formatFixed width precision x).length) :
    ∃ lead, AllDigits lead ∧
      10 ^ (width - precision - 1 - (signText x).length) ≤ digitsValue lead ∧
      ((formatFixed width precision x).take width = signText x ++ lead ∨
        ∃ fraction, AllDigits fraction ∧
          (formatFixed width precision x).take width =
            signText x ++ lead ++ '.' :: fraction) := by
  have hsign := length_signText_le x
  have hfraction : (padded precision (scaled precision x % 10 ^ precision)).length = precision :=
    length_padded_of_lt hprecision (Nat.mod_lt _ (by positivity))
  rw [formatFixed_eq hprecision] at hlong ⊢
  generalize scaled precision x / 10 ^ precision = whole at hlong ⊢
  have htail := allDigits_padded precision (scaled precision x % 10 ^ precision)
  generalize padded precision (scaled precision x % 10 ^ precision) = tail
    at hlong hfraction htail ⊢
  simp only [List.length_append, List.length_cons, hfraction, padded, List.length_leftpad] at hlong
  have hpad : padded (width - (signText x).length - (precision + 1)) whole =
      Nat.toDigits 10 whole := by
    rw [padded, List.leftpad, Nat.sub_eq_zero_of_le (by omega), List.replicate_zero,
      List.nil_append]
  have hlead : 10 ^ (width - precision - 1 - (signText x).length) ≤
      digitsValue ((Nat.toDigits 10 whole).take (width - (signText x).length)) := by
    rw [List.take_eq_take_min]
    generalize hk : min (width - (signText x).length) (Nat.toDigits 10 whole).length = k
    calc 10 ^ (width - precision - 1 - (signText x).length) ≤ 10 ^ (k - 1) :=
          Nat.pow_le_pow_right (by decide) (by omega)
      _ ≤ _ := pow_le_digitsValue_take (by omega) (by omega)
  refine ⟨_, allDigits_take (allDigits_toDigits whole) _, hlead, ?_⟩
  rw [hpad, List.append_assoc, List.take_append, List.take_of_length_le (by omega),
    List.take_append]
  cases width - (signText x).length - (Nat.toDigits 10 whole).length with
  | zero => exact Or.inl (by simp)
  | succ n => exact Or.inr ⟨tail.take n, allDigits_take htail n, by simp⟩

/-- A cut text keeps its sign and reads as a number of that many digits. -/
theorem exists_atof_take_formatFixed {width precision : ℕ} (hprecision : 0 < precision)
    (hwidth : precision + 3 ≤ width) {x : ℚ}
    (hlong : width < (formatFixed width precision x).length) :
    ∃ magnitude : ℚ, 10 ^ (width - precision - 1 - (signText x).length) ≤ magnitude ∧
      atof ((formatFixed width precision x).take width) =
        (if x < 0 then -1 else 1) * magnitude := by
  obtain ⟨lead, hdigits, hlead, htext⟩ := take_formatFixed hprecision hwidth hlong
  have hne : lead ≠ [] := by
    rintro rfl
    simp at hlead
  have hlead' : (10 : ℚ) ^ (width - precision - 1 - (signText x).length) ≤ digitsValue lead := by
    exact_mod_cast hlead
  rcases htext with htext | ⟨fraction, hfraction, htext⟩
  · have hread := atof_digits (x < 0) hdigits hne
    simp only [decide_eq_true_eq] at hread
    rw [htext, signText, hread]
    exact ⟨_, hlead', rfl⟩
  · have hread := atof_decimal (x < 0) hdigits hne hfraction
    simp only [decide_eq_true_eq] at hread
    rw [htext, signText, hread]
    have hpos : (0 : ℚ) ≤ digitsValue fraction / 10 ^ fraction.length := by positivity
    exact ⟨_, hlead'.trans (le_add_of_nonneg_right hpos), rfl⟩

/-- A cut text reads as a number of at least ten in absolute value. -/
theorem atof_take_formatFixed {width precision : ℕ} (hprecision : 0 < precision)
    (hwidth : precision + 3 ≤ width) {x : ℚ}
    (hlong : width < (formatFixed width precision x).length) :
    10 ≤ |atof ((formatFixed width precision x).take width)| := by
  obtain ⟨magnitude, hlarge, hread⟩ := exists_atof_take_formatFixed hprecision hwidth hlong
  have hsign := length_signText_le x
  have hten : (10 : ℚ) ≤ magnitude := by
    calc (10 : ℚ) = 10 ^ 1 := (pow_one 10).symm
      _ ≤ 10 ^ (width - precision - 1 - (signText x).length) :=
          pow_le_pow_right₀ (by norm_num) (by omega)
      _ ≤ magnitude := hlarge
  have hunit : |(if x < 0 then -1 else 1 : ℚ)| = 1 := by
    split_ifs <;> simp
  rw [hread, abs_mul, hunit, one_mul]
  exact hten.trans (le_abs_self _)

/-- A cut text of a number that is not negative reads as a number that still has
all the digits there is room for. -/
theorem le_atof_take_formatFixed {width precision : ℕ} (hprecision : 0 < precision)
    (hwidth : precision + 3 ≤ width) {x : ℚ} (hx : 0 ≤ x)
    (hlong : width < (formatFixed width precision x).length) :
    10 ^ (width - precision - 1) ≤ atof ((formatFixed width precision x).take width) := by
  obtain ⟨magnitude, hlarge, hread⟩ := exists_atof_take_formatFixed hprecision hwidth hlong
  rw [signText, if_neg (not_lt.mpr hx), List.length_nil, Nat.sub_zero] at hlarge
  rwa [hread, if_neg (not_lt.mpr hx), one_mul]

end Embsys.C
