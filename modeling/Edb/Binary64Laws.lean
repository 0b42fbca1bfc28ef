-- What the text functions of the binary64 format keep: a finite number is
-- written as digits that are read back whole, and as a finite number.
import Mathlib.Algebra.Order.Field.Power
import Mathlib.Algebra.Order.Field.Rat
import Mathlib.Data.Nat.Digits.Lemmas
import Mathlib.Data.Nat.Log
import Mathlib.Tactic.Linarith
import Mathlib.Tactic.NormNum
import Edb.Binary64

/-! ## Digits -/

namespace dec

theorem value_append (front back : List UInt8) :
    value (front ++ back) = value front * 10 ^ back.length + value back := by
  unfold value
  rw [List.reverse_append, List.map_append, Nat.ofDigits_append, List.length_map,
    List.length_reverse]
  ring

theorem value_zeros (n : Nat) : value (List.replicate n 48) = 0 := by
  induction n with
  | zero => rfl
  | succ n ih =>
    rw [List.replicate_succ', value_append, ih]
    rfl

theorem length_text_le {n k : Nat} (hk : k ≠ 0) (h : n < 10 ^ k) : (text n).length ≤ k := by
  unfold text
  split
  · exact Nat.one_le_iff_ne_zero.mpr hk
  · rw [List.length_map, List.length_reverse]
    exact (Nat.digits_length_le_iff (by decide) n).mpr h

end dec

namespace binary64

/-! ## Rounding stays in the finite numbers -/

theorem round_half_even_le {num den bound : Nat} (hden : 0 < den) (h : num ≤ bound * den) :
    round_half_even num den ≤ bound := by
  have hq : num / den ≤ bound := Nat.div_le_of_le_mul (by rwa [Nat.mul_comm])
  have hsplit := Nat.div_add_mod num den
  unfold round_half_even
  -- Where the quotient is the bound, nothing is left over to round up.
  rcases Nat.lt_or_eq_of_le hq with hlt | heq
  · dsimp only
    split_ifs <;> omega
  · have hrest : num % den = 0 := by
      rw [heq, Nat.mul_comm] at hsplit
      omega
    rw [hrest, heq]
    simp [hden]

/-- A ratio that is scaled by a power of two, against a whole number. -/
theorem scale_lt_iff (num den bound : Nat) (e : Int) :
    (scale num den e).1 < bound * (scale num den e).2 ↔
      (num : ℚ) < bound * (den * 2 ^ e) := by
  unfold scale
  split
  · rename_i he
    obtain ⟨n, rfl⟩ := Int.eq_ofNat_of_zero_le he
    rw [Int.toNat_natCast, zpow_natCast]
    norm_cast
  · rename_i he
    obtain ⟨n, hn⟩ := Int.eq_ofNat_of_zero_le (show 0 ≤ -e by omega)
    have hneg : e = -(n : Int) := by omega
    have hpos : (0 : ℚ) < 2 ^ n := by positivity
    rw [hneg, neg_neg, Int.toNat_natCast, zpow_neg, zpow_natCast, ← mul_assoc, ← div_eq_mul_inv,
      lt_div_iff₀ hpos]
    norm_cast

theorem scale_lt_one_iff {num den : Nat} (e : Int) :
    (scale num den e).1 < (scale num den e).2 ↔ (num : ℚ) < den * 2 ^ e := by
  have h := scale_lt_iff num den 1 e
  rwa [Nat.one_mul, Nat.cast_one, one_mul] at h

theorem two_zpow_le {x y : Int} (h : x ≤ y) : (2 : ℚ) ^ x ≤ 2 ^ y :=
  zpow_le_zpow_right₀ (by norm_num) h

/-- The two logarithms miss the size of a ratio by less than one either way. -/
theorem lt_two_zpow_log {num den : Nat} (hden : den ≠ 0) :
    (num : ℚ) < den * 2 ^ ((Nat.log 2 num : Int) - Nat.log 2 den + 1) := by
  have hnum : (num : ℚ) < 2 ^ (Nat.log 2 num + 1) := by
    exact_mod_cast Nat.lt_pow_succ_log_self (by decide) num
  have hle : (2 : ℚ) ^ Nat.log 2 den ≤ den := by
    exact_mod_cast Nat.pow_log_le_self 2 hden
  calc (num : ℚ) < 2 ^ (Nat.log 2 num + 1) := hnum
    _ = 2 ^ Nat.log 2 den * 2 ^ ((Nat.log 2 num : Int) - Nat.log 2 den + 1) := by
      rw [← zpow_natCast, ← zpow_natCast, ← zpow_add₀ (by norm_num)]
      congr 1
      push_cast
      ring
    _ ≤ den * 2 ^ ((Nat.log 2 num : Int) - Nat.log 2 den + 1) :=
      mul_le_mul_of_nonneg_right hle (by positivity)

theorem two_zpow_log_le {num den : Nat} (hnum : num ≠ 0) :
    (den : ℚ) * 2 ^ ((Nat.log 2 num : Int) - Nat.log 2 den - 1) ≤ num := by
  have hden : (den : ℚ) < 2 ^ (Nat.log 2 den + 1) := by
    exact_mod_cast Nat.lt_pow_succ_log_self (by decide) den
  have hle : (2 : ℚ) ^ Nat.log 2 num ≤ num := by
    exact_mod_cast Nat.pow_log_le_self 2 hnum
  calc (den : ℚ) * 2 ^ ((Nat.log 2 num : Int) - Nat.log 2 den - 1)
      ≤ 2 ^ (Nat.log 2 den + 1) * 2 ^ ((Nat.log 2 num : Int) - Nat.log 2 den - 1) :=
      mul_le_mul_of_nonneg_right hden.le (by positivity)
    _ = 2 ^ Nat.log 2 num := by
      rw [← zpow_natCast, ← zpow_natCast, ← zpow_add₀ (by norm_num)]
      congr 1
      push_cast
      ring
    _ ≤ num := hle

/-- The exponent that the significand of a ratio is read at. -/
def low (num den : Nat) : Int :=
  let top := (Nat.log 2 num : Int) - (Nat.log 2 den : Int)
  if (scale num den top).2 ≤ (scale num den top).1 then top - 52 else top - 53

theorem low_lt {num den : Nat} (hden : den ≠ 0) : (num : ℚ) < den * 2 ^ (low num den + 53) := by
  unfold low
  dsimp only
  split
  · have hexp : ∀ top : Int, top - 52 + 53 = top + 1 := by intro top; ring
    rw [hexp]
    exact lt_two_zpow_log hden
  · rename_i h
    rw [sub_add_cancel]
    exact (scale_lt_one_iff _).mp (Nat.lt_of_not_le h)

theorem low_le {num den : Nat} (hnum : num ≠ 0) :
    (den : ℚ) * 2 ^ (low num den + 52) ≤ num := by
  unfold low
  dsimp only
  split
  · rename_i h
    rw [sub_add_cancel]
    exact not_lt.mp fun hlt => absurd ((scale_lt_one_iff _).mpr hlt) (Nat.not_lt.mpr h)
  · have hexp : ∀ top : Int, top - 53 + 52 = top - 1 := by intro top; ring
    rw [hexp]
    exact two_zpow_log_le hnum

theorem lt_of_two_zpow_lt {x y : Int} (h : (2 : ℚ) ^ x < 2 ^ y) : x < y :=
  (zpow_lt_zpow_iff_right₀ (by norm_num)).mp h

/-- A significand and its exponent as bits. -/
def pack (e : Int) (m : Nat) : Nat :=
  if m < 2 ^ 52 then m else (e + 1075).toNat * 2 ^ 52 + (m - 2 ^ 52)

theorem of_ratio_eq {num : Nat} (den : Nat) (hnum : num ≠ 0) :
    ∃ e, e = max (low num den) (-1074) ∧ of_ratio num den =
      min (pack e (round_half_even (scale num den e).1 (scale num den e).2)) infinity := by
  refine ⟨_, rfl, ?_⟩
  unfold of_ratio
  rw [if_neg hnum]
  rfl

theorem pack_lt_infinity {e : Int} {m : Nat} (hlow : -1074 ≤ e) (he : e ≤ 971) (hm : m ≤ 2 ^ 53)
    (hlast : e = 971 → m ≤ 2 ^ 53 - 1) : pack e m < infinity := by
  unfold pack infinity
  split
  · omega
  · rcases eq_or_ne e 971 with rfl | hne
    · have := hlast rfl
      simp only [Int.reduceAdd, Int.reduceToNat]
      omega
    · omega

theorem scale_pos {num den : Nat} (hden : 0 < den) (e : Int) : 0 < (scale num den e).2 := by
  unfold scale
  split
  · exact Nat.mul_pos hden (by positivity)
  · exact hden

theorem low_le_of_lt {num den : Nat} (hnum : num ≠ 0) {top : Int}
    (h : (num : ℚ) < den * 2 ^ (top + 53)) : low num den ≤ top := by
  have hreach : (den : ℚ) * 2 ^ (low num den + 52) < den * 2 ^ (top + 53) :=
    lt_of_le_of_lt (low_le hnum) h
  have hexp := lt_of_two_zpow_lt (lt_of_mul_lt_mul_left hreach (by positivity))
  omega

/-- The significand has 53 bits, or rounds up to the next power of two. -/
theorem significand_le {num den : Nat} (hden : 0 < den) {e : Int} (he : low num den ≤ e) :
    round_half_even (scale num den e).1 (scale num den e).2 ≤ 2 ^ 53 := by
  refine round_half_even_le (scale_pos hden e) (le_of_lt ((scale_lt_iff _ _ _ _).mpr ?_))
  calc (num : ℚ) < den * 2 ^ (low num den + 53) := low_lt hden.ne'
    _ ≤ den * 2 ^ (e + 53) :=
      mul_le_mul_of_nonneg_left (two_zpow_le (by omega)) (by positivity)
    _ = (2 ^ 53 : Nat) * (den * 2 ^ e) := by
      rw [zpow_add₀ (by norm_num)]
      push_cast
      ring

/-- The largest finite number is `(2 ^ 53 - 1) * 2 ^ 971`. -/
theorem of_ratio_lt_infinity {num den : Nat} (hden : 0 < den)
    (h : num ≤ (2 ^ 53 - 1) * 2 ^ 971 * den) : of_ratio num den < infinity := by
  rcases eq_or_ne num 0 with rfl | hnum
  · show 0 < infinity
    decide
  · obtain ⟨e, he, hratio⟩ := of_ratio_eq den hnum
    have hfull : (num : ℚ) < den * 2 ^ ((971 : Int) + 53) := by
      have hlt : num < den * 2 ^ (971 + 53) := by
        calc num ≤ (2 ^ 53 - 1) * 2 ^ 971 * den := h
          _ < 2 ^ 53 * 2 ^ 971 * den :=
            Nat.mul_lt_mul_of_pos_right (Nat.mul_lt_mul_of_pos_right (by decide) (by positivity))
              hden
          _ = den * 2 ^ (971 + 53) := by rw [Nat.pow_add, Nat.mul_comm den, Nat.mul_comm (2 ^ 53)]
      exact_mod_cast hlt
    have hlast : e = 971 →
        round_half_even (scale num den e).1 (scale num den e).2 ≤ 2 ^ 53 - 1 := by
      rintro rfl
      refine round_half_even_le (scale_pos hden _) ?_
      calc num ≤ (2 ^ 53 - 1) * 2 ^ 971 * den := h
        _ = (2 ^ 53 - 1) * (den * 2 ^ 971) := by ring
    have hpack := pack_lt_infinity (by omega) (by have := low_le_of_lt hnum hfull; omega)
      (significand_le hden (by omega)) hlast
    rw [hratio]
    exact lt_of_le_of_lt (min_le_left _ _) hpack

theorem is_finite_of_lt {bits : Nat} (h : bits < infinity) : is_finite bits = true := by
  unfold infinity at h
  unfold is_finite exponent
  simp only [decide_eq_true_eq]
  omega

theorem is_finite_negate {bits : Nat} (h : bits < infinity) : is_finite (negate bits) = true := by
  unfold infinity at h
  unfold is_finite exponent negate
  simp only [decide_eq_true_eq]
  omega

/-! ## The digits of a number -/

theorem parts_le {bits : Nat} (h : is_finite bits = true) :
    (parts bits).1 ≤ 2 ^ 53 - 1 ∧ (parts bits).2 ≤ 971 := by
  have hexp : exponent bits < 2048 := Nat.mod_lt _ (by decide)
  have hfraction : fraction bits < 2 ^ 52 := Nat.mod_lt _ (by decide)
  have hfinite : exponent bits ≠ 2047 := of_decide_eq_true h
  unfold parts
  split
  · exact ⟨by dsimp only; omega, by dsimp only; omega⟩
  · exact ⟨by dsimp only; omega, by dsimp only; omega⟩

theorem ratio_pos (bits : Nat) : 0 < (ratio bits).2 := scale_pos Nat.one_pos _

theorem ratio_le {bits : Nat} (h : is_finite bits = true) :
    (ratio bits).1 ≤ (2 ^ 53 - 1) * 2 ^ 971 * (ratio bits).2 := by
  obtain ⟨hm, he⟩ := parts_le h
  unfold ratio scale
  split
  · calc (parts bits).1 ≤ 2 ^ 53 - 1 := hm
      _ ≤ (2 ^ 53 - 1) * 2 ^ 971 := Nat.le_mul_of_pos_right _ (by positivity)
      _ ≤ (2 ^ 53 - 1) * 2 ^ 971 * _ := Nat.le_mul_of_pos_right _ (by positivity)
  · rw [neg_neg, Nat.mul_one]
    exact Nat.mul_le_mul hm (Nat.pow_le_pow_right (by decide) (by omega))

theorem mod_lt_infinity {bits : Nat} (h : is_finite bits = true) : bits % 2 ^ 63 < infinity := by
  have hfinite : exponent bits ≠ 2047 := of_decide_eq_true h
  unfold exponent at hfinite
  unfold infinity
  omega

/-- A multiple of a negative power that is nearest to a finite number is no more
than the largest of them. -/
theorem around_lt_infinity {bits : Nat} (h : is_finite bits = true) {k : Int} (hk : k < 0) :
    of_power (around bits k).1 10 k < infinity := by
  have hpos : 0 < (ratio bits).2 * 10 ^ k.toNat := Nat.mul_pos (ratio_pos bits) (by positivity)
  have hnear : (around bits k).1 ≤ (2 ^ 53 - 1) * 2 ^ 971 * 10 ^ (-k).toNat := by
    refine round_half_even_le hpos ?_
    rw [Int.toNat_of_nonpos hk.le, Nat.pow_zero, Nat.mul_one, Nat.mul_right_comm _ _ (ratio bits).2]
    exact Nat.mul_le_mul_right _ (ratio_le h)
  unfold of_power
  rw [if_neg (by omega)]
  exact of_ratio_lt_infinity (by positivity) hnear

/-- What the digits are read as is finite: it is the number, or the search has
come to its end. -/
theorem shortest_lt_infinity {bits : Nat} (h : is_finite bits = true) {fuel : Nat} {k : Int}
    (hk : k - fuel < 0) :
    of_power (shortest bits fuel k).1 10 (shortest bits fuel k).2 < infinity := by
  induction fuel generalizing k with
  | zero =>
    unfold shortest
    exact around_lt_infinity h (by omega)
  | succ fuel ih =>
    unfold shortest
    split_ifs with hnear hfar
    · exact hnear ▸ mod_lt_infinity h
    · exact hfar ▸ mod_lt_infinity h
    · exact ih (by omega)

theorem digits_lt_infinity {bits : Nat} (h : is_finite bits = true) :
    of_power (digits bits).1 10 (digits bits).2 < infinity :=
  shortest_lt_infinity h (by omega)

theorem whole_lt_infinity {bits : Nat} (h : is_finite bits = true) :
    of_power (whole bits) 10 0 < infinity := by
  have hle : whole bits ≤ (2 ^ 53 - 1) * 2 ^ 971 :=
    Nat.div_le_of_le_mul (by rw [Nat.mul_comm]; exact ratio_le h)
  refine of_ratio_lt_infinity Nat.one_pos ?_
  rw [Int.toNat_zero, Nat.pow_zero, Nat.mul_one, Nat.mul_one]
  exact hle

/-! ## Reading a number -/

def Digits (run : List UInt8) : Prop := ∀ b ∈ run, dec.is_digit b = true

theorem read_mantissa_whole {run rest : List UInt8} (hne : run ≠ []) (hrun : Digits run)
    (hrest : ∀ b ∈ rest.head?, dec.is_digit b = false ∧ b ≠ 46) :
    read_mantissa dec.is_digit (run ++ rest) = some (run, [], rest) := by
  have hdigit : ∀ b ∈ rest.head?, dec.is_digit b = false := fun b hb => (hrest b hb).1
  have hempty : run.isEmpty = false := by simpa using hne
  unfold read_mantissa
  rw [dec.takeWhile_run hrun hdigit, dec.dropWhile_run hrun hdigit]
  dsimp only
  split
  · rename_i after
    exact absurd rfl (hrest 46 rfl).2
  · rw [hempty]
    rfl

theorem read_mantissa_point {run part rest : List UInt8} (hne : run ≠ []) (hrun : Digits run)
    (hpart : Digits part) (hrest : ∀ b ∈ rest.head?, dec.is_digit b = false) :
    read_mantissa dec.is_digit (run ++ 46 :: part ++ rest) = some (run, part, rest) := by
  have hempty : run.isEmpty = false := by simpa using hne
  have hpoint : ∀ b ∈ (46 :: part ++ rest).head?, dec.is_digit b = false := by
    rintro b ⟨⟩
    rfl
  unfold read_mantissa
  rw [List.append_assoc, dec.takeWhile_run hrun hpoint, dec.dropWhile_run hrun hpoint]
  show (if run.isEmpty && ((part ++ rest).takeWhile dec.is_digit).isEmpty then none else
    some (run, (part ++ rest).takeWhile dec.is_digit, (part ++ rest).dropWhile dec.is_digit)) = _
  rw [dec.takeWhile_run hpart hrest, dec.dropWhile_run hpart hrest, hempty]
  rfl

theorem read_nat_digits {run : List UInt8} (hne : run ≠ []) (hrun : Digits run) :
    dec.read_nat run = some (dec.value run, []) := by
  have h : dec.read_nat (run ++ []) = _ := dec.read_nat_run hne hrun (by simp)
  rwa [List.append_nil] at h

theorem read_exponent_plus {mark : UInt8} {run : List UInt8} (hmark : mark = 69 ∨ mark = 101)
    (hne : run ≠ []) (hrun : Digits run) :
    read_exponent 69 101 (mark :: 43 :: run) = ((dec.value run : Int), []) := by
  have hread : dec.read_int (43 :: run) = (dec.read_nat run).map fun r => ((r.1 : Int), r.2) := rfl
  rw [read_exponent, if_pos hmark, hread, read_nat_digits hne hrun]
  rfl

theorem read_exponent_minus {mark : UInt8} {run : List UInt8} (hmark : mark = 69 ∨ mark = 101)
    (hne : run ≠ []) (hrun : Digits run) :
    read_exponent 69 101 (mark :: 45 :: run) = (-(dec.value run : Int), []) := by
  have hread : dec.read_int (45 :: run) = (dec.read_nat run).map fun r => (-(r.1 : Int), r.2) := rfl
  rw [read_exponent, if_pos hmark, hread, read_nat_digits hne hrun]
  rfl

/-- Digits that no `x` follows are no hexadecimal number. -/
theorem read_unsigned_run {run rest : List UInt8} (hne : run ≠ []) (hrun : Digits run)
    (hrest : ∀ b ∈ rest.head?, ¬(b = 88 ∨ b = 120)) :
    read_unsigned (run ++ rest) = read_decimal (run ++ rest) := by
  have hsecond : ∀ x after, run ++ rest = 48 :: x :: after → ¬(x = 88 ∨ x = 120) := by
    intro x after h
    match run, hne with
    | [b], _ =>
      cases h
      exact hrest x rfl
    | b :: c :: more, _ =>
      obtain ⟨-, rfl, -⟩ := by simpa using h
      have hdigit := hrun c (by simp)
      rintro (rfl | rfl)
      · exact absurd hdigit (by decide)
      · exact absurd hdigit (by decide)
  unfold read_unsigned
  split
  · rename_i x after h
    rw [if_neg (hsecond x after h), h]
  · rfl

/-! ## Reading what was written -/

/-- A text that is read to its end as the digits `d` at the power `k`. -/
structure Spells (text : List UInt8) (d : Nat) (k : Int) : Prop where
  digit : ∃ b rest, text = b :: rest ∧ dec.is_digit b = true
  read : read_unsigned text = some (of_power d 10 k, [])
  bytes : ∀ b ∈ text, b ≠ 0

theorem ne_zero_of_digit {b : UInt8} (h : dec.is_digit b = true) : b ≠ 0 := by
  rintro rfl
  exact absurd h (by decide)

theorem Digits.starts {run : List UInt8} (h : Digits run) (hne : run ≠ []) (rest : List UInt8) :
    ∃ b after, run ++ rest = b :: after ∧ dec.is_digit b = true := by
  obtain ⟨b, more, rfl⟩ := List.exists_cons_of_ne_nil hne
  exact ⟨b, more ++ rest, rfl, h b List.mem_cons_self⟩

theorem digits_text (n : Nat) : Digits (dec.text n) := fun _ hb => dec.is_digit_of_mem_text hb

theorem digits_padded (width n : Nat) : Digits (padded width n) := by
  intro b hb
  rcases List.mem_append.mp hb with hb | hb
  · rw [(List.mem_replicate.mp hb).2]
    rfl
  · exact dec.is_digit_of_mem_text hb

theorem padded_ne_nil (width n : Nat) : padded width n ≠ [] :=
  List.append_ne_nil_of_right_ne_nil _ (dec.text_ne_nil n)

theorem value_padded (width n : Nat) : dec.value (padded width n) = n := by
  unfold padded
  rw [dec.value_append, dec.value_zeros, dec.value_text, Nat.zero_mul, Nat.zero_add]

theorem length_padded {width n : Nat} (hwidth : width ≠ 0) (h : n < 10 ^ width) :
    (padded width n).length = width := by
  have := dec.length_text_le hwidth h
  unfold padded
  rw [List.length_append, List.length_replicate]
  omega

theorem text_spells (n : Nat) : Spells (dec.text n) n 0 := by
  have hread : read_mantissa dec.is_digit (dec.text n ++ []) = _ :=
    read_mantissa_whole (dec.text_ne_nil n) (digits_text n) (by simp)
  have hunsigned : read_unsigned (dec.text n ++ []) = _ :=
    read_unsigned_run (dec.text_ne_nil n) (digits_text n) (by simp)
  have hstarts := (digits_text n).starts (dec.text_ne_nil n) []
  rw [List.append_nil] at hread hunsigned hstarts
  refine ⟨hstarts, ?_, fun b hb => ne_zero_of_digit (digits_text n b hb)⟩
  rw [hunsigned]
  unfold read_decimal
  rw [hread]
  simp [read_exponent, dec.value_text]

/-- With `places` digits after the point. -/
theorem point_spells (d : Nat) {places : Nat} (hplaces : places ≠ 0) :
    Spells (dec.text (d / 10 ^ places) ++ 46 :: padded places (d % 10 ^ places)) d (-places) := by
  have hne := dec.text_ne_nil (d / 10 ^ places)
  have hwhole := digits_text (d / 10 ^ places)
  have hpart := digits_padded places (d % 10 ^ places)
  have hread : read_mantissa dec.is_digit (_ ++ 46 :: _ ++ []) = _ :=
    read_mantissa_point hne hwhole hpart (by simp)
  have hlength := length_padded hplaces (Nat.mod_lt d (by positivity : 10 ^ places > 0))
  have hvalue : dec.value (dec.text (d / 10 ^ places) ++ padded places (d % 10 ^ places)) = d := by
    rw [dec.value_append, dec.value_text, value_padded, hlength, Nat.div_add_mod']
  rw [List.append_nil] at hread
  refine ⟨hwhole.starts hne _, ?_, ?_⟩
  · rw [read_unsigned_run hne hwhole (by simp)]
    unfold read_decimal
    rw [hread]
    simp [read_exponent, hvalue, hlength]
  · simp only [List.mem_append, List.mem_cons]
    rintro b (hb | rfl | hb)
    · exact ne_zero_of_digit (hwhole b hb)
    · decide
    · exact ne_zero_of_digit (hpart b hb)

/-- The exponent of a text, with its mark and its sign. -/
def exponent_text (e : Int) : List UInt8 := 101 :: (if e < 0 then 45 else 43) :: padded 2 e.natAbs

theorem read_exponent_text (e : Int) : read_exponent 69 101 (exponent_text e) = (e, []) := by
  have hne := padded_ne_nil 2 e.natAbs
  have hdigits := digits_padded 2 e.natAbs
  unfold exponent_text
  split
  · rw [read_exponent_minus (Or.inr rfl) hne hdigits, value_padded]
    congr 1
    omega
  · rw [read_exponent_plus (Or.inr rfl) hne hdigits, value_padded]
    congr 1
    omega

theorem exponent_text_ne_zero {e : Int} {b : UInt8} (h : b ∈ exponent_text e) : b ≠ 0 := by
  rcases List.mem_cons.mp h with rfl | h
  · decide
  rcases List.mem_cons.mp h with rfl | h
  · split <;> decide
  · exact ne_zero_of_digit (digits_padded 2 _ b h)

theorem scientific_spells (d : Nat) (k : Int) : Spells (scientific d k) d k := by
  obtain ⟨b, part, htext⟩ := List.exists_cons_of_ne_nil (dec.text_ne_nil d)
  have hvalue : dec.value (b :: part) = d := by rw [← htext, dec.value_text]
  have hdigits : Digits (b :: part) := htext ▸ digits_text d
  have hfirst : Digits [b] := by simpa [Digits] using hdigits b List.mem_cons_self
  have hpart : Digits part := fun c hc => hdigits c (List.mem_cons_of_mem b hc)
  have hform : scientific d k = [b] ++ (if part.isEmpty then [] else 46 :: part) ++
      exponent_text (k + part.length) := by
    unfold scientific
    rw [htext]
    rfl
  have hmantissa : read_mantissa dec.is_digit (scientific d k) =
      some ([b], part, exponent_text (k + part.length)) := by
    rw [hform]
    split
    · rename_i hempty
      obtain rfl := List.isEmpty_iff.mp hempty
      exact read_mantissa_whole (by simp) hfirst (by rintro c ⟨⟩; decide)
    · exact read_mantissa_point (by simp) hfirst hpart (by rintro c ⟨⟩; decide)
  have hunsigned : read_unsigned (scientific d k) = read_decimal (scientific d k) := by
    rw [hform, List.append_assoc]
    refine read_unsigned_run (by simp) hfirst ?_
    split
    · rintro c ⟨⟩
      decide
    · rintro c ⟨⟩
      decide
  refine ⟨?_, ?_, ?_⟩
  · rw [hform, List.append_assoc]
    exact hfirst.starts (by simp) _
  · rw [hunsigned]
    unfold read_decimal
    rw [hmantissa, Option.map_some]
    dsimp only
    rw [read_exponent_text, List.singleton_append, hvalue, add_sub_cancel_right]
  · rw [hform]
    simp only [List.mem_append, List.mem_singleton]
    rintro c ((rfl | hc) | hc)
    · exact ne_zero_of_digit (hfirst c List.mem_cons_self)
    · split at hc
      · cases hc
      · rcases List.mem_cons.mp hc with rfl | hc
        · decide
        · exact ne_zero_of_digit (hpart c hc)
    · exact exponent_text_ne_zero hc

theorem fixed_spells (bits d : Nat) (k : Int) :
    Spells (fixed bits d k) d k ∨ Spells (fixed bits d k) (whole bits) 0 := by
  unfold fixed
  split
  · exact Or.inr (text_spells _)
  · obtain ⟨places, hk⟩ := Int.eq_ofNat_of_zero_le (show 0 ≤ -k by omega)
    obtain rfl : k = -places := by omega
    rw [neg_neg, Int.toNat_natCast]
    exact Or.inl (point_spells d (by omega))

/-- The text of a finite number is a sign and digits that are read as a finite one. -/
theorem to_text_finite {bits : Nat} (h : is_finite bits = true) :
    ∃ text d k, to_text bits = (if sign bits then [45] else []) ++ text ∧ Spells text d k ∧
      of_power d 10 k < infinity := by
  have hnan : is_nan bits = false := by
    have hfinite : exponent bits ≠ 2047 := of_decide_eq_true h
    simp [is_nan, hfinite]
  unfold to_text
  rw [hnan, h]
  simp only [Bool.false_eq_true, if_false, Bool.not_true]
  by_cases hshort : (fixed bits (digits bits).1 (digits bits).2).length ≤
      (scientific (digits bits).1 (digits bits).2).length
  · rw [if_pos hshort]
    rcases fixed_spells bits (digits bits).1 (digits bits).2 with hspells | hspells
    · exact ⟨_, _, _, rfl, hspells, digits_lt_infinity h⟩
    · exact ⟨_, _, _, rfl, hspells, whole_lt_infinity h⟩
  · rw [if_neg hshort]
    exact ⟨_, _, _, rfl, scientific_spells _ _, digits_lt_infinity h⟩

/-- The text of a finite number is read to its end, and as a finite number. -/
theorem strtod_to_text {bits : Nat} (h : is_finite bits = true) :
    ∃ back, strtod (to_text bits) = some (back, []) ∧ is_finite back = true := by
  obtain ⟨text, d, k, htext, hspells, hlt⟩ := to_text_finite h
  obtain ⟨b, rest, rfl, hb⟩ := hspells.digit
  rw [htext]
  unfold strtod
  split_ifs
  · refine ⟨negate (of_power d 10 k), ?_, is_finite_negate hlt⟩
    show (read_unsigned (b :: rest)).map _ = _
    rw [hspells.read]
    rfl
  · refine ⟨of_power d 10 k, ?_, is_finite_of_lt hlt⟩
    rw [List.nil_append, List.dropWhile_cons, dec.is_space_of_is_digit hb]
    simp only [Bool.false_eq_true, if_false]
    split
    · rename_i heq
      cases heq
      exact absurd hb (by decide)
    · rename_i heq
      cases heq
      exact absurd hb (by decide)
    · exact hspells.read

/-- No byte of a number's text is zero. -/
theorem to_text_ne_zero {bits : Nat} {b : UInt8} (h : b ∈ to_text bits) : b ≠ 0 := by
  rcases hfinite : is_finite bits with _ | _
  · unfold to_text at h
    rintro rfl
    simp only [hfinite, Bool.not_false, if_true] at h
    split_ifs at h <;> simp at h
  · obtain ⟨text, d, k, htext, hspells, -⟩ := to_text_finite hfinite
    rw [htext] at h
    rcases List.mem_append.mp h with h | h
    · rintro rfl
      split_ifs at h <;> simp at h
    · exact hspells.bytes b h

end binary64
