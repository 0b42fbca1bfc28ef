-- Decimal text of numbers: how a number is written, and what a reader that
-- takes an optional sign and a run of digits makes of it. Reading what was
-- written gives the number back and stops right after it.
import Mathlib.Data.Nat.Digits.Defs

namespace dec

def digit (d : Nat) : UInt8 := UInt8.ofNat (48 + d)

def is_digit (b : UInt8) : Bool := decide (48 ≤ b.toNat ∧ b.toNat ≤ 57)

/-- Space, tab, line feed, vertical tab, form feed and carriage return. -/
def is_space (b : UInt8) : Bool := decide (b.toNat = 32 ∨ (9 ≤ b.toNat ∧ b.toNat ≤ 13))

/-- The digits of a number, high digit first and no zero in front. -/
def text (n : Nat) : List UInt8 :=
  if n = 0 then [digit 0] else (Nat.digits 10 n).reverse.map digit

/-- The number that a run of digits spells. -/
def value (digits : List UInt8) : Nat :=
  Nat.ofDigits 10 (digits.reverse.map fun b => b.toNat - 48)

def int_text (i : Int) : List UInt8 :=
  if i < 0 then 45 :: text i.natAbs else text i.natAbs

/-- A run of digits at the front, and the rest. There has to be one digit. -/
def read_nat (bytes : List UInt8) : Option (Nat × List UInt8) :=
  if (bytes.takeWhile is_digit).isEmpty then none
  else some (value (bytes.takeWhile is_digit), bytes.dropWhile is_digit)

/-- A sign or none, a run of digits, and the rest. -/
def read_int : List UInt8 → Option (Int × List UInt8)
  | 45 :: rest => (read_nat rest).map fun r => (-(r.1 : Int), r.2)
  | 43 :: rest => (read_nat rest).map fun r => ((r.1 : Int), r.2)
  | bytes => (read_nat bytes).map fun r => ((r.1 : Int), r.2)

/-! ## Reading what was written -/

theorem toNat_digit {d : Nat} (h : d < 10) : (digit d).toNat = 48 + d := by
  simp [digit]
  omega

theorem is_digit_digit {d : Nat} (h : d < 10) : is_digit (digit d) = true := by
  unfold is_digit
  rw [toNat_digit h]
  simp
  omega

theorem is_digit_of_mem_text {n : Nat} {b : UInt8} (h : b ∈ text n) : is_digit b = true := by
  unfold text at h
  split at h
  · rw [List.mem_singleton] at h
    subst h
    exact is_digit_digit (by decide)
  · rw [List.mem_map] at h
    obtain ⟨d, hd, rfl⟩ := h
    exact is_digit_digit (Nat.digits_lt_base (by decide) (List.mem_reverse.mp hd))

theorem text_ne_nil (n : Nat) : text n ≠ [] := by
  unfold text
  split
  · exact List.cons_ne_nil _ _
  · rename_i hn
    simpa using Nat.digits_ne_nil_iff_ne_zero.mpr hn

theorem value_text (n : Nat) : value (text n) = n := by
  unfold text
  split
  · rename_i hn
    subst hn
    decide
  · unfold value
    rw [← List.map_reverse, List.reverse_reverse, List.map_map]
    have hback : ∀ d ∈ Nat.digits 10 n, ((fun b : UInt8 => b.toNat - 48) ∘ digit) d = d := by
      intro d hd
      have hlt : d < 10 := Nat.digits_lt_base (by decide) hd
      rw [Function.comp_apply, toNat_digit hlt]
      omega
    rw [List.map_congr_left hback, List.map_id', Nat.ofDigits_digits]

/-- A run that `p` holds of ends where `p` stops to hold. -/
theorem takeWhile_run {p : UInt8 → Bool} {run rest : List UInt8} (hrun : ∀ b ∈ run, p b = true)
    (hrest : ∀ b ∈ rest.head?, p b = false) : (run ++ rest).takeWhile p = run := by
  rw [List.takeWhile_append_of_pos hrun]
  cases rest with
  | nil => simp
  | cons b rest => simp [hrest b (by simp)]

theorem dropWhile_run {p : UInt8 → Bool} {run rest : List UInt8} (hrun : ∀ b ∈ run, p b = true)
    (hrest : ∀ b ∈ rest.head?, p b = false) : (run ++ rest).dropWhile p = rest := by
  rw [List.dropWhile_append_of_pos hrun]
  cases rest with
  | nil => simp
  | cons b rest => simp [hrest b (by simp)]

/-- What follows a number has to start with something else than a digit. -/
theorem read_nat_run {run rest : List UInt8} (hne : run ≠ []) (hrun : ∀ b ∈ run, is_digit b = true)
    (h : ∀ b ∈ rest.head?, is_digit b = false) :
    read_nat (run ++ rest) = some (value run, rest) := by
  unfold read_nat
  rw [takeWhile_run hrun h, dropWhile_run hrun h, if_neg (by simpa using hne)]

theorem read_nat_text (n : Nat) {rest : List UInt8} (h : ∀ b ∈ rest.head?, is_digit b = false) :
    read_nat (text n ++ rest) = some (n, rest) := by
  rw [read_nat_run (text_ne_nil n) (fun b hb => is_digit_of_mem_text hb) h, value_text]

theorem read_int_of_digit {b : UInt8} {rest : List UInt8} (h : is_digit b = true) :
    read_int (b :: rest) = (read_nat (b :: rest)).map fun r => ((r.1 : Int), r.2) := by
  have h1 : b ≠ 45 := by rintro rfl; exact absurd h (by decide)
  have h2 : b ≠ 43 := by rintro rfl; exact absurd h (by decide)
  unfold read_int
  split
  · rename_i he
    cases he
    exact absurd rfl h1
  · rename_i he
    cases he
    exact absurd rfl h2
  · rfl

theorem read_int_text (n : Nat) {rest : List UInt8} (h : ∀ b ∈ rest.head?, is_digit b = false) :
    read_int (text n ++ rest) = some ((n : Int), rest) := by
  rcases htext : text n with _ | ⟨b, ds⟩
  · exact absurd htext (text_ne_nil n)
  · have hb : is_digit b = true := is_digit_of_mem_text (htext ▸ List.mem_cons_self)
    rw [List.cons_append, read_int_of_digit hb, ← List.cons_append, ← htext, read_nat_text n h]
    rfl

theorem read_int_int_text (i : Int) {rest : List UInt8}
    (h : ∀ b ∈ rest.head?, is_digit b = false) : read_int (int_text i ++ rest) = some (i, rest) := by
  unfold int_text
  split
  · rename_i hi
    have hread : read_int (45 :: (text i.natAbs ++ rest)) =
        (read_nat (text i.natAbs ++ rest)).map fun r => (-(r.1 : Int), r.2) := rfl
    have habs : -(i.natAbs : Int) = i := by omega
    rw [List.cons_append, hread, read_nat_text _ h, Option.map_some, habs]
  · rename_i hi
    have habs : (i.natAbs : Int) = i := by omega
    rw [read_int_text _ h, habs]

theorem is_space_of_is_digit {b : UInt8} (h : is_digit b = true) : is_space b = false := by
  unfold is_digit at h
  unfold is_space
  simp only [decide_eq_true_eq, decide_eq_false_iff_not] at h ⊢
  omega

/-- A number does not start with a space. -/
theorem dropWhile_int_text (i : Int) (rest : List UInt8) :
    (int_text i ++ rest).dropWhile is_space = int_text i ++ rest := by
  unfold int_text
  split
  · rfl
  · rcases htext : text i.natAbs with _ | ⟨b, ds⟩
    · exact absurd htext (text_ne_nil _)
    · have hb : is_digit b = true := is_digit_of_mem_text (htext ▸ List.mem_cons_self)
      rw [List.cons_append, List.dropWhile_cons, is_space_of_is_digit hb]
      rfl

end dec
