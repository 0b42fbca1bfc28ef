-- Numbers of the IEEE 754 binary64 format as their 64 bits: the nearest one to
-- a ratio, the order, and the two directions of the text functions that go
-- through the format: `strtod`, and the shortest text that `std::format` writes.
import Mathlib.Data.Nat.Log
import Edb.Decimal

namespace binary64

/-! ## The format -/

def sign (bits : Nat) : Bool := decide (bits / 2 ^ 63 % 2 = 1)

def exponent (bits : Nat) : Nat := bits / 2 ^ 52 % 2048

def fraction (bits : Nat) : Nat := bits % 2 ^ 52

def infinity : Nat := 2047 * 2 ^ 52

def is_finite (bits : Nat) : Bool := decide (exponent bits ≠ 2047)

def is_nan (bits : Nat) : Bool := decide (exponent bits = 2047 ∧ fraction bits ≠ 0)

/-- The magnitude of a finite number, as a significand and a power of two. -/
def parts (bits : Nat) : Nat × Int :=
  if exponent bits = 0 then (fraction bits, -1074)
  else (2 ^ 52 + fraction bits, (exponent bits : Int) - 1075)

def negate (bits : Nat) : Nat := bits + 2 ^ 63

/-- The bits below the sign count up with the magnitude. -/
def key (bits : Nat) : Int :=
  if sign bits then -((bits % 2 ^ 63 : Nat) : Int) else ((bits % 2 ^ 63 : Nat) : Int)

/-- `<` on numbers. No number is less or greater than one that is not a number,
and the two zeros are equal. -/
def lt (a b : Nat) : Bool := !is_nan a && !is_nan b && decide (key a < key b)

/-! ## Rounding -/

/-- The nearest whole number to a ratio, and the even one of two. -/
def round_half_even (num den : Nat) : Nat :=
  let q := num / den
  let r := num % den
  if 2 * r < den then q
  else if den < 2 * r then q + 1
  else if q % 2 = 0 then q else q + 1

/-- `num / den` divided by `2 ^ e`, as a ratio. -/
def scale (num den : Nat) (e : Int) : Nat × Nat :=
  if 0 ≤ e then (num, den * 2 ^ e.toNat) else (num * 2 ^ (-e).toNat, den)

/-- The positive number that is nearest to a ratio, or infinity. -/
def of_ratio (num den : Nat) : Nat :=
  if num = 0 then 0
  else
    let top := (Nat.log 2 num : Int) - (Nat.log 2 den : Int)
    let reached := scale num den top
    let low := if reached.2 ≤ reached.1 then top - 52 else top - 53
    let e := max low (-1074)
    let scaled := scale num den e
    let m := round_half_even scaled.1 scaled.2
    -- A significand that rounds up to 2^53 carries into the exponent.
    let bits := if m < 2 ^ 52 then m else (e + 1075).toNat * 2 ^ 52 + (m - 2 ^ 52)
    min bits infinity

/-- `m` times a power of `base`. -/
def of_power (m base : Nat) (e : Int) : Nat :=
  if 0 ≤ e then of_ratio (m * base ^ e.toNat) 1 else of_ratio m (base ^ (-e).toNat)

/-! ## Text -/

def is_hex (b : UInt8) : Bool :=
  dec.is_digit b || decide (65 ≤ b.toNat ∧ b.toNat ≤ 70) || decide (97 ≤ b.toNat ∧ b.toNat ≤ 102)

def hex_digit (b : UInt8) : Nat :=
  if dec.is_digit b then b.toNat - 48 else if b.toNat ≤ 70 then b.toNat - 55 else b.toNat - 87

/-- An exponent: one of the two marks, a sign or none, and digits. Where it is
not whole, it is not there. -/
def read_exponent (upper lower : UInt8) : List UInt8 → Int × List UInt8
  | [] => (0, [])
  | mark :: rest =>
    if mark = upper ∨ mark = lower then (dec.read_int rest).getD (0, mark :: rest)
    else (0, mark :: rest)

/-- Digits, and digits after a point. There has to be one digit. -/
def read_mantissa (is_digit : UInt8 → Bool) (bytes : List UInt8) :
    Option (List UInt8 × List UInt8 × List UInt8) :=
  let whole := bytes.takeWhile is_digit
  let rest := bytes.dropWhile is_digit
  match rest with
  | 46 :: after =>
    let part := after.takeWhile is_digit
    if whole.isEmpty && part.isEmpty then none else some (whole, part, after.dropWhile is_digit)
  | _ => if whole.isEmpty then none else some (whole, [], rest)

/-- A decimal number at the front, and the rest. -/
def read_decimal (bytes : List UInt8) : Option (Nat × List UInt8) :=
  (read_mantissa dec.is_digit bytes).map fun (whole, part, rest) =>
    let (e, rest) := read_exponent 69 101 rest
    (of_power (dec.value (whole ++ part)) 10 (e - part.length), rest)

/-- A hexadecimal number at the front, after its `0x`, and the rest. -/
def read_hexadecimal (bytes : List UInt8) : Option (Nat × List UInt8) :=
  (read_mantissa is_hex bytes).map fun (whole, part, rest) =>
    let (e, rest) := read_exponent 80 112 rest
    let m := (whole ++ part).foldl (fun m b => 16 * m + hex_digit b) 0
    (of_power m 2 (e - 4 * part.length), rest)

def read_unsigned : List UInt8 → Option (Nat × List UInt8)
  | 48 :: x :: rest =>
    if x = 88 ∨ x = 120 then
      (read_hexadecimal rest).orElse fun _ => read_decimal (48 :: x :: rest)
    else read_decimal (48 :: x :: rest)
  | bytes => read_decimal bytes

/-- `strtod`: spaces, a sign or none, and a number. Infinities and the values
that are not numbers are not read, since no caller lets one through. -/
def strtod (bytes : List UInt8) : Option (Nat × List UInt8) :=
  match bytes.dropWhile dec.is_space with
  | 45 :: rest => (read_unsigned rest).map fun r => (negate r.1, r.2)
  | 43 :: rest => read_unsigned rest
  | rest => read_unsigned rest

/-- The magnitude of a finite number, as a ratio. -/
def ratio (bits : Nat) : Nat × Nat := scale (parts bits).1 1 (-(parts bits).2)

/-- The two multiples of `10 ^ k` around a magnitude, the nearer one first. -/
def around (bits : Nat) (k : Int) : Nat × Nat :=
  let num := (ratio bits).1 * 10 ^ (-k).toNat
  let den := (ratio bits).2 * 10 ^ k.toNat
  let near := round_half_even num den
  (near, 2 * (num / den) + 1 - near)

/-- The digits at the largest power of ten, from `k` down, at which they are read
as the number. At `10 ^ -1074` every magnitude is a multiple. -/
def shortest (bits : Nat) : Nat → Int → Nat × Int
  | 0, k => ((around bits k).1, k)
  | fuel + 1, k =>
    if of_power (around bits k).1 10 k = bits % 2 ^ 63 then ((around bits k).1, k)
    else if of_power (around bits k).2 10 k = bits % 2 ^ 63 then ((around bits k).2, k)
    else shortest bits fuel (k - 1)

def whole (bits : Nat) : Nat := (ratio bits).1 / (ratio bits).2

def digits (bits : Nat) : Nat × Int :=
  let top := Nat.log 10 (whole bits) + 1
  shortest bits (top + 1074) top

def padded (width n : Nat) : List UInt8 :=
  List.replicate (width - (dec.text n).length) 48 ++ dec.text n

/-- Without an exponent. Digits that end before the point are those of a whole
number, and it is written out. -/
def fixed (bits d : Nat) (k : Int) : List UInt8 :=
  if 0 ≤ k then dec.text (whole bits)
  else
    let places := (-k).toNat
    dec.text (d / 10 ^ places) ++ 46 :: padded places (d % 10 ^ places)

/-- With one digit before the point, and at least two digits in the exponent. -/
def scientific (d : Nat) (k : Int) : List UInt8 :=
  let part := (dec.text d).drop 1
  let e := k + part.length
  (dec.text d).take 1 ++ (if part.isEmpty then [] else 46 :: part) ++
    101 :: (if e < 0 then 45 else 43) :: padded 2 e.natAbs

/-- The `{}` of `std::format`, which `std::to_string` is from C++26 on: of the
texts that are read as the number the shortest, and without an exponent where
both are as short. -/
def to_text (bits : Nat) : List UInt8 :=
  let minus : List UInt8 := if sign bits then [45] else []
  if is_nan bits then minus ++ [110, 97, 110]
  else if !is_finite bits then minus ++ [105, 110, 102]
  else
    let (d, k) := digits bits
    minus ++ if (fixed bits d k).length ≤ (scientific d k).length then fixed bits d k
      else scientific d k

end binary64
