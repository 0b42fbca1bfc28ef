-- Types and their registry (src/types/registry.cpp, src/types/builtin_types.cpp).
-- A type is a name, a size, and three functions on bytes: from text, to text
-- and compare. The registry gives out oids from 1 on.
import Mathlib.Data.Int.ModEq
import Edb.Binary64
import Edb.LittleEndian
import Edb.StorageIO

namespace edb

/-- `Type` of the source. Its `hash` is called nowhere and left out. -/
structure DataType where
  oid : Nat := 0
  name : Bytes
  fixed_size : Option Nat
  from_text : Bytes → Result Bytes
  to_text : Bytes → Bytes
  compare : Bytes → Bytes → Ordering

structure TypeRegistry where
  types : List DataType := []
  next_oid : Nat := 1

namespace TypeRegistry

def lookup_name (registry : TypeRegistry) (name : Bytes) : Result DataType :=
  match registry.types.find? fun t => t.name == name with
  | none => .error .NotFound
  | some t => .ok t

def lookup (registry : TypeRegistry) (oid : Nat) : Result DataType :=
  match registry.types.find? fun t => t.oid == oid with
  | none => .error .NotFound
  | some t => .ok t

def register_type_impl (registry : TypeRegistry) (type : DataType) : Result TypeRegistry :=
  if type.name.isEmpty then .error .InvalidArgument
  else if registry.types.any fun t => t.name == type.name then .error .AlreadyExists
  else .ok {
    types := registry.types ++ [{ type with oid := registry.next_oid }]
    next_oid := registry.next_oid + 1 }

end TypeRegistry

/-! ## Integers -/

/-- `std::bit_cast` of a signed number of `8 * n` bits to an unsigned one. -/
def to_unsigned (n : Nat) (v : Int) : Nat := (v % 256 ^ n).toNat

/-- `std::bit_cast` back. -/
def to_signed (n : Nat) (u : Nat) : Int := (u : Int).bmod (256 ^ n)

/-- The numbers that a signed type of `n` bytes holds. -/
def fits_signed (n : Nat) (v : Int) : Bool :=
  decide (-(256 ^ n / 2 : Int) ≤ v ∧ v < (256 ^ n / 2 : Int))

/-- The extraction of a number from a string stream, up to spaces at the end. -/
def parse_signed_fixed (n : Nat) (text : Bytes) : Result Bytes :=
  match dec.read_int (text.dropWhile dec.is_space) with
  | none => .error .InvalidArgument
  | some (parsed, rest) =>
    if !fits_signed n parsed then .error .InvalidArgument
    else if !rest.all dec.is_space then .error .InvalidArgument
    else .ok (le.encode n (to_unsigned n parsed))

def decode_signed_fixed (n : Nat) (bytes : Bytes) : Result Int :=
  if bytes.length ≠ n then .error .InvalidArgument
  else .ok (to_signed n (le.decode bytes))

def signed_to_text (n : Nat) (bytes : Bytes) : Bytes :=
  match decode_signed_fixed n bytes with
  | .error _ => []
  | .ok decoded => dec.int_text decoded

def signed_compare (n : Nat) (lhs rhs : Bytes) : Ordering :=
  match decode_signed_fixed n lhs, decode_signed_fixed n rhs with
  | .ok left, .ok right => compare left right
  | _, _ => .eq

/-- The two integer types differ in name and size only. -/
def signed_type (name : Bytes) (n : Nat) : DataType where
  name := name
  fixed_size := some n
  from_text := parse_signed_fixed n
  to_text := signed_to_text n
  compare := signed_compare n

def Int32Type : DataType := signed_type (str "int32") 4

def Int64Type : DataType := signed_type (str "int64") 8

/-! ## Floats, booleans and text -/

/-- A C string ends at its first zero byte. -/
def c_str (text : Bytes) : Bytes := text.takeWhile fun b => decide (b ≠ 0)

/-- Where nothing is converted, `strtod` gives zero and stops at the start, so
the empty text is zero. -/
def float64_from_text (text : Bytes) : Result Bytes :=
  let (parsed, parse_end) := (binary64.strtod (c_str text)).getD (0, c_str text)
  if !parse_end.isEmpty || !binary64.is_finite parsed then .error .InvalidArgument
  else .ok (le.encode 8 parsed)

def float64_to_text (bytes : Bytes) : Bytes :=
  if bytes.length ≠ 8 then [] else binary64.to_text (le.decode bytes)

def float64_compare (lhs rhs : Bytes) : Ordering :=
  if lhs.length ≠ 8 ∨ rhs.length ≠ 8 then .eq
  else if binary64.lt (le.decode lhs) (le.decode rhs) then .lt
  else if binary64.lt (le.decode rhs) (le.decode lhs) then .gt
  else .eq

def Float64Type : DataType where
  name := str "float64"
  fixed_size := some 8
  from_text := float64_from_text
  to_text := float64_to_text
  compare := float64_compare

def bool_from_text (text : Bytes) : Result Bytes :=
  if text = str "true" then .ok [1]
  else if text = str "false" then .ok [0]
  else .error .InvalidArgument

def bool_to_text : Bytes → Bytes
  | [b] => if b = 0 then str "false" else str "true"
  | _ => []

def bool_compare : Bytes → Bytes → Ordering
  | [l], [r] => compare l.toNat r.toNat
  | _, _ => .eq

def BoolType : DataType where
  name := str "bool"
  fixed_size := some 1
  from_text := bool_from_text
  to_text := bool_to_text
  compare := bool_compare

/-- The order of `std::string`: by bytes without sign, a front part first. -/
def text_compare : Bytes → Bytes → Ordering
  | [], [] => .eq
  | [], _ :: _ => .lt
  | _ :: _, [] => .gt
  | l :: ls, r :: rs => (compare l.toNat r.toNat).then (text_compare ls rs)

def TextType : DataType where
  name := str "text"
  fixed_size := none
  from_text := fun text => .ok text
  to_text := fun bytes => bytes
  compare := text_compare

def register_builtin_types (registry : TypeRegistry) : Result TypeRegistry := do
  let registry ← registry.register_type_impl Int32Type
  let registry ← registry.register_type_impl Int64Type
  let registry ← registry.register_type_impl Float64Type
  let registry ← registry.register_type_impl BoolType
  registry.register_type_impl TextType

/-! ## The builtin types -/

/-- The five builtin types, each under its own number. -/
inductive Builtin where
  | int32
  | int64
  | float64
  | bool
  | text
  deriving DecidableEq, Repr

namespace Builtin

def oid : Builtin → Nat
  | int32 => 1
  | int64 => 2
  | float64 => 3
  | bool => 4
  | text => 5

def all : List Builtin := [int32, int64, float64, bool, text]

/-- The type as the registry holds it. -/
def type (t : Builtin) : DataType :=
  { (match t with
    | int32 => Int32Type
    | int64 => Int64Type
    | float64 => Float64Type
    | bool => BoolType
    | text => TextType) with oid := t.oid }

end Builtin

/-- What `register_builtin_types` makes of an empty registry. -/
def builtin_registry : TypeRegistry := { types := Builtin.all.map Builtin.type, next_oid := 6 }

theorem register_builtin_types_eq : register_builtin_types {} = .ok builtin_registry := rfl

theorem lookup_builtin (t : Builtin) : builtin_registry.lookup t.oid = .ok t.type := by
  cases t <;> rfl

theorem lookup_name_builtin (t : Builtin) :
    builtin_registry.lookup_name t.type.name = .ok t.type := by
  cases t <;> rfl

/-- Every type that the registry finds is one of the five. -/
theorem builtin_of_lookup {oid : Nat} {type : DataType}
    (h : builtin_registry.lookup oid = .ok type) : ∃ t : Builtin, oid = t.oid ∧ type = t.type := by
  unfold TypeRegistry.lookup at h
  split at h
  · cases h
  · rename_i hf
    cases h
    have hmem := List.mem_of_find?_eq_some hf
    have hoid : type.oid = oid := by simpa using List.find?_some hf
    obtain ⟨t, -, rfl⟩ := List.mem_map.mp hmem
    refine ⟨t, ?_, rfl⟩
    rw [← hoid]
    cases t <;> rfl

/-! ## Integers through text -/

/-- The bytes of a number. -/
def signed_bytes (n : Nat) (v : Int) : Bytes := le.encode n (to_unsigned n v)

@[simp] theorem length_signed_bytes (n : Nat) (v : Int) : (signed_bytes n v).length = n :=
  le.length_encode _ _

theorem to_unsigned_lt (n : Nat) (v : Int) : to_unsigned n v < 256 ^ n := by
  have hpos : (0 : Int) < 256 ^ n := Int.pow_pos (by decide)
  unfold to_unsigned
  have h1 := Int.emod_nonneg v (show (256 ^ n : Int) ≠ 0 by omega)
  have h2 := Int.emod_lt_of_pos v hpos
  have h3 : ((256 ^ n : Nat) : Int) = 256 ^ n := by simp
  omega

theorem to_signed_to_unsigned {n : Nat} {v : Int} (h : fits_signed n v = true) :
    to_signed n (to_unsigned n v) = v := by
  have hpos : (0 : Int) < 256 ^ n := Int.pow_pos (by decide)
  have hcast : ((256 ^ n : Nat) : Int) = 256 ^ n := by simp
  unfold fits_signed at h
  rw [decide_eq_true_eq] at h
  unfold to_signed to_unsigned
  rw [Int.toNat_of_nonneg (Int.emod_nonneg _ (by omega)), ← hcast, Int.emod_bmod]
  exact Int.bmod_eq_of_le (by omega) (by omega)

theorem decode_signed_bytes {n : Nat} {v : Int} (h : fits_signed n v = true) :
    decode_signed_fixed n (signed_bytes n v) = .ok v := by
  unfold decode_signed_fixed
  rw [if_neg (by simp)]
  unfold signed_bytes
  rw [le.decode_encode_of_lt (to_unsigned_lt n v), to_signed_to_unsigned h]

theorem signed_to_text_bytes {n : Nat} {v : Int} (h : fits_signed n v = true) :
    signed_to_text n (signed_bytes n v) = dec.int_text v := by
  unfold signed_to_text
  rw [decode_signed_bytes h]

/-- A number in range that is written out is read back. -/
theorem parse_int_text {n : Nat} {v : Int} (h : fits_signed n v = true) :
    parse_signed_fixed n (dec.int_text v) = .ok (signed_bytes n v) := by
  have hspace := dec.dropWhile_int_text v []
  have hread := dec.read_int_int_text v (show ∀ b ∈ ([] : Bytes).head?, dec.is_digit b = false by simp)
  rw [List.append_nil] at hspace hread
  unfold parse_signed_fixed
  rw [hspace, hread]
  simp only [h, Bool.not_true, Bool.false_eq_true, if_false, List.all_nil]
  rfl

/-- A text that is taken gives the bytes of a number in range. -/
theorem parse_signed_fixed_ok {n : Nat} {text bytes : Bytes}
    (h : parse_signed_fixed n text = .ok bytes) :
    ∃ v, fits_signed n v = true ∧ bytes = signed_bytes n v := by
  unfold parse_signed_fixed at h
  split at h
  · cases h
  · rename_i v rest hread
    split at h
    · cases h
    · rename_i hfits
      split at h
      · cases h
      · cases h
        exact ⟨v, by simpa using hfits, rfl⟩

theorem length_of_signed {n : Nat} {text bytes : Bytes}
    (h : parse_signed_fixed n text = .ok bytes) : bytes.length = n := by
  obtain ⟨v, -, rfl⟩ := parse_signed_fixed_ok h
  exact length_signed_bytes n v

/-! ## The sizes of what is made of a text -/

theorem bytes_of_bool {text bytes : Bytes} (h : Builtin.bool.type.from_text text = .ok bytes) :
    bytes = [1] ∨ bytes = [0] := by
  have h : bool_from_text text = .ok bytes := h
  unfold bool_from_text at h
  split at h
  · cases h
    exact Or.inl rfl
  · split at h
    · cases h
      exact Or.inr rfl
    · cases h

theorem Builtin.length_from_text {t : Builtin} {text bytes : Bytes} {size : Nat}
    (h : t.type.from_text text = .ok bytes) (hsize : t.type.fixed_size = some size) :
    bytes.length = size := by
  cases t with
  | int32 =>
    cases hsize
    exact length_of_signed h
  | int64 =>
    cases hsize
    exact length_of_signed h
  | float64 =>
    cases hsize
    have h : float64_from_text text = .ok bytes := h
    unfold float64_from_text at h
    dsimp only at h
    split at h
    · cases h
    · cases h
      exact le.length_encode _ _
  | bool =>
    cases hsize
    rcases bytes_of_bool h with rfl | rfl <;> rfl
  | text => cases hsize

end edb
