-- What the binder makes of an expression. Where the catalog knows the builtin
-- types, `bind_expr` gives the value of a pure function: a literal is bound to
-- its own type, and where the types of a comparison differ, a literal is bound
-- again to the type of the other side. The first of the two binds may fail
-- where the second one would not.
import Edb.Binary64Laws
import Edb.Typing

namespace edb

open Call

/-! ## Types by name -/

/-- The builtin type as the binder refers to it. -/
def Builtin.ref (t : Builtin) : BoundTypeRef := ⟨t.oid, t.type.name, none⟩

theorem Builtin.oid_inj {t u : Builtin} (h : t.oid = u.oid) : t = u := by
  cases t <;> cases u <;> first | rfl | cases h

/-- After whatever was looked up, the catalog knows the builtin types under the
oids that the registry has for them. -/
def Catalog.NamesTypes : CatalogState → Prop :=
  Throughout fun s => ∀ t : Builtin, (get_type t.type.name).wp
    (fun found _ => found.oid = t.oid ∧ found.name = t.type.name) (fun _ _ => False) s

theorem names_types_of_holds {c : Setup} {a : CatalogModel} {s : CatalogState}
    (hc : HoldsCatalog c a s) (ho : a.opened = true) : Catalog.NamesTypes s := by
  intro ops hops t
  have hfound : a.get_type t.type.name = .ok ⟨t.oid, t.type.name, t.type.fixed_size⟩ := by
    unfold CatalogModel.get_type
    rw [ho]
    cases t <;> rfl
  refine wp_mono (Catalog.get_type.spec (holds_after_lookups hc ops hops) _) (fun found s' h => ?_)
    fun e s' h => ?_
  · rw [hfound] at h
    obtain ⟨⟨rfl⟩, -⟩ := h
    exact ⟨rfl, rfl⟩
  · rw [hfound] at h
    cases h.1

/-- While a client inserts into no system table, the catalog knows the builtin types. -/
theorem names_types_after (c : Setup) (ops : List SqlOp) (hplain : ∀ op ∈ ops, op.Plain)
    (hsmall : (History.of ops).Small) : Catalog.NamesTypes (SqlOp.after c ops).catalog := by
  obtain ⟨a, hc, hgrown⟩ := kept_after c ops hplain hsmall
  exact names_types_of_holds hc hgrown.opened

/-! ## The pure model -/

namespace Literal

/-- The type that a literal has by itself. -/
def own_type : Literal → Option Builtin
  | .IntLiteral _ => some .int64
  | .FloatLiteral _ => some .float64
  | .StrLiteral _ => some .text
  | .BoolLiteral _ => some .bool
  | .NullLiteral => none

/-- The literal as a value of a type. A NULL is one of every type. -/
def coerced (literal : Literal) (type : BoundTypeRef) : Option BoundLiteral :=
  match literal_text literal with
  | none => some ⟨type, ⟨type.oid, [], true⟩⟩
  | some text =>
    match builtin_registry.lookup type.oid with
    | .error _ => none
    | .ok found =>
      match found.from_text text with
      | .error _ => none
      | .ok bytes => some ⟨type, ⟨type.oid, bytes, false⟩⟩

/-- The literal as a value of its own type. -/
def own (literal : Literal) : Option BoundLiteral :=
  literal.own_type.bind fun t => literal.coerced t.ref

end Literal

/-- The two sides of a comparison after they are brought to one type. -/
def sides (left right : Expr) (bind_left bind_right : Option BoundTypeRef → Option BoundExpr) :
    Option (BoundExpr × BoundExpr) :=
  (bind_left none).bind fun l => (bind_right none).bind fun r =>
    if (bound_expr_type l).oid = (bound_expr_type r).oid then some (l, r)
    else if left.is_literal then (bind_left (some (bound_expr_type r))).map fun l' => (l', r)
    else if right.is_literal then (bind_right (some (bound_expr_type l))).map fun r' => (l, r')
    else none

def bound_binary (op : BinaryOp) (left right : Expr)
    (bind_left bind_right : Option BoundTypeRef → Option BoundExpr) : Option BoundExpr :=
  if op = .And ∨ op = .Or then
    (bind_left none).bind fun l => (bind_right none).bind fun r =>
      if is_bool_expr l Builtin.bool.ref && is_bool_expr r Builtin.bool.ref then
        some (.binary op l r Builtin.bool.ref)
      else none
  else (sides left right bind_left bind_right).map fun p => .binary op p.1 p.2 Builtin.bool.ref

/-- What an expression over the columns of a table is bound to. -/
def Expr.bound_as (table : BoundTableRef) : Expr → Option BoundTypeRef → Option BoundExpr
  | .literal value, none => value.own.map .literal
  | .literal value, some type => (value.coerced type).map .literal
  | .column_ref name, _ => (table.columns.find? fun column =>
      normalized_column_name column.name == normalized_column_name name).map .column
  | .binary op left right, _ => bound_binary op left right (left.bound_as table) (right.bound_as table)

/-! ## The binder computes the model -/

theorem Literal.coerced_type {literal : Literal} {type : BoundTypeRef} {bound : BoundLiteral}
    (h : literal.coerced type = some bound) : bound.type = type := by
  unfold coerced at h
  split at h
  · cases h
    rfl
  · split at h
    · cases h
    · split at h
      · cases h
      · cases h
        rfl

/-- What a literal is bound to has the type that it is wanted as. -/
theorem Expr.bound_type {table : BoundTableRef} {e : Expr} (he : e.is_literal = true)
    {type : BoundTypeRef} {bound : BoundExpr} (h : e.bound_as table (some type) = some bound) :
    bound_expr_type bound = type := by
  cases e with
  | literal value =>
    obtain ⟨l, hl, rfl⟩ := Option.map_eq_some_iff.mp h
    exact Literal.coerced_type hl
  | column_ref name => cases he
  | binary op left right => cases he

namespace Binder

/-- The catalog of a binder knows the builtin types. -/
def NamesTypes : Binder → Prop := Holds Catalog.NamesTypes

theorem names_types_of_catalog {s : CatalogState} {last_error : Bytes}
    (hs : Catalog.NamesTypes s) : NamesTypes ⟨s, last_error⟩ := hs

theorem bind_err_gives {α : Type} (msg : Bytes) (e : Error) :
    (bind_err msg e : Call Error Binder α).Gives NamesTypes none := by
  intro b hb
  unfold bind_err
  rw [wp_bind, wp_modify]
  exact (wp_fail _).mpr ⟨rfl, hb⟩

theorem lookup_builtin_gives (t : Builtin) :
    (lookup_type_name t.type.name).Gives NamesTypes (some t.ref) := by
  intro b hb
  have hkeeps := lookup_type_name_keeps (Catalog.throughout_kept _) t.type.name b hb
  have hfound : (lookup_type_name t.type.name).wp (fun type _ => type = t.ref)
      (fun _ _ => False) b := by
    unfold lookup_type_name on_catalog
    rw [wp_bind, wp_attempt, wp_zoom]
    refine wp_mono (hb [] (by simp) t) (fun found s h => ?_) fun _ _ h => h.elim
    refine (wp_pure _).mpr ?_
    rw [h.1, h.2]
    rfl
  exact wp_mono (wp_and hfound hkeeps) (fun type b' h => ⟨congrArg some h.1.symm, h.2⟩)
    fun _ _ h => h.1.elim

theorem coerce_gives (literal : Literal) (type : BoundTypeRef) :
    (coerce_literal_to_type builtin_registry literal type true).Gives NamesTypes
      (literal.coerced type) := by
  unfold coerce_literal_to_type Literal.coerced
  rcases literal_text literal with _ | text
  · exact gives_pure _
  · rcases builtin_registry.lookup type.oid with e | found
    · exact gives_fail _
    · dsimp only
      rcases found.from_text text with e | bytes
      · exact bind_err_gives _ _
      · exact gives_pure _

theorem infer_literal_type_gives (literal : Literal) :
    (infer_literal_type literal).Gives NamesTypes (literal.own_type.map Builtin.ref) := by
  cases literal with
  | IntLiteral value => exact lookup_builtin_gives .int64
  | FloatLiteral value => exact lookup_builtin_gives .float64
  | StrLiteral value => exact lookup_builtin_gives .text
  | BoolLiteral value => exact lookup_builtin_gives .bool
  | NullLiteral => exact bind_err_gives _ _

theorem wanted_type_gives (literal : Literal) (target : Option BoundTypeRef) :
    (wanted_type literal target).Gives NamesTypes
      (target.or (literal.own_type.map Builtin.ref)) := by
  cases target with
  | some type => exact gives_pure _
  | none => exact infer_literal_type_gives literal

theorem bind_literal_gives (literal : Literal) (target : Option BoundTypeRef) :
    (bind_literal builtin_registry literal target true).Gives NamesTypes
      ((target.or (literal.own_type.map Builtin.ref)).bind literal.coerced) := by
  refine (wanted_type_gives literal target).bind (fun h => by rw [h]; rfl) fun type h => ?_
  rw [h]
  exact coerce_gives literal type

variable {I : Binder → Prop}

/-- A side that is bound again, or not. -/
theorem rebind_gives {again : Bool} {x : Option BoundTypeRef → Call Error Binder BoundExpr}
    {f : Option BoundTypeRef → Option BoundExpr} (hx : ∀ target, (x target).Gives I (f target))
    (type : BoundTypeRef) (bound : BoundExpr) :
    (rebind again x type bound).Gives I (if again then f (some type) else some bound) := by
  unfold rebind
  split
  · exact hx _
  · exact gives_pure _

section

variable {op : BinaryOp} {left right : Expr}
  {bind_left bind_right : Option BoundTypeRef → Call Error Binder BoundExpr}
  {f g : Option BoundTypeRef → Option BoundExpr}

/-- A literal side is bound to the type that it is wanted as. -/
def Obeys (e : Expr) (f : Option BoundTypeRef → Option BoundExpr) : Prop :=
  e.is_literal = true → ∀ type bound, f (some type) = some bound → bound_expr_type bound = type

theorem bind_binary_gives (hl : ∀ target, (bind_left target).Gives NamesTypes (f target))
    (hr : ∀ target, (bind_right target).Gives NamesTypes (g target)) (hleft : Obeys left f)
    (hright : Obeys right g) :
    (bind_binary_expr op left right bind_left bind_right).Gives NamesTypes
      (bound_binary op left right f g) := by
  unfold bind_binary_expr bound_binary sides
  refine (lookup_builtin_gives .bool).bind nofun fun bool_type hbool => ?_
  cases hbool
  refine (hl none).bind (fun h => by simp [h]) fun l hl0 => ?_
  refine (hr none).bind (fun h => by simp [h]) fun r hr0 => ?_
  simp only [hl0, hr0, Option.bind_some]
  split
  · by_cases hbools : (is_bool_expr l Builtin.bool.ref && is_bool_expr r Builtin.bool.ref) = true
    · rw [if_pos hbools, if_neg (by simpa using hbools)]
      exact gives_pure _
    · rw [if_neg hbools, if_pos (by simpa [← Bool.not_and] using hbools)]
      exact bind_err_gives _ _
  · by_cases hsame : (bound_expr_type l).oid = (bound_expr_type r).oid
    · -- nothing is bound again
      refine (rebind_gives hl _ l).bind (by simp [hsame]) fun l' hl' => ?_
      simp only [hsame, bne_self_eq_false, Bool.false_and, Bool.false_eq_true, if_false,
        Option.some.injEq] at hl'
      subst hl'
      refine (rebind_gives hr _ r).bind (by simp [hsame]) fun r' hr' => ?_
      simp only [hsame, bne_self_eq_false, Bool.false_and, Bool.false_eq_true, if_false,
        Option.some.injEq] at hr'
      subst hr'
      rw [if_pos hsame, if_neg (not_not.mpr hsame)]
      exact gives_pure _
    · have hdiffer : ((bound_expr_type l).oid != (bound_expr_type r).oid) = true := by
        simpa using hsame
      rw [if_neg hsame, hdiffer]
      cases hlit : left.is_literal with
      | true =>
        refine (rebind_gives hl _ l).bind (fun h => ?_) fun l' hl' => ?_
        · rw [if_pos (by rfl)] at h
          rw [if_pos rfl, h]
          rfl
        · rw [if_pos (by rfl)] at hl'
          refine (gives_pure r).bind nofun fun r' hr' => ?_
          cases hr'
          have htype : bound_expr_type l' = bound_expr_type r := hleft hlit _ _ hl'
          rw [if_pos rfl, hl', if_neg (by rw [htype]; simp)]
          exact gives_pure _
      | false =>
        refine (gives_pure l).bind nofun fun l' hl' => ?_
        cases hl'
        rw [if_neg (by simp)]
        cases hrit : right.is_literal with
        | true =>
          refine (rebind_gives hr _ r).bind (fun h => ?_) fun r' hr' => ?_
          · rw [if_pos (by rfl)] at h
            rw [if_pos rfl, h]
            rfl
          · rw [if_pos (by rfl)] at hr'
            have htype : bound_expr_type r' = bound_expr_type l := hright hrit _ _ hr'
            rw [if_pos rfl, hr', if_neg (by rw [htype]; simp)]
            exact gives_pure _
        | false =>
          refine (gives_pure r).bind nofun fun r' hr' => ?_
          cases hr'
          rw [if_pos hsame, if_neg Bool.false_ne_true]
          exact bind_err_gives _ _

end

theorem bind_expr_gives (table : BoundTableRef) (e : Expr) (target : Option BoundTypeRef) :
    (bind_expr builtin_registry table e target).Gives NamesTypes (e.bound_as table target) := by
  induction e generalizing target with
  | literal value =>
    have hvalue : (Expr.literal value).bound_as table target =
        ((target.or (value.own_type.map Builtin.ref)).bind value.coerced).map .literal := by
      cases target with
      | some type => rfl
      | none =>
        unfold Expr.bound_as Literal.own
        cases value.own_type <;> rfl
    rw [hvalue]
    refine (bind_literal_gives value target).bind (fun h => by rw [h]; rfl) fun bound h => ?_
    rw [h]
    exact gives_pure _
  | column_ref name =>
    unfold bind_expr bind_column_ref Expr.bound_as
    rcases table.columns.find? _ with _ | column
    · exact (bind_err_gives _ _).bind (fun _ => rfl) fun _ h => by cases h
    · exact (gives_pure column).bind (fun h => by cases h) fun _ h => by
        cases h; exact gives_pure _
  | binary op left right ihl ihr =>
    exact bind_binary_gives ihl ihr (fun h _ _ => Expr.bound_type h) fun h _ _ => Expr.bound_type h

end Binder

/-! ## A column and a literal -/

theorem literal_bound_none (table : BoundTableRef) (literal : Literal) :
    (Expr.literal literal).bound_as table none = literal.own.map .literal := rfl

theorem literal_bound_some (table : BoundTableRef) (literal : Literal) (type : BoundTypeRef) :
    (Expr.literal literal).bound_as table (some type) = (literal.coerced type).map .literal := rfl

/-- Every column of a table that was bound has a builtin type. -/
theorem column_type_builtin {relation_oid : Nat} {schema : List ColumnSchema}
    {columns : List BoundColumnRef}
    (hcolumns : Binder.bind_columns builtin_registry relation_oid 0 schema = .ok columns)
    {column : BoundColumnRef} (hmem : column ∈ columns) : ∃ t : Builtin, column.type = t.ref := by
  obtain ⟨i, hi, rfl⟩ := List.mem_iff_getElem.mp hmem
  have hall := (bind_columns_eq hcolumns).1
  have hb := hall.get (i := i) (by rw [hall.length_eq]; exact hi) hi
  obtain ⟨found, hlook, htype⟩ := lookup_type_oid_ok hb.2.2
  obtain ⟨t, ht, rfl⟩ := builtin_of_lookup hlook
  refine ⟨t, ?_⟩
  rw [List.get_eq_getElem] at htype
  rw [htype, ht]
  rfl

namespace Literal

/-- An integer is one of 64 bits. -/
def Fits : Literal → Prop
  | .IntLiteral value => fits_signed 8 value = true
  | _ => True

/-- A float that is infinite or not a number. -/
def NonFinite : Literal → Prop
  | .FloatLiteral value => binary64.is_finite value = false
  | _ => False

theorem coerced_ref {literal : Literal} {text : Bytes} (h : literal_text literal = some text)
    (t : Builtin) : literal.coerced t.ref =
      match t.type.from_text text with
      | .error _ => none
      | .ok bytes => some ⟨t.ref, ⟨t.oid, bytes, false⟩⟩ := by
  unfold coerced
  rw [h]
  simp only [show t.ref.oid = t.oid from rfl, lookup_builtin]

theorem own_ok {literal : Literal} {t : Builtin} {text bytes : Bytes}
    (ht : literal.own_type = some t) (htext : literal_text literal = some text)
    (hbytes : t.type.from_text text = .ok bytes) :
    literal.own = some ⟨t.ref, ⟨t.oid, bytes, false⟩⟩ := by
  unfold own
  rw [ht, Option.bind_some, coerced_ref htext, hbytes]

theorem float64_from_text_to_text {bits : Nat} (h : binary64.is_finite bits = true) :
    ∃ bytes, float64_from_text (binary64.to_text bits) = .ok bytes := by
  obtain ⟨back, hread, hfinite⟩ := binary64.strtod_to_text h
  have hc : c_str (binary64.to_text bits) = binary64.to_text bits := by
    unfold c_str
    refine List.takeWhile_eq_self_iff.mpr fun b hb => ?_
    simpa using binary64.to_text_ne_zero hb
  refine ⟨le.encode 8 back, ?_⟩
  unfold float64_from_text
  rw [hc, hread]
  simp [hfinite]

/-- A literal is a value of its own type, except for NULL and a float that is
not finite. -/
theorem own_isSome {literal : Literal} (hfits : literal.Fits) (hnull : literal ≠ .NullLiteral)
    (hfinite : ¬ literal.NonFinite) : ∃ bound, literal.own = some bound := by
  cases literal with
  | IntLiteral value => exact ⟨_, own_ok rfl rfl (parse_int_text hfits)⟩
  | FloatLiteral value =>
    have hvalue : binary64.is_finite value = true := by simpa [NonFinite] using hfinite
    obtain ⟨bytes, hbytes⟩ := float64_from_text_to_text hvalue
    exact ⟨_, own_ok rfl rfl hbytes⟩
  | StrLiteral value => exact ⟨_, own_ok rfl rfl rfl⟩
  | NullLiteral => exact absurd rfl hnull
  | BoolLiteral value => cases value <;> exact ⟨_, own_ok rfl rfl rfl⟩

theorem to_text_of_not_finite {bits : Nat} (h : binary64.is_finite bits = false) :
    binary64.to_text bits ∈ [str "nan", str "-nan", str "inf", str "-inf"] := by
  unfold binary64.to_text
  simp only [h, Bool.not_false, if_true]
  cases binary64.sign bits <;> cases binary64.is_nan bits <;> decide

/-- A float that is not finite is a value of no type but `text`. -/
theorem coerced_of_not_finite {literal : Literal} (h : literal.NonFinite) {t : Builtin}
    (ht : t ≠ .text) : literal.coerced t.ref = none := by
  cases literal with
  | FloatLiteral value =>
    rw [coerced_ref rfl]
    have hno : ∀ text ∈ [str "nan", str "-nan", str "inf", str "-inf"], ∀ u ∈ Builtin.all, u ≠ .text →
        u.type.from_text text = .error .InvalidArgument := by decide
    rw [hno _ (to_text_of_not_finite h) t (by cases t <;> decide) ht]
  | _ => exact h.elim

theorem own_of_not_finite {literal : Literal} (h : literal.NonFinite) : literal.own = none := by
  cases literal with
  | FloatLiteral value => exact coerced_of_not_finite (t := .float64) h (by decide)
  | _ => exact h.elim

/-- Where a literal has the wanted type by itself, it is that value of it. -/
theorem own_coerced {literal : Literal} {bound : BoundLiteral} {t : Builtin}
    (h : literal.own = some bound) (hsame : bound.type.oid = t.oid) :
    literal.coerced t.ref = some bound := by
  obtain ⟨u, hu, hcoerced⟩ := Option.bind_eq_some_iff.mp h
  rw [coerced_type hcoerced] at hsame
  rw [← Builtin.oid_inj hsame, hcoerced]

/-- The literal has no type of its own, or is no value of it. -/
def Misfits (literal : Literal) (column : BoundColumnRef) : Prop :=
  literal = .NullLiteral ∨ literal.NonFinite ∧ column.type.oid = Builtin.text.oid

/-- The first bind changes nothing exactly where the literal does not misfit. -/
theorem own_then_coerced_iff {literal : Literal} (hfits : literal.Fits) {column : BoundColumnRef}
    {t : Builtin} (ht : column.type = t.ref) :
    (literal.own.bind fun _ => literal.coerced t.ref) = literal.coerced t.ref ↔
      ¬ literal.Misfits column := by
  constructor
  · rintro h (rfl | ⟨hinf, hoid⟩)
    · cases h
    · rw [ht] at hoid
      cases Builtin.oid_inj (u := .text) hoid
      rw [own_of_not_finite hinf] at h
      cases literal with
      | FloatLiteral value => cases h
      | _ => exact hinf.elim
  · intro h
    unfold Misfits at h
    rw [not_or] at h
    by_cases hinf : literal.NonFinite
    · rw [own_of_not_finite hinf, coerced_of_not_finite hinf]
      · rfl
      · rintro rfl
        exact h.2 ⟨hinf, by rw [ht]; rfl⟩
    · obtain ⟨bound, hown⟩ := own_isSome hfits h.1 hinf
      rw [hown]
      rfl

end Literal

theorem bound_comparison {op : BinaryOp} (hop : op ≠ .And ∧ op ≠ .Or) (table : BoundTableRef)
    (left right : Expr) (target : Option BoundTypeRef) :
    (Expr.binary op left right).bound_as table target =
      (sides left right (left.bound_as table) (right.bound_as table)).map
        fun p => .binary op p.1 p.2 Builtin.bool.ref := by
  show bound_binary op left right _ _ = _
  unfold bound_binary
  rw [if_neg (not_or.mpr hop)]

section

variable {table : BoundTableRef} {e : Expr} {x : BoundExpr} {t : Builtin}

/-- A literal goes with the type of the other side, wherever it stands. -/
theorem sides_literal_right (he : e.is_literal = false) (hx : e.bound_as table none = some x)
    (ht : bound_expr_type x = t.ref) (literal : Literal) :
    sides e (.literal literal) (e.bound_as table) ((Expr.literal literal).bound_as table) =
      (literal.own.bind fun _ => literal.coerced t.ref).map fun l => (x, .literal l) := by
  unfold sides
  rw [hx, literal_bound_none]
  cases hown : literal.own with
  | none => rfl
  | some own =>
    have htype : bound_expr_type (.literal own) = own.type := rfl
    have hoid : t.ref.oid = t.oid := rfl
    simp only [Option.bind_some, Option.map_some, ht, htype, hoid, literal_bound_some, he]
    by_cases hsame : own.type.oid = t.oid
    · rw [if_pos hsame.symm, Literal.own_coerced hown hsame]
      rfl
    · rw [if_neg fun h => hsame h.symm, if_neg Bool.false_ne_true, Option.map_map]
      rfl

theorem sides_literal_left (hx : e.bound_as table none = some x)
    (ht : bound_expr_type x = t.ref) (literal : Literal) :
    sides (.literal literal) e ((Expr.literal literal).bound_as table) (e.bound_as table) =
      (literal.own.bind fun _ => literal.coerced t.ref).map fun l => (.literal l, x) := by
  unfold sides
  rw [hx, literal_bound_none]
  cases hown : literal.own with
  | none => rfl
  | some own =>
    have htype : bound_expr_type (.literal own) = own.type := rfl
    have hoid : t.ref.oid = t.oid := rfl
    simp only [Option.bind_some, Option.map_some, ht, htype, hoid, literal_bound_some]
    by_cases hsame : own.type.oid = t.oid
    · rw [if_pos hsame, Literal.own_coerced hown hsame]
      rfl
    · rw [if_neg hsame, Option.map_map]
      rfl

end

/-- A column and a literal, compared either way round: each comparison is bound
exactly where the literal is a value of the type of the column, and the literal
is then bound to this value. -/
structure BindsWhereItFits (table : BoundTableRef) (b : Binder) (op : BinaryOp) (name : Bytes)
    (column : BoundColumnRef) (literal : Literal) : Prop where
  right : ∀ e, ((Binder.bind_expr builtin_registry table
      (.binary op (.column_ref name) (.literal literal)) none).run b).1 = .ok e ↔
    ∃ l, ((Binder.coerce_literal_to_type builtin_registry literal column.type true).run b).1 =
        .ok l ∧ l.type = column.type ∧
      e = .binary op (.column column) (.literal l) Builtin.bool.ref
  left : ∀ e, ((Binder.bind_expr builtin_registry table
      (.binary op (.literal literal) (.column_ref name)) none).run b).1 = .ok e ↔
    ∃ l, ((Binder.coerce_literal_to_type builtin_registry literal column.type true).run b).1 =
        .ok l ∧ l.type = column.type ∧
      e = .binary op (.literal l) (.column column) Builtin.bool.ref

/-- A comparison of a column with a literal is bound exactly where the literal
fits the column, except for NULL, which is bound to no type first, and for a
float that is not finite next to a text. -/
theorem binds_where_it_fits_iff (schema : List ColumnSchema) (relation_oid : Nat)
    (table : BoundTableRef)
    (hcolumns : Binder.bind_columns builtin_registry relation_oid 0 schema = .ok table.columns)
    (b : Binder) (hb : Catalog.NamesTypes b.catalog) (op : BinaryOp)
    (hop : op ≠ .And ∧ op ≠ .Or) (name : Bytes) (column : BoundColumnRef)
    (hfind : table.columns.find? (fun column =>
      normalized_column_name column.name == normalized_column_name name) = some column)
    (literal : Literal) (hfits : literal.Fits) :
    BindsWhereItFits table b op name column literal ↔ ¬ literal.Misfits column := by
  obtain ⟨t, ht⟩ := column_type_builtin hcolumns (List.mem_of_find?_eq_some hfind)
  have hx : (Expr.column_ref name).bound_as table none = some (.column column) := by
    show (table.columns.find? _).map _ = _
    rw [hfind]
    rfl
  have hright := fun e => (Binder.bind_expr_gives table
    (.binary op (.column_ref name) (.literal literal)) none).run_ok_iff hb e
  have hleft := fun e => (Binder.bind_expr_gives table
    (.binary op (.literal literal) (.column_ref name)) none).run_ok_iff hb e
  have hcoerce := fun l => (Binder.coerce_gives literal column.type).run_ok_iff hb l
  simp only [bound_comparison hop, sides_literal_right rfl hx ht] at hright
  simp only [bound_comparison hop, sides_literal_left hx ht] at hleft
  have hmapped : ∀ (side : BoundLiteral → BoundExpr × BoundExpr) (e : BoundExpr)
      (fit : Option BoundLiteral), (fit.map side).map
        (fun p => BoundExpr.binary op p.1 p.2 Builtin.bool.ref) = some e ↔
      ∃ l, fit = some l ∧ e = .binary op (side l).1 (side l).2 Builtin.bool.ref := by
    rintro side e (_ | l)
    · simp
    · simp [eq_comm]
  rw [← Literal.own_then_coerced_iff hfits ht]
  constructor
  · intro h
    cases hown : literal.own with
    | some own => rfl
    | none =>
      -- nothing is bound, so nothing fits
      rcases hl : literal.coerced t.ref with _ | l
      · rfl
      · have hbound := (h.right _).mpr ⟨l, (hcoerce l).mpr (by rw [ht, hl]),
          by rw [Literal.coerced_type hl, ht], rfl⟩
        rw [hright, hown] at hbound
        cases hbound
  · intro hfit
    rw [hfit] at hright hleft
    refine ⟨fun e => ?_, fun e => ?_⟩
    · rw [hright, hmapped]
      refine exists_congr fun l => ?_
      rw [hcoerce, ht]
      exact ⟨fun h => ⟨h.1, Literal.coerced_type h.1, h.2⟩, fun h => ⟨h.1, h.2.2⟩⟩
    · rw [hleft, hmapped]
      refine exists_congr fun l => ?_
      rw [hcoerce, ht]
      exact ⟨fun h => ⟨h.1, Literal.coerced_type h.1, h.2⟩, fun h => ⟨h.1, h.2.2⟩⟩

theorem fresh_catalog_names_types : Catalog.NamesTypes fresh_catalog :=
  names_types_of_holds (holds_after allows_open) rfl

/-- A binder on the catalog that was just opened. -/
def fresh_binder : Binder := ⟨fresh_catalog, []⟩

theorem fresh_binder_names_types : Binder.NamesTypes fresh_binder :=
  Binder.names_types_of_catalog fresh_catalog_names_types

/-- `a = 1` and `1 = a`, where `a` has the other integer type. -/
theorem column_and_number_fit :
    BindsWhereItFits nullable_pair fresh_binder .Eq (str "a")
      ⟨5, 1, str "a", ⟨1, str "int32", none⟩, true⟩ (.IntLiteral 1) :=
  (binds_where_it_fits_iff [⟨str "a", 1, true⟩, ⟨str "b", 4, true⟩] 5 nullable_pair rfl
    fresh_binder fresh_binder_names_types .Eq (by decide) (str "a") _ rfl (.IntLiteral 1)
    (by unfold Literal.Fits; decide)).mpr (by rintro (h | ⟨h, -⟩) <;> cases h)

/-- A NULL is a value of the type of `a`, but neither `a = NULL` nor `NULL = a`
is bound. -/
theorem column_and_null_do_not_fit :
    (∃ l, ((Binder.coerce_literal_to_type builtin_registry .NullLiteral ⟨1, str "int32", none⟩
        true).run fresh_binder).1 = .ok l) ∧
      (∀ e, ((Binder.bind_expr builtin_registry nullable_pair
        (.binary .Eq (.column_ref (str "a")) (.literal .NullLiteral)) none).run
          fresh_binder).1 ≠ .ok e) ∧
      ∀ e, ((Binder.bind_expr builtin_registry nullable_pair
        (.binary .Eq (.literal .NullLiteral) (.column_ref (str "a"))) none).run
          fresh_binder).1 ≠ .ok e := by
  have hb := fresh_binder_names_types
  refine ⟨⟨_, ((Binder.coerce_gives _ _).run_ok_iff hb _).mpr rfl⟩, fun e h => ?_, fun e h => ?_⟩
  · have hbound := ((Binder.bind_expr_gives _ _ _).run_ok_iff hb e).mp h
    rw [bound_comparison (by decide)] at hbound
    cases hbound
  · have hbound := ((Binder.bind_expr_gives _ _ _).run_ok_iff hb e).mp h
    rw [bound_comparison (by decide)] at hbound
    cases hbound

end edb
