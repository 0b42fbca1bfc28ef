-- What binding does to the catalog, and what the literals of an INSERT become.
-- The binder asks the catalog for types, for classes and for open tables, so
-- an invariant of those three calls is one of every bind. A literal that is
-- not null becomes bytes that its type makes of a text.
import Edb.Binder

namespace edb

open Call

/-! ## Invariants of the lookups -/

/-- The calls that the binder makes on the catalog keep the invariant. -/
structure Catalog.KeptByLookups (I : CatalogState → Prop) : Prop where
  get_type : ∀ name, (Catalog.get_type name).Keeps I
  get_class : ∀ name, (Catalog.get_class name).Keeps I
  open_table : ∀ name, (Catalog.open_table name).Keeps I

theorem Catalog.schema_keeps {I : CatalogState → Prop} (oid : Nat) : (schema oid).Keeps I := by
  unfold schema
  refine keeps_get_bind fun s h => ?_
  split
  · exact (wp_fail _).mpr h
  · exact (wp_pure _).mpr h

namespace Binder

variable {types : TypeRegistry} {I : CatalogState → Prop}

/-- The catalog of the binder meets the invariant. -/
def Holds (I : CatalogState → Prop) (b : Binder) : Prop := I b.catalog

theorem on_catalog_keeps {α : Type} {x : Call Error CatalogState α} (h : x.Keeps I) :
    (on_catalog x).Keeps (Holds I) :=
  h.zoom (fun _ hs => hs) fun _ _ _ ht => ht

theorem bind_err_keeps {α : Type} (msg : Bytes) (e : Error) :
    (bind_err msg e : Call Error Binder α).Keeps (Holds I) := by
  unfold bind_err
  exact Keeps.bind (keeps_modify fun _ h => h) fun _ => keeps_fail e

theorem on_table_name_keeps {α : Type} (table_name : Bytes) {x : Call Error CatalogState α}
    (h : x.Keeps I) : (on_table_name table_name x).Keeps (Holds I) := by
  refine (on_catalog_keeps h).attempt.bind fun r => ?_
  cases r with
  | error e =>
    dsimp only
    split
    · exact bind_err_keeps _ _
    · exact keeps_fail _
  | ok a => exact keeps_pure _

theorem bind_column_ref_keeps (name : Bytes) (table : BoundTableRef) :
    (bind_column_ref name table).Keeps (Holds I) := by
  unfold bind_column_ref
  split
  · exact keeps_pure _
  · exact bind_err_keeps _ _

theorem coerce_literal_to_type_keeps (literal : Literal) (target : BoundTypeRef)
    (nullable : Bool) : (coerce_literal_to_type types literal target nullable).Keeps (Holds I) := by
  unfold coerce_literal_to_type
  split
  · split
    · exact bind_err_keeps _ _
    · exact keeps_pure _
  · split
    · exact keeps_fail _
    · split
      · exact bind_err_keeps _ _
      · exact keeps_pure _

section

variable (hI : Catalog.KeptByLookups I)

include hI

theorem lookup_type_name_keeps (name : Bytes) : (lookup_type_name name).Keeps (Holds I) := by
  refine (on_catalog_keeps (hI.get_type name)).attempt.bind fun r => ?_
  cases r with
  | error e => exact keeps_fail _
  | ok type => exact keeps_pure _

theorem bind_table_keeps (table_name : Bytes) : (bind_table types table_name).Keeps (Holds I) := by
  refine (on_table_name_keeps table_name (hI.get_class _)).bind fun found => ?_
  refine (on_table_name_keeps table_name (hI.open_table _)).bind fun opened => ?_
  refine (on_catalog_keeps (Catalog.schema_keeps opened)).bind fun schema => ?_
  exact (keeps_ofExcept _).bind fun columns => keeps_pure _

theorem infer_literal_type_keeps (literal : Literal) :
    (infer_literal_type literal).Keeps (Holds I) := by
  cases literal with
  | NullLiteral => exact bind_err_keeps _ _
  | _ => exact lookup_type_name_keeps hI _

theorem wanted_type_keeps (literal : Literal) (target : Option BoundTypeRef) :
    (wanted_type literal target).Keeps (Holds I) := by
  cases target with
  | some type => exact keeps_pure _
  | none => exact infer_literal_type_keeps hI literal

theorem bind_literal_keeps (literal : Literal) (target : Option BoundTypeRef) (nullable : Bool) :
    (bind_literal types literal target nullable).Keeps (Holds I) :=
  (wanted_type_keeps hI literal target).bind fun _ => coerce_literal_to_type_keeps _ _ _

theorem bind_binary_expr_keeps {op : BinaryOp} {left right : Expr}
    {bind_left bind_right : Option BoundTypeRef → Call Error Binder BoundExpr}
    (hleft : ∀ target, (bind_left target).Keeps (Holds I))
    (hright : ∀ target, (bind_right target).Keeps (Holds I)) :
    (bind_binary_expr op left right bind_left bind_right).Keeps (Holds I) := by
  have hrebind : ∀ {again : Bool} {x : Option BoundTypeRef → Call Error Binder BoundExpr}
      {type : BoundTypeRef} {e : BoundExpr}, (∀ target, (x target).Keeps (Holds I)) →
      (rebind again x type e).Keeps (Holds I) := by
    intro again x type e hx
    unfold rebind
    split
    · exact hx _
    · exact keeps_pure _
  refine (lookup_type_name_keeps hI _).bind fun bool_type => (hleft none).bind fun l =>
    (hright none).bind fun r => ?_
  split
  · split
    · exact bind_err_keeps _ _
    · exact keeps_pure _
  · refine (hrebind hleft).bind fun l' => (hrebind hright).bind fun r' => ?_
    split
    · exact bind_err_keeps _ _
    · exact keeps_pure _

theorem bind_expr_keeps (table : BoundTableRef) (e : Expr) (target : Option BoundTypeRef) :
    (bind_expr types table e target).Keeps (Holds I) := by
  induction e generalizing target with
  | literal value =>
    exact (bind_literal_keeps hI value target true).bind fun _ => keeps_pure _
  | column_ref name => exact (bind_column_ref_keeps name table).bind fun _ => keeps_pure _
  | binary op left right ihl ihr => exact bind_binary_expr_keeps hI ihl ihr

theorem bind_column_defs_keeps (table_name : Bytes) (seen : List Bytes) (columns : List ColumnDef) :
    (bind_column_defs table_name seen columns).Keeps (Holds I) := by
  induction columns generalizing seen with
  | nil => exact keeps_pure _
  | cons column rest ih =>
    change Keeps (Holds I) (@ite _ _ _ _ _)
    split
    · exact bind_err_keeps _ _
    · refine (on_catalog_keeps (hI.get_type _)).attempt.bind fun r => ?_
      cases r with
      | error e => exact bind_err_keeps _ _
      | ok type => exact (ih _).bind fun _ => keeps_pure _

omit hI in
theorem bind_targets_keeps (table : BoundTableRef) (table_name : Bytes) (seen names : List Bytes) :
    (bind_targets table table_name seen names).Keeps (Holds I) := by
  induction names generalizing seen with
  | nil => exact keeps_pure _
  | cons name rest ih =>
    refine (bind_column_ref_keeps name table).bind fun column => ?_
    dsimp only
    split
    · exact bind_err_keeps _ _
    · exact (ih _).bind fun _ => keeps_pure _

theorem bind_values_keeps (pairs : List (Expr × BoundColumnRef)) :
    (bind_values types pairs).Keeps (Holds I) := by
  induction pairs with
  | nil => exact keeps_pure _
  | cons pair rest ih =>
    obtain ⟨e, column⟩ := pair
    cases e with
    | literal value =>
      exact (bind_literal_keeps hI _ _ _).bind fun _ => ih.bind fun _ => keeps_pure _
    | _ => exact bind_err_keeps _ _

theorem bind_rows_keeps (columns : List BoundColumnRef) (rows : List (List Expr)) :
    (bind_rows types columns rows).Keeps (Holds I) := by
  induction rows with
  | nil => exact keeps_pure _
  | cons row rest ih =>
    unfold bind_rows
    split
    · exact bind_err_keeps _ _
    · exact (bind_values_keeps hI _).bind fun _ => ih.bind fun _ => keeps_pure _

theorem bind_insert_keeps (stmt : InsertStmt) : (bind_insert types stmt).Keeps (Holds I) := by
  refine (bind_table_keeps hI _).bind fun table => Keeps.bind ?_ fun columns =>
    (bind_rows_keeps hI _ _).bind fun _ => keeps_pure _
  unfold bind_target_columns
  split
  · exact keeps_pure _
  · exact bind_targets_keeps _ _ _ _

theorem bind_items_keeps (table : BoundTableRef) (items : List SelectItem) :
    (bind_items types table items).Keeps (Holds I) := by
  induction items with
  | nil => exact keeps_pure _
  | cons item rest ih =>
    cases item with
    | StarItem => exact ih.bind fun _ => keeps_pure _
    | ExprItem expr alias_ =>
      exact (bind_expr_keeps hI table expr none).bind fun _ => ih.bind fun _ => keeps_pure _

theorem bind_where_keeps (table : BoundTableRef) (where_ : Option Expr) :
    (bind_where types table where_).Keeps (Holds I) := by
  cases where_ with
  | none => exact keeps_pure _
  | some expr =>
    refine (bind_expr_keeps hI table expr none).bind fun _ =>
      (lookup_type_name_keeps hI _).bind fun _ => ?_
    split
    · exact bind_err_keeps _ _
    · exact keeps_pure _

theorem bind_select_keeps (stmt : SelectStmt) : (bind_select types stmt).Keeps (Holds I) :=
  (bind_table_keeps hI _).bind fun table => (bind_items_keeps hI table _).bind fun _ =>
    (bind_where_keeps hI table _).bind fun _ => keeps_pure _

/-- What the lookups keep, the bind of any statement keeps. -/
theorem bind_keeps (stmt : Stmt) : (Binder.bind types stmt).Keeps (Holds I) := by
  cases stmt with
  | create_table stmt =>
    exact Keeps.bind ((bind_column_defs_keeps hI _ _ _).bind fun _ => keeps_pure _)
      fun _ => keeps_pure _
  | insert stmt => exact (bind_insert_keeps hI stmt).bind fun _ => keeps_pure _
  | select stmt => exact (bind_select_keeps hI stmt).bind fun _ => keeps_pure _

end

end Binder

/-! ## Literals -/

/-- A null without bytes, or bytes that the type of the value makes of some
text. -/
structure Value.Made (types : TypeRegistry) (value : Value) : Prop where
  empty : value.is_null = true → value.bytes = []
  text : value.is_null = false →
    ∃ type text, types.lookup value.type_oid = .ok type ∧ type.from_text text = .ok value.bytes

/-- Rows of literals that were bound. -/
def MadeRows (types : TypeRegistry) (rows : List (List BoundLiteral)) : Prop :=
  ∀ row ∈ rows, ∀ l ∈ row, l.value.Made types

namespace Binder

variable {types : TypeRegistry} {b : Binder}

theorem wp_bind_err {α : Type} {Q : α → Binder → Prop} (msg : Bytes) (e : Error) :
    (bind_err msg e : Call Error Binder α).wp Q (fun _ _ => True) b := by
  unfold bind_err
  rw [wp_bind, wp_modify]
  exact (wp_fail _).mpr trivial

theorem coerce_literal_to_type_made (literal : Literal) (target : BoundTypeRef) (nullable : Bool) :
    (coerce_literal_to_type types literal target nullable).wp
      (fun bound _ => bound.value.Made types) (fun _ _ => True) b := by
  unfold coerce_literal_to_type
  split
  · split
    · exact wp_bind_err _ _
    · exact (wp_pure _).mpr ⟨fun _ => rfl, nofun⟩
  · split
    · exact (wp_fail _).mpr trivial
    · rename_i text _ _ type hlook
      split
      · exact wp_bind_err _ _
      · rename_i bytes hbytes
        exact (wp_pure _).mpr ⟨nofun, fun _ => ⟨type, text, hlook, hbytes⟩⟩

theorem bind_values_made (pairs : List (Expr × BoundColumnRef)) :
    (bind_values types pairs).wp (fun row _ => ∀ l ∈ row, l.value.Made types) (fun _ _ => True)
      b := by
  induction pairs generalizing b with
  | nil => exact (wp_pure _).mpr (by simp)
  | cons pair rest ih =>
    obtain ⟨e, column⟩ := pair
    cases e with
    | literal value =>
      unfold bind_values bind_literal
      rw [wp_bind, wp_bind]
      refine wp_mono (wp_trivial _ b) (fun type b1 _ => ?_) fun _ _ _ => trivial
      refine wp_mono (coerce_literal_to_type_made value type column.nullable)
        (fun bound b2 hbound => ?_) fun _ _ h => h
      rw [wp_bind]
      refine wp_mono ih (fun row b3 hrow => (wp_pure _).mpr ?_) fun _ _ h => h
      exact List.forall_mem_cons.mpr ⟨hbound, hrow⟩
    | _ => exact wp_bind_err _ _

theorem bind_rows_made (columns : List BoundColumnRef) (rows : List (List Expr)) :
    (bind_rows types columns rows).wp (fun bound _ => MadeRows types bound) (fun _ _ => True)
      b := by
  induction rows generalizing b with
  | nil => exact (wp_pure _).mpr (by simp [MadeRows])
  | cons row rest ih =>
    unfold bind_rows
    split
    · exact wp_bind_err _ _
    · rw [wp_bind]
      refine wp_mono (bind_values_made _) (fun bound b1 hbound => ?_) fun _ _ h => h
      rw [wp_bind]
      refine wp_mono ih (fun others b2 hothers => (wp_pure _).mpr ?_) fun _ _ h => h
      exact List.forall_mem_cons.mpr ⟨hbound, hothers⟩

theorem bind_insert_made (stmt : InsertStmt) :
    (bind_insert types stmt).wp (fun bound _ => MadeRows types bound.rows) (fun _ _ => True)
      b := by
  unfold bind_insert
  rw [wp_bind]
  refine wp_mono (wp_trivial _ b) (fun table b1 _ => ?_) fun _ _ h => h
  rw [wp_bind]
  refine wp_mono (wp_trivial _ b1) (fun columns b2 _ => ?_) fun _ _ h => h
  rw [wp_bind]
  exact wp_mono (bind_rows_made columns stmt.rows) (fun rows b3 h => (wp_pure _).mpr h)
    fun _ _ h => h

end Binder

end edb
