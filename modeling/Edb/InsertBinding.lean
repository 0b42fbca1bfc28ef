-- What the binder makes of an INSERT. The catalog is asked for the table only;
-- from there on the targets and the rows are a function of the columns of the
-- table and of the statement.
import Edb.BinderLaws
import Edb.CatalogRows
import Edb.RowCodecLaws

namespace edb

open Call

/-! ## Calls that compute -/

namespace Binder

/-- The call gives the value, or fails where there is none, and does not touch
the catalog. -/
def Computes {α : Type} (x : Call Error Binder α) (value : Option α) : Prop :=
  ∀ b, x.wp (fun a b' => value = some a ∧ b'.catalog = b.catalog)
    (fun _ b' => value = none ∧ b'.catalog = b.catalog) b

variable {α β : Type}

theorem computes_pure (a : α) : Computes (pure a) (some a) := fun _ => (wp_pure a).mpr ⟨rfl, rfl⟩

theorem computes_fail (e : Error) : Computes (fail e : Call Error Binder α) none :=
  fun _ => (wp_fail e).mpr ⟨rfl, rfl⟩

theorem computes_bind_err (msg : Bytes) (e : Error) :
    Computes (bind_err msg e : Call Error Binder α) none := by
  intro b
  unfold bind_err
  rw [wp_bind, wp_modify]
  exact (wp_fail e).mpr ⟨rfl, rfl⟩

theorem Computes.bind {x : Call Error Binder α} {f : α → Call Error Binder β} {v : Option α}
    {w : α → Option β} (hx : Computes x v) (hf : ∀ a, Computes (f a) (w a)) :
    Computes (x >>= f) (v.bind w) := by
  intro b
  rw [wp_bind]
  apply wp_mono (hx b)
  · rintro a b1 ⟨rfl, h1⟩
    rw [← h1]
    exact hf a b1
  · rintro e b1 ⟨rfl, h1⟩
    exact ⟨rfl, h1⟩

end Binder

/-! ## Rows -/

/-- What a literal becomes in a column. -/
def Literal.bound (types : TypeRegistry) (column : BoundColumnRef) (literal : Literal) :
    Option BoundLiteral :=
  match literal_text literal with
  | none =>
    if column.nullable then
      some ⟨column.type, { type_oid := column.type.oid, bytes := [], is_null := true }⟩
    else none
  | some text =>
    match types.lookup column.type.oid with
    | .error _ => none
    | .ok type =>
      match type.from_text text with
      | .error _ => none
      | .ok bytes => some ⟨column.type, { type_oid := column.type.oid, bytes, is_null := false }⟩

/-- Only a literal can be inserted. -/
def Expr.bound (types : TypeRegistry) (column : BoundColumnRef) : Expr → Option BoundLiteral
  | .literal value => value.bound types column
  | _ => none

/-- A row has one value for each target. -/
def bound_row (types : TypeRegistry) (targets : List BoundColumnRef) (row : List Expr) :
    Option (List BoundLiteral) :=
  if row.length = targets.length then (row.zip targets).mapM fun p => p.1.bound types p.2 else none

/-- The columns with the names, each at most once. -/
def named_targets (columns : List BoundColumnRef) :
    List Bytes → List Bytes → Option (List BoundColumnRef)
  | _, [] => some []
  | seen, name :: rest => do
    let column ← columns.find? fun column =>
      normalized_column_name column.name == normalized_column_name name
    if normalized_column_name column.name ∈ seen then none
    else do
      let targets ← named_targets columns (normalized_column_name column.name :: seen) rest
      some (column :: targets)

def insert_targets (columns : List BoundColumnRef) (names : List Bytes) :
    Option (List BoundColumnRef) :=
  if names.isEmpty then some columns else named_targets columns [] names

/-- The rows of an INSERT into a table with the columns. -/
def bound_rows (types : TypeRegistry) (columns : List BoundColumnRef) (stmt : InsertStmt) :
    Option (List (List BoundLiteral)) := do
  let targets ← insert_targets columns stmt.column_names
  stmt.rows.mapM (bound_row types targets)

namespace Binder

variable {types : TypeRegistry}

theorem coerce_computes (literal : Literal) (column : BoundColumnRef) :
    Computes (coerce_literal_to_type types literal column.type column.nullable)
      (literal.bound types column) := by
  unfold coerce_literal_to_type Literal.bound
  cases literal_text literal with
  | none =>
    cases column.nullable with
    | true => exact computes_pure _
    | false => exact computes_bind_err _ _
  | some text =>
    dsimp only
    cases types.lookup column.type.oid with
    | error e => exact computes_fail _
    | ok type =>
      dsimp only
      cases type.from_text text with
      | error e => exact computes_bind_err _ _
      | ok bytes => exact computes_pure _

theorem bind_values_computes (pairs : List (Expr × BoundColumnRef)) :
    Computes (bind_values types pairs) (pairs.mapM fun p => p.1.bound types p.2) := by
  induction pairs with
  | nil => exact computes_pure _
  | cons pair rest ih =>
    obtain ⟨e, column⟩ := pair
    rw [List.mapM_cons]
    cases e with
    | literal value =>
      have hvalue : Computes (bind_literal types value (some column.type) column.nullable)
          (value.bound types column) := coerce_computes value column
      exact hvalue.bind fun bound => ih.bind fun row => computes_pure (bound :: row)
    | _ => exact computes_bind_err _ _

theorem bind_rows_computes (targets : List BoundColumnRef) (rows : List (List Expr)) :
    Computes (bind_rows types targets rows) (rows.mapM (bound_row types targets)) := by
  induction rows with
  | nil => exact computes_pure _
  | cons row rest ih =>
    rw [List.mapM_cons]
    unfold bind_rows bound_row
    by_cases hlen : row.length = targets.length
    · rw [if_neg (by simpa using hlen), if_pos hlen]
      exact (bind_values_computes _).bind fun bound => ih.bind fun row => computes_pure (bound :: row)
    · rw [if_pos hlen, if_neg hlen]
      exact computes_bind_err _ _

theorem bind_targets_computes (table : BoundTableRef) (table_name : Bytes)
    (seen names : List Bytes) :
    Computes (bind_targets table table_name seen names) (named_targets table.columns seen names) := by
  induction names generalizing seen with
  | nil => exact computes_pure _
  | cons name rest ih =>
    have hcolumn : Computes (bind_column_ref name table) (table.columns.find? fun column =>
        normalized_column_name column.name == normalized_column_name name) := by
      unfold bind_column_ref
      split
      · rename_i column hfind
        rw [hfind]
        exact computes_pure _
      · rename_i hfind
        rw [hfind]
        exact computes_bind_err _ _
    refine hcolumn.bind fun column => ?_
    dsimp only
    split
    · exact computes_bind_err _ _
    · exact (ih _).bind fun _ => computes_pure _

theorem bind_target_columns_computes (stmt : InsertStmt) (table : BoundTableRef) :
    Computes (bind_target_columns stmt table) (insert_targets table.columns stmt.column_names) := by
  unfold bind_target_columns insert_targets
  split
  · exact computes_pure _
  · exact bind_targets_computes _ _ _ _

end Binder

/-! ## Rows that the codec takes -/

/-- A column of a table as the binder shows it. -/
structure ColumnSchema.Seen (column : ColumnSchema) (ref : BoundColumnRef) : Prop where
  name : ref.name = column.name
  type_oid : ref.type.oid = column.type_oid
  nullable : ref.nullable = column.nullable

/-- The columns have builtin types. -/
def BuiltinColumns (columns : List ColumnSchema) : Prop :=
  ∀ column ∈ columns, ∃ t : Builtin, column.type_oid = t.oid

variable {types : TypeRegistry} {columns : List ColumnSchema}

theorem Binder.bind_columns_ok (ht : Registered types) (hcols : BuiltinColumns columns)
    (oid index : Nat) : ∃ refs, Binder.bind_columns types oid index columns = .ok refs ∧
      List.Forall₂ ColumnSchema.Seen columns refs := by
  induction columns generalizing index with
  | nil => exact ⟨[], rfl, .nil⟩
  | cons column rest ih =>
    obtain ⟨⟨t, htype⟩, hrest⟩ := List.forall_mem_cons.mp hcols
    obtain ⟨refs, hrefs, hseen⟩ := ih hrest (index + 1)
    have hlookup : lookup_type_oid types column.type_oid = .ok { oid := t.oid, name := t.type.name } := by
      unfold lookup_type_oid
      rw [htype, ht.by_oid]
      rfl
    unfold bind_columns
    rw [hlookup, hrefs]
    exact ⟨_, rfl, .cons ⟨rfl, htype.symm, rfl⟩ hseen⟩

theorem Literal.fits_of_bound (ht : Registered types) {column : ColumnSchema} {ref : BoundColumnRef}
    (hseen : column.Seen ref) {t : Builtin} (htype : column.type_oid = t.oid) {literal : Literal}
    {bound : BoundLiteral} (h : literal.bound types ref = some bound) :
    bound.value.Fits types column := by
  have hlookup : types.lookup column.type_oid = .ok t.type := by
    rw [htype, ht.by_oid]
  unfold Literal.bound at h
  rw [hseen.type_oid, hlookup] at h
  split at h
  · split at h
    · rename_i hnull
      cases h
      exact ⟨rfl, ⟨t.type, hlookup, nofun⟩, fun _ => hseen.nullable ▸ hnull⟩
    · cases h
  · dsimp only at h
    split at h
    · cases h
    · rename_i bytes hbytes
      cases h
      exact ⟨rfl, ⟨t.type, hlookup, fun _ size hsize => Builtin.length_from_text hbytes hsize⟩, nofun⟩

/-- A row that was bound for all columns, in their order, is a row of the table. -/
theorem row_of_bound (ht : Registered types) (hcols : BuiltinColumns columns)
    {refs : List BoundColumnRef} (hseen : List.Forall₂ ColumnSchema.Seen columns refs)
    {row : List Expr} {bound : List BoundLiteral} (h : bound_row types refs row = some bound) :
    RowCodec.Row types columns (bound.map BoundLiteral.value) := by
  unfold bound_row at h
  split at h
  · rename_i hlen
    induction hseen generalizing row bound with
    | nil =>
      rw [List.zip_nil_right] at h
      cases h
      exact .nil
    | @cons column ref columns refs hcolumn _ ih =>
      obtain ⟨⟨t, htype⟩, hrest⟩ := List.forall_mem_cons.mp hcols
      cases row with
      | nil => cases hlen
      | cons e row =>
        rw [List.zip_cons_cons, List.mapM_cons] at h
        obtain ⟨l, hl, h⟩ := Option.bind_eq_some_iff.mp h
        obtain ⟨others, hothers, h⟩ := Option.bind_eq_some_iff.mp h
        cases h
        cases e with
        | literal value =>
          exact .cons (Literal.fits_of_bound ht hcolumn htype hl)
            (ih hrest (by simpa using hlen) hothers)
        | _ => cases hl
  · cases h

/-! ## Literals that were bound -/

theorem mapM_eq_some_iff {α β : Type} {f : α → Option β} {xs : List α} {ys : List β} :
    xs.mapM f = some ys ↔ List.Forall₂ (fun x y => f x = some y) xs ys := by
  induction xs generalizing ys with
  | nil =>
    cases ys with
    | nil => exact iff_of_true rfl .nil
    | cons y ys => exact iff_of_false nofun nofun
  | cons x rest ih =>
    rw [List.mapM_cons]
    constructor
    · intro h
      obtain ⟨y, hy, h⟩ := Option.bind_eq_some_iff.mp h
      obtain ⟨ys', hys, h⟩ := Option.bind_eq_some_iff.mp h
      cases h
      exact .cons hy (ih.mp hys)
    · rintro (_ | ⟨hy, hys⟩)
      rw [hy, ih.mpr hys]
      rfl

theorem exists_of_forall₂ {α β : Type} {R : α → β → Prop} {xs : List α} {ys : List β}
    (h : List.Forall₂ R xs ys) {y : β} (hy : y ∈ ys) : ∃ x ∈ xs, R x y := by
  induction h with
  | nil => cases hy
  | @cons x y' xs ys hxy _ ih =>
    rcases List.mem_cons.mp hy with rfl | hy
    · exact ⟨x, List.mem_cons_self, hxy⟩
    · obtain ⟨x', hx', hr⟩ := ih hy
      exact ⟨x', List.mem_cons_of_mem _ hx', hr⟩

theorem Literal.made_of_bound {ref : BoundColumnRef} {literal : Literal} {bound : BoundLiteral}
    (h : literal.bound types ref = some bound) : bound.value.Made types := by
  unfold Literal.bound at h
  split at h
  · split at h
    · cases h
      exact ⟨fun _ => rfl, nofun⟩
    · cases h
  · rename_i text _
    split at h
    · cases h
    · rename_i type hlookup
      split at h
      · cases h
      · rename_i bytes hbytes
        cases h
        exact ⟨nofun, fun _ => ⟨type, text, hlookup, hbytes⟩⟩

/-- The rows of an INSERT are as many as it has, and they are made of texts. -/
theorem made_of_bound_rows {refs : List BoundColumnRef} {stmt : InsertStmt}
    {rows : List (List BoundLiteral)} (h : bound_rows types refs stmt = some rows) :
    rows.length = stmt.rows.length ∧ MadeRows types rows := by
  obtain ⟨targets, -, h⟩ := Option.bind_eq_some_iff.mp h
  have hall := mapM_eq_some_iff.mp h
  refine ⟨hall.length_eq.symm, fun bound hbound l hl => ?_⟩
  obtain ⟨row, -, hrow⟩ := exists_of_forall₂ hall hbound
  unfold bound_row at hrow
  split at hrow
  · obtain ⟨p, -, hp⟩ := exists_of_forall₂ (mapM_eq_some_iff.mp hrow) hl
    obtain ⟨e, column⟩ := p
    cases e with
    | literal value => exact Literal.made_of_bound hp
    | _ => cases hp
  · cases hrow

end edb
