-- The query engine as a relational database. A client that executes SQL texts,
-- and that closes the catalog and opens it again in between, gets the replies
-- of a list of tables with rows in no order: a statement that is refused changes
-- nothing, an INSERT adds the rows up to the first that is too large, a SELECT
-- maps the rows that its WHERE keeps, and a reopen is not seen. What a SELECT
-- makes of one row is the executor's own `select_row`, in any order of the rows.
-- A refusal is a reply without its error, and a SELECT of a system table may
-- have any reply.
import Mathlib.Data.List.Find
import Edb.Comparisons
import Edb.InsertPrefix

namespace edb

open Call

/-! ## What the binder makes of a statement -/

/-- The columns of a CREATE TABLE: names that differ, also in other letters, and
types that have a name. -/
def bound_defs : List Bytes → List ColumnDef → Option (List BoundColumnDef)
  | _, [] => some []
  | seen, column :: rest =>
    if seen.contains (normalized_column_name column.name) then none
    else do
      let type ← type_records.find? fun t => t.name == canonical_type_name column.type
      let columns ← bound_defs (normalized_column_name column.name :: seen) rest
      some ({
        name := column.name
        type := { oid := type.oid, name := type.name, param := column.type.param }
        nullable := !column.not_null
        primary_key := column.primary_key
        unique_constraint := column.unique_constraint } :: columns)

/-- The table that a CREATE TABLE describes. It needs a column. -/
def CreateTableStmt.bound (stmt : CreateTableStmt) : Option CreateTableSpec := do
  let columns ← bound_defs [] stmt.columns
  if columns.isEmpty then none else some (create_spec ⟨stmt.table_name, columns, stmt.if_not_exists⟩)

def SelectItem.bound (table : BoundTableRef) : SelectItem → Option BoundSelectItem
  | .StarItem => some .star
  | .ExprItem expr alias_ => (expr.bound_as table none).map fun bound => .expr bound alias_

/-- A WHERE has to be a boolean. -/
def bound_where (table : BoundTableRef) : Option Expr → Option (Option BoundExpr)
  | none => some none
  | some expr => do
    let bound ← expr.bound_as table none
    if (bound_expr_type bound).oid = Builtin.bool.oid then some (some bound) else none

def SelectStmt.bound (table : BoundTableRef) (stmt : SelectStmt) : Option BoundSelectStmt := do
  let items ← stmt.items.mapM (SelectItem.bound table)
  let where_ ← bound_where table stmt.where_
  some { table, items, where_ }

/-! ## The database -/

/-- The tables of a client, and the rows of each under its oid. -/
structure Database where
  tables : List Relation := []
  rows : Nat → Multiset (List Value) := fun _ => 0

namespace Database

def find (d : Database) (name : Bytes) : Option Relation :=
  d.tables.find? fun r => r.name == name

/-- A table without columns is left by a CREATE TABLE that failed. No statement
can use it. -/
def open_table (d : Database) (name : Bytes) : Option Relation :=
  (d.find name).filter fun r => !r.columns.isEmpty

/-- Oids are given out one after the other, from 5 on. -/
def next_oid (d : Database) : Nat := d.tables.length + 5

/-- The name is taken. -/
def Has (d : Database) (name : Bytes) : Prop :=
  (d.find name).isSome = true ∨ ∃ t : SystemTable, name = t.name

def create (d : Database) (r : Relation) : Database where
  tables := d.tables ++ [r]
  rows := Function.update d.rows r.oid 0

def insert (d : Database) (oid : Nat) (values : List (List Value)) : Database :=
  { d with rows := Function.update d.rows oid (d.rows oid + values) }

/-- The table and the rows of an INSERT. -/
def bound_insert (c : Setup) (d : Database) (stmt : InsertStmt) :
    Option (Relation × List (List Value)) := do
  let r ← d.open_table stmt.table_name
  let columns ← (Binder.bind_columns c.types r.oid 0 r.columns).toOption
  let rows ← bound_rows c.types columns stmt
  some (r, rows.map (·.map BoundLiteral.value))

/-- What a statement may reply, and the database that it leaves. A statement that
fails replies nothing. -/
inductive Executes (c : Setup) (d : Database) : Stmt → Option (List ExecRow) → Database → Prop
  | create_refused {stmt : CreateTableStmt} (hbound : stmt.bound = none) :
    Executes c d (.create_table stmt) none d
  | create_taken {stmt : CreateTableStmt} {spec : CreateTableSpec}
    (hbound : stmt.bound = some spec) (hhas : d.Has stmt.table_name)
    (hif : stmt.if_not_exists = false) : Executes c d (.create_table stmt) none d
  | create_again {stmt : CreateTableStmt} {spec : CreateTableSpec}
    (hbound : stmt.bound = some spec) (hhas : d.Has stmt.table_name)
    (hif : stmt.if_not_exists = true) : Executes c d (.create_table stmt) (some []) d
  | create_too_large {stmt : CreateTableStmt} {spec : CreateTableSpec}
    (hbound : stmt.bound = some spec) (hnew : ¬ d.Has stmt.table_name)
    (hclass : ¬ c.ClassFits spec.name Catalog.RELKIND_TABLE) :
    Executes c d (.create_table stmt) none d
  /-- The columns before one that is too large stay. -/
  | create_in_part {stmt : CreateTableStmt} {spec : CreateTableSpec}
    (hbound : stmt.bound = some spec) (hnew : ¬ d.Has stmt.table_name)
    (hclass : c.ClassFits spec.name Catalog.RELKIND_TABLE)
    (hcolumns : ∃ column ∈ spec.columns, ¬ c.ColumnFits column) :
    Executes c d (.create_table stmt) none
      (d.create ⟨d.next_oid, spec.name, Catalog.RELKIND_TABLE, c.fitting spec.columns⟩)
  | create {stmt : CreateTableStmt} {spec : CreateTableSpec}
    (hbound : stmt.bound = some spec) (hnew : ¬ d.Has stmt.table_name)
    (hclass : c.ClassFits spec.name Catalog.RELKIND_TABLE)
    (hcolumns : ∀ column ∈ spec.columns, c.ColumnFits column) :
    Executes c d (.create_table stmt) (some [])
      (d.create ⟨d.next_oid, spec.name, Catalog.RELKIND_TABLE, spec.columns⟩)
  | insert_refused {stmt : InsertStmt} (hbound : d.bound_insert c stmt = none) :
    Executes c d (.insert stmt) none d
  /-- The rows before one that is too large stay. -/
  | insert_in_part {stmt : InsertStmt} {r : Relation} {rows : List (List Value)}
    (hbound : d.bound_insert c stmt = some (r, rows))
    (hlarge : ∃ values ∈ rows, (Catalog.codec c r).fits_page c.config.page_size values = false) :
    Executes c d (.insert stmt) none
      (d.insert r.oid (rows.takeWhile ((Catalog.codec c r).fits_page c.config.page_size)))
  | insert {stmt : InsertStmt} {r : Relation} {rows : List (List Value)}
    (hbound : d.bound_insert c stmt = some (r, rows))
    (hfit : ∀ values ∈ rows, (Catalog.codec c r).fits_page c.config.page_size values = true) :
    Executes c d (.insert stmt) (some []) (d.insert r.oid rows)
  /-- What the tables of the catalog hold is not said here: any reply will do. -/
  | select_system {stmt : SelectStmt} {reply : Option (List ExecRow)} (t : SystemTable)
    (hname : stmt.table_name = t.name) : Executes c d (.select stmt) reply d
  | select_missing {stmt : SelectStmt} (hnone : d.open_table stmt.table_name = none) :
    Executes c d (.select stmt) none d
  | select_refused {stmt : SelectStmt} {r : Relation} {table : BoundTableRef}
    (hr : d.open_table stmt.table_name = some r)
    (hcolumns : Binder.bind_columns c.types r.oid 0 r.columns = .ok table.columns)
    (hbound : stmt.bound table = none) : Executes c d (.select stmt) none d
  | select {stmt : SelectStmt} {r : Relation} {bound : BoundSelectStmt}
    {order : List (List Value)} {out : List ExecRow}
    (hr : d.open_table stmt.table_name = some r)
    (hcolumns : Binder.bind_columns c.types r.oid 0 r.columns = .ok bound.table.columns)
    (hbound : stmt.bound bound.table = some bound)
    (horder : (order : Multiset (List Value)) = d.rows r.oid)
    (hout : order.filterMapM (select_row c.types bound) = .ok out) :
    Executes c d (.select stmt) (some out) d

inductive Step (c : Setup) (d : Database) : SqlOp → Option (List ExecRow) → Database → Prop
  | reopen : Step c d .reopen (some []) d
  | not_one {sql : Bytes} (hstmt : QueryEngine.statement sql = none) :
    Step c d (.execute sql) none d
  | execute {sql : Bytes} {stmt : Stmt} {reply : Option (List ExecRow)} {d' : Database}
    (hstmt : QueryEngine.statement sql = some stmt) (hexec : Executes c d stmt reply d') :
    Step c d (.execute sql) reply d'

/-- The database may give these replies, one after the other. -/
inductive Runs (c : Setup) : Database → List SqlOp → List (Option (List ExecRow)) → Prop
  | nil {d : Database} : Runs c d [] []
  | cons {d d' : Database} {op : SqlOp} {reply : Option (List ExecRow)} {ops : List SqlOp}
    {replies : List (Option (List ExecRow))} (hstep : Step c d op reply d')
    (hrest : Runs c d' ops replies) : Runs c d (op :: ops) (reply :: replies)

end Database

/-! ## The binder -/

namespace Binder

variable {c : Setup} {a : CatalogModel}

/-- The catalog of the binder holds the model. -/
def OfModel (c : Setup) (a : CatalogModel) (b : Binder) : Prop := HoldsCatalog c a b.catalog

theorem bind_err_of_model {α : Type} (msg : Bytes) (e : Error) :
    (bind_err msg e : Call Error Binder α).Gives (OfModel c a) none := by
  intro b hb
  unfold bind_err
  rw [wp_bind, wp_modify]
  exact (wp_fail _).mpr ⟨rfl, hb⟩

theorem bind_column_defs_gives (ho : a.opened = true) (table_name : Bytes) (seen : List Bytes)
    (columns : List ColumnDef) :
    (bind_column_defs table_name seen columns).Gives (OfModel c a) (bound_defs seen columns) := by
  induction columns generalizing seen with
  | nil => exact gives_pure _
  | cons column rest ih =>
    change Call.Gives (@ite _ _ _ _ _) _ (@ite _ _ _ _ _)
    by_cases hseen : normalized_column_name column.name ∈ seen
    · rw [if_pos hseen, if_pos (List.contains_iff_mem.mpr hseen)]
      exact bind_err_of_model _ _
    · rw [if_neg hseen, if_neg (fun h => hseen (List.contains_iff_mem.mp h))]
      intro b hb
      unfold on_catalog
      rw [wp_bind, wp_attempt, wp_zoom]
      apply wp_mono (Catalog.get_type.spec hb (canonical_type_name column.type))
      · rintro type s1 ⟨htype, hc1, -⟩
        have hfind : type_records.find? (fun t => t.name == canonical_type_name column.type) =
            some type := by
          simp only [CatalogModel.get_type, ho, Bool.not_true, Bool.false_eq_true, if_false] at htype
          split at htype
          · cases htype
          · rename_i found hfound
            cases htype
            exact hfound
        rw [hfind]
        exact ((ih _).bind (fun h => by rw [h]; rfl) fun bound h => by
          rw [h]; exact gives_pure _) { b with catalog := s1 } hc1
      · rintro e s1 ⟨htype, hc1, -⟩
        have hfind : type_records.find? (fun t => t.name == canonical_type_name column.type) =
            none := by
          simp only [CatalogModel.get_type, ho, Bool.not_true, Bool.false_eq_true, if_false] at htype
          split at htype
          · assumption
          · cases htype
        rw [hfind]
        exact bind_err_of_model _ _ { b with catalog := s1 } hc1

theorem bind_items_gives (table : BoundTableRef) (items : List SelectItem) :
    (bind_items builtin_registry table items).Gives NamesTypes
      (items.mapM (SelectItem.bound table)) := by
  induction items with
  | nil => exact gives_pure _
  | cons item rest ih =>
    rw [List.mapM_cons]
    cases item with
    | StarItem =>
      exact ih.bind (fun h => by rw [h]; rfl) fun items h => by rw [h]; exact gives_pure _
    | ExprItem expr alias_ =>
      refine (bind_expr_gives table expr none).bind (fun h => ?_) fun bound h => ?_
      · simp only [SelectItem.bound, h]
        rfl
      · simp only [SelectItem.bound, h]
        exact ih.bind (fun h => by rw [h]; rfl) fun items h => by rw [h]; exact gives_pure _

theorem bind_where_gives (table : BoundTableRef) (where_ : Option Expr) :
    (bind_where builtin_registry table where_).Gives NamesTypes (bound_where table where_) := by
  cases where_ with
  | none => exact gives_pure _
  | some expr =>
    refine (bind_expr_gives table expr none).bind (fun h => ?_) fun bound h => ?_
    · simp only [bound_where, h]
      rfl
    · refine (lookup_builtin_gives .bool).bind (fun h => by cases h) fun type htype => ?_
      cases htype
      have hwhere : bound_where table (some expr) = if (bound_expr_type bound).oid =
          Builtin.bool.oid then some (some bound) else none := by
        simp only [bound_where, h]
        rfl
      rw [hwhere]
      by_cases hbool : (bound_expr_type bound).oid = Builtin.bool.oid
      · have his : is_bool_expr bound Builtin.bool.ref = true := beq_iff_eq.mpr hbool
        rw [if_pos hbool, his]
        exact gives_pure _
      · have his : is_bool_expr bound Builtin.bool.ref = false := beq_eq_false_iff_ne.mpr hbool
        rw [if_neg hbool, his]
        exact bind_err_gives _ _

end Binder

/-! ## The model of the catalog and the database -/

/-- The database holds the user tables of the model. -/
structure Represents (c : Setup) (a : CatalogModel) (d : Database) : Prop where
  tables : d.tables = a.relations.filter fun r => decide (5 ≤ r.oid)
  rows : ∀ r ∈ d.tables, ∀ tuples, a.rows r.oid = some tuples →
    d.rows r.oid = tuples.map (Catalog.codec c r).decoded
  next_oid : a.next_oid = d.next_oid

namespace Represents

variable {c : Setup} {a : CatalogModel} {d : Database}

/-- A catalog that was just made has no user tables. -/
theorem booted (c : Setup) : Represents c (CatalogModel.booted {}) {} := by
  refine ⟨?_, fun r hr => (by cases hr), rfl⟩
  rw [eq_comm, List.filter_eq_nil_iff]
  intro r hr
  obtain ⟨t, -, rfl⟩ := List.mem_map.mp hr
  have hlt : t.oid < 5 := t.oid_lt.2
  rw [decide_eq_true_eq]
  exact Nat.not_le_of_lt hlt

theorem mem_iff (hd : Represents c a d) {r : Relation} :
    r ∈ d.tables ↔ r ∈ a.relations ∧ 5 ≤ r.oid := by
  rw [hd.tables, List.mem_filter, decide_eq_true_eq]

/-- A name that is none of the system tables' is one of a user table. -/
theorem find_eq (hd : Represents c a d) (hw : a.WellFormed c) {name : Bytes}
    (huser : ∀ t : SystemTable, name ≠ t.name) : d.find name = a.find name := by
  unfold Database.find CatalogModel.find
  rw [hd.tables, List.find?_filter]
  refine List.find?_congr fun r hr => ?_
  rcases hw.kinds r hr with ⟨t, rfl⟩ | ⟨hoid, -⟩
  · have hne : ((Relation.system t).name == name) = false :=
      beq_eq_false_iff_ne.mpr (huser t).symm
    simp [hne]
  · simp only [hoid, decide_true, true_and, Bool.decide_eq_true]

theorem open_table_eq (hd : Represents c a d) (hw : a.WellFormed c) (ho : a.opened = true)
    {name : Bytes} (huser : ∀ t : SystemTable, name ≠ t.name) :
    d.open_table name = (a.open_table name).toOption := by
  unfold Database.open_table CatalogModel.open_table
  rw [hd.find_eq hw huser, ho]
  rcases a.find name with _ | r
  · rfl
  · rcases hempty : r.columns.isEmpty with _ | _ <;> simp [Option.filter, hempty, Except.toOption]

theorem bound_insert_eq (hd : Represents c a d) (hw : a.WellFormed c) (ho : a.opened = true)
    {stmt : InsertStmt} (huser : ∀ t : SystemTable, stmt.table_name ≠ t.name) :
    d.bound_insert c stmt = (a.bound_insert c stmt).map fun p =>
      (p.1, p.2.map (·.map BoundLiteral.value)) := by
  unfold Database.bound_insert CatalogModel.bound_insert
  rw [hd.open_table_eq hw ho huser]
  rcases a.open_table stmt.table_name with e | r
  · rfl
  · change (Binder.bind_columns c.types r.oid 0 r.columns).toOption.bind _ = _
    rcases hcolumns : Binder.bind_columns c.types r.oid 0 r.columns with e | columns
    · simp [hcolumns, Except.toOption]
    · simp only [hcolumns]
      change (bound_rows c.types columns stmt).bind _ = _
      rcases bound_rows c.types columns stmt with _ | rows <;> rfl

theorem has_iff (hd : Represents c a d) (hw : a.WellFormed c) (ho : a.opened = true)
    (name : Bytes) : d.Has name ↔ (a.find name).isSome = true := by
  unfold Database.Has
  by_cases hsys : ∃ t : SystemTable, name = t.name
  · obtain ⟨t, rfl⟩ := hsys
    have hfind := hw.find_mem (hw.system (hw.opened ho) t)
    exact iff_of_true (Or.inr ⟨t, rfl⟩) (by rw [show a.find t.name = _ from hfind]; rfl)
  · rw [hd.find_eq hw fun t ht => hsys ⟨t, ht⟩, or_iff_left hsys]

/-- One table more, with the next oid. -/
theorem add (hd : Represents c a d) {r : Relation} (hoid : r.oid = a.next_oid)
    (hnew : a.inserted r.oid = 0) (hother : ∀ r' ∈ d.tables, r'.oid ≠ r.oid) :
    Represents c (a.add r) (d.create r) where
  tables := by
    have h5 : 5 ≤ r.oid := by
      rw [hoid, hd.next_oid]
      exact Nat.le_add_left _ _
    change d.tables ++ [r] = (a.relations ++ [r]).filter _
    rw [List.filter_append, ← hd.tables]
    simp [h5]
  next_oid := by
    rw [Grown.next_oid_add a hoid, hd.next_oid]
    simp [Database.next_oid, Database.create]
  rows r' hr' tuples htuples := by
    simp only [CatalogModel.add, hnew, if_true] at htuples
    change Function.update d.rows r.oid 0 r'.oid = _
    rcases List.mem_append.mp hr' with hr' | hr'
    · rw [Function.update_of_ne (hother r' hr')] at htuples ⊢
      exact hd.rows r' hr' tuples htuples
    · rw [List.mem_singleton.mp hr', Function.update_self] at htuples ⊢
      cases htuples
      rfl

/-- The rows that fit go to their table. -/
theorem insert_rows (hd : Represents c a d) (hw : a.WellFormed c) {r : Relation}
    (hr : r ∈ d.tables) {rows : List (List Value)}
    (hmade : ∀ values ∈ rows, ∀ v ∈ values, v.Made c.types) {tuples : Multiset Bytes}
    (htuples : a.rows r.oid = some tuples) :
    Represents c (a.insert_rows c r rows).2 (d.insert r.oid
      (rows.takeWhile ((Catalog.codec c r).fits_page c.config.page_size))) := by
  have hsame := same_others_insert_rows (c := c) (a := a) (r := r) rows
  refine ⟨by rw [hsame.relations]; exact hd.tables, fun r' hr' tuples' htuples' => ?_,
    by unfold CatalogModel.next_oid; rw [hsame.relations]; exact hd.next_oid⟩
  change Function.update d.rows r.oid _ r'.oid = _
  by_cases hoid : r'.oid = r.oid
  · cases List.inj_on_of_nodup_map hw.oids (hd.mem_iff.mp hr').1 (hd.mem_iff.mp hr).1 hoid
    rw [(insert_rows_eq (c := c) rows htuples).2] at htuples'
    cases htuples'
    rw [Function.update_self, hd.rows r hr tuples htuples, Multiset.map_add, Multiset.map_coe,
      List.map_map]
    congr 2
    refine ((List.map_congr_left fun values hvalues => ?_).trans (List.map_id _)).symm
    exact RowCodec.decoded_tuple c.page_max
      (hmade values ((List.takeWhile_sublist _).subset hvalues)) (List.mem_takeWhile_imp hvalues)
  · rw [Function.update_of_ne hoid]
    rw [hsame.rows r'.oid hoid] at htuples'
    exact hd.rows r' hr' tuples' htuples'

end Represents

/-! ## Statements -/

/-- The engine goes on as the database does. -/
def Goes (c : Setup) (h : History) (d : Database) (stmt : Stmt)
    (reply : Option (List ExecRow)) (s : CatalogState) : Prop :=
  ∃ a' d', HoldsCatalog c a' s ∧ Grown c h a' ∧ Represents c a' d' ∧
    d.Executes c stmt reply d'

namespace QueryEngine

variable {c : Setup} {h : History} {a : CatalogModel} {d : Database} {q : QueryEngine}
  {sql : Bytes}

theorem execute_insert_goes {stmt : InsertStmt} (hstmt : statement sql = some (.insert stmt))
    (hc : HoldsCatalog c a q.catalog) (hg : Grown c h a) (hd : Represents c a d)
    (huser : ∀ t : SystemTable, stmt.table_name ≠ t.name)
    (hsmall : (h.next (.execute sql)).Small) :
    (execute c.types sql).wp
      (fun out q' => Goes c (h.next (.execute sql)) d (.insert stmt) (some out) q'.catalog)
      (fun _ q' => Goes c (h.next (.execute sql)) d (.insert stmt) none q'.catalog) q := by
  have hbound := hd.bound_insert_eq hc.well_formed hg.opened huser
  cases hmodel : a.bound_insert c stmt with
  | none =>
    rw [hmodel] at hbound
    exact wp_mono (execute_insert_refused hstmt hc hmodel) (fun _ _ hf => hf.elim)
      fun _ _ hc1 => ⟨a, d, hc1, hg.executed sql, hd, .insert_refused hbound⟩
  | some bound =>
    obtain ⟨r, rows⟩ := bound
    rw [hmodel] at hbound
    obtain ⟨hr, -, -⟩ := made_of_bound_insert hmodel
    obtain ⟨-, hmem⟩ := CatalogOp.open_of_ok hr
    obtain ⟨hoid, hvalues, hgrown, hspec⟩ := insert_spec hstmt hc hg huser hsmall hmodel
    dsimp only [Option.map_some] at hbound
    generalize rows.map (·.map BoundLiteral.value) = rows at *
    obtain ⟨tuples, htuples, -⟩ := hg.rows r hmem hoid
    have hd' := hd.insert_rows hc.well_formed (hd.mem_iff.mpr ⟨hmem, hoid⟩) hvalues htuples
    obtain ⟨hok, -⟩ := insert_rows_eq (c := c) rows htuples
    apply wp_mono hspec
    · rintro out q' ⟨rfl, hdone, hc'⟩
      have hfit := hok.mp hdone
      rw [List.takeWhile_eq_self_iff.mpr hfit] at hd'
      exact ⟨_, _, hc', hgrown, hd', .insert hbound hfit⟩
    · rintro e q' ⟨⟨e', hfails⟩, hc'⟩
      refine ⟨_, _, hc', hgrown, hd', .insert_in_part hbound ?_⟩
      by_contra hnone
      rw [hok.mpr fun values hv => by
        by_contra hlarge
        exact hnone ⟨values, hv, Bool.not_eq_true _ ▸ hlarge⟩] at hfails
      cases hfails

/-- What the binder makes of a CREATE TABLE. -/
theorem bind_create_gives (stmt : CreateTableStmt) (hc : HoldsCatalog c a q.catalog)
    (ho : a.opened = true) :
    (QueryEngine.bind c.types (.create_table stmt)).wp
      (fun bound _ => ∃ i : BoundCreateTableStmt, bound = .create_table i ∧
        i.if_not_exists = stmt.if_not_exists ∧
        stmt.bound = if i.columns.isEmpty then none else some (create_spec i))
      (fun _ _ => stmt.bound = none) q := by
  refine wp_bind_stmt (E := fun _ => stmt.bound = none) (Q := fun bound _ =>
    ∃ i : BoundCreateTableStmt, bound = .create_table i ∧ i.if_not_exists = stmt.if_not_exists ∧
      stmt.bound = if i.columns.isEmpty then none else some (create_spec i)) ?_
  unfold Binder.bind Binder.bind_create_table CreateTableStmt.bound
  rw [wp_bind, wp_bind]
  apply wp_mono (Binder.bind_column_defs_gives ho stmt.table_name [] stmt.columns
    { catalog := q.catalog } hc)
  · rintro columns b ⟨hdefs, -⟩
    rw [wp_pure]
    refine (wp_pure _).mpr ⟨_, rfl, rfl, ?_⟩
    rw [hdefs]
    rfl
  · rintro e b ⟨hdefs, -⟩
    rw [hdefs]
    rfl

theorem create_executes (hw : a.WellFormed c) (hg : Grown c h a) (hd : Represents c a d)
    {stmt : CreateTableStmt} {i : BoundCreateTableStmt} (hb : BindsCreate stmt i)
    (hword : is_name stmt.table_name = true)
    (hbound : stmt.bound = if i.columns.isEmpty then none else some (create_spec i)) :
    ∃ d', Represents c (a.create_table c (create_spec i)).2 d' ∧
      d.Executes c (.create_table stmt)
        (created_reply stmt.if_not_exists (a.create_table c (create_spec i)).1) d' := by
  have hspec : (create_spec i).name = stmt.table_name := hb.name
  have hsame : (create_spec i).columns.isEmpty = i.columns.isEmpty := by simp [create_spec]
  have hhas := hd.has_iff hw hg.opened stmt.table_name
  have hnonempty : stmt.table_name.isEmpty = false := by
    rcases hn : stmt.table_name with _ | ⟨b, rest⟩
    · rw [hn] at hword
      cases hword
    · rfl
  have hknown : ((create_spec i).columns.any fun column =>
      (c.types.lookup column.type_oid).toOption.isNone) = false := by
    refine List.any_eq_false.mpr fun column hcolumn => ?_
    obtain ⟨t, ht⟩ := hb.builtin column hcolumn
    rw [ht, c.registered.by_oid t]
    simp [Except.toOption]
  have hrefuses : a.refuses c (create_spec i) = if i.columns.isEmpty then some .InvalidArgument
      else if (a.find stmt.table_name).isSome then some .AlreadyExists else none := by
    simp only [CatalogModel.refuses, hg.opened, hspec, hnonempty, hsame, hknown, Bool.not_true,
      Bool.false_eq_true, if_false, Bool.false_or]
  unfold CatalogModel.create_table
  rw [hrefuses]
  rcases hempty : i.columns.isEmpty with _ | _
  · rw [hempty] at hbound
    replace hbound : stmt.bound = some (create_spec i) := hbound
    rcases hfind : (a.find stmt.table_name).isSome with _ | _
    · have hnew : ¬ d.Has stmt.table_name := by
        rw [hhas, hfind]
        exact Bool.false_ne_true
      have hoid : ∀ r ∈ d.tables, r.oid ≠ a.next_oid := fun r hr =>
        Nat.ne_of_lt (CatalogModel.lt_next_oid (hd.mem_iff.mp hr).1)
      by_cases hclass : c.ClassFits (create_spec i).name Catalog.RELKIND_TABLE
      · have hadd := hd.add (r := a.created c (create_spec i)) rfl (hg.fresh _ (Nat.le_refl _)) hoid
        simp only [Bool.false_eq_true, if_false, if_pos hclass]
        refine ⟨_, hadd, ?_⟩
        by_cases hall : ∀ column ∈ (create_spec i).columns, c.ColumnFits column
        · have hfitting : c.fitting (create_spec i).columns = (create_spec i).columns :=
            List.takeWhile_eq_self_iff.mpr fun column hcolumn => decide_eq_true (hall column hcolumn)
          rw [if_pos (List.all_eq_true.mpr fun column hcolumn =>
            decide_eq_true (hall column hcolumn))]
          simp only [CatalogModel.created, hfitting, hd.next_oid]
          exact .create hbound hnew hclass hall
        · rw [if_neg fun hok => hall fun column hcolumn =>
            of_decide_eq_true (List.all_eq_true.mp hok column hcolumn)]
          push Not at hall
          simp only [CatalogModel.created, hd.next_oid, created_reply, reduceCtorEq, and_false,
            if_false]
          exact .create_in_part hbound hnew hclass hall
      · simp only [Bool.false_eq_true, if_false, if_neg hclass, created_reply, reduceCtorEq,
          and_false]
        exact ⟨d, ⟨hd.tables, hd.rows, hd.next_oid⟩, .create_too_large hbound hnew hclass⟩
    · refine ⟨d, hd, ?_⟩
      simp only [Bool.false_eq_true, if_false, if_true, created_reply, and_true]
      rcases hif : stmt.if_not_exists with _ | _
      · exact .create_taken hbound (hhas.mpr hfind) hif
      · exact .create_again hbound (hhas.mpr hfind) hif
  · rw [hempty] at hbound
    refine ⟨d, hd, ?_⟩
    simp only [if_true, created_reply, reduceCtorEq, and_false, if_false]
    exact .create_refused hbound

theorem execute_create_goes {stmt : CreateTableStmt}
    (hstmt : statement sql = some (.create_table stmt)) (hc : HoldsCatalog c a q.catalog)
    (hg : Grown c h a) (hd : Represents c a d) (hsmall : (h.next (.execute sql)).Small) :
    (execute c.types sql).wp
      (fun out q' => Goes c (h.next (.execute sql)) d (.create_table stmt) (some out) q'.catalog)
      (fun _ q' => Goes c (h.next (.execute sql)) d (.create_table stmt) none q'.catalog) q := by
  refine wp_execute_create (R := Goes c _ d (.create_table stmt)) hstmt hg hsmall ?_
  apply wp_mono (wp_and (bind_create_table.spec stmt hc) (bind_create_gives stmt hc hg.opened))
  · rintro _ q1 ⟨⟨i, rfl, hb, hc1⟩, i', hi', hif, hbound⟩
    cases hi'
    obtain ⟨d', hd', hexec⟩ := create_executes hc.well_formed hg hd hb (is_name_of_create hstmt) hbound
    rw [← hif] at hexec
    exact ⟨i, rfl, hb, hc1, fun s hs =>
      ⟨_, d', hs, grown_of_create hstmt hb hc.well_formed hg, hd', hexec⟩⟩
  · exact fun e q1 hf => ⟨a, d, hf.1, hg.executed sql, hd, .create_refused hf.2⟩

/-- What the binder makes of a SELECT. -/
theorem bind_select_gives {b : Binder} (hbuiltin : c.types = builtin_registry)
    (hc : HoldsCatalog c a b.catalog) (ho : a.opened = true) (stmt : SelectStmt) :
    (Binder.bind_select c.types stmt).wp
      (fun bound _ => ∃ r, a.open_table stmt.table_name = .ok r ∧ bound.table.name = r.name ∧
        Binder.bind_columns c.types r.oid 0 r.columns = .ok bound.table.columns ∧
        stmt.bound bound.table = some bound)
      (fun _ _ => ∀ r, a.open_table stmt.table_name = .ok r →
        (∃ e, Binder.bind_columns c.types r.oid 0 r.columns = .error e) ∨
        ∃ table : BoundTableRef, Binder.bind_columns c.types r.oid 0 r.columns =
          .ok table.columns ∧ stmt.bound table = none) b := by
  unfold Binder.bind_select
  rw [wp_bind]
  apply wp_mono (Binder.bind_table.spec hc stmt.table_name)
  · rintro table b1 ⟨r, hr, hname, hcolumns, hc1⟩
    have hrefused : stmt.bound table = none → ∀ r', a.open_table stmt.table_name = .ok r' →
        (∃ e, Binder.bind_columns c.types r'.oid 0 r'.columns = .error e) ∨
        ∃ table : BoundTableRef, Binder.bind_columns c.types r'.oid 0 r'.columns =
          .ok table.columns ∧ stmt.bound table = none := by
      intro hnone r' hr'
      cases hr.symm.trans hr'
      exact Or.inr ⟨table, hcolumns, hnone⟩
    unfold SelectStmt.bound at hrefused ⊢
    rw [hbuiltin, wp_bind]
    apply wp_mono (Binder.bind_items_gives table stmt.items b1 (names_types_of_holds hc1 ho))
    · rintro items b2 ⟨hitems, hb2⟩
      rw [wp_bind]
      apply wp_mono (Binder.bind_where_gives table stmt.where_ b2 hb2)
      · rintro where_ b3 ⟨hwhere, -⟩
        rw [hbuiltin] at hcolumns
        refine (wp_pure _).mpr ⟨r, hr, hname, hcolumns, ?_⟩
        rw [hitems]
        change (bound_where table stmt.where_).bind _ = _
        rw [hwhere]
        rfl
      · rintro e b3 ⟨hwhere, -⟩
        rw [hbuiltin] at hrefused
        refine hrefused ?_
        rw [hitems]
        change (bound_where table stmt.where_).bind _ = _
        rw [hwhere]
        rfl
    · rintro e b2 ⟨hitems, -⟩
      rw [hbuiltin] at hrefused
      refine hrefused ?_
      rw [hitems]
      rfl
  · rintro e b1 ⟨hnone, -⟩ r hr
    exact Or.inl (hnone r hr)

theorem filterMapM_ok {α β : Type} {f : α → Result (Option β)} {xs : List α}
    (hf : ∀ x ∈ xs, ∃ y, f x = .ok y) : ∃ out, xs.filterMapM f = .ok out := by
  induction xs with
  | nil => exact ⟨[], rfl⟩
  | cons x rest ih =>
    obtain ⟨⟨y, hy⟩, hrest⟩ := List.forall_mem_cons.mp hf
    obtain ⟨out, hout⟩ := ih hrest
    rw [List.filterMapM_cons, hy]
    cases y with
    | none => exact ⟨out, hout⟩
    | some y => exact ⟨y :: out, by simp only [hout]; rfl⟩

/-- A SELECT that was bound to a table of the database. -/
theorem select_goes {stmt : SelectStmt} {i : BoundSelectStmt} {r : Relation}
    (hc : HoldsCatalog c a q.catalog) (hg : Grown c h a) (hd : Represents c a d)
    (hsmall : h.Small) (hr : a.open_table i.table.name = .ok r) (hoid : 5 ≤ r.oid)
    (hopen : d.open_table stmt.table_name = some r)
    (hcolumns : Binder.bind_columns c.types r.oid 0 r.columns = .ok i.table.columns)
    (hbound : stmt.bound i.table = some i) (htyped : Binder.SelectTyped c.types i) :
    (execute_bound c.types (.select i)).wp
      (fun out q' => Goes c h d (.select stmt) (some out) q'.catalog)
      (fun _ q' => Goes c h d (.select stmt) none q'.catalog) q := by
  obtain ⟨-, hmem⟩ := CatalogOp.open_of_ok hr
  obtain ⟨tuples, htuples, hstores⟩ := hg.rows r hmem hoid
  have hreads := Catalog.reads_of_rows hc (hg.room hsmall) hr hoid htuples hstores
  have hscan := Catalog.scan_table_holds hc i.table.name (hg.room hsmall)
  have hrows := hd.rows r (hd.mem_iff.mpr ⟨hmem, hoid⟩) tuples htuples
  refine wp_execute_bound (lower_select i) (Q := fun out => Goes c h d (.select stmt) (some out))
    (E := Goes c h d (.select stmt) none) ?_
  have hrun := open_select_run i q.catalog
  unfold Catalog.reads at hreads
  rcases hresult : (scan_table i.table.name).run q.catalog with ⟨e | rows, s⟩
  · rw [hresult] at hreads
    cases hreads
  · rw [hresult] at hreads hscan hrun
    have horder : (rows : Multiset (List Value)) = d.rows r.oid := by
      rw [hrows]
      exact Except.ok.inj hreads
    -- every row of the table has a value for each expression
    have hall : ∀ values ∈ rows, ∃ image, select_row c.types i values = .ok image := by
      intro values hvalues
      have hin : values ∈ tuples.map (Catalog.codec c r).decoded := by
        rw [← hrows, ← horder]
        exact hvalues
      obtain ⟨x, hx, rfl⟩ := Multiset.mem_map.mp hin
      obtain ⟨stored, hdecode, -⟩ := hstores x hx
      have hdecoded : (Catalog.codec c r).decode x = .ok ((Catalog.codec c r).decoded x) := by
        rw [RowCodec.decoded, hdecode]
        rfl
      exact select_row_ok c.registered htyped (typed_row_of_decode hcolumns hdecoded)
    obtain ⟨out, hout⟩ := filterMapM_ok hall
    refine wp_of_run_ok hrun ⟨fun got hgot => ?_, fun e he => ?_⟩
    · rw [collect_select, hout] at hgot
      cases hgot
      exact ⟨a, d, hscan, hg, hd, .select hopen hcolumns hbound horder hout⟩
    · rw [collect_select, hout] at he
      cases he

theorem execute_select_goes {stmt : SelectStmt} (hstmt : statement sql = some (.select stmt))
    (hbuiltin : c.types = builtin_registry) (hc : HoldsCatalog c a q.catalog) (hg : Grown c h a)
    (hd : Represents c a d) (hsmall : h.Small) :
    (execute c.types sql).wp
      (fun out q' => Goes c h d (.select stmt) (some out) q'.catalog)
      (fun _ q' => Goes c h d (.select stmt) none q'.catalog) q := by
  by_cases hsys : ∃ t : SystemTable, stmt.table_name = t.name
  · obtain ⟨t, ht⟩ := hsys
    exact wp_mono (execute_select_keeps hstmt hc (hg.room hsmall))
      (fun _ _ hc1 => ⟨a, d, hc1, hg, hd, .select_system t ht⟩)
      fun _ _ hc1 => ⟨a, d, hc1, hg, hd, .select_system t ht⟩
  · have huser : ∀ t : SystemTable, stmt.table_name ≠ t.name := fun t ht => hsys ⟨t, ht⟩
    have hopen := hd.open_table_eq hc.well_formed hg.opened huser
    rw [execute_of_statement hstmt, wp_bind]
    have hbind : (Binder.bind c.types (.select stmt)).wp
        (fun bound b => ∃ (i : BoundSelectStmt) (r : Relation), bound = .select i ∧
          a.open_table stmt.table_name = .ok r ∧ i.table.name = r.name ∧
          Binder.bind_columns c.types r.oid 0 r.columns = .ok i.table.columns ∧
          stmt.bound i.table = some i ∧ Binder.SelectTyped c.types i ∧ HoldsCatalog c a b.catalog)
        (fun _ b => Goes c h d (.select stmt) none b.catalog) { catalog := q.catalog } := by
      unfold Binder.bind
      rw [wp_bind]
      apply wp_mono (wp_and (bind_select_gives (b := { catalog := q.catalog }) hbuiltin hc hg.opened
        stmt) (wp_and (Binder.bind_select_spec stmt (names_bool_of_holds hc))
        (Binder.bind_select_keeps Catalog.holds_kept_by_lookups stmt { catalog := q.catalog } hc)))
      · rintro i b ⟨⟨r, hr, hname, hcolumns, hbound⟩, htyped, hc1⟩
        exact (wp_pure _).mpr ⟨i, r, rfl, hr, hname, hcolumns, hbound, htyped, hc1⟩
      · rintro e b ⟨hrefused, -, hc1⟩
        refine ⟨a, d, hc1, hg, hd, ?_⟩
        cases hr : a.open_table stmt.table_name with
        | error e =>
          rw [hr] at hopen
          exact .select_missing hopen
        | ok r =>
          rw [hr] at hopen
          rcases hrefused r hr with ⟨e, he⟩ | ⟨table, hcolumns, hnone⟩
          · obtain ⟨refs, hrefs, -⟩ := Binder.bind_columns_ok c.registered
              (hg.typed r (CatalogOp.open_of_ok hr).2) r.oid 0
            rw [hrefs] at he
            cases he
          · exact .select_refused hopen hcolumns hnone
    refine wp_mono (wp_bind_stmt (q := q) (Q := fun bound s => ∃ (i : BoundSelectStmt)
      (r : Relation), bound = .select i ∧ a.open_table stmt.table_name = .ok r ∧
      i.table.name = r.name ∧ Binder.bind_columns c.types r.oid 0 r.columns = .ok i.table.columns ∧
      stmt.bound i.table = some i ∧ Binder.SelectTyped c.types i ∧ HoldsCatalog c a s) hbind) ?_
      fun _ _ hgoes => hgoes
    rintro _ q1 ⟨i, r, rfl, hr, hname, hcolumns, hbound, htyped, hc1⟩
    rw [hr] at hopen
    have hr' : a.open_table i.table.name = .ok r := by
      rw [hname, CatalogOp.name_of_ok hr]
      exact hr
    exact select_goes hc1 hg hd hsmall hr' (user_of_name hc hr huser) hopen hcolumns hbound htyped

end QueryEngine

/-! ## Whole runs -/

namespace SqlOp

variable {c : Setup} {h : History} {a : CatalogModel} {d : Database} {q : QueryEngine}

theorem reply_of_wp {x : Call Error QueryEngine (List ExecRow)}
    {P : Option (List ExecRow) → CatalogState → Prop}
    (hx : x.wp (fun out q' => P (some out) q'.catalog) (fun _ q' => P none q'.catalog) q) :
    P (x.run q).1.toOption (x.run q).2.catalog := by
  rcases hrun : x.run q with ⟨e | out, q'⟩
  · have hq' := wp_error hx hrun
    exact hq'
  · have hq' := wp_ok hx hrun
    exact hq'

/-- Closing the catalog and opening it again leaves the tables and their rows. -/
theorem reopen_represents (hc : HoldsCatalog c a q.catalog) (hg : Grown c h a)
    (hd : Represents c a d) (hsmall : h.Small) :
    ∃ a', HoldsCatalog c a' (step c.types .reopen q).2.catalog ∧
      Grown c (h.next .reopen) a' ∧ Represents c a' d ∧
      (step c.types .reopen q).1.toOption = some [] := by
  obtain ⟨_, q', hrun, rfl, hc'⟩ := exists_ok_of_wp (reopen.spec hsmall hc hg)
  have hstep : step c.types .reopen q = (.ok [], q') := hrun
  rw [hstep]
  refine ⟨_, hc', hg.reopened hc.well_formed, ?_, rfl⟩
  unfold CatalogModel.reopened
  rw [hg.has_tables hc.well_formed]
  exact ⟨hd.tables, hd.rows, hd.next_oid⟩

/-- Every operation goes as one of the database. -/
theorem step_refines (hbuiltin : c.types = builtin_registry) (op : SqlOp) (hplain : op.Plain)
    (hsmall : (h.next op).Small) (hc : HoldsCatalog c a q.catalog) (hg : Grown c h a)
    (hd : Represents c a d) :
    ∃ a' d', HoldsCatalog c a' (step c.types op q).2.catalog ∧ Grown c (h.next op) a' ∧
      Represents c a' d' ∧ d.Step c op (step c.types op q).1.toOption d' := by
  cases op with
  | reopen =>
    obtain ⟨a', hc', hg', hd', hreply⟩ := reopen_represents hc hg hd (History.small_of_next hsmall)
    rw [hreply]
    exact ⟨a', d, hc', hg', hd', .reopen⟩
  | execute sql =>
    cases hstmt : QueryEngine.statement sql with
    | none =>
      obtain ⟨msg, e, hrun⟩ : ∃ msg e, QueryEngine.execute c.types sql = _ :=
        QueryEngine.execute_of_none hstmt
      rw [step, hrun]
      exact ⟨a, d, hc, hg.executed sql, hd, .not_one hstmt⟩
    | some stmt =>
      have hgoes : Goes c (h.next (.execute sql)) d stmt
          ((QueryEngine.execute c.types sql).run q).1.toOption
          ((QueryEngine.execute c.types sql).run q).2.catalog := by
        refine reply_of_wp (P := Goes c (h.next (.execute sql)) d stmt) ?_
        cases stmt with
        | create_table stmt => exact QueryEngine.execute_create_goes hstmt hc hg hd hsmall
        | insert stmt => exact QueryEngine.execute_insert_goes hstmt hc hg hd (hplain stmt hstmt) hsmall
        | select stmt =>
          have hnext : h.next (.execute sql) = h := by
            simp only [History.next, hstmt]
          rw [hnext] at hsmall ⊢
          exact QueryEngine.execute_select_goes hstmt hbuiltin hc hg hd hsmall
      obtain ⟨a', d', hc', hg', hd', hexec⟩ := hgoes
      exact ⟨a', d', hc', hg', hd', .execute hstmt hexec⟩

theorem run_refines (hbuiltin : c.types = builtin_registry) (ops : List SqlOp)
    (hplain : ∀ op ∈ ops, op.Plain) (hsmall : (ops.foldl History.next h).Small)
    (hc : HoldsCatalog c a q.catalog) (hg : Grown c h a) (hd : Represents c a d) :
    d.Runs c ops ((Run.exec (step c.types) ops q).1.map Except.toOption) := by
  induction ops generalizing h q a d with
  | nil => exact .nil
  | cons op rest ih =>
    obtain ⟨hop, hrest⟩ := List.forall_mem_cons.mp hplain
    obtain ⟨a', d', hc', hg', hd', hstep⟩ :=
      step_refines hbuiltin op hop (History.small_of_foldl hsmall) hc hg hd
    exact .cons hstep (ih hrest hsmall hc' hg' hd')

end SqlOp

/-- A table, a row that fits and one that does not, a reopen and two queries. -/
def sample_session : List SqlOp :=
  [.execute (str "CREATE TABLE t (a TEXT)"), .execute three_texts, .reopen,
    .execute (str "SELECT * FROM t"), .execute (str "SELECT b FROM t")]

section

set_option maxRecDepth 100000

theorem statements_of_session :
    QueryEngine.statement (str "CREATE TABLE t (a TEXT)") = some (.create_table
      ⟨str "t", [{ name := str "a", type := ⟨str "TEXT", none⟩ }], false⟩) ∧
    QueryEngine.statement three_texts = some (.insert ⟨str "t", [],
      [text_row (str "x"), text_row (List.replicate 360 65), text_row (str "y")]⟩) ∧
    QueryEngine.statement (str "SELECT * FROM t") =
      some (.select ⟨[.StarItem], str "t", none⟩) ∧
    QueryEngine.statement (str "SELECT b FROM t") =
      some (.select ⟨[.ExprItem (.column_ref (str "b")) none], str "t", none⟩) := by
  decide +kernel

theorem sample_session_plain : ∀ op ∈ sample_session, op.Plain := by
  obtain ⟨hcreate, hinsert, hall, hone⟩ := statements_of_session
  intro op hop
  simp only [sample_session, List.mem_cons, List.not_mem_nil, or_false] at hop
  rcases hop with rfl | rfl | rfl | rfl | rfl
  · intro stmt hstmt
    cases hcreate.symm.trans hstmt
  · intro stmt hstmt t
    cases hinsert.symm.trans hstmt
    cases t <;> decide
  · trivial
  · intro stmt hstmt
    cases hall.symm.trans hstmt
  · intro stmt hstmt
    cases hone.symm.trans hstmt

theorem sample_session_small (reopened : Bool) :
    (sample_session.foldl History.next ⟨0, reopened⟩).Small := by
  simp only [sample_session, List.foldl_cons, List.foldl_nil, History.next, statements_of_session]
  decide

end

end edb
