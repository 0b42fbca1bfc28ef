-- Runs of a client that executes SQL texts, and that closes the catalog and
-- opens it again. While no statement inserts into a system table, the catalog
-- under the engine holds a model: an INSERT adds the rows that were bound, one
-- after the other, up to the first that does not go on a page.
import Edb.CatalogRunLaws
import Edb.InsertBinding
import Edb.StatementTexts
import Edb.StoredRows

namespace edb

open Call

/-! ## An INSERT in the model -/

namespace CatalogModel

/-- The loop over the rows of an INSERT stops at the first that does not go in. -/
def insert_rows (c : Setup) (r : Relation) :
    List (List Value) → CatalogModel → Result Unit × CatalogModel
  | [], a => (.ok (), a)
  | values :: rest, a =>
    match (Catalog.codec c r).encode values with
    | .error e => (.error e, a)
    | .ok tuple =>
      if c.Fits tuple.length then insert_rows c r rest (a.insert r.oid tuple)
      else (.error .OutOfMemory, a)

/-- The relation and the rows that the binder makes of an INSERT. -/
def bound_insert (c : Setup) (a : CatalogModel) (stmt : InsertStmt) :
    Option (Relation × List (List BoundLiteral)) :=
  match a.open_table stmt.table_name with
  | .error _ => none
  | .ok r =>
    match Binder.bind_columns c.types r.oid 0 r.columns with
    | .error _ => none
    | .ok columns => (bound_rows c.types columns stmt).map fun rows => (r, rows)

end CatalogModel

/-! ## Lookups -/

section

variable {c : Setup} {a : CatalogModel}

theorem Catalog.holds_kept_by_lookups : KeptByLookups (HoldsCatalog c a) where
  get_type name _ hc := wp_mono (get_type.spec hc name) (fun _ _ h => h.2.1) fun _ _ h => h.2.1
  get_class name _ hc := wp_mono (get_class.spec hc name) (fun _ _ h => h.2.1) fun _ _ h => h.2.1
  open_table name _ hc := wp_mono (open_table.spec hc name) (fun _ _ ⟨_, _, _, h⟩ => h.1)
    fun _ _ h => h.2

namespace Binder

variable {b : Binder}

theorem wp_on_table_name {α : Type} (name : Bytes) {x : Call Error CatalogState α}
    {Q : α → CatalogState → Prop} {E : CatalogState → Prop}
    (h : x.wp Q (fun _ s => E s) b.catalog) :
    (on_table_name name x).wp (fun r b' => Q r b'.catalog) (fun _ b' => E b'.catalog) b := by
  unfold on_table_name on_catalog
  rw [wp_bind, wp_attempt, wp_zoom]
  refine wp_mono h (fun r s hq => (wp_pure _).mpr hq) fun e s he => ?_
  dsimp only
  split
  · unfold bind_err
    rw [wp_bind, wp_modify]
    exact (wp_fail _).mpr he
  · exact (wp_fail _).mpr he

/-- A table that is bound is one that the model opens. -/
theorem bind_table.spec (hc : HoldsCatalog c a b.catalog) (name : Bytes) :
    (bind_table c.types name).wp
      (fun table b' => ∃ r, a.open_table name = .ok r ∧ table.name = r.name ∧
        bind_columns c.types r.oid 0 r.columns = .ok table.columns ∧ HoldsCatalog c a b'.catalog)
      (fun _ b' => (∀ r, a.open_table name = .ok r →
        ∃ e, bind_columns c.types r.oid 0 r.columns = .error e) ∧ HoldsCatalog c a b'.catalog)
      b := by
  unfold bind_table
  rw [wp_bind]
  refine wp_mono (wp_on_table_name name (E := fun s => (∀ r, a.open_table name ≠ .ok r) ∧
    HoldsCatalog c a s) (wp_mono (Catalog.get_class.spec hc name) (fun _ _ h => h) ?_)) ?_
    fun _ _ h => ⟨fun r hr => absurd hr (h.1 r), h.2⟩
  · rintro e s1 ⟨hnone, hc1, -⟩
    refine ⟨fun r hr => ?_, hc1⟩
    obtain ⟨ho, hmem⟩ := CatalogOp.open_of_ok hr
    rw [← CatalogOp.name_of_ok hr] at hnone
    simp [CatalogModel.get_class, ho, hc.well_formed.find_mem hmem] at hnone
  · rintro k b1 ⟨hk, hc1, -⟩
    rw [wp_bind]
    refine wp_mono (wp_on_table_name name (E := fun s => (∀ r, a.open_table name ≠ .ok r) ∧
      HoldsCatalog c a s) (wp_mono (Catalog.open_table.spec hc1 name) (fun _ _ h => h) ?_)) ?_
      fun _ _ h => ⟨fun r hr => absurd hr (h.1 r), h.2⟩
    · rintro e s2 ⟨hnone, hc2⟩
      refine ⟨fun r hr => ?_, hc2⟩
      rw [hr] at hnone
      cases hnone
    · rintro oid b2 ⟨r, hr, rfl, hopened⟩
      -- the class and the table are those of one relation
      have hoid : k.oid = r.oid := by
        obtain ⟨ho, hmem⟩ := CatalogOp.open_of_ok hr
        rw [← CatalogOp.name_of_ok hr] at hk
        simp only [CatalogModel.get_class, ho, hc.well_formed.find_mem hmem, Bool.not_true,
          Bool.false_eq_true, if_false, Except.ok.injEq] at hk
        rw [← hk]
        rfl
      unfold on_catalog
      rw [wp_bind, wp_zoom]
      apply wp_mono (CatalogOp.schema_of_opened hopened) _ fun _ _ hf => hf.elim
      rintro schema s3 ⟨rfl, rfl⟩
      rw [wp_bind, wp_ofExcept, hoid]
      refine ⟨fun columns hcolumns => (wp_pure _).mpr ⟨r, hr, rfl, hcolumns, hopened.1⟩,
        fun e he => ⟨fun r' hr' => ?_, hopened.1⟩⟩
      cases hr.symm.trans hr'
      exact ⟨e, he⟩

/-- The rows that are bound are those of the model. -/
theorem bind_insert.spec (hc : HoldsCatalog c a b.catalog) (stmt : InsertStmt) :
    (bind_insert c.types stmt).wp
      (fun bound b' => ∃ r, a.bound_insert c stmt = some (r, bound.rows) ∧
        a.open_table stmt.table_name = .ok r ∧ bound.table.name = r.name ∧
        HoldsCatalog c a b'.catalog)
      (fun _ b' => a.bound_insert c stmt = none ∧ HoldsCatalog c a b'.catalog) b := by
  unfold bind_insert
  rw [wp_bind]
  apply wp_mono (bind_table.spec hc stmt.table_name)
  · rintro table b1 ⟨r, hr, hname, hcolumns, hc1⟩
    have hmodel : a.bound_insert c stmt =
        (bound_rows c.types table.columns stmt).map fun rows => (r, rows) := by
      unfold CatalogModel.bound_insert
      rw [hr]
      dsimp only
      rw [hcolumns]
    have hrows : Computes (do
        let columns ← bind_target_columns stmt table
        let rows ← bind_rows c.types columns stmt.rows
        pure (BoundInsertStmt.mk table columns rows)) _ :=
      (bind_target_columns_computes stmt table).bind fun columns =>
        (bind_rows_computes columns stmt.rows).bind fun rows =>
          computes_pure (BoundInsertStmt.mk table columns rows)
    rw [hmodel]
    apply wp_mono (hrows b1)
    · rintro bound b2 ⟨hbound, hb2⟩
      obtain ⟨targets, htargets, hbound⟩ := Option.bind_eq_some_iff.mp hbound
      obtain ⟨rows, hrows, hbound⟩ := Option.bind_eq_some_iff.mp hbound
      cases hbound
      have hall : bound_rows c.types table.columns stmt = some rows := by
        unfold bound_rows
        rw [htargets]
        exact hrows
      exact ⟨r, by rw [hall]; rfl, hr, hname, hb2 ▸ hc1⟩
    · rintro e b2 ⟨hnone, hb2⟩
      have hall : bound_rows c.types table.columns stmt = none := by
        unfold bound_rows
        cases htargets : insert_targets table.columns stmt.column_names with
        | none => rfl
        | some targets =>
          rw [htargets] at hnone
          cases hrows : stmt.rows.mapM (bound_row c.types targets) with
          | none => exact hrows
          | some rows =>
            rw [Option.bind_some, hrows] at hnone
            cases hnone
      exact ⟨by rw [hall]; rfl, hb2 ▸ hc1⟩
  · rintro e b1 ⟨hnone, hc1⟩
    refine ⟨?_, hc1⟩
    unfold CatalogModel.bound_insert
    cases hr : a.open_table stmt.table_name with
    | error e => rfl
    | ok r =>
      obtain ⟨e', he'⟩ := hnone r hr
      dsimp only
      rw [he']

end Binder

end

/-! ## The calls of a statement -/

namespace Catalog

variable {c : Setup} {a : CatalogModel} {s : CatalogState}

/-- A table that is open stays open through an insert. -/
theorem insert_keeps_open (oid o : Nat) (values : List Value) :
    (insert oid values).Keeps fun s => (s.catalog.user_tables.lookup o).isSome = true := by
  refine keeps_get.bind fun s => keeps_get_bind fun s hs => ?_
  rcases hb : s.catalog.user_tables.lookup oid with _ | b
  · exact (wp_fail _).mpr hs
  · refine (wp_zoom _ _ _).mpr ?_
    have hafter : ∀ t : BundleState,
        ((s.catalog.user_tables.insert oid t.bundle).lookup o).isSome = true := by
      intro t
      by_cases ho : o = oid
      · subst ho
        rw [AList.lookup_insert]
        rfl
      · rw [AList.lookup_insert_ne ho]
        exact hs
    exact wp_mono (wp_trivial _ _) (fun _ t _ => hafter t) fun _ t _ => hafter t

/-- The loop of an INSERT over the rows that were bound. -/
theorem insert_rows.spec (rows : List (List BoundLiteral)) (hc : HoldsCatalog c a s)
    (ho : a.opened = true) {r : Relation} (hr : r ∈ a.relations) (hoid : 5 ≤ r.oid)
    (hroom : a.inserted r.oid + rows.length ≤ 2 ^ 32)
    (hopen : (s.catalog.user_tables.lookup r.oid).isSome = true) :
    (each (fun row : List BoundLiteral => do
        let _ ← insert r.oid (row.map BoundLiteral.value)
        pure ()) rows).wp
      (fun _ s' => (a.insert_rows c r (rows.map (·.map BoundLiteral.value))).1 = .ok () ∧
        HoldsCatalog c (a.insert_rows c r (rows.map (·.map BoundLiteral.value))).2 s')
      (fun e s' => (a.insert_rows c r (rows.map (·.map BoundLiteral.value))).1 = .error e ∧
        HoldsCatalog c (a.insert_rows c r (rows.map (·.map BoundLiteral.value))).2 s') s := by
  induction rows generalizing a s with
  | nil => exact (wp_pure _).mpr ⟨rfl, hc⟩
  | cons row rest ih =>
    rw [List.length_cons] at hroom
    obtain ⟨b, hb⟩ := Option.isSome_iff_exists.mp hopen
    rw [each, wp_bind, wp_bind, List.map_cons]
    simp only [CatalogModel.insert_rows]
    apply wp_mono (wp_and (insert_user.spec hc ho hr hoid (by omega) hb _)
      (insert_keeps_open r.oid r.oid _ s hopen))
    · rintro id s1 ⟨⟨tuple, henc, hfits, hc1⟩, hopen1⟩
      rw [henc]
      simp only [if_pos hfits]
      refine (wp_pure _).mpr (ih hc1 ho hr ?_ hopen1)
      simp only [CatalogModel.insert, Function.update_self]
      omega
    · rintro e s1 ⟨⟨hc1, hwhy⟩, -⟩
      rcases hwhy with henc | ⟨tuple, henc, hbig, rfl⟩
      · rw [henc]
        exact ⟨rfl, hc1⟩
      · rw [henc]
        simp only [if_neg hbig]
        exact ⟨trivial, hc1⟩

/-- The scan of the catalog's client is `scan_table`. -/
theorem step_scan_eq (name : Bytes) (s : CatalogState) : CatalogOp.step (.scan name) s =
    (.rows ((scan_table name).run s).1, ((scan_table name).run s).2) := by
  unfold CatalogOp.step
  rw [show CatalogOp.call (.scan name) = (do
    let r ← (scan_table name).attempt
    pure (.rows r)) from rfl, run_bind, run_attempt]
  rfl

/-- A scan leaves the model as it is. -/
theorem scan_table_holds (hc : HoldsCatalog c a s) (name : Bytes)
    (hroom : ∀ oid, a.inserted oid ≤ 2 ^ 32) :
    HoldsCatalog c a ((scan_table name).run s).2 := by
  have hscan := (CatalogOp.step_scan name hc fun r _ => hroom r.oid).2
  rw [step_scan_eq] at hscan
  exact hscan

end Catalog

/-! ## Statements -/

namespace QueryEngine

/-- The one statement of a text. -/
def statement (sql : Bytes) : Option Stmt :=
  match (Parser.parse.run (Parser.start sql)).1 with
  | .ok [stmt] => some stmt
  | _ => none

variable {types : TypeRegistry} {c : Setup} {a : CatalogModel} {q : QueryEngine} {sql : Bytes}

theorem parse_of_statement {stmt : Stmt} (h : statement sql = some stmt) :
    (Parser.parse.run (Parser.start sql)).1 = .ok [stmt] := by
  unfold statement at h
  split at h
  · rename_i s hs
    rw [hs, Option.some.inj h]
  · cases h

theorem execute_of_statement {stmt : Stmt} (h : statement sql = some stmt) :
    execute types sql = (do
      let bound ← bind types stmt
      execute_bound types bound) := by
  unfold statement at h
  unfold execute
  rcases hp : Parser.parse.run (Parser.start sql) with ⟨r, parser⟩
  rw [hp] at h
  rcases r with e | _ | ⟨first, _ | ⟨second, rest⟩⟩
  · cases h
  · cases h
  · cases h
    rfl
  · cases h

/-- A text that is not one statement is refused before the catalog is asked. -/
theorem execute_of_none (h : statement sql = none) :
    ∃ msg e, execute types sql = query_err msg e := by
  unfold statement at h
  unfold execute
  rcases hp : Parser.parse.run (Parser.start sql) with ⟨r, parser⟩
  rw [hp] at h
  rcases r with e | _ | ⟨first, _ | ⟨second, rest⟩⟩
  · exact ⟨_, _, rfl⟩
  · exact ⟨_, _, rfl⟩
  · cases h
  · exact ⟨_, _, rfl⟩

/-- A name that is none of the system tables' opens a user table. -/
theorem user_of_name (hc : HoldsCatalog c a q.catalog) {name : Bytes} {r : Relation}
    (hr : a.open_table name = .ok r) (huser : ∀ t : SystemTable, name ≠ t.name) : 5 ≤ r.oid := by
  rcases hc.well_formed.kinds r (CatalogOp.open_of_ok hr).2 with ⟨t, rfl⟩ | ⟨hoid, -⟩
  · exact absurd (CatalogOp.name_of_ok hr).symm (huser t)
  · exact hoid

/-- An INSERT into a user table that the binder accepts. -/
theorem execute_insert.spec {stmt : InsertStmt} (hstmt : statement sql = some (.insert stmt))
    (hc : HoldsCatalog c a q.catalog) (huser : ∀ t : SystemTable, stmt.table_name ≠ t.name)
    {r : Relation} {rows : List (List BoundLiteral)}
    (hbound : a.bound_insert c stmt = some (r, rows))
    (hroom : a.inserted r.oid + rows.length ≤ 2 ^ 32) :
    (execute c.types sql).wp
      (fun out q' => out = [] ∧
        (a.insert_rows c r (rows.map (·.map BoundLiteral.value))).1 = .ok () ∧
        HoldsCatalog c (a.insert_rows c r (rows.map (·.map BoundLiteral.value))).2 q'.catalog)
      (fun _ q' => (∃ e, (a.insert_rows c r (rows.map (·.map BoundLiteral.value))).1 = .error e) ∧
        HoldsCatalog c (a.insert_rows c r (rows.map (·.map BoundLiteral.value))).2 q'.catalog)
      q := by
  rw [execute_of_statement hstmt, wp_bind]
  have hbind : (Binder.bind c.types (.insert stmt)).wp
      (fun bound b => ∃ i : BoundInsertStmt, bound = .insert i ∧ i.rows = rows ∧
        a.open_table i.table.name = .ok r ∧ HoldsCatalog c a b.catalog)
      (fun _ _ => False) { catalog := q.catalog } := by
    unfold Binder.bind
    rw [wp_bind]
    apply wp_mono (Binder.bind_insert.spec (b := { catalog := q.catalog }) hc stmt)
    · rintro i b ⟨r', hsome, hr, hname, hc1⟩
      rw [hbound] at hsome
      obtain ⟨rfl, hrows⟩ := Prod.mk.inj (Option.some.inj hsome)
      refine (wp_pure _).mpr ⟨i, rfl, hrows.symm, ?_, hc1⟩
      rw [hname, CatalogOp.name_of_ok hr]
      exact hr
    · rintro e b ⟨hnone, -⟩
      rw [hbound] at hnone
      cases hnone
  have hopen : a.open_table stmt.table_name = .ok r := by
    unfold CatalogModel.bound_insert at hbound
    split at hbound
    · cases hbound
    · rename_i r' hr
      split at hbound
      · cases hbound
      · obtain ⟨_, -, heq⟩ := Option.map_eq_some_iff.mp hbound
        cases heq
        exact hr
  have hoid := user_of_name hc hopen huser
  refine wp_mono (wp_bind_stmt (q := q) (E := fun _ => False)
    (Q := fun bound s => ∃ i : BoundInsertStmt, bound = .insert i ∧ i.rows = rows ∧
      a.open_table i.table.name = .ok r ∧ HoldsCatalog c a s) hbind) ?_ fun _ _ hf => hf.elim
  rintro _ q1 ⟨i, rfl, rfl, hr, hc1⟩
  have hlower : lower (.insert i) = .ok (.insert i) := rfl
  refine wp_execute_bound hlower
    (Q := fun out s => out = [] ∧
      (a.insert_rows c r (i.rows.map (·.map BoundLiteral.value))).1 = .ok () ∧
      HoldsCatalog c (a.insert_rows c r (i.rows.map (·.map BoundLiteral.value))).2 s)
    (E := fun s =>
      (∃ e, (a.insert_rows c r (i.rows.map (·.map BoundLiteral.value))).1 = .error e) ∧
      HoldsCatalog c (a.insert_rows c r (i.rows.map (·.map BoundLiteral.value))).2 s) ?_
  show (ExecNode.open_insert i).wp _ _ _
  unfold ExecNode.open_insert
  rw [wp_bind]
  apply wp_mono (Catalog.open_table.spec hc1 i.table.name)
  · rintro oid s1 ⟨r', hr', rfl, hopened⟩
    cases hr.symm.trans hr'
    obtain ⟨hc2, -, b, hb, -⟩ := hopened
    obtain ⟨ho, hmem⟩ := CatalogOp.open_of_ok hr
    rw [wp_bind]
    apply wp_mono (Catalog.insert_rows.spec i.rows hc2 ho hmem hoid hroom (by rw [hb]; rfl))
    · rintro _ s2 ⟨hok, hc3⟩
      refine (wp_pure _).mpr ⟨?_, ?_⟩
      · intro out hout
        cases hout
        exact ⟨rfl, hok, hc3⟩
      · intro e he
        cases he
    · rintro e s2 ⟨herr, hc3⟩
      exact ⟨⟨e, herr⟩, hc3⟩
  · rintro e s1 ⟨he, -⟩
    rw [hr] at he
    cases he

/-- One that the binder refuses changes nothing. -/
theorem execute_insert_refused {stmt : InsertStmt} (hstmt : statement sql = some (.insert stmt))
    (hc : HoldsCatalog c a q.catalog) (hbound : a.bound_insert c stmt = none) :
    (execute c.types sql).wp (fun _ _ => False) (fun _ q' => HoldsCatalog c a q'.catalog) q := by
  rw [execute_of_statement hstmt, wp_bind]
  have hbind : (Binder.bind c.types (.insert stmt)).wp (fun _ _ => False)
      (fun _ b => HoldsCatalog c a b.catalog) { catalog := q.catalog } := by
    unfold Binder.bind
    rw [wp_bind]
    apply wp_mono (Binder.bind_insert.spec (b := { catalog := q.catalog }) hc stmt)
    · rintro i b ⟨r, hsome, -⟩
      rw [hbound] at hsome
      cases hsome
    · exact fun _ _ h => h.2
  exact wp_mono (wp_bind_stmt (Q := fun _ _ => False) hbind) (fun _ _ hf => hf.elim) fun _ _ h => h

end QueryEngine

/-! ## The operations of a client -/

/-- A statement, or the catalog is closed and opened again. -/
inductive SqlOp where
  | execute (sql : Bytes)
  | reopen
  deriving DecidableEq, Repr

namespace SqlOp

def step (types : TypeRegistry) : SqlOp → QueryEngine → Result (List ExecRow) × QueryEngine
  | .execute sql, q => (QueryEngine.execute types sql).run q
  | .reopen, q => (QueryEngine.on_catalog (do
      Catalog.close
      Catalog.open
      pure [])).run q

/-- The operation is not an INSERT into a system table. -/
def Plain : SqlOp → Prop
  | .execute sql => ∀ stmt, QueryEngine.statement sql = some (.insert stmt) →
      ∀ t : SystemTable, stmt.table_name ≠ t.name
  | .reopen => True

/-- The engine after a run from empty files. -/
def after (c : Setup) (ops : List SqlOp) : QueryEngine :=
  (Run.exec (step c.types) ops (QueryEngine.fresh c.types c.config)).2

end SqlOp

/-- What a run has asked for: how many tables, columns and rows, and whether it
opened the catalog again and created no table since. -/
structure History where
  weight : Nat := 0
  unwritten : Bool := false
  deriving DecidableEq, Repr

namespace History

def next (h : History) : SqlOp → History
  | .reopen => { h with unwritten := true }
  | .execute sql =>
    match QueryEngine.statement sql with
    | some (.create_table stmt) => ⟨h.weight + (stmt.columns.length + 1), false⟩
    | some (.insert stmt) => { h with weight := h.weight + stmt.rows.length }
    | _ => h

def of (ops : List SqlOp) : History := ops.foldl next {}

theorem next_create {h : History} {sql : Bytes} {stmt : CreateTableStmt}
    (hstmt : QueryEngine.statement sql = some (.create_table stmt)) :
    h.next (.execute sql) = ⟨h.weight + (stmt.columns.length + 1), false⟩ := by
  simp only [next, hstmt]

theorem next_insert {h : History} {sql : Bytes} {stmt : InsertStmt}
    (hstmt : QueryEngine.statement sql = some (.insert stmt)) :
    h.next (.execute sql) = { h with weight := h.weight + stmt.rows.length } := by
  simp only [next, hstmt]

theorem weight_le_next (h : History) (op : SqlOp) : h.weight ≤ (h.next op).weight := by
  cases op with
  | reopen => exact Nat.le_refl _
  | execute sql =>
    simp only [next]
    split
    · exact Nat.le_add_right _ _
    · exact Nat.le_add_right _ _
    · exact Nat.le_refl _

theorem weight_le_foldl (ops : List SqlOp) (h : History) :
    h.weight ≤ (ops.foldl next h).weight := by
  induction ops generalizing h with
  | nil => exact Nat.le_refl _
  | cons op rest ih => exact Nat.le_trans (h.weight_le_next op) (ih _)

/-- Oids and column numbers stay below 2^31. -/
def Small (h : History) : Prop := 5 + h.weight < 2 ^ 31

instance (h : History) : Decidable h.Small := inferInstanceAs (Decidable (_ < _))

theorem small_of_foldl {h : History} {ops : List SqlOp} (hsmall : (ops.foldl next h).Small) :
    h.Small := by
  have hle := weight_le_foldl ops h
  unfold Small at hsmall ⊢
  omega

theorem small_of_next {h : History} {op : SqlOp} (hsmall : (h.next op).Small) : h.Small :=
  @small_of_foldl h [op] hsmall

end History

/-! ## What a run keeps of the model -/

/-- No two columns have the same name in other letters. -/
def DistinctColumns (columns : List ColumnSchema) : Prop :=
  (columns.map fun column => normalized_column_name column.name).Nodup

/-- The numbers of the catalog are bounded by what the run has asked for, the
columns have builtin types and names of their own, the user tables have names
that a statement can have, and their tuples are known and are rows of theirs. -/
structure Grown (c : Setup) (h : History) (a : CatalogModel) : Prop where
  opened : a.opened = true
  next_oid : a.next_oid ≤ 5 + h.weight
  inserted : ∀ oid, a.inserted oid ≤ 14 + h.weight
  fresh : ∀ oid, a.next_oid ≤ oid → a.inserted oid = 0
  typed : ∀ r ∈ a.relations, BuiltinColumns r.columns
  rows : ∀ r ∈ a.relations, 5 ≤ r.oid → ∃ tuples, a.rows r.oid = some tuples ∧
    ∀ x ∈ tuples, (Catalog.codec c r).Stores x
  unwritten : h.unwritten = true → ∀ t, a.written t = false
  distinct : ∀ r ∈ a.relations, DistinctColumns r.columns
  named : ∀ r ∈ a.relations, 5 ≤ r.oid → is_name r.name = true

namespace Grown

variable {c : Setup} {h h' : History} {a : CatalogModel}

/-- The history may only get longer, and a table that was written stays so. -/
theorem later (hg : Grown c h a) (hle : h.weight ≤ h'.weight)
    (hun : h'.unwritten = true → h.unwritten = true) : Grown c h' a where
  opened := hg.opened
  next_oid := Nat.le_trans hg.next_oid (by omega)
  inserted oid := Nat.le_trans (hg.inserted oid) (by omega)
  fresh := hg.fresh
  typed := hg.typed
  rows := hg.rows
  unwritten hw := hg.unwritten (hun hw)
  distinct := hg.distinct
  named := hg.named

theorem room (hg : Grown c h a) (hsmall : h.Small) (oid : Nat) : a.inserted oid ≤ 2 ^ 32 := by
  have := hg.inserted oid
  unfold History.Small at hsmall
  omega

/-- A statement need not change the model. -/
theorem executed (hg : Grown c h a) (sql : Bytes) : Grown c (h.next (.execute sql)) a := by
  refine hg.later (h.weight_le_next _) fun hw => ?_
  simp only [History.next] at hw
  split at hw
  · cases hw
  · exact hw
  · exact hw

theorem booted (c : Setup) : Grown c {} (({} : CatalogModel).booted) where
  opened := rfl
  next_oid := by decide
  inserted oid := by
    simp only [CatalogModel.booted]
    split
    · omega
    · split
      · omega
      · split <;> omega
  fresh oid hoid := by
    have h5 : 5 ≤ oid := hoid
    have h1 : oid ≠ 1 := by omega
    have h2 : oid ≠ 2 := by omega
    have h3 : oid ≠ 3 := by omega
    simp [CatalogModel.booted, h1, h2, h3]
  typed r hr := by
    obtain ⟨t, -, rfl⟩ := List.mem_map.mp hr
    have hall : ∀ t : SystemTable, ∀ column ∈ (Relation.system t).columns,
        ∃ b ∈ Builtin.all, column.type_oid = b.oid := by
      intro t
      cases t <;> decide
    intro column hcolumn
    obtain ⟨b, -, hb⟩ := hall t column hcolumn
    exact ⟨b, hb⟩
  rows r hr hoid := by
    obtain ⟨t, -, rfl⟩ := List.mem_map.mp hr
    have hlt : t.oid < 5 := t.oid_lt.2
    exact absurd hoid (Nat.not_le_of_lt hlt)
  unwritten hw := by cases hw
  distinct r hr := by
    obtain ⟨t, -, rfl⟩ := List.mem_map.mp hr
    unfold DistinctColumns
    cases t <;> decide
  named r hr hoid := by
    obtain ⟨t, -, rfl⟩ := List.mem_map.mp hr
    have hlt : t.oid < 5 := t.oid_lt.2
    exact absurd hoid (Nat.not_le_of_lt hlt)

/-- The catalog finds its tables when it is opened again. -/
theorem has_tables (hg : Grown c h a) (hw : a.WellFormed c) :
    a.closed.relations.isEmpty = false := by
  simpa [CatalogModel.closed] using hw.opened hg.opened

theorem reopened (hg : Grown c h a) (hw : a.WellFormed c) :
    Grown c { h with unwritten := true } a.closed.reopened := by
  unfold CatalogModel.reopened
  rw [hg.has_tables hw]
  exact ⟨rfl, hg.next_oid, hg.inserted, hg.fresh, hg.typed, hg.rows, fun _ _ => rfl, hg.distinct,
    hg.named⟩

theorem next_oid_add (a : CatalogModel) {r : Relation} (hoid : r.oid = a.next_oid) :
    (a.add r).next_oid = a.next_oid + 1 := by
  unfold CatalogModel.next_oid at hoid ⊢
  simp only [CatalogModel.add, List.map_append, List.map_singleton, List.foldl_append,
    List.foldl_cons, List.foldl_nil]
  omega

theorem add (hg : Grown c h a) (hw : a.WellFormed c) {r : Relation} (hoid : r.oid = a.next_oid)
    (htyped : BuiltinColumns r.columns) (hdistinct : DistinctColumns r.columns)
    (hname : is_name r.name = true) :
    Grown c ⟨h.weight + (r.columns.length + 1), false⟩ (a.add r) := by
  have h5 := hw.five_le_next_oid hg.opened
  refine ⟨hg.opened, ?_, fun oid => ?_, fun oid hle => ?_, fun r' hr' => ?_, fun r' hr' hoid' => ?_,
    nofun, fun r' hr' => ?_, fun r' hr' hoid' => ?_⟩
  · rw [next_oid_add a hoid]
    have := hg.next_oid
    dsimp only
    omega
  · have := hg.inserted oid
    simp only [CatalogModel.add]
    split
    · omega
    · split <;> omega
  · rw [next_oid_add a hoid] at hle
    rw [CatalogModel.inserted_add a r (by omega)]
    exact hg.fresh oid (by omega)
  · rcases List.mem_append.mp hr' with hr' | hr'
    · exact hg.typed r' hr'
    · rw [List.mem_singleton.mp hr']
      exact htyped
  · rcases List.mem_append.mp hr' with hr' | hr'
    · have hne : r'.oid ≠ r.oid := by
        have := CatalogModel.lt_next_oid hr'
        omega
      simp only [CatalogModel.add, Function.update_of_ne hne]
      exact hg.rows r' hr' hoid'
    · -- nothing was ever inserted under the oid of a new table
      rw [List.mem_singleton.mp hr']
      refine ⟨0, ?_, by simp⟩
      simp only [CatalogModel.add, Function.update_self]
      exact if_pos (hg.fresh r.oid (by omega))
  · rcases List.mem_append.mp hr' with hr' | hr'
    · exact hg.distinct r' hr'
    · rw [List.mem_singleton.mp hr']
      exact hdistinct
  · rcases List.mem_append.mp hr' with hr' | hr'
    · exact hg.named r' hr' hoid'
    · rw [List.mem_singleton.mp hr']
      exact hname

theorem create_table (hg : Grown c h a) (hw : a.WellFormed c) {spec : CreateTableSpec}
    (htyped : BuiltinColumns spec.columns) (hdistinct : DistinctColumns spec.columns)
    (hname : is_name spec.name = true) :
    Grown c ⟨h.weight + (spec.columns.length + 1), false⟩ (a.create_table c spec).2 := by
  have hsub : (c.fitting spec.columns).Sublist spec.columns := List.takeWhile_sublist _
  unfold CatalogModel.create_table
  split
  · exact hg.later (by simp) nofun
  · split
    · have hadded := hg.add hw (r := a.created c spec) rfl
        (fun column hcolumn => htyped column (hsub.subset hcolumn))
        (List.Nodup.sublist (hsub.map _) hdistinct) hname
      refine hadded.later ?_ nofun
      have := hsub.length_le
      simp only [CatalogModel.created]
      omega
    · exact ⟨hg.opened, Nat.le_trans hg.next_oid (by simp),
        fun oid => Nat.le_trans (hg.inserted oid) (by simp), hg.fresh, hg.typed, hg.rows, nofun,
        hg.distinct, hg.named⟩

theorem insert (hg : Grown c h a) (hw : a.WellFormed c) {r : Relation} (hr : r ∈ a.relations)
    {tuple : Bytes} (hstores : (Catalog.codec c r).Stores tuple) :
    Grown c { h with weight := h.weight + 1 } (a.insert r.oid tuple) := by
  refine ⟨hg.opened, Nat.le_succ_of_le hg.next_oid, fun oid => ?_, fun oid hle => ?_, hg.typed,
    fun r' hr' hoid' => ?_, hg.unwritten, hg.distinct, hg.named⟩
  · simp only [CatalogModel.insert]
    by_cases ho : oid = r.oid
    · subst ho
      rw [Function.update_self]
      exact Nat.succ_le_succ (hg.inserted r.oid)
    · rw [Function.update_of_ne ho]
      exact Nat.le_succ_of_le (hg.inserted oid)
  · have hne : oid ≠ r.oid := by
      have := CatalogModel.lt_next_oid hr
      have hsame : (a.insert r.oid tuple).next_oid = a.next_oid := rfl
      omega
    simp only [CatalogModel.insert, Function.update_of_ne hne]
    exact hg.fresh oid hle
  · obtain ⟨tuples, htuples, hall⟩ := hg.rows r' hr' hoid'
    simp only [CatalogModel.insert]
    by_cases ho : r'.oid = r.oid
    · cases List.inj_on_of_nodup_map hw.oids hr' hr ho
      rw [Function.update_self, htuples]
      exact ⟨tuple ::ₘ tuples, rfl, Multiset.forall_mem_cons.mpr ⟨hstores, hall⟩⟩
    · rw [Function.update_of_ne ho]
      exact ⟨tuples, htuples, hall⟩

/-- The rows go in up to the first that does not, and each of them is a row of
the table. -/
theorem insert_rows {r : Relation} (rows : List (List Value))
    (hmade : ∀ values ∈ rows, ∀ v ∈ values, v.Made c.types) (hg : Grown c h a)
    (hw : a.WellFormed c) (hr : r ∈ a.relations) :
    Grown c { h with weight := h.weight + rows.length } (a.insert_rows c r rows).2 := by
  induction rows generalizing a h with
  | nil => exact hg
  | cons values rest ih =>
    obtain ⟨hvalues, hrest⟩ := List.forall_mem_cons.mp hmade
    have hstop : Grown c { h with weight := h.weight + (values :: rest).length } a :=
      hg.later (by simp) id
    simp only [CatalogModel.insert_rows]
    split
    · exact hstop
    · rename_i tuple henc
      split
      · rename_i hfits
        have hstores : (Catalog.codec c r).Stores tuple := by
          refine RowCodec.stores_of_encode hvalues henc ?_
          have := c.page_max
          unfold Setup.Fits at hfits
          omega
        have hinserted := ih (h := { h with weight := h.weight + 1 }) hrest
          (hg.insert hw hr hstores)
          ⟨hw.names, hw.oids, hw.keeps, hw.system, hw.kinds, hw.opened⟩ hr
        refine hinserted.later ?_ id
        simp only [List.length_cons]
        omega
      · exact hstop

end Grown

/-! ## One operation -/

/-- The catalog of the engine holds a model that the history accounts for. -/
def Kept (c : Setup) (h : History) (q : QueryEngine) : Prop :=
  ∃ a, HoldsCatalog c a q.catalog ∧ Grown c h a

/-- It does so, and every relation of `a` is still there. -/
def Follows (c : Setup) (h : History) (a : CatalogModel) (q : QueryEngine) : Prop :=
  ∃ a', HoldsCatalog c a' q.catalog ∧ Grown c h a' ∧ ∀ r ∈ a.relations, r ∈ a'.relations

/-- The columns of a relation that a CREATE TABLE leaves are those of the first
definitions. -/
def Defined (defs : List ColumnDef) (columns : List ColumnSchema) : Prop :=
  ∃ n, List.Forall₂ (fun (d : ColumnDef) column => column.nullable = !d.not_null) (defs.take n) columns

/-- A CREATE TABLE adds no relation, or one. -/
def Creates (stmt : CreateTableStmt) (a a' : CatalogModel) : Prop :=
  a'.relations = a.relations ∨ ∃ r, a'.relations = a.relations ++ [r] ∧
    r.name = stmt.table_name ∧ Defined stmt.columns r.columns

theorem Creates.keeps {stmt : CreateTableStmt} {a a' : CatalogModel} (h : Creates stmt a a') :
    ∀ r ∈ a.relations, r ∈ a'.relations := by
  intro r hr
  rcases h with h | ⟨_, h, -⟩
  · rwa [h]
  · rw [h]
    exact List.mem_append_left _ hr

/-- What the binder makes of a CREATE TABLE. -/
structure BindsCreate (source : CreateTableStmt) (stmt : BoundCreateTableStmt) : Prop where
  name : stmt.table_name = source.table_name
  nullable : List.Forall₂ (fun (d : ColumnDef) (b : BoundColumnDef) => b.nullable = !d.not_null)
    source.columns stmt.columns
  builtin : BuiltinColumns (create_spec stmt).columns
  distinct : DistinctColumns (create_spec stmt).columns

theorem BindsCreate.length_eq {source : CreateTableStmt} {stmt : BoundCreateTableStmt}
    (hb : BindsCreate source stmt) :
    (create_spec stmt).columns.length = source.columns.length := by
  simp [create_spec, hb.nullable.length_eq]

theorem CatalogModel.creates {stmt : BoundCreateTableStmt} {source : CreateTableStmt} (c : Setup)
    (a : CatalogModel) (hb : BindsCreate source stmt) :
    Creates source a (a.create_table c (create_spec stmt)).2 := by
  unfold CatalogModel.create_table
  split
  · exact Or.inl rfl
  · split
    · refine Or.inr ⟨a.created c (create_spec stmt), rfl, hb.name, ?_⟩
      have hall : List.Forall₂ (fun (d : ColumnDef) column => column.nullable = !d.not_null)
          source.columns (create_spec stmt).columns := List.forall₂_map_right_iff.mpr hb.nullable
      have hfront : c.fitting (create_spec stmt).columns <+: (create_spec stmt).columns :=
        List.takeWhile_prefix _
      refine ⟨(c.fitting (create_spec stmt).columns).length, ?_⟩
      have htake := List.forall₂_take (c.fitting (create_spec stmt).columns).length hall
      rwa [← List.prefix_iff_eq_take.mp hfront] at htake
    · exact Or.inl rfl

section

variable {c : Setup} {h : History} {a : CatalogModel} {q : QueryEngine} {sql : Bytes}

/-- The column definitions become columns of builtin types. -/
theorem Binder.bind_column_defs.spec (table_name : Bytes) (seen : List Bytes)
    (columns : List ColumnDef) {b : Binder} (hc : HoldsCatalog c a b.catalog) :
    (bind_column_defs table_name seen columns).wp
      (fun bound b' =>
        List.Forall₂ (fun d (b : BoundColumnDef) => b.nullable = !d.not_null) columns bound ∧
        (∀ column ∈ bound, ∃ t : Builtin, column.type.oid = t.oid) ∧ HoldsCatalog c a b'.catalog)
      (fun _ b' => HoldsCatalog c a b'.catalog) b := by
  induction columns generalizing seen b with
  | nil => exact (wp_pure _).mpr ⟨.nil, by simp, hc⟩
  | cons column rest ih =>
    have herr : ∀ (msg : Bytes) (e : Error) (b1 : Binder), HoldsCatalog c a b1.catalog →
        (bind_err msg e : Call Error Binder (List BoundColumnDef)).wp
          (fun bound b' => List.Forall₂ (fun d (b : BoundColumnDef) => b.nullable = !d.not_null)
              (column :: rest) bound ∧
            (∀ column ∈ bound, ∃ t : Builtin, column.type.oid = t.oid) ∧
            HoldsCatalog c a b'.catalog) (fun _ b' => HoldsCatalog c a b'.catalog) b1 :=
      fun msg e b1 hc1 => by
        unfold bind_err
        rw [wp_bind, wp_modify]
        exact (wp_fail _).mpr hc1
    change Call.wp (@ite _ _ _ _ _) _ _ b
    split
    · exact herr _ _ _ hc
    · unfold on_catalog
      rw [wp_bind, wp_attempt, wp_zoom]
      apply wp_mono (Catalog.get_type.spec hc _)
      · rintro type s1 ⟨htype, hc1, -⟩
        have hbuiltin : ∃ t : Builtin, type.oid = t.oid := by
          unfold CatalogModel.get_type at htype
          split at htype
          · cases htype
          · split at htype
            · cases htype
            · rename_i found hfound
              cases htype
              obtain ⟨t, -, rfl⟩ := List.mem_map.mp (List.mem_of_find?_eq_some hfound)
              exact ⟨t, rfl⟩
        dsimp only
        rw [wp_bind]
        apply wp_mono (ih (b := { b with catalog := s1 }) _ hc1) _ fun _ _ h => h
        rintro bound b2 ⟨hdefs, hall, hc2⟩
        refine (wp_pure _).mpr ⟨.cons rfl hdefs, ?_, hc2⟩
        exact List.forall_mem_cons.mpr ⟨hbuiltin, hall⟩
      · rintro e s1 ⟨-, hc1, -⟩
        exact herr _ _ _ hc1

/-- The column definitions have names that differ, also in other letters. -/
theorem Binder.bind_column_defs_distinct (table_name : Bytes) (seen : List Bytes)
    (columns : List ColumnDef) (b : Binder) :
    (bind_column_defs table_name seen columns).wp
      (fun bound _ =>
        (bound.map fun column : BoundColumnDef => normalized_column_name column.name).Nodup ∧
        ∀ column ∈ bound, normalized_column_name column.name ∉ seen)
      (fun _ _ => True) b := by
  induction columns generalizing seen b with
  | nil => exact (wp_pure _).mpr ⟨List.nodup_nil, by simp⟩
  | cons column rest ih =>
    have herr : ∀ (msg : Bytes) (e : Error) (b1 : Binder),
        (bind_err msg e : Call Error Binder (List BoundColumnDef)).wp
          (fun bound _ =>
            (bound.map fun column : BoundColumnDef => normalized_column_name column.name).Nodup ∧
            ∀ column ∈ bound, normalized_column_name column.name ∉ seen)
          (fun _ _ => True) b1 := fun msg e b1 => by
      unfold bind_err
      rw [wp_bind, wp_modify]
      exact (wp_fail _).mpr trivial
    change Call.wp (@ite _ _ _ _ _) _ _ b
    split
    · exact herr _ _ _
    · rename_i hnew
      rw [wp_bind]
      refine wp_mono (wp_trivial _ _) (fun type b1 _ => ?_) fun _ _ _ => trivial
      cases type with
      | error e => exact herr _ _ _
      | ok type =>
        dsimp only
        rw [wp_bind]
        refine wp_mono (ih _ b1) ?_ fun _ _ _ => trivial
        rintro bound b2 ⟨hdistinct, hseen⟩
        refine (wp_pure _).mpr ⟨?_, ?_⟩
        · refine List.nodup_cons.mpr ⟨fun hin => ?_, hdistinct⟩
          obtain ⟨other, hother, hname⟩ := List.mem_map.mp hin
          exact hseen other hother (hname ▸ List.mem_cons_self)
        · refine List.forall_mem_cons.mpr ⟨hnew, fun other hother hin => ?_⟩
          exact hseen other hother (List.mem_cons_of_mem _ hin)

namespace QueryEngine

theorem bind_create_table.spec (stmt : CreateTableStmt) (hc : HoldsCatalog c a q.catalog) :
    (QueryEngine.bind c.types (.create_table stmt)).wp
      (fun bound q' => ∃ i, bound = .create_table i ∧ BindsCreate stmt i ∧
        HoldsCatalog c a q'.catalog)
      (fun _ q' => HoldsCatalog c a q'.catalog) q := by
  refine wp_bind_stmt (E := HoldsCatalog c a) (Q := fun bound s => ∃ i,
    bound = .create_table i ∧ BindsCreate stmt i ∧ HoldsCatalog c a s) ?_
  unfold Binder.bind Binder.bind_create_table
  rw [wp_bind, wp_bind]
  apply wp_mono (wp_and (Binder.bind_column_defs.spec stmt.table_name [] stmt.columns
    (b := { catalog := q.catalog }) hc) (Binder.bind_column_defs_distinct stmt.table_name [] stmt.columns
    { catalog := q.catalog })) _ fun _ _ h => h.1
  rintro bound b ⟨⟨hdefs, hall, hc1⟩, hdistinct, -⟩
  rw [wp_pure]
  refine (wp_pure _).mpr ⟨_, rfl, ⟨rfl, hdefs, fun column hcolumn => ?_, ?_⟩, hc1⟩
  · obtain ⟨source, hsource, rfl⟩ := List.mem_map.mp hcolumn
    exact hall source hsource
  · simpa [DistinctColumns, create_spec, Function.comp_def] using hdistinct

/-- The name of a table that a text creates can stand in a statement. -/
theorem is_name_of_create {stmt : CreateTableStmt}
    (hstmt : statement sql = some (.create_table stmt)) : is_name stmt.table_name = true := by
  have hprogram := Parser.parse_iff.mp (parse_of_statement hstmt)
  generalize htokens : Lexer.tokens sql = ts at hprogram
  have hlayout := Lexer.layout_tokens sql
  rw [htokens] at hlayout
  obtain _ | ⟨-, hstmt, -, -, -⟩ := hprogram
  obtain ⟨hcreate⟩ := hstmt
  cases hcreate with
  | @mk _ _ name _ _ _ _ _ _ _ _ _ hname _ _ _ =>
    obtain ⟨rest, hlexeme⟩ := hlayout.lexeme_of_mem (t := name) (by simp)
    rw [hname] at hlexeme
    exact is_name_of_lexeme hlexeme

theorem grown_of_create {stmt : CreateTableStmt} {i : BoundCreateTableStmt}
    (hstmt : statement sql = some (.create_table stmt)) (hb : BindsCreate stmt i)
    (hw : a.WellFormed c) (hg : Grown c h a) :
    Grown c (h.next (.execute sql)) (a.create_table c (create_spec i)).2 := by
  have hname : is_name (create_spec i).name = true := by
    have hsame : (create_spec i).name = stmt.table_name := hb.name
    rw [hsame]
    exact is_name_of_create hstmt
  have hgrown := hg.create_table hw hb.builtin hb.distinct hname
  rwa [hb.length_eq, ← History.next_create hstmt] at hgrown

/-- What a CREATE TABLE says of what the catalog did. -/
def created_reply (if_not_exists : Bool) : Result Nat → Option (List ExecRow)
  | .ok _ => some []
  | .error e => if if_not_exists ∧ e = .AlreadyExists then some [] else none

/-- A CREATE TABLE that the binder accepts is one of the catalog. -/
theorem wp_execute_create {stmt : CreateTableStmt} {R : Option (List ExecRow) → CatalogState → Prop}
    (hstmt : statement sql = some (.create_table stmt)) (hg : Grown c h a)
    (hsmall : (h.next (.execute sql)).Small)
    (hbind : (QueryEngine.bind c.types (.create_table stmt)).wp
      (fun bound q' => ∃ i, bound = .create_table i ∧ BindsCreate stmt i ∧
        HoldsCatalog c a q'.catalog ∧ ∀ s, HoldsCatalog c (a.create_table c (create_spec i)).2 s →
          R (created_reply i.if_not_exists (a.create_table c (create_spec i)).1) s)
      (fun _ q' => R none q'.catalog) q) :
    (execute c.types sql).wp (fun out q' => R (some out) q'.catalog)
      (fun _ q' => R none q'.catalog) q := by
  rw [execute_of_statement hstmt, wp_bind]
  refine wp_mono hbind ?_ fun _ _ hr => hr
  rintro _ q1 ⟨i, rfl, hb, hc1, hafter⟩
  have hgrown := grown_of_create hstmt hb hc1.well_formed hg
  have hcount := hb.length_eq
  have hnumbers := hg.next_oid
  rw [History.next_create hstmt] at hgrown hsmall
  unfold History.Small at hsmall
  dsimp only at hsmall
  have hcreate := Catalog.create_table.spec hc1 (create_spec i) (by omega) (by omega)
    fun t => Nat.le_trans (hgrown.inserted t.oid) (by dsimp only; omega)
  have hlower : lower (.create_table i) = .ok (.create_table i) := rfl
  refine wp_execute_bound hlower (Q := fun out => R (some out)) (E := R none) ?_
  show (ExecNode.open_create_table i).wp _ _ _
  unfold ExecNode.open_create_table
  rw [wp_bind, wp_attempt]
  have hreturns : ∀ s1, R (some []) s1 →
      (∀ rows, collect c.types (.create_table i) { opened := true } = .ok rows → R (some rows) s1) ∧
      ∀ e, collect c.types (.create_table i) { opened := true } = .error e → R none s1 := by
    refine fun s1 hr => ⟨fun rows hrows => ?_, fun e he => by cases he⟩
    cases hrows
    exact hr
  refine wp_mono hcreate (fun oid s1 h1 => ?_) fun e s1 h1 => ?_
  · have hdone := hafter s1 h1.2
    rw [h1.1] at hdone
    exact (wp_pure _).mpr (hreturns s1 hdone)
  · have hdone := hafter s1 h1.2
    rw [h1.1, created_reply] at hdone
    dsimp only
    split
    · rename_i hagain
      rw [if_pos hagain] at hdone
      exact (wp_pure _).mpr (hreturns s1 hdone)
    · rename_i hfails
      rw [if_neg hfails] at hdone
      exact (wp_fail _).mpr hdone

theorem execute_create.spec {stmt : CreateTableStmt}
    (hstmt : statement sql = some (.create_table stmt)) (hc : HoldsCatalog c a q.catalog)
    (hg : Grown c h a) (hsmall : (h.next (.execute sql)).Small) :
    ∃ a', HoldsCatalog c a' ((execute c.types sql).run q).2.catalog ∧
      Grown c (h.next (.execute sql)) a' ∧ Creates stmt a a' := by
  refine after_of_wp (I := fun q' : QueryEngine => ∃ a', HoldsCatalog c a' q'.catalog ∧ Grown c _ a' ∧
    Creates stmt a a') (wp_execute_create (R := fun _ s => ∃ a', HoldsCatalog c a' s ∧ Grown c _ a' ∧
      Creates stmt a a') hstmt hg hsmall ?_)
  refine wp_mono (bind_create_table.spec stmt hc) ?_
    fun _ _ hc1 => ⟨a, hc1, hg.executed sql, Or.inl rfl⟩
  rintro _ q1 ⟨i, rfl, hb, hc1⟩
  exact ⟨i, rfl, hb, hc1, fun s hs =>
    ⟨_, hs, grown_of_create hstmt hb hc.well_formed hg, CatalogModel.creates c a hb⟩⟩

/-- The rows that an INSERT brings to a relation of the catalog. -/
theorem made_of_bound_insert {stmt : InsertStmt} {r : Relation} {rows : List (List BoundLiteral)}
    (hbound : a.bound_insert c stmt = some (r, rows)) :
    a.open_table stmt.table_name = .ok r ∧ rows.length = stmt.rows.length ∧
      MadeRows c.types rows := by
  unfold CatalogModel.bound_insert at hbound
  split at hbound
  · cases hbound
  · rename_i r' hr
    split at hbound
    · cases hbound
    · obtain ⟨rows', hrows, heq⟩ := Option.map_eq_some_iff.mp hbound
      cases heq
      exact ⟨hr, made_of_bound_rows hrows⟩

theorem relations_insert_rows (r : Relation) (rows : List (List Value)) :
    (a.insert_rows c r rows).2.relations = a.relations := by
  induction rows generalizing a with
  | nil => rfl
  | cons values rest ih =>
    simp only [CatalogModel.insert_rows]
    split
    · rfl
    · split
      · exact ih
      · rfl

/-- What an INSERT of rows that the binder accepts does. -/
structure InsertSpec (c : Setup) (h : History) (a : CatalogModel) (r : Relation)
    (rows : List (List Value)) (x : Call Error QueryEngine (List ExecRow)) (q : QueryEngine) :
    Prop where
  user : 5 ≤ r.oid
  made : ∀ values ∈ rows, ∀ v ∈ values, v.Made c.types
  grown : Grown c h (a.insert_rows c r rows).2
  runs : x.wp (fun out q' => out = [] ∧ (a.insert_rows c r rows).1 = .ok () ∧
      HoldsCatalog c (a.insert_rows c r rows).2 q'.catalog)
    (fun _ q' => (∃ e, (a.insert_rows c r rows).1 = .error e) ∧
      HoldsCatalog c (a.insert_rows c r rows).2 q'.catalog) q

theorem insert_spec {stmt : InsertStmt} (hstmt : statement sql = some (.insert stmt))
    (hc : HoldsCatalog c a q.catalog) (hg : Grown c h a)
    (huser : ∀ t : SystemTable, stmt.table_name ≠ t.name)
    (hsmall : (h.next (.execute sql)).Small) {r : Relation} {rows : List (List BoundLiteral)}
    (hbound : a.bound_insert c stmt = some (r, rows)) :
    InsertSpec c (h.next (.execute sql)) a r (rows.map (·.map BoundLiteral.value))
      (execute c.types sql) q := by
  obtain ⟨hr, hlen, hmade⟩ := made_of_bound_insert hbound
  have hvalues : ∀ values ∈ rows.map (·.map BoundLiteral.value), ∀ v ∈ values, v.Made c.types :=
    List.forall_mem_map.mpr fun row hrow => List.forall_mem_map.mpr (hmade row hrow)
  have hgrown := hg.insert_rows _ hvalues hc.well_formed (CatalogOp.open_of_ok hr).2
  rw [List.length_map, hlen, ← History.next_insert hstmt] at hgrown
  have hroom : a.inserted r.oid + rows.length ≤ 2 ^ 32 := by
    have := hg.inserted r.oid
    rw [History.next_insert hstmt] at hsmall
    unfold History.Small at hsmall
    dsimp only at hsmall
    omega
  exact ⟨user_of_name hc hr huser, hvalues, hgrown, execute_insert.spec hstmt hc huser hbound hroom⟩

theorem execute_insert_follows {stmt : InsertStmt} (hstmt : statement sql = some (.insert stmt))
    (hc : HoldsCatalog c a q.catalog) (hg : Grown c h a)
    (huser : ∀ t : SystemTable, stmt.table_name ≠ t.name)
    (hsmall : (h.next (.execute sql)).Small) :
    Follows c (h.next (.execute sql)) a ((execute c.types sql).run q).2 := by
  refine after_of_wp (I := Follows c _ a) ?_
  cases hbound : a.bound_insert c stmt with
  | none =>
    exact wp_mono (execute_insert_refused hstmt hc hbound) (fun _ _ hf => hf.elim)
      fun _ _ hc1 => ⟨a, hc1, hg.executed sql, fun _ h => h⟩
  | some bound =>
    obtain ⟨r, rows⟩ := bound
    have hgoes := insert_spec hstmt hc hg huser hsmall hbound
    have hkeeps : ∀ x ∈ a.relations,
        x ∈ (a.insert_rows c r (rows.map (·.map BoundLiteral.value))).2.relations := by
      rw [relations_insert_rows]
      exact fun _ h => h
    exact wp_mono hgoes.runs (fun _ _ h1 => ⟨_, h1.2.2, hgoes.grown, hkeeps⟩)
      fun _ _ h1 => ⟨_, h1.2, hgoes.grown, hkeeps⟩

theorem execute_select_keeps {stmt : SelectStmt} (hstmt : statement sql = some (.select stmt))
    (hc : HoldsCatalog c a q.catalog) (hroom : ∀ oid, a.inserted oid ≤ 2 ^ 32) :
    (execute c.types sql).wp (fun _ q' => HoldsCatalog c a q'.catalog)
      (fun _ q' => HoldsCatalog c a q'.catalog) q := by
  rw [execute_of_statement hstmt, wp_bind]
  have hbind : (Binder.bind c.types (.select stmt)).wp
      (fun bound b => (∃ i, bound = .select i) ∧ HoldsCatalog c a b.catalog)
      (fun _ b => HoldsCatalog c a b.catalog) { catalog := q.catalog } := by
    unfold Binder.bind
    rw [wp_bind]
    exact wp_mono (Binder.bind_select_keeps Catalog.holds_kept_by_lookups stmt
      { catalog := q.catalog } hc) (fun i _ hc1 => (wp_pure _).mpr ⟨⟨i, rfl⟩, hc1⟩) fun _ _ h => h
  refine wp_mono (wp_bind_stmt (q := q) (E := HoldsCatalog c a)
    (Q := fun bound s => (∃ i, bound = .select i) ∧ HoldsCatalog c a s) hbind) ?_ fun _ _ h => h
  rintro _ q1 ⟨⟨i, rfl⟩, hc1⟩
  refine wp_execute_bound (lower_select i) (Q := fun _ => HoldsCatalog c a)
    (E := HoldsCatalog c a) ?_
  have hscan := Catalog.scan_table_holds hc1 i.table.name hroom
  have hopen := open_select_run i q1.catalog
  rcases hrun : (scan_table i.table.name).run q1.catalog with ⟨e | rows, s⟩
  · rw [hrun] at hopen hscan
    exact wp_of_run_error hopen hscan
  · rw [hrun] at hopen hscan
    exact wp_of_run_ok hopen ⟨fun _ _ => hscan, fun _ _ => hscan⟩

end QueryEngine

namespace SqlOp

/-- Closing the catalog and opening it again does not fail. -/
theorem reopen.spec (hsmall : h.Small) (hc : HoldsCatalog c a q.catalog) (hg : Grown c h a) :
    (QueryEngine.on_catalog (do
      Catalog.close
      Catalog.open
      pure [])).wp
      (fun (out : List ExecRow) q' => out = [] ∧ HoldsCatalog c a.closed.reopened q'.catalog)
      (fun _ _ => False) q := by
  have hroom : ∀ t : SystemTable, a.closed.reopened.inserted t.oid ≤ 2 ^ 32 := fun t => by
    unfold CatalogModel.reopened
    rw [hg.has_tables hc.well_formed]
    exact hg.room hsmall t.oid
  unfold QueryEngine.on_catalog
  rw [wp_zoom, wp_bind]
  apply wp_mono (Catalog.close.spec hc) _ fun _ _ hf => hf.elim
  intro _ s1 hc1
  rw [wp_bind]
  apply wp_mono (Catalog.open.spec hc1 rfl hroom) _ fun _ _ hf => hf.elim
  exact fun _ s2 hc2 => (wp_pure _).mpr ⟨rfl, hc2⟩

/-- Every operation leaves a model that its history accounts for. -/
theorem step_follows (op : SqlOp) (hplain : op.Plain) (hsmall : (h.next op).Small)
    (hc : HoldsCatalog c a q.catalog) (hg : Grown c h a) :
    Follows c (h.next op) a (step c.types op q).2 := by
  have hsmall0 := History.small_of_next hsmall
  cases op with
  | reopen =>
    obtain ⟨_, q', hrun, -, hc'⟩ := exists_ok_of_wp (reopen.spec hsmall0 hc hg)
    have hafter : (step c.types .reopen q).2 = q' := congrArg Prod.snd hrun
    rw [hafter]
    refine ⟨_, hc', hg.reopened hc.well_formed, fun r hr => ?_⟩
    unfold CatalogModel.reopened
    rw [hg.has_tables hc.well_formed]
    exact hr
  | execute sql =>
    have hkept := hg.executed sql
    cases hstmt : QueryEngine.statement sql with
    | none =>
      obtain ⟨msg, e, hrun⟩ : ∃ msg e, QueryEngine.execute c.types sql = _ :=
        QueryEngine.execute_of_none hstmt
      rw [step, hrun]
      exact ⟨a, hc, hkept, fun _ h => h⟩
    | some stmt =>
      cases stmt with
      | create_table stmt =>
        obtain ⟨a', hc', hg', hcreates⟩ := QueryEngine.execute_create.spec hstmt hc hg hsmall
        exact ⟨a', hc', hg', hcreates.keeps⟩
      | insert stmt =>
        exact QueryEngine.execute_insert_follows hstmt hc hg (hplain stmt hstmt) hsmall
      | select stmt =>
        exact after_of_wp (I := Follows c _ a)
          (wp_mono (QueryEngine.execute_select_keeps hstmt hc (hg.room hsmall0))
            (fun _ _ hc1 => ⟨a, hc1, hkept, fun _ h => h⟩)
            fun _ _ hc1 => ⟨a, hc1, hkept, fun _ h => h⟩)

theorem run_follows (ops : List SqlOp) (hplain : ∀ op ∈ ops, op.Plain)
    (hsmall : (ops.foldl History.next h).Small) (hc : HoldsCatalog c a q.catalog)
    (hg : Grown c h a) :
    Follows c (ops.foldl History.next h) a (Run.exec (step c.types) ops q).2 := by
  induction ops generalizing h q a with
  | nil => exact ⟨a, hc, hg, fun _ h => h⟩
  | cons op rest ih =>
    obtain ⟨hop, hrest⟩ := List.forall_mem_cons.mp hplain
    obtain ⟨a1, hc1, hg1, hkeeps1⟩ := step_follows op hop (History.small_of_foldl hsmall) hc hg
    obtain ⟨a2, hc2, hg2, hkeeps2⟩ := ih hrest hsmall hc1 hg1
    exact ⟨a2, hc2, hg2, fun r hr => hkeeps2 r (hkeeps1 r hr)⟩

end SqlOp

/-- An engine over empty files holds the catalog after its first open. -/
theorem holds_fresh (c : Setup) : HoldsCatalog c (({} : CatalogModel).booted)
    (QueryEngine.fresh c.types c.config).catalog := by
  have hroom : ∀ t : SystemTable, (({} : CatalogModel).reopened).inserted t.oid ≤ 2 ^ 32 := by
    intro t
    cases t <;> decide
  obtain ⟨_, s, hrun, hc⟩ := exists_ok_of_wp
    (Catalog.open.spec (CatalogOp.holds_start c) rfl hroom)
  have hfresh : (QueryEngine.fresh c.types c.config).catalog = s := congrArg Prod.snd hrun
  rw [hfresh]
  exact hc

theorem kept_after (c : Setup) (ops : List SqlOp) (hplain : ∀ op ∈ ops, op.Plain)
    (hsmall : (History.of ops).Small) : Kept c (History.of ops) (SqlOp.after c ops) := by
  obtain ⟨a, hc, hg, -⟩ := SqlOp.run_follows ops hplain hsmall (holds_fresh c) (Grown.booted c)
  exact ⟨a, hc, hg⟩

end

end edb
