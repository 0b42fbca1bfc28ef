-- A row on its way through SQL: its values are written as literals, the INSERT
-- brings them to the table, and a SELECT of all columns brings them back.
import Edb.ColumnLists
import Edb.IntegerTexts

namespace edb

open Call

/-! ## Values and their literals -/

/-- A value as a client thinks of it. -/
inductive Cell where
  | null
  | integer (n : Int)
  | truth (b : Bool)
  | text (bytes : Bytes)
  deriving DecidableEq, Repr

namespace Cell

/-- A number below zero has no literal of its own and is written as a text. -/
def literal : Cell → Literal
  | null => .NullLiteral
  | integer n => if 0 ≤ n then .IntLiteral n else .StrLiteral (dec.int_text n)
  | truth b => .BoolLiteral b
  | text bytes => .StrLiteral bytes

/-- The bytes of the value in a column. -/
def bytes (column : ColumnSchema) : Cell → Bytes
  | null => []
  | integer n => signed_bytes (if column.type_oid = Builtin.int32.oid then 4 else 8) n
  | truth b => [if b then 1 else 0]
  | text bytes => bytes

def value (column : ColumnSchema) (d : Cell) : Value where
  type_oid := column.type_oid
  bytes := d.bytes column
  is_null := decide (d = null)

/-- The value is one of the column: its type, the range of its type, and a null
only where the column takes one. -/
def Fits (column : ColumnSchema) : Cell → Prop
  | null => column.nullable = true
  | integer n => ∃ t : IntegerType, column.type_oid = t.builtin.oid ∧ fits_signed t.size n = true
  | truth _ => column.type_oid = Builtin.bool.oid
  | text _ => column.type_oid = Builtin.text.oid

variable {types : TypeRegistry} {column : ColumnSchema} {d : Cell}

theorem literal_text_integer (n : Int) : literal_text (integer n).literal = some (dec.int_text n) := by
  simp only [literal]
  split <;> rfl

/-- The literal gives the value back. -/
theorem value_in_literal (ht : Registered types) (h : d.Fits column) :
    d.literal.value_in types column = some (d.value column) := by
  cases d with
  | null =>
    have hnull : column.nullable = true := h
    simp [literal, Literal.value_in, literal_text, hnull, value, bytes]
  | integer n =>
    obtain ⟨t, htype, hfits⟩ := h
    have hsize : (if column.type_oid = Builtin.int32.oid then 4 else 8) = t.size := by
      rw [htype]
      cases t <;> rfl
    have hbytes : t.builtin.type.from_text (dec.int_text n) = .ok (signed_bytes t.size n) := by
      rw [t.from_text_eq, parse_int_text hfits]
    have hlookup : types.lookup column.type_oid = .ok t.builtin.type := by rw [htype, ht.by_oid]
    simp [Literal.value_in, literal_text_integer, hlookup, hbytes, value, bytes, hsize]
  | truth b =>
    have htype : column.type_oid = Builtin.bool.oid := h
    unfold Literal.value_in
    simp only [literal, literal_text, htype, ht.by_oid, value, bytes]
    cases b <;> rfl
  | text bytes =>
    have htype : column.type_oid = Builtin.text.oid := h
    unfold Literal.value_in
    simp only [literal, literal_text, htype, ht.by_oid, value, Cell.bytes]
    rfl

theorem literal_writable (h : d.Fits column) : d.literal.Writable := by
  cases d with
  | null => trivial
  | integer n =>
    obtain ⟨t, -, hfits⟩ := h
    simp only [literal]
    split
    · rename_i hpos
      have hmax : (256 ^ t.size / 2 : Int) ≤ 2 ^ 63 := by cases t <;> decide
      unfold fits_signed at hfits
      rw [decide_eq_true_eq] at hfits
      exact ⟨hpos, Int.lt_of_lt_of_le hfits.2 hmax⟩
    · trivial
  | truth b => trivial
  | text bytes => trivial

end Cell

/-! ## The statements -/

/-- The INSERT of a row, each value beside its column. -/
def insert_row (name : Bytes) (row : List (ColumnSchema × Cell)) : InsertStmt :=
  .by_position name (row.map fun p => (p.1, p.2.literal))

def select_all (name : Bytes) : SelectStmt := ⟨[.StarItem], name, none⟩

example : render [.insert (insert_row (str "t") [(⟨str "a", 1, true⟩, .integer 7),
    (⟨str "b", 2, true⟩, .integer (-7)), (⟨str "c", 5, true⟩, .text (str "it's"))])] =
      str "INSERT INTO t VALUES ( 7 , '-7' , 'it''s' )" := by decide

example : render [.select (select_all (str "t"))] = str "SELECT * FROM t" := by decide

theorem select_image_star (types : TypeRegistry) (row : ExecRow) :
    select_image types [.star] row =
      .ok { columns := row.columns.take row.values.length, values := row.values } := by
  simp [select_image, item_values, items_columns, item_columns, bind, Except.bind, pure, Except.pure]

namespace QueryEngine

theorem statement_render {stmt : Stmt} (h : stmt.Writable) : statement (render [stmt]) = some stmt := by
  have hparse : (Parser.parse.run (Parser.start (render [stmt]))).1 = .ok [stmt] :=
    Parser.parse_iff.mpr (programOf_render (List.forall_mem_singleton.mpr h))
  unfold statement
  rw [hparse]

/-- What a client gets for a SELECT of all columns, in no order. -/
def selects (types : TypeRegistry) (name : Bytes) (q : QueryEngine) :
    Result (Multiset (List Value)) :=
  ((execute types (render [.select (select_all name)])).run q).1.map fun rows =>
    (rows.map ExecRow.values : Multiset (List Value))

section

variable {c : Setup} {h : History} {a : CatalogModel} {q : QueryEngine} {r : Relation}
  {name : Bytes}

theorem statement_insert_row {row : List (ColumnSchema × Cell)} (hname : is_name name = true)
    (hfits : ∀ p ∈ row, p.2.Fits p.1) :
    statement (render [.insert (insert_row name row)]) = some (.insert (insert_row name row)) := by
  refine statement_render ⟨hname, by simp [insert_row, InsertStmt.by_position], by
    simp [insert_row, InsertStmt.by_position], ?_⟩
  intro exprs hexprs expr hexpr
  rw [List.mem_singleton.mp hexprs, List.map_map] at hexpr
  obtain ⟨p, hp, rfl⟩ := List.mem_map.mp hexpr
  exact Cell.literal_writable (hfits p hp)

theorem statement_select_all (hname : is_name name = true) :
    statement (render [.select (select_all name)]) = some (.select (select_all name)) :=
  statement_render ⟨by simp [select_all], by simp [select_all, SelectItem.Writable], hname, nofun⟩

/-- A SELECT of all columns is bound to the table of the name. -/
theorem bind_select_all.spec (hc : HoldsCatalog c a q.catalog) (hr : a.open_table name = .ok r)
    {refs : List BoundColumnRef} (hrefs : Binder.bind_columns c.types r.oid 0 r.columns = .ok refs) :
    (bind c.types (.select (select_all name))).wp
      (fun bound q' => ∃ table : BoundTableRef, bound = .select ⟨table, [.star], none⟩ ∧
        table.name = name ∧ HoldsCatalog c a q'.catalog)
      (fun _ _ => False) q := by
  refine wp_bind_stmt (E := fun _ => False) (Q := fun bound s => ∃ table : BoundTableRef,
    bound = .select ⟨table, [.star], none⟩ ∧ table.name = name ∧ HoldsCatalog c a s) ?_
  unfold Binder.bind Binder.bind_select
  rw [wp_bind, wp_bind]
  apply wp_mono (Binder.bind_table.spec (b := { catalog := q.catalog }) hc name)
  · rintro table b ⟨r', hr', hname, -, hc1⟩
    cases hr.symm.trans hr'
    have hstar : Binder.bind_items c.types table (select_all name).items = pure [.star] := rfl
    have hwhere : Binder.bind_where c.types table (select_all name).where_ = pure none := rfl
    simp only [hstar, hwhere, wp_bind, wp_pure]
    exact ⟨table, rfl, hname.trans (CatalogOp.name_of_ok hr), hc1⟩
  · rintro e b ⟨hnone, -⟩
    obtain ⟨e', he'⟩ := hnone r hr
    cases hrefs.symm.trans he'

/-- It gives the rows that a client reads from the table. -/
theorem selects_eq (hc : HoldsCatalog c a q.catalog) (hg : Grown c h a) (hsmall : h.Small)
    (hr : a.open_table name = .ok r) (hoid : 5 ≤ r.oid) :
    selects c.types name q = Catalog.reads name q.catalog := by
  obtain ⟨-, hmem⟩ := CatalogOp.open_of_ok hr
  have hname := hg.named r hmem hoid
  rw [CatalogOp.name_of_ok hr] at hname
  obtain ⟨refs, hrefs, -⟩ := Binder.bind_columns_ok c.registered (hg.typed r hmem) r.oid 0
  obtain ⟨tuples, htuples, hstores⟩ := hg.rows r hmem hoid
  have hbind := bind_select_all.spec hc hr hrefs
  unfold selects
  rw [execute_of_statement (statement_select_all hname), run_bind]
  rcases hrun : (bind c.types (.select (select_all name))).run q with ⟨e | bound, q1⟩
  · exact (wp_error hbind hrun).elim
  · obtain ⟨table, rfl, rfl, hc1⟩ := wp_ok hbind hrun
    have hreads := Catalog.reads_of_rows hc (hg.room hsmall) hr hoid htuples hstores
    have hreads1 := Catalog.reads_of_rows hc1 (hg.room hsmall) hr hoid htuples hstores
    rw [hreads, ← hreads1]
    dsimp only
    rw [execute_select_run]
    unfold Catalog.reads
    rcases (scan_table table.name).run q1.catalog with ⟨e | rows, s⟩
    · rfl
    · have hall : rows.filterMapM (select_row c.types ⟨table, [.star], none⟩) =
          .ok (rows.map fun values =>
            { columns := table.columns.take values.length, values }) := by
        have himage : ∀ values ∈ rows, true = true →
            select_image c.types [.star] { columns := table.columns, values } =
              .ok { columns := table.columns.take values.length, values } := by
          intro values _ _
          exact select_image_star c.types _
        have hselect : rows.filterMapM (select_row c.types ⟨table, [.star], none⟩) =
            .ok ((rows.filter fun _ => true).map fun values =>
              { columns := table.columns.take values.length, values }) :=
          filterMapM_select c.types (fun _ _ => rfl) himage
        rwa [List.filter_true] at hselect
      simp only [hall]
      simp [Except.map, Function.comp_def]

end

end QueryEngine

section

variable {c : Setup} {a : CatalogModel} {r : Relation} {name : Bytes}

/-- The literals of a row are bound to the values that they were made of, and
these are a row of the table. -/
theorem bound_insert_row {refs : List BoundColumnRef} (hr : a.open_table name = .ok r)
    (hrefs : Binder.bind_columns c.types r.oid 0 r.columns = .ok refs)
    (hseen : List.Forall₂ ColumnSchema.Seen r.columns refs) (htyped : BuiltinColumns r.columns)
    {row : List (ColumnSchema × Cell)} (hrow : row.map Prod.fst = r.columns)
    (hfits : ∀ p ∈ row, p.2.Fits p.1) :
    ∃ bound, a.bound_insert c (insert_row name row) = some (r, [bound]) ∧
      bound.map BoundLiteral.value = (row.map fun p => p.2.value p.1) ∧
      RowCodec.Row c.types r.columns (row.map fun p => p.2.value p.1) := by
  have hseen' : List.Forall₂ ColumnSchema.Seen
      ((row.map fun p => (p.1, p.2.literal)).map Prod.fst) refs := by
    rw [List.map_map]
    exact hrow ▸ hseen
  have hvalues := bound_row_values c.types hseen'
  have hmade : (row.map fun p => (p.1, p.2.literal)).mapM
      (fun p => p.2.value_in c.types p.1) = some (row.map fun p => p.2.value p.1) := by
    rw [mapM_eq_some_iff_map, List.map_map, List.map_map]
    exact List.map_congr_left fun p hp => Cell.value_in_literal c.registered (hfits p hp)
  rw [hmade] at hvalues
  obtain ⟨bound, hbound, hsame⟩ := Option.map_eq_some_iff.mp hvalues
  refine ⟨bound, ?_, hsame, hsame ▸ row_of_bound c.registered htyped hseen hbound⟩
  rw [bound_insert_one (insert_row name row) hr hrefs rfl rfl, hbound]
  rfl

end

/-- After any run without an INSERT into a system table, the INSERT of a row that
is written as literals succeeds if the row goes on a page, and a SELECT of all
columns then gives the rows that it gave before and this row. -/
theorem sql_round_trip (c : Setup) (ops : List SqlOp) (hplain : ∀ op ∈ ops, op.Plain)
    (name : Bytes) (huser : ∀ t : SystemTable, name ≠ t.name) (schema : TableSchema)
    (hopen : (CatalogOp.step (.open_table name) (SqlOp.after c ops).catalog).1 =
      .schema (.ok schema))
    (row : List (ColumnSchema × Cell)) (hrow : row.map Prod.fst = schema.columns)
    (hfits : ∀ p ∈ row, p.2.Fits p.1)
    (hsize : ∀ tuple, ({ registry := c.types, schema := schema.columns } : RowCodec).encode
      (row.map fun p => p.2.value p.1) = .ok tuple → tuple.length ≤ c.config.page_size - 32)
    (hsmall : (History.of (ops ++ [.execute (render [.insert (insert_row name row)])])).Small) :
    ∃ before, QueryEngine.selects c.types name (SqlOp.after c ops) = .ok before ∧
      (∃ out, ((QueryEngine.execute c.types (render [.insert (insert_row name row)])).run
        (SqlOp.after c ops)).1 = .ok out) ∧
      QueryEngine.selects c.types name
        ((QueryEngine.execute c.types (render [.insert (insert_row name row)])).run
          (SqlOp.after c ops)).2 = .ok (before + {row.map fun p => p.2.value p.1}) := by
  rw [History.of_append] at hsmall
  have hsmall0 := History.small_of_next hsmall
  obtain ⟨a, hc, hg⟩ := kept_after c ops hplain hsmall0
  generalize SqlOp.after c ops = q at *
  generalize History.of ops = h at *
  obtain ⟨r, hr, rfl⟩ := relation_of_reply hc hopen
  obtain ⟨-, hmem⟩ := CatalogOp.open_of_ok hr
  have hname := CatalogOp.name_of_ok hr
  have hoid := QueryEngine.user_of_name hc hr huser
  have hstmt := QueryEngine.statement_insert_row (hname ▸ hg.named r hmem hoid) hfits
  obtain ⟨refs, hrefs, hseen⟩ := Binder.bind_columns_ok c.registered (hg.typed r hmem) r.oid 0
  obtain ⟨bound, hbound, hvalues, hencodes⟩ :=
    bound_insert_row hr hrefs hseen (hg.typed r hmem) hrow hfits
  obtain ⟨hok, ⟨a', hc', hg', hsame⟩, before, hbefore, hafter⟩ :=
    QueryEngine.execute_inserts_rows hstmt hc hg hsmall huser hbound
  rw [List.map_singleton, hvalues] at hok hafter
  have hpage : (Catalog.codec c r).fits_page c.config.page_size
      (row.map fun p => p.2.value p.1) = true := by
    have hrow : RowCodec.Row (Catalog.codec c r).registry (Catalog.codec c r).schema
        (row.map fun p => p.2.value p.1) := hencodes
    obtain ⟨bitmap, henc, -⟩ := RowCodec.encode_of_row hrow
    unfold RowCodec.fits_page
    rw [henc]
    exact decide_eq_true (hsize _ henc)
  rw [hname] at hbefore hafter
  refine ⟨before, ?_, hok.mpr (by simpa using hpage), ?_⟩
  · rw [QueryEngine.selects_eq hc hg hsmall0 hr hoid, hbefore]
  · rw [QueryEngine.selects_eq hc' hg' hsmall ((open_table_same hsame _).trans hr) hoid, hafter]
    simp [hpage]

/-- A table with a column of numbers and a column of texts. -/
def mixed_table : List SqlOp := [.execute (str "CREATE TABLE t (a INT, b TEXT)")]

/-- A number below zero, and a text with a quote and a zero byte. -/
def mixed_row : List (ColumnSchema × Cell) :=
  [(⟨str "a", 1, true⟩, .integer (-7)), (⟨str "b", 5, true⟩, .text (str "it's" ++ [0]))]

set_option maxRecDepth 100000 in
theorem mixed_row_comes_back :
    ∃ before, QueryEngine.selects small_setup.types (str "t") (SqlOp.after small_setup mixed_table) =
        .ok before ∧
      (∃ out, ((QueryEngine.execute small_setup.types
        (render [.insert (insert_row (str "t") mixed_row)])).run
          (SqlOp.after small_setup mixed_table)).1 = .ok out) ∧
      QueryEngine.selects small_setup.types (str "t")
        ((QueryEngine.execute small_setup.types
          (render [.insert (insert_row (str "t") mixed_row)])).run
            (SqlOp.after small_setup mixed_table)).2 =
        .ok (before + {mixed_row.map fun p => p.2.value p.1}) := by
  have hcreate : QueryEngine.statement (str "CREATE TABLE t (a INT, b TEXT)") = some (.create_table
      ⟨str "t", [{ name := str "a", type := ⟨str "INT", none⟩ },
        { name := str "b", type := ⟨str "TEXT", none⟩ }], false⟩) := by decide +kernel
  have hfits : ∀ p ∈ mixed_row, p.2.Fits p.1 := by
    simp only [mixed_row, List.mem_cons, List.not_mem_nil, or_false, forall_eq_or_imp, forall_eq]
    exact ⟨⟨.int32, rfl, by decide⟩, rfl⟩
  have hinsert := QueryEngine.statement_insert_row (show is_name (str "t") = true by decide) hfits
  have hsmall : (History.of (mixed_table ++
      [.execute (render [.insert (insert_row (str "t") mixed_row)])])).Small := by
    simp only [History.of, mixed_table, List.cons_append, List.nil_append, List.foldl_cons,
      List.foldl_nil, History.next, hcreate, hinsert]
    decide
  have hplain : ∀ op ∈ mixed_table, op.Plain := by
    intro op hop
    rw [List.mem_singleton.mp hop]
    intro stmt hstmt
    rw [hcreate] at hstmt
    cases hstmt
  have hopen : (CatalogOp.step (.open_table (str "t"))
      (SqlOp.after small_setup mixed_table).catalog).1 =
        .schema (.ok ⟨5, str "t", mixed_row.map Prod.fst⟩) := by decide +kernel
  refine sql_round_trip small_setup mixed_table hplain (str "t") (fun t => by cases t <;> decide) _
    hopen mixed_row rfl hfits (fun tuple htuple => ?_) hsmall
  have hpage : ({ registry := small_setup.types, schema := mixed_row.map Prod.fst } :
      RowCodec).fits_page small_setup.config.page_size (mixed_row.map fun p => p.2.value p.1) =
        true := by decide +kernel
  simpa only [RowCodec.fits_page, htuple, decide_eq_true_eq] using hpage

/-- A row for the attributes of a relation below zero. -/
def odd_attribute : List SqlOp := [.execute (str "CREATE TABLE t (a INT)"),
  .execute (str "INSERT INTO edb_attribute VALUES ('-1', 1, 'x', 1, true)"), .reopen]

def one_number : List (ColumnSchema × Cell) := [(⟨str "a", 1, true⟩, .integer 1)]

set_option maxRecDepth 100000 in
/-- No table can be opened once the row is on the file, so a number in range that
goes on a page does not go in. -/
theorem odd_attribute_stops_inserts :
    (∀ p ∈ one_number, p.2.Fits p.1) ∧
      ({ registry := small_setup.types, schema := one_number.map Prod.fst } : RowCodec).fits_page
        small_setup.config.page_size (one_number.map fun p => p.2.value p.1) = true ∧
      ((QueryEngine.execute small_setup.types
        (render [.insert (insert_row (str "t") one_number)])).run
          (SqlOp.after small_setup odd_attribute)).1 = .error .Corruption := by
  refine ⟨?_, by decide +kernel, by decide +kernel⟩
  simp only [one_number, List.mem_singleton, forall_eq]
  exact ⟨.int32, rfl, by decide⟩

end edb
