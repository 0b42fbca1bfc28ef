-- An INSERT of several rows. Each row that was bound for the columns of the
-- table is one that the codec takes, and the rows go in up to the first that is
-- too large for a page. Everything else stays: the other tables, and what the
-- catalog answers.
import Edb.SqlRuns

namespace edb

open Call

/-- What a client reads from a table, in no order. -/
def Catalog.reads (name : Bytes) (s : CatalogState) : Result (Multiset (List Value)) :=
  ((scan_table name).run s).1.map fun rows => (rows : Multiset (List Value))

namespace RowCodec

/-- The encoding of the row goes on a page of the size. -/
def fits_page (codec : RowCodec) (page_size : Nat) (values : List Value) : Bool :=
  match codec.encode values with
  | .error _ => false
  | .ok tuple => decide (tuple.length ≤ page_size - 32)

/-- The tuple of a row, and the row of a tuple. -/
def tuple (codec : RowCodec) (values : List Value) : Bytes :=
  (codec.encode values).toOption.getD []

def decoded (codec : RowCodec) (tuple : Bytes) : List Value :=
  (codec.decode tuple).toOption.getD []

variable {codec : RowCodec}

theorem mapM_decode {order : List Bytes} (h : ∀ x ∈ order, codec.Stores x) :
    order.mapM codec.decode = .ok (order.map codec.decoded) := by
  induction order with
  | nil => rfl
  | cons x rest ih =>
    obtain ⟨⟨values, hvalues, -⟩, hrest⟩ := List.forall_mem_cons.mp h
    rw [List.mapM_cons, ih hrest, hvalues, List.map_cons, decoded, hvalues]
    rfl

theorem stored_of_made {types : TypeRegistry} {values : List Value}
    (h : ∀ v ∈ values, v.Made types) : values.map Value.stored = values := by
  have hstored : ∀ v ∈ values, v.stored = v := by
    intro v hv
    unfold Value.stored
    split
    · rename_i hnull
      obtain ⟨oid, bytes, is_null⟩ := v
      have hempty : bytes = [] := (h _ hv).empty hnull
      rw [hempty]
    · rfl
  exact (List.map_congr_left hstored).trans (List.map_id' values)

/-- The tuple of a row that goes on a page decodes to the row. -/
theorem decoded_tuple {size : Nat} (hsize : size ≤ 65535) {values : List Value}
    (hmade : ∀ v ∈ values, v.Made codec.registry) (hfits : codec.fits_page size values = true) :
    codec.decoded (codec.tuple values) = values := by
  unfold fits_page at hfits
  split at hfits
  · cases hfits
  · rename_i x henc
    have hlen : x.length ≤ size - 32 := by simpa using hfits
    unfold tuple decoded
    rw [henc]
    show ((codec.decode x).toOption.getD []) = values
    rw [decode_encode henc (by omega)]
    exact stored_of_made hmade

end RowCodec

/-! ## The rows that go in -/

section

variable {c : Setup} {a : CatalogModel} {r : Relation}

theorem fits_page_iff {values : List Value} {tuple : Bytes}
    (henc : (Catalog.codec c r).encode values = .ok tuple) :
    (Catalog.codec c r).fits_page c.config.page_size values = decide (c.Fits tuple.length) := by
  have := c.page_min
  unfold RowCodec.fits_page
  rw [henc]
  refine decide_eq_decide.mpr ?_
  simp only [Setup.Fits, heap.SLOT_SIZE, heap.PAGE_HEADER_SIZE]
  omega

/-- What the loop leaves besides the rows of its table. -/
structure SameOthers (r : Relation) (a a' : CatalogModel) : Prop where
  opened : a'.opened = a.opened
  relations : a'.relations = a.relations
  written : a'.written = a.written
  rows : ∀ oid, oid ≠ r.oid → a'.rows oid = a.rows oid

theorem same_others_insert_rows (rows : List (List Value)) :
    SameOthers r a (a.insert_rows c r rows).2 := by
  induction rows generalizing a with
  | nil => exact ⟨rfl, rfl, rfl, fun _ _ => rfl⟩
  | cons values rest ih =>
    have hsame : SameOthers r a a := ⟨rfl, rfl, rfl, fun _ _ => rfl⟩
    simp only [CatalogModel.insert_rows]
    split
    · exact hsame
    · rename_i tuple _
      split
      · have hrest := ih (a := a.insert r.oid tuple)
        refine ⟨hrest.opened, hrest.relations, hrest.written, fun oid hne => ?_⟩
        rw [hrest.rows oid hne]
        simp only [CatalogModel.insert, Function.update_of_ne hne]
      · exact hsame

/-- The rows before the first that does not go on a page go in, and the loop
fails exactly if there is such a row. -/
theorem insert_rows_eq (rows : List (List Value)) {tuples : Multiset Bytes}
    (htuples : a.rows r.oid = some tuples) :
    ((a.insert_rows c r rows).1 = .ok () ↔
        ∀ values ∈ rows, (Catalog.codec c r).fits_page c.config.page_size values = true) ∧
      (a.insert_rows c r rows).2.rows r.oid = some (tuples +
        ((rows.takeWhile ((Catalog.codec c r).fits_page c.config.page_size)).map
          (Catalog.codec c r).tuple : List Bytes)) := by
  induction rows generalizing a tuples with
  | nil => exact ⟨iff_of_true rfl (by simp), by simpa [CatalogModel.insert_rows] using htuples⟩
  | cons values rest ih =>
    simp only [CatalogModel.insert_rows, List.takeWhile_cons, List.mem_cons, forall_eq_or_imp]
    cases hvalues : (Catalog.codec c r).encode values with
    | error e =>
      have hpage : (Catalog.codec c r).fits_page c.config.page_size values = false := by
        simp only [RowCodec.fits_page, hvalues]
      simp [hpage, htuples]
    | ok tuple =>
      have htuple : (Catalog.codec c r).tuple values = tuple := by
        unfold RowCodec.tuple
        rw [hvalues]
        rfl
      rw [fits_page_iff hvalues]
      by_cases hfits : c.Fits tuple.length
      · have hinserted : (a.insert r.oid tuple).rows r.oid = some (tuple ::ₘ tuples) := by
          simp only [CatalogModel.insert, Function.update_self, htuples, Option.map_some]
        obtain ⟨hok, hrows⟩ := ih hinserted
        simp only [if_pos hfits, decide_eq_true hfits, if_true, true_and, List.map_cons, htuple]
        refine ⟨hok, ?_⟩
        rw [hrows, ← Multiset.cons_coe, Multiset.cons_add, Multiset.add_cons]
      · simp [hfits, htuples]

end

/-! ## What a client reads -/

namespace Catalog

variable {c : Setup} {a : CatalogModel} {s : CatalogState}

/-- The reply of the model to a scan. -/
theorem reads_of_scan (hc : HoldsCatalog c a s) (hroom : ∀ oid, a.inserted oid ≤ 2 ^ 32)
    {name : Bytes} {r : Relation} (hr : a.open_table name = .ok r) {tuples : Multiset Bytes}
    (hscans : a.Scans c r tuples) : ∃ order : List Bytes, (order : Multiset Bytes) = tuples ∧
      reads name s = (order.mapM (codec c r).decode).map fun rows => (rows : Multiset _) := by
  have hscan := (CatalogOp.step_scan name hc fun r _ => hroom r.oid).1
  rw [step_scan_eq] at hscan
  simp only [CatalogModel.Answers, hr] at hscan
  obtain ⟨rows, hreply, hall⟩ := hscan
  obtain ⟨order, horder, hrows⟩ := hall tuples hscans
  refine ⟨order, horder, ?_⟩
  unfold reads
  rw [CatalogReply.rows.inj hreply, hrows]

theorem reads_of_rows (hc : HoldsCatalog c a s) (hroom : ∀ oid, a.inserted oid ≤ 2 ^ 32)
    {name : Bytes} {r : Relation} (hr : a.open_table name = .ok r) (hoid : 5 ≤ r.oid)
    {tuples : Multiset Bytes} (htuples : a.rows r.oid = some tuples)
    (hstores : ∀ x ∈ tuples, (codec c r).Stores x) :
    reads name s = .ok (tuples.map (codec c r).decoded) := by
  obtain ⟨order, rfl, hreads⟩ := reads_of_scan hc hroom hr (Or.inl ⟨hoid, htuples⟩)
  rw [hreads, RowCodec.mapM_decode fun x hx => hstores x hx]
  rfl

theorem reads_error (hc : HoldsCatalog c a s) (hroom : ∀ oid, a.inserted oid ≤ 2 ^ 32)
    {name : Bytes} {e : Error} (hr : a.open_table name = .error e) : reads name s = .error e := by
  have hscan := (CatalogOp.step_scan name hc fun r _ => hroom r.oid).1
  rw [step_scan_eq] at hscan
  simp only [CatalogModel.Answers, hr] at hscan
  unfold reads
  rw [CatalogReply.rows.inj hscan]
  rfl

/-- A system table that was not written since the catalog was opened. -/
theorem reads_system (hc : HoldsCatalog c a s) (hroom : ∀ oid, a.inserted oid ≤ 2 ^ 32)
    {name : Bytes} {t : SystemTable} (hr : a.open_table name = .ok (Relation.system t))
    (hw : a.written t = false) :
    reads name s = .ok (a.system_rows t : Multiset (List Value)) := by
  obtain ⟨order, horder, hreads⟩ := reads_of_scan hc hroom hr (Or.inr ⟨t, rfl, hw, rfl⟩)
  have hopen := (CatalogOp.open_of_ok hr).1
  obtain ⟨view, hview, hperm⟩ := hc.well_formed.decode_content hopen t horder
  have hcodec : codec c (Relation.system t) = t.codec c.types := rfl
  rw [hreads, hcodec, hview]
  exact congrArg Except.ok (Multiset.coe_eq_coe.mpr hperm)

end Catalog

/-! ## An INSERT after any run -/

/-- The rows before the first that is too large went into the table, and the
statement failed if there is one that is. The other user tables are as before,
the system tables too where nothing was written to them, and the catalog gives
the answers that it gave. -/
structure AppliesPrefix (page_size : Nat) (unwritten : Bool) (name : Bytes) (codec : RowCodec)
    (rows : List (List Value)) (failed : Prop) (s s' : CatalogState) : Prop where
  encoded : ∀ values ∈ rows, ∃ tuple, codec.encode values = .ok tuple
  fails_iff : failed ↔ ∃ values ∈ rows, ∃ tuple, codec.encode values = .ok tuple ∧
    page_size - 32 < tuple.length
  applied : ∃ before, Catalog.reads name s = .ok before ∧ Catalog.reads name s' =
    .ok (before + (rows.takeWhile (codec.fits_page page_size) : List (List Value)))
  others : ∀ other, other ≠ name → (∀ t : SystemTable, other ≠ t.name) →
    Catalog.reads other s' = Catalog.reads other s
  systems : unwritten = true → ∀ t : SystemTable,
    Catalog.reads t.name s' = Catalog.reads t.name s
  answers : SameAnswers s s'
  types : ∀ type_name, (CatalogOp.step (.get_type type_name) s').1 =
    (CatalogOp.step (.get_type type_name) s).1

section

variable {c : Setup} {h h' : History} {a a' : CatalogModel} {s s' : CatalogState} {r : Relation}

theorem open_table_same (hsame : SameOthers r a a') (name : Bytes) :
    a'.open_table name = a.open_table name := by
  simp only [CatalogModel.open_table, CatalogModel.find, hsame.opened, hsame.relations]

/-- The tables that the loop does not write to are read as before. -/
theorem reads_others (hc : HoldsCatalog c a s) (hg : Grown c h a) (hsmall : h.Small)
    (hc' : HoldsCatalog c a' s') (hg' : Grown c h' a') (hsmall' : h'.Small)
    (hsame : SameOthers r a a') {name : Bytes} (hne : name ≠ r.name)
    (hr : r ∈ a.relations) (hsys : ∀ t : SystemTable, name = t.name → a.written t = false) :
    Catalog.reads name s' = Catalog.reads name s := by
  have hopen' := open_table_same hsame name
  cases hopen : a.open_table name with
  | error e =>
    rw [Catalog.reads_error hc (hg.room hsmall) hopen,
      Catalog.reads_error hc' (hg'.room hsmall') (hopen'.trans hopen)]
  | ok r' =>
    obtain ⟨-, hmem⟩ := CatalogOp.open_of_ok hopen
    have hname := CatalogOp.name_of_ok hopen
    rcases hc.well_formed.kinds r' hmem with ⟨t, rfl⟩ | ⟨hoid, -⟩
    · have hw := hsys t hname.symm
      have hw' : a'.written t = false := by rw [hsame.written, hw]
      have hrows : a'.system_rows t = a.system_rows t := by
        cases t <;> simp only [CatalogModel.system_rows, CatalogModel.class_records,
          CatalogModel.attribute_records, hsame.relations]
      rw [Catalog.reads_system hc (hg.room hsmall) hopen hw,
        Catalog.reads_system hc' (hg'.room hsmall') (hopen'.trans hopen) hw', hrows]
    · have hoids : r'.oid ≠ r.oid := by
        intro he
        cases List.inj_on_of_nodup_map hc.well_formed.oids hmem hr he
        exact hne hname.symm
      obtain ⟨tuples, htuples, hstores⟩ := hg.rows r' hmem hoid
      rw [Catalog.reads_of_rows hc (hg.room hsmall) hopen hoid htuples hstores,
        Catalog.reads_of_rows hc' (hg'.room hsmall') (hopen'.trans hopen) hoid
          ((hsame.rows r'.oid hoids).trans htuples) hstores]

theorem get_type_reply (hc : HoldsCatalog c a s) (name : Bytes) :
    (CatalogOp.step (.get_type name) s).1 = .type (a.get_type name) :=
  (CatalogOp.step_spec (.get_type name) hc trivial).1

/-- The rows that the binder accepts are those of the model. -/
theorem QueryEngine.bound_of_accepted {q : QueryEngine} {stmt : InsertStmt}
    {bound : BoundInsertStmt} (hc : HoldsCatalog c a q.catalog)
    (haccepted : ((QueryEngine.bind c.types (.insert stmt)).run q).1 = .ok (.insert bound)) :
    ∃ r, a.bound_insert c stmt = some (r, bound.rows) := by
  have hbind : (Binder.bind c.types (.insert stmt)).wp
      (fun b _ => ∀ i, b = .insert i → ∃ r, a.bound_insert c stmt = some (r, i.rows))
      (fun _ _ => True) { catalog := q.catalog } := by
    unfold Binder.bind
    rw [wp_bind]
    refine wp_mono (Binder.bind_insert.spec (b := { catalog := q.catalog }) hc stmt) ?_
      fun _ _ _ => trivial
    rintro i b ⟨r, hsome, -⟩
    refine (wp_pure _).mpr fun i' hi' => ?_
    cases hi'
    exact ⟨r, hsome⟩
  have hq := QueryEngine.wp_bind_stmt (q := q) (E := fun _ => True)
    (Q := fun b _ => ∀ i, b = .insert i → ∃ r, a.bound_insert c stmt = some (r, i.rows)) hbind
  exact wp_ok hq (run_eq_of_fst haccepted) bound rfl

/-- The rows of a statement for a table that is there are those of the columns
that the binder shows. -/
theorem CatalogModel.bound_insert_eq {stmt : InsertStmt} {refs : List BoundColumnRef}
    (hr : a.open_table stmt.table_name = .ok r)
    (hrefs : Binder.bind_columns c.types r.oid 0 r.columns = .ok refs) :
    a.bound_insert c stmt = (bound_rows c.types refs stmt).map fun rows => (r, rows) := by
  unfold CatalogModel.bound_insert
  rw [hr]
  dsimp only
  rw [hrefs]

/-- What an INSERT of rows that the binder accepts does to the model and to what
a client reads. -/
structure InsertsRows (c : Setup) (h : History) (r : Relation) (a : CatalogModel)
    (rows : List (List Value)) (succeeds : Prop) (s s' : CatalogState) : Prop where
  succeeds_iff : succeeds ↔
    ∀ values ∈ rows, (Catalog.codec c r).fits_page c.config.page_size values = true
  holds : ∃ a', HoldsCatalog c a' s' ∧ Grown c h a' ∧ SameOthers r a a'
  reads : ∃ before, Catalog.reads r.name s = .ok before ∧ Catalog.reads r.name s' = .ok (before +
    (rows.takeWhile ((Catalog.codec c r).fits_page c.config.page_size) : List (List Value)))

theorem QueryEngine.execute_inserts_rows {q : QueryEngine} {sql : Bytes} {stmt : InsertStmt}
    (hstmt : statement sql = some (.insert stmt)) (hc : HoldsCatalog c a q.catalog)
    (hg : Grown c h a) (hsmall : (h.next (.execute sql)).Small)
    (huser : ∀ t : SystemTable, stmt.table_name ≠ t.name) {rows : List (List BoundLiteral)}
    (hbound : a.bound_insert c stmt = some (r, rows)) :
    InsertsRows c (h.next (.execute sql)) r a (rows.map (·.map BoundLiteral.value))
      (∃ out, ((execute c.types sql).run q).1 = .ok out) q.catalog
      ((execute c.types sql).run q).2.catalog := by
  have hsmall0 := History.small_of_next hsmall
  obtain ⟨hr, -, -⟩ := made_of_bound_insert hbound
  obtain ⟨-, hmem⟩ := CatalogOp.open_of_ok hr
  rw [← CatalogOp.name_of_ok hr] at hr
  obtain ⟨hoid, hmadeRows, hgrown, hrun⟩ := insert_spec hstmt hc hg huser hsmall hbound
  generalize rows.map (·.map BoundLiteral.value) = rows at *
  have hsame := same_others_insert_rows (c := c) (a := a) (r := r) rows
  obtain ⟨tuples, htuples, hstores⟩ := hg.rows r hmem hoid
  obtain ⟨hok, hafter⟩ := insert_rows_eq (c := c) rows htuples
  generalize a.insert_rows c r rows = done at *
  have hexec : HoldsCatalog c done.2 ((execute c.types sql).run q).2.catalog ∧
      ((∃ out, ((execute c.types sql).run q).1 = .ok out) ↔ done.1 = .ok ()) := by
    rcases hout : (execute c.types sql).run q with ⟨e | out, q'⟩
    · obtain ⟨⟨e', he'⟩, hc'⟩ := wp_error hrun hout
      refine ⟨hc', iff_of_false ?_ ?_⟩
      · rintro ⟨out, he⟩
        cases he
      · rw [he']
        intro hok
        cases hok
    · obtain ⟨-, hfine, hc'⟩ := wp_ok hrun hout
      exact ⟨hc', iff_of_true ⟨out, rfl⟩ hfine⟩
  obtain ⟨hc', hdone⟩ := hexec
  have hstores' : ∀ x ∈ tuples + ((rows.takeWhile ((Catalog.codec c r).fits_page
      c.config.page_size)).map (Catalog.codec c r).tuple : List Bytes),
      (Catalog.codec c r).Stores x := by
    obtain ⟨tuples', htuples', hall⟩ := hgrown.rows r (by rw [hsame.relations]; exact hmem) hoid
    cases hafter.symm.trans htuples'
    exact hall
  refine ⟨hdone.trans hok, ⟨_, hc', hgrown, hsame⟩, _,
    Catalog.reads_of_rows hc (hg.room hsmall0) hr hoid htuples hstores, ?_⟩
  rw [Catalog.reads_of_rows hc' (hgrown.room hsmall) ((open_table_same hsame _).trans hr) hoid
    hafter hstores', Multiset.map_add, Multiset.map_coe, List.map_map]
  congr 3
  refine (List.map_congr_left fun values hvalues => ?_).trans (List.map_id _)
  exact RowCodec.decoded_tuple c.page_max
    (hmadeRows values ((List.takeWhile_sublist _).subset hvalues)) (List.mem_takeWhile_imp hvalues)

end

theorem History.of_append (ops : List SqlOp) (op : SqlOp) :
    History.of (ops ++ [op]) = (History.of ops).next op := by
  unfold History.of
  rw [List.foldl_append]
  rfl

/-- After any run without an INSERT into a system table, with pages of 98 to
65535 bytes and numbers in range, an INSERT of rows by position into a user
table applies the rows before the first that is too large. -/
theorem insert_applies_a_prefix (c : Setup) (ops : List SqlOp)
    (hplain : ∀ op ∈ ops, op.Plain) (sql : Bytes) (stmt : InsertStmt)
    (hstmt : QueryEngine.statement sql = some (.insert stmt))
    (hpositional : stmt.column_names = [])
    (huser : ∀ t : SystemTable, stmt.table_name ≠ t.name)
    (hsmall : (History.of (ops ++ [.execute sql])).Small) (bound : BoundInsertStmt)
    (haccepted : ((QueryEngine.bind c.types (.insert stmt)).run (SqlOp.after c ops)).1 =
      .ok (.insert bound)) :
    ∃ schema, (CatalogOp.step (.open_table stmt.table_name) (SqlOp.after c ops).catalog).1 =
        .schema (.ok schema) ∧
      AppliesPrefix c.config.page_size (History.of ops).unwritten stmt.table_name
        { registry := c.types, schema := schema.columns }
        (bound.rows.map (·.map BoundLiteral.value))
        (∃ e, ((QueryEngine.execute c.types sql).run (SqlOp.after c ops)).1 = .error e)
        (SqlOp.after c ops).catalog
        ((QueryEngine.execute c.types sql).run (SqlOp.after c ops)).2.catalog := by
  rw [History.of_append] at hsmall
  have hsmall0 := History.small_of_next hsmall
  obtain ⟨a, hc, hg⟩ := kept_after c ops hplain hsmall0
  generalize SqlOp.after c ops = q at *
  generalize History.of ops = h at *
  obtain ⟨r, hbound⟩ := QueryEngine.bound_of_accepted hc haccepted
  obtain ⟨hr, -, -⟩ := QueryEngine.made_of_bound_insert hbound
  obtain ⟨ho, hmem⟩ := CatalogOp.open_of_ok hr
  have hname := CatalogOp.name_of_ok hr
  -- a row that was bound by position is a row of the table
  have henc : ∀ values ∈ bound.rows.map (·.map BoundLiteral.value),
      ∃ tuple, (Catalog.codec c r).encode values = .ok tuple := by
    obtain ⟨refs, hrefs, hseen⟩ := Binder.bind_columns_ok c.registered (hg.typed r hmem) r.oid 0
    rw [CatalogModel.bound_insert_eq hr hrefs] at hbound
    obtain ⟨rows, hrows, heq⟩ := Option.map_eq_some_iff.mp hbound
    cases heq
    unfold bound_rows insert_targets at hrows
    rw [hpositional] at hrows
    refine List.forall_mem_map.mpr fun row hrow => ?_
    obtain ⟨source, -, hsource⟩ := exists_of_forall₂ (mapM_eq_some_iff.mp hrows) hrow
    have hrow : RowCodec.Row (Catalog.codec c r).registry (Catalog.codec c r).schema
        (row.map BoundLiteral.value) := row_of_bound c.registered (hg.typed r hmem) hseen hsource
    obtain ⟨bitmap, henc, -⟩ := RowCodec.encode_of_row hrow
    exact ⟨_, henc⟩
  obtain ⟨hok, ⟨a', hc', hg', hsame⟩, happlied⟩ :=
    QueryEngine.execute_inserts_rows hstmt hc hg hsmall huser hbound
  generalize bound.rows.map (·.map BoundLiteral.value) = rows at *
  refine ⟨r.schema, ?_, henc, ?_, ?_, ?_, ?_, ?_, ?_⟩
  · rw [CatalogOp.open_table_reply hc, hr]
    rfl
  · have hfails : (∃ e, ((QueryEngine.execute c.types sql).run q).1 = .error e) ↔
        ¬ ∃ out, ((QueryEngine.execute c.types sql).run q).1 = .ok out := by
      cases ((QueryEngine.execute c.types sql).run q).1 <;> simp
    rw [hfails, hok]
    constructor
    · intro hnot
      push Not at hnot
      obtain ⟨values, hvalues, hlarge⟩ := hnot
      obtain ⟨tuple, htuple⟩ := henc values hvalues
      refine ⟨values, hvalues, tuple, htuple, ?_⟩
      simpa [RowCodec.fits_page, htuple] using hlarge
    · rintro ⟨values, hvalues, tuple, htuple, hlarge⟩ hall
      have hfits := hall values hvalues
      rw [RowCodec.fits_page, show (Catalog.codec c r).encode values = .ok tuple from htuple] at hfits
      have hle : tuple.length ≤ c.config.page_size - 32 := by simpa using hfits
      omega
  · rwa [hname] at happlied
  · intro other hne hsys
    exact reads_others hc hg hsmall0 hc' hg' hsmall hsame (by rw [hname]; exact hne) hmem
      fun t ht => absurd ht (hsys t)
  · intro hw t
    exact reads_others hc hg hsmall0 hc' hg' hsmall hsame (by rw [hname]; exact (huser t).symm)
      hmem fun t _ => hg.unwritten hw t
  · exact same_answers hc hc' hsame.relations hsame.opened
  · intro type_name
    rw [get_type_reply hc, get_type_reply hc']
    simp only [CatalogModel.get_type, hsame.opened]

/-- A table with one column of texts. -/
def text_table : List SqlOp := [.execute (str "CREATE TABLE t (a TEXT)")]

/-- The second of the rows is too large for a page of 400 bytes. -/
def three_texts : Bytes :=
  str "INSERT INTO t VALUES ('x'), ('" ++ List.replicate 360 65 ++ str "'), ('y')"

def text_column : BoundColumnRef :=
  { relation_oid := 5, attnum := 1, name := str "a", type := ⟨5, str "text", none⟩, nullable := true }

def bound_text (text : Bytes) : List BoundLiteral :=
  [⟨⟨5, str "text", none⟩, ⟨5, text, false⟩⟩]

def bound_texts : BoundInsertStmt where
  table := ⟨5, str "t", [text_column]⟩
  columns := [text_column]
  rows := [bound_text (str "x"), bound_text (List.replicate 360 65), bound_text (str "y")]

def text_row (text : Bytes) : List Expr := [.literal (.StrLiteral text)]

set_option maxRecDepth 100000 in
/-- Only the first of the three rows goes in. -/
theorem first_text_is_inserted :
    ∃ schema, (CatalogOp.step (.open_table (str "t"))
        (SqlOp.after small_setup text_table).catalog).1 = .schema (.ok schema) ∧
      AppliesPrefix small_setup.config.page_size (History.of text_table).unwritten (str "t")
        { registry := small_setup.types, schema := schema.columns }
        (bound_texts.rows.map (·.map BoundLiteral.value))
        (∃ e, ((QueryEngine.execute small_setup.types three_texts).run
          (SqlOp.after small_setup text_table)).1 = .error e)
        (SqlOp.after small_setup text_table).catalog
        ((QueryEngine.execute small_setup.types three_texts).run
          (SqlOp.after small_setup text_table)).2.catalog := by
  have hcreate : QueryEngine.statement (str "CREATE TABLE t (a TEXT)") = some (.create_table
      ⟨str "t", [{ name := str "a", type := ⟨str "TEXT", none⟩ }], false⟩) := by decide +kernel
  have hinsert : QueryEngine.statement three_texts = some (.insert ⟨str "t", [],
      [text_row (str "x"), text_row (List.replicate 360 65), text_row (str "y")]⟩) := by
    decide +kernel
  have hsmall : (History.of (text_table ++ [.execute three_texts])).Small := by
    simp only [History.of, text_table, List.cons_append, List.nil_append, List.foldl_cons,
      List.foldl_nil, History.next, hcreate, hinsert]
    decide
  have hplain : ∀ op ∈ text_table, op.Plain := by
    intro op hop
    rw [List.mem_singleton.mp hop]
    intro stmt hstmt
    rw [hcreate] at hstmt
    cases hstmt
  have haccepted : ((QueryEngine.bind small_setup.types (.insert ⟨str "t", [],
      [text_row (str "x"), text_row (List.replicate 360 65), text_row (str "y")]⟩)).run
      (SqlOp.after small_setup text_table)).1 = .ok (.insert bound_texts) := by decide +kernel
  exact insert_applies_a_prefix small_setup text_table hplain three_texts _ hinsert rfl
    (fun t => by cases t <;> decide) hsmall bound_texts haccepted

/-- Pages of 240 bytes, and one frame for each table. -/
def tiny_setup : Setup where
  types := builtin_registry
  config := { page_size := 240, buffer_pool_pages := 1 }
  registered := registered_builtin
  page_min := by decide
  page_max := by decide
  frames := by decide

set_option maxRecDepth 100000 in
/-- Two rows for the table of the classes: the page of the first is written to
the file when the second is placed, and the catalog finds the class that it
describes. It had found none. -/
theorem insert_brings_a_class :
    (CatalogOp.step (.get_class (str "u")) (SqlOp.after tiny_setup []).catalog).1 =
        .info (.error .NotFound) ∧
      (Call.run (do
        let out ← QueryEngine.execute builtin_registry
          (str "INSERT INTO edb_class VALUES (9, 'u', 'table'), (10, 'v', 'table')")
        let found ← QueryEngine.on_catalog (Catalog.get_class (str "u"))
        pure (out, found)) (SqlOp.after tiny_setup [])).1 =
          .ok ([], ⟨9, str "u", str "table"⟩) := by
  refine ⟨?_, by decide +kernel⟩
  have hmodel : (({} : CatalogModel).booted).get_class (str "u") = .error .NotFound := by decide
  exact (CatalogOp.get_class_reply (holds_fresh tiny_setup) _).trans
    (congrArg CatalogReply.info hmodel)

end edb
