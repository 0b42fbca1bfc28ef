-- An INSERT of one row with a column list. The binder gives each value the type
-- of the column that the list names, and the executor hands the row to the
-- table in the order of the list. So the list has to agree with the columns of
-- the table, as far as the values show the order.
import Edb.InsertPrefix

namespace edb

open Call

/-! ## The values of a row -/

/-- The value of a literal in a column. -/
def Literal.value_in (types : TypeRegistry) (column : ColumnSchema) (literal : Literal) :
    Option Value :=
  match literal_text literal with
  | none =>
    if column.nullable then some { type_oid := column.type_oid, bytes := [], is_null := true }
    else none
  | some text =>
    match types.lookup column.type_oid with
    | .error _ => none
    | .ok type =>
      match type.from_text text with
      | .error _ => none
      | .ok bytes => some { type_oid := column.type_oid, bytes, is_null := false }

/-- The values of literals that stand beside their columns. -/
def values_in (types : TypeRegistry) (row : List (ColumnSchema × Literal)) : List (Option Value) :=
  row.map fun p => p.2.value_in types p.1

/-- The row by position, and the row with the list of its columns. -/
def InsertStmt.by_position (name : Bytes) (row : List (ColumnSchema × Literal)) : InsertStmt where
  table_name := name
  column_names := []
  rows := [row.map fun p => .literal p.2]

def InsertStmt.by_name (name : Bytes) (row : List (ColumnSchema × Literal)) : InsertStmt where
  table_name := name
  column_names := row.map fun p => p.1.name
  rows := [row.map fun p => .literal p.2]

section

variable {types : TypeRegistry} {columns : List ColumnSchema} {refs : List BoundColumnRef}

theorem Literal.bound_value {column : ColumnSchema} {ref : BoundColumnRef} (hseen : column.Seen ref)
    (literal : Literal) :
    (literal.bound types ref).map BoundLiteral.value = literal.value_in types column := by
  unfold Literal.bound Literal.value_in
  rw [hseen.type_oid, hseen.nullable]
  cases literal_text literal with
  | none => cases column.nullable <;> rfl
  | some text =>
    dsimp only
    cases types.lookup column.type_oid with
    | error e => rfl
    | ok type =>
      dsimp only
      cases type.from_text text <;> rfl

theorem bound_row_values (types : TypeRegistry) {row : List (ColumnSchema × Literal)}
    (hseen : List.Forall₂ ColumnSchema.Seen (row.map Prod.fst) refs) :
    (bound_row types refs (row.map fun p => .literal p.2)).map (·.map BoundLiteral.value) =
      row.mapM fun p => p.2.value_in types p.1 := by
  have hlen : (row.map fun p => Expr.literal p.2).length = refs.length := by
    simpa using hseen.length_eq
  unfold bound_row
  rw [if_pos hlen]
  clear hlen
  induction row generalizing refs with
  | nil => rfl
  | cons p rest ih =>
    cases hseen with
    | @cons _ ref _ refs hcolumn hrest =>
      have hliteral : (Expr.literal p.2).bound types ref = p.2.bound types ref := rfl
      rw [List.map_cons, List.zip_cons_cons, List.mapM_cons, List.mapM_cons, ← ih hrest,
        ← Literal.bound_value hcolumn p.2, hliteral]
      generalize ((rest.map fun p => Expr.literal p.2).zip refs).mapM
        (fun p : Expr × BoundColumnRef => p.1.bound types p.2) = bounds
      cases p.2.bound types ref with
      | none => rfl
      | some bound => cases bounds <;> rfl

/-- Among columns with different names the one that is looked for is found. -/
theorem find_seen (hseen : List.Forall₂ ColumnSchema.Seen columns refs)
    (hdistinct : DistinctColumns columns) {column : ColumnSchema} (hmem : column ∈ columns) :
    ∃ ref, (refs.find? fun ref =>
        normalized_column_name ref.name == normalized_column_name column.name) = some ref ∧
      column.Seen ref := by
  induction hseen with
  | nil => cases hmem
  | @cons first ref columns refs hfirst _ ih =>
    obtain ⟨hnot, hrest⟩ := List.nodup_cons.mp hdistinct
    rcases List.mem_cons.mp hmem with rfl | hmem
    · refine ⟨ref, ?_, hfirst⟩
      rw [List.find?_cons_of_pos]
      simp [hfirst.name]
    · have hother : normalized_column_name ref.name ≠ normalized_column_name column.name := by
        intro he
        rw [hfirst.name] at he
        exact hnot (List.mem_map.mpr ⟨column, hmem, he.symm⟩)
      rw [List.find?_cons_of_neg (by simpa using hother)]
      exact ih hrest hmem

/-- The columns that a list names, each of them once, are its targets. -/
theorem named_targets_ok (hseen : List.Forall₂ ColumnSchema.Seen columns refs)
    (hdistinct : DistinctColumns columns) {named : List ColumnSchema}
    (hnamed : ∀ column ∈ named, column ∈ columns) (honce : DistinctColumns named)
    {seen : List Bytes} (hnew : ∀ column ∈ named, normalized_column_name column.name ∉ seen) :
    ∃ targets, named_targets refs seen (named.map ColumnSchema.name) = some targets ∧
      List.Forall₂ ColumnSchema.Seen named targets := by
  induction named generalizing seen with
  | nil => exact ⟨[], rfl, .nil⟩
  | cons column rest ih =>
    obtain ⟨hmem, hnamed⟩ := List.forall_mem_cons.mp hnamed
    obtain ⟨hfresh, hnew⟩ := List.forall_mem_cons.mp hnew
    obtain ⟨hnot, honce⟩ := List.nodup_cons.mp honce
    obtain ⟨ref, hfind, href⟩ := find_seen hseen hdistinct hmem
    have hnew' : ∀ other ∈ rest, normalized_column_name other.name ∉
        normalized_column_name ref.name :: seen := by
      intro other hother hin
      rcases List.mem_cons.mp hin with he | hin
      · rw [href.name] at he
        exact hnot (List.mem_map.mpr ⟨other, hother, he⟩)
      · exact hnew other hother hin
    obtain ⟨targets, htargets, hseen'⟩ := ih hnamed honce hnew'
    refine ⟨ref :: targets, ?_, .cons href hseen'⟩
    rw [← href.name] at hfresh
    change (refs.find? _ >>= _) = _
    simp [hfind, hfresh, htargets]

/-- A list of all columns, in any order. -/
theorem insert_targets_ok (hseen : List.Forall₂ ColumnSchema.Seen columns refs)
    (hdistinct : DistinctColumns columns) {named : List ColumnSchema} (hperm : named.Perm columns) :
    ∃ targets, insert_targets refs (named.map ColumnSchema.name) = some targets ∧
      List.Forall₂ ColumnSchema.Seen named targets := by
  have honce : DistinctColumns named := (hperm.map _).nodup_iff.mpr hdistinct
  unfold insert_targets
  cases named with
  | nil =>
    rw [List.nil_perm.mp hperm] at hseen
    exact ⟨refs, rfl, hseen⟩
  | cons column rest =>
    exact named_targets_ok hseen hdistinct (fun x hx => hperm.subset hx) honce (by simp)

theorem mapM_eq_some_iff_map {α β : Type} {f : α → Option β} {xs : List α} {ys : List β} :
    xs.mapM f = some ys ↔ xs.map f = ys.map some := by
  rw [mapM_eq_some_iff, ← List.forall₂_eq_eq_eq, List.forall₂_map_left_iff,
    List.forall₂_map_right_iff]

end

/-! ## The two statements -/

/-- Both statements succeed, and they leave the table with the same rows. -/
def InsertsAlike (types : TypeRegistry) (name sql other : Bytes) (q : QueryEngine) : Prop :=
  (∃ out, ((QueryEngine.execute types other).run q).1 = .ok out) ∧
    Catalog.reads name ((QueryEngine.execute types other).run q).2.catalog =
      Catalog.reads name ((QueryEngine.execute types sql).run q).2.catalog

section

variable {c : Setup} {h : History} {a : CatalogModel} {q : QueryEngine} {r : Relation}

theorem relation_of_reply {s : CatalogState} (hc : HoldsCatalog c a s) {name : Bytes}
    {schema : TableSchema}
    (hopen : (CatalogOp.step (.open_table name) s).1 = .schema (.ok schema)) :
    ∃ r, a.open_table name = .ok r ∧ r.schema = schema := by
  rw [CatalogOp.open_table_reply hc] at hopen
  cases hr : a.open_table name with
  | error e =>
    rw [hr] at hopen
    cases hopen
  | ok r =>
    rw [hr] at hopen
    cases hopen
    exact ⟨r, rfl, rfl⟩

theorem bound_insert_one (stmt : InsertStmt) {refs targets : List BoundColumnRef} {row : List Expr}
    (hr : a.open_table stmt.table_name = .ok r)
    (hrefs : Binder.bind_columns c.types r.oid 0 r.columns = .ok refs)
    (htargets : insert_targets refs stmt.column_names = some targets) (hrows : stmt.rows = [row]) :
    a.bound_insert c stmt = (bound_row c.types targets row).map fun bound => (r, [bound]) := by
  rw [CatalogModel.bound_insert_eq hr hrefs, bound_rows, htargets, hrows]
  cases hrow : bound_row c.types targets row <;> simp [hrow]

theorem bound_of_succeeds {sql : Bytes} {stmt : InsertStmt}
    (hstmt : QueryEngine.statement sql = some (.insert stmt)) (hc : HoldsCatalog c a q.catalog)
    (hok : ∃ out, ((QueryEngine.execute c.types sql).run q).1 = .ok out) :
    ∃ bound, a.bound_insert c stmt = some bound := by
  obtain ⟨out, hout⟩ := hok
  cases hbound : a.bound_insert c stmt with
  | none => exact (wp_ok (QueryEngine.execute_insert_refused hstmt hc hbound)
      (run_eq_of_fst hout)).elim
  | some bound => exact ⟨bound, rfl⟩

end

/-- After any run without an INSERT into a system table, let a row by position
succeed for a user table. The same row with the columns listed in another order
does the same exactly if at each place the value listed there, in the column
that is named there, is the value of the column of that place. -/
theorem column_list_iff (c : Setup) (ops : List SqlOp) (hplain : ∀ op ∈ ops, op.Plain)
    (name : Bytes) (huser : ∀ t : SystemTable, name ≠ t.name) (schema : TableSchema)
    (hopen : (CatalogOp.step (.open_table name) (SqlOp.after c ops).catalog).1 =
      .schema (.ok schema))
    (row listed : List (ColumnSchema × Literal)) (hrow : row.map Prod.fst = schema.columns)
    (hperm : listed.Perm row) (sql other : Bytes)
    (hsql : QueryEngine.statement sql = some (.insert (.by_position name row)))
    (hother : QueryEngine.statement other = some (.insert (.by_name name listed)))
    (hsmall : (History.of (ops ++ [.execute sql])).Small)
    (hok : ∃ out, ((QueryEngine.execute c.types sql).run (SqlOp.after c ops)).1 = .ok out) :
    InsertsAlike c.types name sql other (SqlOp.after c ops) ↔
      values_in c.types listed = values_in c.types row := by
  rw [History.of_append] at hsmall
  obtain ⟨a, hc, hg⟩ := kept_after c ops hplain (History.small_of_next hsmall)
  generalize SqlOp.after c ops = q at *
  generalize History.of ops = h at *
  obtain ⟨r, hr, rfl⟩ := relation_of_reply hc hopen
  obtain ⟨-, hmem⟩ := CatalogOp.open_of_ok hr
  obtain ⟨refs, hrefs, hseen⟩ := Binder.bind_columns_ok c.registered (hg.typed r hmem) r.oid 0
  have hcolumns : row.map Prod.fst = r.columns := hrow
  -- the binder finds the columns of either statement
  have hbound := bound_insert_one (.by_position name row) hr hrefs rfl rfl
  obtain ⟨targets, htargets, hnamed⟩ := insert_targets_ok hseen (hg.distinct r hmem)
    (hcolumns ▸ hperm.map Prod.fst)
  rw [List.map_map] at htargets
  have hbound' := bound_insert_one (.by_name name listed) hr hrefs htargets rfl
  rw [← hcolumns] at hseen
  have hvalues := bound_row_values c.types hseen
  have hvalues' := bound_row_values c.types hnamed
  -- the positional row was bound, so each of its literals has a value
  obtain ⟨b, hb⟩ := bound_of_succeeds hsql hc hok
  rw [hb] at hbound
  obtain ⟨bound, hrow, rfl⟩ := Option.map_eq_some_iff.mp hbound.symm
  rw [hrow] at hvalues
  have hall := mapM_eq_some_iff_map.mp hvalues.symm
  have hsome : ∀ v ∈ values_in c.types listed, v.isSome = true := by
    intro v hv
    have hin : v ∈ values_in c.types row := (hperm.map _).subset hv
    unfold values_in at hin
    rw [hall] at hin
    obtain ⟨w, -, rfl⟩ := List.mem_map.mp hin
    rfl
  obtain ⟨values, hlisted⟩ : ∃ values : List Value, values_in c.types listed = values.map some := by
    refine ⟨(values_in c.types listed).attach.map fun v => v.1.get (hsome v.1 v.2), ?_⟩
    simp [Function.comp_def]
  rw [mapM_eq_some_iff_map.mpr hlisted] at hvalues'
  obtain ⟨bound', hrow', rfl⟩ := Option.map_eq_some_iff.mp hvalues'
  rw [hrow'] at hbound'
  -- each statement puts its row in, if the row goes on a page
  have hfirst := QueryEngine.execute_inserts_rows hsql hc hg hsmall huser hb
  have hsmall' : (h.next (.execute other)).Small := by
    have hsame : h.next (.execute other) = h.next (.execute sql) := by
      simp only [History.next, hsql, hother]
      rfl
    rwa [hsame]
  have hsecond := QueryEngine.execute_inserts_rows hother hc hg hsmall' huser hbound'
  have hname := CatalogOp.name_of_ok hr
  obtain ⟨before, hbefore, hafter⟩ := hfirst.reads
  obtain ⟨before', hbefore', hafter'⟩ := hsecond.reads
  cases hbefore.symm.trans hbefore'
  have hfits := hfirst.succeeds_iff.mp hok
  rw [hname] at hafter hafter'
  unfold InsertsAlike
  rw [hsecond.succeeds_iff, hafter, hafter', hlisted, show values_in c.types row = _ from hall,
    (List.map_injective_iff.mpr (Option.some_injective _)).eq_iff]
  simp only [List.map_cons, List.map_nil, List.forall_mem_singleton] at hfits ⊢
  constructor
  · rintro ⟨hfits', hsame⟩
    simp only [hfits, hfits', List.takeWhile_cons, if_true, List.takeWhile_nil,
      Multiset.coe_singleton, Except.ok.injEq] at hsame
    exact Multiset.singleton_inj.mp (Multiset.add_right_inj.mp hsame)
  · rintro hsame
    rw [hsame]
    exact ⟨hfits, rfl⟩

/-- A table with two columns of one type. -/
def two_numbers : List SqlOp := [.execute (str "CREATE TABLE t (a INT, b INT)")]

def number_columns : List ColumnSchema := [⟨str "a", 1, true⟩, ⟨str "b", 1, true⟩]

set_option maxRecDepth 100000 in
/-- Two columns with one value may change places. -/
theorem equal_numbers_insert_alike :
    InsertsAlike small_setup.types (str "t") (str "INSERT INTO t VALUES (7, 7)")
      (str "INSERT INTO t (b, a) VALUES (7, 7)") (SqlOp.after small_setup two_numbers) := by
  have hcreate : QueryEngine.statement (str "CREATE TABLE t (a INT, b INT)") = some (.create_table
      ⟨str "t", [{ name := str "a", type := ⟨str "INT", none⟩ },
        { name := str "b", type := ⟨str "INT", none⟩ }], false⟩) := by decide +kernel
  have hinsert : QueryEngine.statement (str "INSERT INTO t VALUES (7, 7)") =
      some (.insert (.by_position (str "t") (number_columns.map (·, .IntLiteral 7)))) := by
    decide +kernel
  have hlisted : QueryEngine.statement (str "INSERT INTO t (b, a) VALUES (7, 7)") =
      some (.insert (.by_name (str "t") (number_columns.reverse.map (·, .IntLiteral 7)))) := by
    decide +kernel
  have hsmall : (History.of (two_numbers ++
      [.execute (str "INSERT INTO t VALUES (7, 7)")])).Small := by
    simp only [History.of, two_numbers, List.cons_append, List.nil_append, List.foldl_cons,
      List.foldl_nil, History.next, hcreate, hinsert]
    decide
  have hplain : ∀ op ∈ two_numbers, op.Plain := by
    intro op hop
    rw [List.mem_singleton.mp hop]
    intro stmt hstmt
    rw [hcreate] at hstmt
    cases hstmt
  obtain ⟨hopen, hok⟩ : (CatalogOp.step (.open_table (str "t"))
      (SqlOp.after small_setup two_numbers).catalog).1 =
        .schema (.ok ⟨5, str "t", number_columns⟩) ∧
      ((QueryEngine.execute small_setup.types (str "INSERT INTO t VALUES (7, 7)")).run
        (SqlOp.after small_setup two_numbers)).1 = .ok [] := by decide +kernel
  refine (column_list_iff small_setup two_numbers hplain (str "t") (fun t => by cases t <;> decide) _
    hopen _ _ (by decide) ?_ _ _ hinsert hlisted hsmall ⟨[], hok⟩).mpr (by decide)
  exact (number_columns.reverse_perm).map _

set_option maxRecDepth 100000 in
/-- The list `(b, a)` puts the value for `b` into `a`. -/
theorem listed_numbers_change_places :
    (∃ out, ((QueryEngine.execute small_setup.types (str "INSERT INTO t VALUES (1, 2)")).run
        (SqlOp.after small_setup two_numbers)).1 = .ok out) ∧
      ¬ InsertsAlike small_setup.types (str "t") (str "INSERT INTO t VALUES (1, 2)")
        (str "INSERT INTO t (b, a) VALUES (2, 1)") (SqlOp.after small_setup two_numbers) := by
  obtain ⟨hok, hrows, hlisted⟩ : ((QueryEngine.execute small_setup.types
        (str "INSERT INTO t VALUES (1, 2)")).run (SqlOp.after small_setup two_numbers)).1 = .ok [] ∧
      ((scan_table (str "t")).run ((QueryEngine.execute small_setup.types
        (str "INSERT INTO t VALUES (1, 2)")).run
          (SqlOp.after small_setup two_numbers)).2.catalog).1 =
        .ok [[⟨1, [1, 0, 0, 0], false⟩, ⟨1, [2, 0, 0, 0], false⟩]] ∧
      ((scan_table (str "t")).run ((QueryEngine.execute small_setup.types
        (str "INSERT INTO t (b, a) VALUES (2, 1)")).run
          (SqlOp.after small_setup two_numbers)).2.catalog).1 =
        .ok [[⟨1, [2, 0, 0, 0], false⟩, ⟨1, [1, 0, 0, 0], false⟩]] := by decide +kernel
  refine ⟨⟨[], hok⟩, fun halike => ?_⟩
  have hsame := halike.2
  unfold Catalog.reads at hsame
  rw [hrows, hlisted] at hsame
  simp [Except.map] at hsame

end edb
