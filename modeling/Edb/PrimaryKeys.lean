-- Primary keys. The constraints of a column are applied one after the other, so
-- a NULL after a PRIMARY KEY takes back what the key has set. Where none does,
-- the column is not nullable for the binder, in the rows of the catalog and in
-- every row that is ever stored.
import Edb.InsertPrefix
import Edb.ParserStmts

namespace edb

open Grammar Call

/-! ## Constraints -/

namespace Grammar

/-- After a NULL that comes after a PRIMARY KEY there is a NOT NULL or another
PRIMARY KEY. -/
def KeyKept (constraints : List Constraint) : Prop :=
  ∀ front back, constraints = front ++ .null :: back → .primary_key ∈ front →
    .not_null ∈ back ∨ .primary_key ∈ back

theorem keyKept_nil : KeyKept [] := by
  intro front back h
  simp at h

theorem keyKept_concat {cs : List Constraint} {c : Constraint} :
    KeyKept (cs ++ [c]) ↔
      (c = .null → .primary_key ∉ cs) ∧ (c = .not_null ∨ c = .primary_key ∨ KeyKept cs) := by
  constructor
  · intro h
    refine ⟨?_, ?_⟩
    · rintro rfl hkey
      simpa using h cs [] rfl hkey
    · by_cases hset : c = .not_null ∨ c = .primary_key
      · exact hset.elim Or.inl fun h => Or.inr (Or.inl h)
      · rw [not_or] at hset
        refine Or.inr (Or.inr fun front back hcs hkey => ?_)
        have hback := h front (back ++ [c]) (by rw [hcs]; simp) hkey
        simpa [Ne.symm hset.1, Ne.symm hset.2] using hback
  · rintro ⟨hnull, hset⟩ front back hcs hkey
    rcases List.eq_nil_or_concat back with rfl | ⟨init, last, rfl⟩
    · obtain ⟨rfl, hc⟩ := List.append_inj' hcs rfl
      exact absurd hkey (hnull (List.singleton_inj.mp hc))
    · have hsplit : cs ++ [c] = (front ++ .null :: init) ++ [last] := by rw [hcs]; simp
      obtain ⟨rfl, hc⟩ := List.append_inj' hsplit rfl
      obtain rfl := List.singleton_inj.mp hc
      rcases hset with rfl | rfl | hkept
      · simp
      · simp
      · have hinit := hkept front init rfl hkey
        simpa using hinit.imp Or.inl Or.inl

/-- The column after the constraints of its definition. -/
def constrained (constraints : List Constraint) (col : ColumnDef) : ColumnDef :=
  constraints.foldl (fun col c => c.apply col) col

theorem constrained_concat (cs : List Constraint) (c : Constraint) (col : ColumnDef) :
    constrained (cs ++ [c]) col = c.apply (constrained cs col) := by
  unfold constrained
  rw [List.foldl_append]
  rfl

theorem primary_key_iff (cs : List Constraint) {col : ColumnDef} (hcol : col.primary_key = false) :
    (constrained cs col).primary_key = true ↔ .primary_key ∈ cs := by
  induction cs using List.reverseRecOn with
  | nil => simp [constrained, hcol]
  | append_singleton cs c ih =>
    rw [constrained_concat, List.mem_append, List.mem_singleton, ← ih]
    cases c <;> simp [Constraint.apply]

/-- A key is not null exactly when no NULL has the last word. -/
theorem key_not_null_iff (cs : List Constraint) {col : ColumnDef} (hcol : col.primary_key = false) :
    ((constrained cs col).primary_key = true → (constrained cs col).not_null = true) ↔
      KeyKept cs := by
  induction cs using List.reverseRecOn with
  | nil => exact iff_of_true (fun h => by simp [constrained, hcol] at h) keyKept_nil
  | append_singleton cs c ih =>
    rw [keyKept_concat, ← ih, constrained_concat]
    have hkey := primary_key_iff cs hcol
    cases c with
    | not_null => simp [Constraint.apply]
    | null =>
      simp only [Constraint.apply, Bool.false_eq_true, imp_false, hkey]
      constructor
      · exact fun h => ⟨fun _ => h, Or.inr (Or.inr fun hmem => absurd hmem h)⟩
      · exact fun h => h.1 trivial
    | primary_key => simp [Constraint.apply]
    | unique => simp [Constraint.apply]

/-! ## Definitions in a source -/

/-- The column is defined in the tokens, with these constraints in this order. -/
inductive DefinedBy (ts : List Token) : ColumnDef → List Constraint → Prop
  | mk {name : Token} {type_tokens constraint_tokens : List Token} {type : TypeName}
      {constraints : List Constraint} :
      name.kind = .Identifier → TypeOf type_tokens type →
      ConstraintsOf constraint_tokens constraints →
      name :: (type_tokens ++ constraint_tokens) <:+: ts →
      DefinedBy ts (constrained constraints { name := name.text, type }) constraints

theorem DefinedBy.key_not_null_iff {ts : List Token} {d : ColumnDef} {cs : List Constraint}
    (h : DefinedBy ts d cs) : (d.primary_key = true → d.not_null = true) ↔ KeyKept cs := by
  cases h
  exact Grammar.key_not_null_iff cs rfl

theorem Separated.exists_of_mem {α : Type} {element : List Token → α → Prop} {w : List Token}
    {xs : List α} (h : Separated element w xs) {x : α} (hx : x ∈ xs) :
    ∃ v, v <:+: w ∧ element v x := by
  induction h with
  | one hone =>
    rw [List.mem_singleton.mp hx]
    exact ⟨_, List.infix_rfl, hone⟩
  | @more v ws y ys c hone _ _ ih =>
    rcases List.mem_cons.mp hx with rfl | hx
    · exact ⟨v, ⟨[], c :: ws, by simp⟩, hone⟩
    · obtain ⟨u, hu, helement⟩ := ih hx
      exact ⟨u, hu.trans ⟨v ++ [c], [], by simp⟩, helement⟩

theorem Listed.exists_of_mem {α : Type} {element : List Token → α → Prop} {loose : Bool}
    {w : List Token} {xs : List α} (h : Listed element loose w xs) {x : α} (hx : x ∈ xs) :
    ∃ v, v <:+: w ∧ element v x := by
  cases h with
  | separated hsep => exact hsep.exists_of_mem hx
  | empty _ => cases hx
  | trailing _ hsep _ =>
    obtain ⟨v, hv, helement⟩ := hsep.exists_of_mem hx
    exact ⟨v, hv.trans ⟨[], _, rfl⟩, helement⟩

theorem CreateOf.defined {rules : Rules} {w : List Token} {stmt : CreateTableStmt}
    (h : CreateOf rules w stmt) {d : ColumnDef} (hd : d ∈ stmt.columns) :
    ∃ cs, DefinedBy w d cs := by
  cases h with
  | @mk create table name lp rp guard_tokens inside _ _ _ _ _ _ _ hcolumns _ =>
    obtain ⟨v, hv, hcolumn⟩ := hcolumns.exists_of_mem hd
    cases hcolumn with
    | mk hname htype hconstraints =>
      have hinside : inside <:+: create :: table :: (guard_tokens ++ name :: lp :: (inside ++ [rp])) :=
        ⟨create :: table :: (guard_tokens ++ [name, lp]), [rp], by simp⟩
      exact ⟨_, .mk hname htype hconstraints (hv.trans hinside)⟩

theorem DefinedBy.mono {ts us : List Token} {d : ColumnDef} {cs : List Constraint}
    (h : DefinedBy ts d cs) (hts : ts <:+: us) : DefinedBy us d cs := by
  cases h with
  | mk hname htype hconstraints hv => exact .mk hname htype hconstraints (hv.trans hts)

end Grammar

/-- Every column of a CREATE TABLE is defined in its source. -/
theorem Grammar.ProgramOf.defined {rules : Rules} {ts : List Token} {stmts : List Stmt}
    (h : ProgramOf rules ts stmts) {stmt : CreateTableStmt} (hstmt : .create_table stmt ∈ stmts)
    {d : ColumnDef} (hd : d ∈ stmt.columns) : ∃ cs, DefinedBy ts d cs := by
  induction h with
  | done _ => cases hstmt
  | @stmt lead w trail rest s _ _ hs _ _ _ ih =>
    rcases List.mem_cons.mp hstmt with rfl | hstmt
    · cases hs with
      | create_table hcreate =>
        obtain ⟨cs, hcs⟩ := hcreate.defined hd
        exact ⟨cs, hcs.mono ⟨lead, trail ++ rest, by simp⟩⟩
    · obtain ⟨cs, hcs⟩ := ih hstmt
      exact ⟨cs, hcs.mono ⟨lead ++ (w ++ trail), [], by simp⟩⟩

/-! ## Tables -/

/-- No primary key of the statement is nullable in the rows of the catalog that
describe the table, and none is null in a row of the table. -/
structure KeysHold (stmt : CreateTableStmt) (s : CatalogState) : Prop where
  attributes : ∃ schema attributes,
    (CatalogOp.step (.open_table stmt.table_name) s).1 = .schema (.ok schema) ∧
    (CatalogOp.step (.get_attributes schema.relation_oid) s).1 = .attributes (.ok attributes) ∧
    List.Forall₂ (fun (d : ColumnDef) x => d.primary_key = true → x.nullable = false)
      (stmt.columns.take attributes.length) attributes
  rows : ∃ rows, Catalog.reads stmt.table_name s = .ok rows ∧ ∀ row ∈ rows,
    List.Forall₂ (fun (d : ColumnDef) v => d.primary_key = true → v.is_null = false)
      (stmt.columns.take row.length) row

theorem Defined.take_length {defs : List ColumnDef} {columns : List ColumnSchema}
    (h : Defined defs columns) :
    List.Forall₂ (fun (d : ColumnDef) column => column.nullable = !d.not_null)
      (defs.take columns.length) columns := by
  obtain ⟨n, hn⟩ := h
  have hlen := hn.length_eq
  rw [List.length_take] at hlen
  have htake : defs.take columns.length = defs.take n := by
    rw [← hlen, List.take_eq_take_iff]
    omega
  rwa [htake]

theorem forall₂_numbered {defs : List ColumnDef} {columns : List ColumnSchema} (oid index : Nat)
    (h : List.Forall₂ (fun (d : ColumnDef) column => column.nullable = !d.not_null) defs columns) :
    List.Forall₂ (fun (d : ColumnDef) x => x.nullable = !d.not_null) defs
      (Relation.numbered oid index columns) := by
  induction h generalizing index with
  | nil => exact .nil
  | cons hone _ ih => exact .cons hone (ih _)

section

variable {defs : List ColumnDef}

/-- Where keys are not null, what may be null is no key. -/
theorem keys_of_defined {α : Type} {nullable : α → Bool} {xs : List α}
    (h : List.Forall₂ (fun (d : ColumnDef) x => nullable x = !d.not_null) defs xs)
    (hkeys : ∀ d ∈ defs, d.primary_key = true → d.not_null = true) :
    List.Forall₂ (fun (d : ColumnDef) x => d.primary_key = true → nullable x = false) defs xs := by
  induction h with
  | nil => exact .nil
  | cons hone _ ih =>
    obtain ⟨hkey, hrest⟩ := List.forall_mem_cons.mp hkeys
    refine .cons (fun hd => ?_) (ih hrest)
    rw [hone, hkey hd]
    rfl

theorem keys_of_row {types : TypeRegistry} {columns : List ColumnSchema} {row : List Value}
    (h : List.Forall₂ (fun (d : ColumnDef) column => d.primary_key = true → column.nullable = false)
      defs columns) (hrow : RowConforms types columns row) :
    List.Forall₂ (fun (d : ColumnDef) v => d.primary_key = true → v.is_null = false) defs row := by
  induction h generalizing row with
  | nil =>
    cases hrow
    exact .nil
  | cons hone _ ih =>
    cases hrow with
    | cons hvalue hrest =>
      refine .cons (fun hd => ?_) (ih hrest)
      refine Bool.eq_false_iff.mpr fun hnull => ?_
      have hnullable := hvalue.null_ok hnull
      rw [hone hd] at hnullable
      cases hnullable

end

section

variable {c : Setup} {a a' : CatalogModel} {s : CatalogState} {h : History}
  {stmt : CreateTableStmt} {r : Relation}

theorem open_table_of_mem (hw : a.WellFormed c) (ho : a.opened = true) (hr : r ∈ a.relations)
    (hcolumns : r.columns ≠ []) : a.open_table r.name = .ok r := by
  simp [CatalogModel.open_table, ho, hw.find_mem hr, hcolumns]

theorem columns_of_open {name : Bytes} (h : a.open_table name = .ok r) : r.columns ≠ [] := by
  unfold CatalogModel.open_table at h
  split at h
  · cases h
  · split at h
    · cases h
    · split at h
      · cases h
      · rename_i hne
        cases h
        simpa using hne

/-- A relation that the statement defined has the keys of the statement. -/
theorem keys_hold (hc : HoldsCatalog c a s) (hg : Grown c h a) (hsmall : h.Small)
    (hr : r ∈ a.relations) (hname : r.name = stmt.table_name) (hoid : 5 ≤ r.oid)
    (hcolumns : r.columns ≠ []) (hdefined : Defined stmt.columns r.columns)
    (hkeys : ∀ d ∈ stmt.columns, d.primary_key = true → d.not_null = true) : KeysHold stmt s := by
  have hopen := open_table_of_mem hc.well_formed hg.opened hr hcolumns
  rw [hname] at hopen
  have hfront : ∀ n, ∀ d ∈ stmt.columns.take n, d.primary_key = true → d.not_null = true :=
    fun n d hd => hkeys d (List.mem_of_mem_take hd)
  have hall := hdefined.take_length
  refine ⟨⟨r.schema, r.attributes, ?_, ?_, ?_⟩, ?_⟩
  · rw [CatalogOp.open_table_reply hc, hopen]
    rfl
  · have hfind := hc.well_formed.find_oid_mem hr
    rw [CatalogOp.get_attributes_reply hc]
    simp [CatalogModel.get_attributes, hg.opened, Relation.schema, hfind, hcolumns]
  · have hlen : r.attributes.length = r.columns.length := Relation.length_numbered _ _ _
    rw [hlen]
    exact keys_of_defined (forall₂_numbered r.oid 0 hall) (hfront _)
  · obtain ⟨tuples, htuples, hstores⟩ := hg.rows r hr hoid
    refine ⟨_, Catalog.reads_of_rows hc (hg.room hsmall) hopen hoid htuples hstores, ?_⟩
    intro row hrow
    obtain ⟨x, hx, rfl⟩ := Multiset.mem_map.mp hrow
    obtain ⟨values, hdecode, hconforms⟩ := hstores x hx
    have hvalues : (Catalog.codec c r).decoded x = values := by
      unfold RowCodec.decoded
      rw [hdecode]
      rfl
    have hlen : values.length = r.columns.length := hconforms.length_eq.symm
    rw [hvalues, hlen]
    exact keys_of_row (keys_of_defined hall (hfront _)) hconforms

/-- A table that a CREATE TABLE has brought is the one that it defines. -/
theorem defined_of_creates (hw : a.WellFormed c) (hw' : a'.WellFormed c) (ho : a.opened = true)
    (ho' : a'.opened = true) (hcreates : Creates stmt a a') {e : Error}
    (hnone : a.open_table stmt.table_name = .error e)
    (hr : a'.open_table stmt.table_name = .ok r) :
    5 ≤ r.oid ∧ Defined stmt.columns r.columns := by
  rcases hcreates with hsame | ⟨r', hadd, hname, hdefined⟩
  · have hboth : a'.open_table stmt.table_name = a.open_table stmt.table_name := by
      simp only [CatalogModel.open_table, CatalogModel.find, hsame, ho, ho']
    rw [hboth, hnone] at hr
    cases hr
  · have hmem : r' ∈ a'.relations := by simp [hadd]
    have hfound : r = r' := by
      have hr' := hw'.find_mem hmem
      rw [hname] at hr'
      obtain ⟨-, hrmem⟩ := CatalogOp.open_of_ok hr
      have hrfind := hw'.find_mem hrmem
      rw [CatalogOp.name_of_ok hr, hr'] at hrfind
      exact (Option.some.inj hrfind).symm
    subst hfound
    refine ⟨?_, hdefined⟩
    rcases hw'.kinds r hmem with ⟨t, rfl⟩ | ⟨hoid, -⟩
    · -- the system tables were there before
      have hold : Relation.system t ∈ a.relations := hw.system (hw.opened ho) t
      have hnodup := hw'.names
      rw [hadd, List.map_append, List.nodup_append] at hnodup
      exact absurd rfl (hnodup.2.2 _ (List.mem_map_of_mem hold) _ (by simp))
    · exact hoid

end

/-- In each source that parses, a column of a CREATE TABLE that is a primary key
is not null exactly when no NULL has the last word over the key. Where this is so
for the columns of a CREATE TABLE that brings a table, the columns are not
nullable for the binder and in the catalog, and whatever is inserted into the
table (and nothing into a system table), no row of it has a null for a key. -/
theorem primary_keys_are_not_null (sql : Bytes) :
    (∀ stmts, (Parser.parse.run (Parser.start sql)).1 = .ok stmts →
      ∀ stmt, .create_table stmt ∈ stmts → ∀ d ∈ stmt.columns, ∃ cs,
        DefinedBy (Lexer.tokens sql) d cs ∧
        ((d.primary_key = true → d.not_null = true) ↔ KeyKept cs)) ∧
    ∀ (c : Setup) (ops rest : List SqlOp) (stmt : CreateTableStmt),
      (∀ op ∈ ops ++ rest, op.Plain) → QueryEngine.statement sql = some (.create_table stmt) →
      (History.of (ops ++ .execute sql :: rest)).Small →
      (∀ schema, (CatalogOp.step (.open_table stmt.table_name) (SqlOp.after c ops).catalog).1 ≠
        .schema (.ok schema)) →
      (∃ schema, (CatalogOp.step (.open_table stmt.table_name)
        (SqlOp.after c (ops ++ [.execute sql])).catalog).1 = .schema (.ok schema)) →
      (∀ d ∈ stmt.columns, ∀ cs, DefinedBy (Lexer.tokens sql) d cs → KeyKept cs) →
      (∀ bound, ((QueryEngine.bind c.types (.create_table stmt)).run (SqlOp.after c ops)).1 =
          .ok (.create_table bound) →
        List.Forall₂ (fun (d : ColumnDef) (b : BoundColumnDef) => d.primary_key = true →
          b.nullable = false) stmt.columns bound.columns) ∧
      KeysHold stmt (SqlOp.after c (ops ++ .execute sql :: rest)).catalog := by
  refine ⟨?_, ?_⟩
  · intro stmts hparse stmt hstmt d hd
    obtain ⟨cs, hcs⟩ := (Parser.parse_iff.mp hparse).defined hstmt hd
    exact ⟨cs, hcs, hcs.key_not_null_iff⟩
  · intro c ops rest stmt hplain hstmt hsmall hnew hmade hkept
    have hkeys : ∀ d ∈ stmt.columns, d.primary_key = true → d.not_null = true := by
      intro d hd
      have hprogram := Parser.parse_iff.mp (QueryEngine.parse_of_statement hstmt)
      obtain ⟨cs, hcs⟩ := hprogram.defined List.mem_cons_self hd
      exact hcs.key_not_null_iff.mpr (hkept d hd cs hcs)
    have hmid : History.of (ops ++ .execute sql :: rest) =
        rest.foldl History.next ((History.of ops).next (.execute sql)) := by
      unfold History.of
      rw [List.foldl_append]
      rfl
    have hafter : SqlOp.after c (ops ++ .execute sql :: rest) =
        (Run.exec (SqlOp.step c.types) rest
          ((QueryEngine.execute c.types sql).run (SqlOp.after c ops)).2).2 :=
      Run.exec_append _ ops (.execute sql :: rest) _
    have hcreated : SqlOp.after c (ops ++ [.execute sql]) =
        ((QueryEngine.execute c.types sql).run (SqlOp.after c ops)).2 :=
      Run.exec_append _ ops [.execute sql] _
    rw [hmid] at hsmall
    have hsmall1 := History.small_of_foldl hsmall
    obtain ⟨a, hc, hg⟩ := kept_after c ops (fun op hop => hplain op (List.mem_append_left _ hop))
      (History.small_of_next hsmall1)
    obtain ⟨a1, hc1, hg1, hcreates⟩ := QueryEngine.execute_create.spec hstmt hc hg hsmall1
    obtain ⟨a2, hc2, hg2, hkeeps⟩ := SqlOp.run_follows rest
      (fun op hop => hplain op (List.mem_append_right _ hop)) hsmall hc1 hg1
    refine ⟨fun bound hbound => ?_, ?_⟩
    · obtain ⟨i, hi, hb, -⟩ :=
        wp_ok (QueryEngine.bind_create_table.spec stmt hc) (run_eq_of_fst hbound)
      cases hi
      exact keys_of_defined hb.nullable hkeys
    · obtain ⟨e, hnone⟩ : ∃ e, a.open_table stmt.table_name = .error e := by
        rcases hopen : a.open_table stmt.table_name with e | r
        · exact ⟨e, rfl⟩
        · refine absurd ?_ (hnew r.schema)
          rw [CatalogOp.open_table_reply hc, hopen]
          rfl
      obtain ⟨r, hr⟩ : ∃ r, a1.open_table stmt.table_name = .ok r := by
        obtain ⟨schema, hschema⟩ := hmade
        rw [hcreated, CatalogOp.open_table_reply hc1] at hschema
        rcases hopen : a1.open_table stmt.table_name with e | r
        · rw [hopen] at hschema
          cases hschema
        · exact ⟨r, rfl⟩
      obtain ⟨hoid, hdefined⟩ := defined_of_creates hc.well_formed hc1.well_formed hg.opened
        hg1.opened hcreates hnone hr
      obtain ⟨-, hmem⟩ := CatalogOp.open_of_ok hr
      rw [hafter]
      exact keys_hold hc2 hg2 hsmall (hkeeps r hmem) (CatalogOp.name_of_ok hr) hoid
        (columns_of_open hr) hdefined hkeys

/-- A key, and a row that is refused before one that is taken. -/
def keyed_table : Bytes := str "CREATE TABLE t (a INT NULL PRIMARY KEY)"

def keyed_stmt : CreateTableStmt where
  table_name := str "t"
  columns := [⟨str "a", ⟨str "INT", none⟩, true, true, false⟩]

def keyed_rows : List SqlOp :=
  [.execute (str "INSERT INTO t VALUES (NULL)"), .execute (str "INSERT INTO t VALUES (1)")]

theorem plain_insert {sql : Bytes} {stmt : InsertStmt}
    (h : QueryEngine.statement sql = some (.insert stmt))
    (huser : ∀ t ∈ SystemTable.all, stmt.table_name ≠ t.name) : (SqlOp.execute sql).Plain := by
  intro other hother t
  cases h.symm.trans hother
  exact huser t (by cases t <;> decide)

set_option maxRecDepth 100000 in
theorem key_of_two_inserts_holds :
    (∃ cs, DefinedBy (Lexer.tokens keyed_table) ⟨str "a", ⟨str "INT", none⟩, true, true, false⟩ cs ∧
        KeyKept cs) ∧
      KeysHold keyed_stmt (SqlOp.after small_setup ([] ++ .execute keyed_table :: keyed_rows)).catalog := by
  have hstmt : QueryEngine.statement keyed_table = some (.create_table keyed_stmt) := by
    decide +kernel
  have hnull : QueryEngine.statement (str "INSERT INTO t VALUES (NULL)") =
      some (.insert ⟨str "t", [], [[.literal .NullLiteral]]⟩) := by
    decide +kernel
  have hone : QueryEngine.statement (str "INSERT INTO t VALUES (1)") =
      some (.insert ⟨str "t", [], [[.literal (.IntLiteral 1)]]⟩) := by
    decide +kernel
  have hkept : ∀ d ∈ keyed_stmt.columns, ∀ cs, DefinedBy (Lexer.tokens keyed_table) d cs →
      KeyKept cs := by
    intro d hd cs hcs
    refine hcs.key_not_null_iff.mp ?_
    have hall : ∀ d ∈ keyed_stmt.columns, d.primary_key = true → d.not_null = true := by decide
    exact hall d hd
  refine ⟨?_, ?_⟩
  · obtain ⟨cs, hcs, hiff⟩ := (primary_keys_are_not_null keyed_table).1 _
      (QueryEngine.parse_of_statement hstmt) keyed_stmt List.mem_cons_self _ List.mem_cons_self
    exact ⟨cs, hcs, hiff.mp fun _ => rfl⟩
  · refine ((primary_keys_are_not_null keyed_table).2 small_setup [] keyed_rows keyed_stmt ?_ hstmt ?_
      ?_ ?_ hkept).2
    · intro op hop
      rw [List.nil_append, keyed_rows] at hop
      rcases List.mem_cons.mp hop with rfl | hop
      · exact plain_insert hnull (by decide)
      · rw [List.mem_singleton.mp hop]
        exact plain_insert hone (by decide)
    · simp only [History.of, keyed_rows, List.nil_append, List.foldl_cons, List.foldl_nil,
        History.next, hstmt, hnull, hone]
      decide
    · intro schema hschema
      have hmodel : (({} : CatalogModel).booted).open_table (str "t") = .error .NotFound := by decide
      have hreply := CatalogOp.open_table_reply (holds_fresh small_setup) (str "t")
      rw [hmodel] at hreply
      cases hreply.symm.trans hschema
    · have hreply : (CatalogOp.step (.open_table (str "t"))
          (SqlOp.after small_setup ([] ++ [.execute keyed_table])).catalog).1 =
            .schema (.ok ⟨5, str "t", [⟨str "a", 1, false⟩]⟩) := by
        decide +kernel
      exact ⟨_, hreply⟩

/-- A NULL after the key: the key is nullable, and a null is stored for it. -/
theorem null_key_is_stored :
    (Parser.parse.run (Parser.start (str "CREATE TABLE t (a INT PRIMARY KEY NULL)"))).1 =
        .ok [.create_table ⟨str "t", [⟨str "a", ⟨str "INT", none⟩, false, true, false⟩], false⟩] ∧
      ((Catalog.read_table (str "t")).run (SqlOp.after small_setup [
        .execute (str "CREATE TABLE t (a INT PRIMARY KEY NULL)"),
        .execute (str "INSERT INTO t VALUES (NULL)")]).catalog).1 =
          .ok (5, ⟨5, str "t", [⟨str "a", 1, true⟩]⟩, [[⟨1, [], true⟩]]) := by
  refine ⟨by decide +kernel, by decide +kernel⟩

end edb
