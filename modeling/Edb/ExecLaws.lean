-- What the nodes of a SELECT give. Each node feeds on what its input gives, so
-- a plan that is drained gives the rows of the table in their order, those for
-- which the WHERE is true, each mapped to the items.
import Edb.Pull
import Edb.QueryEngine
import Edb.RowCodecSafety

namespace edb

open Call Pull

variable (types : TypeRegistry)

/-! ## What a SELECT means -/

/-- The WHERE of a row is true. -/
def where_holds (where_ : Option BoundExpr) (row : ExecRow) : Result Bool :=
  match where_ with
  | none => .ok true
  | some predicate => do
    let value ← eval_expr types row predicate
    value_as_bool types value

/-- All values for `*`, the value of the expression otherwise. -/
def item_values (row : ExecRow) : BoundSelectItem → Result (List Value)
  | .star => .ok row.values
  | .expr expr _ => do
    let value ← eval_expr types row expr
    pure [value]

def item_columns (row : ExecRow) (index : Nat) : BoundSelectItem → List BoundColumnRef
  | .star => row.columns.take row.values.length
  | .expr expr alias_ => [output_column expr alias_ index]

/-- The columns of the items one after the other, numbered from `index` on. -/
def items_columns (row : ExecRow) : Nat → List BoundSelectItem → List BoundColumnRef
  | _, [] => []
  | index, item :: rest =>
    item_columns row index item ++
      items_columns row (index + (item_columns row index item).length) rest

/-- A row mapped to the concatenation over the items. -/
def select_image (items : List BoundSelectItem) (row : ExecRow) : Result ExecRow := do
  let values ← items.mapM (item_values types row)
  pure { columns := items_columns row 0 items, values := values.flatten }

/-- What a SELECT makes of a row of its table: nothing, or a row of the result. -/
def select_row (stmt : BoundSelectStmt) (values : List Value) : Result (Option ExecRow) := do
  let row : ExecRow := { columns := stmt.table.columns, values }
  if ← where_holds types stmt.where_ row then
    let image ← select_image types stmt.items row
    pure (some image)
  else pure none

/-! ## Projections -/

theorem project_items_eq (row : ExecRow) (items : List BoundSelectItem) (done : ExecRow) :
    ExecNode.project_items types row items done = (do
      let values ← items.mapM (item_values types row)
      pure {
        columns := done.columns ++ items_columns row done.columns.length items
        values := done.values ++ values.flatten }) := by
  induction items generalizing done with
  | nil =>
    simp only [ExecNode.project_items, items_columns, List.mapM_nil, pure_bind, List.append_nil,
      List.flatten_nil]
    rfl
  | cons item rest ih =>
    rw [List.mapM_cons]
    cases item with
    | star =>
      simp only [ExecNode.project_items, item_values, items_columns, item_columns, ih]
      cases rest.mapM (item_values types row) with
      | error e => rfl
      | ok values =>
        simp only [bind, Except.bind, pure, Except.pure, List.flatten_cons, List.append_assoc,
          List.length_append]
    | expr expr alias_ =>
      simp only [ExecNode.project_items, item_values, items_columns, item_columns]
      cases eval_expr types row expr with
      | error e => rfl
      | ok value =>
        simp only [bind, Except.bind, pure, Except.pure, ih]
        cases rest.mapM (item_values types row) with
        | error e => rfl
        | ok values =>
          simp only [List.flatten_cons, List.append_assoc, List.length_append,
            List.length_singleton]

theorem project_items_start (row : ExecRow) (items : List BoundSelectItem) :
    ExecNode.project_items types row items {} = select_image types items row := by
  rw [project_items_eq]
  simp [select_image]

/-- As many columns as values, if the row of the table has them. -/
theorem length_select_image {row image : ExecRow} {items : List BoundSelectItem}
    (hrow : row.columns.length = row.values.length) (h : select_image types items row = .ok image) :
    image.columns.length = image.values.length := by
  have hitems : ∀ (items : List BoundSelectItem) (index : Nat) (values : List (List Value)),
      items.mapM (item_values types row) = .ok values →
        (items_columns row index items).length = values.flatten.length := by
    intro items
    induction items with
    | nil =>
      intro index values h
      cases h
      rfl
    | cons item rest ih =>
      intro index values h
      rw [List.mapM_cons] at h
      cases hv : item_values types row item with
      | error e => simp [hv, bind, Except.bind] at h
      | ok v =>
        cases hvs : rest.mapM (item_values types row) with
        | error e => simp [hv, hvs, bind, Except.bind] at h
        | ok vs =>
          simp only [hv, hvs, bind, Except.bind, pure, Except.pure, Except.ok.injEq] at h
          subst h
          have hcols : (item_columns row index item).length = v.length := by
            cases item with
            | star =>
              cases hv
              simp [item_columns, hrow]
            | expr expr alias_ =>
              simp only [item_values] at hv
              cases he : eval_expr types row expr with
              | error e => simp [he, bind, Except.bind] at hv
              | ok value =>
                simp only [he, bind, Except.bind, pure, Except.pure, Except.ok.injEq] at hv
                subst hv
                rfl
          rw [items_columns, List.length_append, List.flatten_cons, List.length_append, ih _ _ hvs,
            hcols]
  unfold select_image at h
  cases hvs : items.mapM (item_values types row) with
  | error e => simp [hvs, bind, Except.bind] at h
  | ok vs =>
    simp only [hvs, bind, Except.bind, pure, Except.pure, Except.ok.injEq] at h
    subst h
    exact hitems items 0 vs hvs

/-! ## Nodes -/

namespace ExecState

def Ready (s : ExecState) : Prop := s.opened = true

/-- The rows of the table that are not yet given. -/
def left (s : ExecState) : List (List Value) := s.rows.drop s.index

end ExecState

namespace ExecNode

/-- A scan gives every row. -/
theorem next_row_feeds (table : BoundTableRef) :
    Feeds ExecState.Ready ExecState.left
      (fun values => .ok (some { columns := table.columns, values })) (next_row table) := by
  intro s hs
  have hopen : s.opened = true := hs
  unfold next_row
  rw [run_bind, run_get]
  simp only [hopen, Bool.not_true, Bool.false_eq_true, if_false]
  rcases hrow : s.rows[s.index]? with _ | values
  · have hleft : s.left = [] := by
      unfold ExecState.left
      exact List.drop_eq_nil_of_le (List.getElem?_eq_none_iff.mp hrow)
    rw [hleft]
    exact ⟨hs, rfl, hleft⟩
  · obtain ⟨hlt, hval⟩ := List.getElem?_eq_some_iff.mp hrow
    have hleft : s.left = values :: s.rows.drop (s.index + 1) := by
      unfold ExecState.left
      rw [List.drop_eq_getElem_cons hlt, hval]
    rw [hleft]
    exact ⟨hs, rfl, rfl⟩

variable {f : List Value → Result (Option ExecRow)} {x : Call Error ExecState (Option ExecRow)}

/-- What a filter makes of a row. -/
def sift (predicate : BoundExpr) (row : ExecRow) : Result (Option ExecRow) := do
  if ← where_holds types (some predicate) row then pure (some row) else pure none

/-- A filter that may ask once for each row that is left, and once more, passes
over the rows for which its predicate is not true. -/
theorem filter_loop_run (hx : Feeds ExecState.Ready ExecState.left f x) (predicate : BoundExpr)
    (n : Nat) {s : ExecState} (hs : s.Ready) (hn : s.left.length < n) :
    let r := (filter_loop types x predicate n).run s
    r.2.Ready ∧ r.1 = (first (after f (sift types predicate)) s.left).1 ∧
      r.2.left = (first (after f (sift types predicate)) s.left).2 := by
  induction n generalizing s with
  | zero => omega
  | succ n ih =>
    obtain ⟨s1, hrun, hs1, hleft⟩ := hx.run_eq hs
    intro r
    have hr : r = (filter_loop types x predicate (n + 1)).run s := rfl
    rw [hr]
    unfold filter_loop
    rw [first_after]
    rcases hfirst : first f s.left with ⟨e | _ | row, rest⟩
    · rw [hfirst] at hrun hleft
      rw [run_bind_error _ hrun]
      exact ⟨hs1, rfl, hleft⟩
    · rw [hfirst] at hrun hleft
      rw [run_bind_ok _ hrun]
      exact ⟨hs1, rfl, hleft⟩
    · have hlt := length_first_lt hfirst
      rw [hfirst] at hrun hleft
      rw [run_bind_ok _ hrun]
      simp only [sift, where_holds]
      rw [run_bind, run_ofExcept]
      cases hv : eval_expr types row predicate with
      | error e => exact ⟨hs1, rfl, hleft⟩
      | ok value =>
        simp only
        rw [run_bind, run_ofExcept]
        cases hb : value_as_bool types value with
        | error e =>
          simp only [bind, Except.bind, hb]
          exact ⟨hs1, trivial, hleft⟩
        | ok keep =>
          simp only [bind, Except.bind, hb]
          cases keep with
          | true => exact ⟨hs1, rfl, hleft⟩
          | false =>
            have hrest := ih hs1 (by rw [hleft]; exact Nat.lt_of_lt_of_le hlt (Nat.le_of_lt_succ hn))
            rw [hleft] at hrest
            exact hrest

theorem filter_feeds {input : ExecNode}
    (hx : Feeds ExecState.Ready ExecState.left f (next types input)) (predicate : BoundExpr) :
    Feeds ExecState.Ready ExecState.left (after f (sift types predicate))
      (next types (.filter input predicate)) := by
  intro s hs
  unfold next
  rw [run_bind, run_get]
  refine filter_loop_run types hx predicate _ hs ?_
  unfold ExecState.left
  rw [List.length_drop]
  exact Nat.lt_succ_self _

theorem project_feeds {input : ExecNode}
    (hx : Feeds ExecState.Ready ExecState.left f (next types input))
    (items : List BoundSelectItem) :
    Feeds ExecState.Ready ExecState.left
      (after f fun row => do
        let image ← select_image types items row
        pure (some image))
      (next types (.project input items)) := by
  intro s hs
  obtain ⟨s1, hrun, hs1, hleft⟩ := hx.run_eq hs
  unfold next
  rw [first_after]
  rcases hfirst : first f s.left with ⟨e | _ | row, rest⟩
  · rw [hfirst] at hrun hleft
    rw [run_bind_error _ hrun]
    exact ⟨hs1, rfl, hleft⟩
  · rw [hfirst] at hrun hleft
    rw [run_bind_ok _ hrun]
    exact ⟨hs1, rfl, hleft⟩
  · rw [hfirst] at hrun hleft
    rw [run_bind_ok _ hrun]
    simp only [project_items_start]
    rw [run_bind, run_ofExcept]
    cases select_image types items row with
    | error e => exact ⟨hs1, rfl, hleft⟩
    | ok image => exact ⟨hs1, rfl, hleft⟩

/-- A drained node gives all that it feeds. -/
theorem drain_run {node : ExecNode} (hx : Feeds ExecState.Ready ExecState.left f (next types node))
    (n : Nat) {s : ExecState} (hs : s.Ready) (hn : s.left.length < n) :
    ((QueryEngine.drain types node n).run s).1 = s.left.filterMapM f := by
  induction n generalizing s with
  | zero => omega
  | succ n ih =>
    obtain ⟨s1, hrun, hs1, hleft⟩ := hx.run_eq hs
    unfold QueryEngine.drain
    rw [filterMapM_eq]
    rcases hfirst : first f s.left with ⟨e | _ | row, rest⟩
    · rw [hfirst] at hrun
      rw [run_bind_error _ hrun]
    · rw [hfirst] at hrun
      rw [run_bind_ok _ hrun]
      rfl
    · have hlt := length_first_lt hfirst
      rw [hfirst] at hrun hleft
      rw [run_bind_ok _ hrun]
      have hrest := ih hs1 (by rw [hleft]; exact Nat.lt_of_lt_of_le hlt (Nat.le_of_lt_succ hn))
      rw [hleft] at hrest
      simp only
      rw [run_bind]
      rcases hd : (QueryEngine.drain types node n).run s1 with ⟨e | rows, s2⟩
      · rw [hd] at hrest
        rw [← hrest]
        rfl
      · rw [hd] at hrest
        rw [← hrest]
        rfl

end ExecNode

/-! ## A whole SELECT -/

/-- The node of a SELECT: a scan, a filter if there is a WHERE, a projection. -/
def select_node (stmt : BoundSelectStmt) : ExecNode :=
  match stmt.where_ with
  | none => .project (.seq_scan stmt.table) stmt.items
  | some predicate => .project (.filter (.seq_scan stmt.table) predicate) stmt.items

theorem lower_select (stmt : BoundSelectStmt) :
    QueryEngine.lower (.select stmt) = .ok (select_node stmt) := by
  obtain ⟨table, items, where_⟩ := stmt
  cases where_ with
  | none => rfl
  | some predicate => rfl

theorem open_select_node (stmt : BoundSelectStmt) :
    ExecNode.open (select_node stmt) = ExecNode.open_seq_scan stmt.table := by
  unfold select_node
  cases stmt.where_ with
  | none => rfl
  | some predicate => rfl

theorem select_node_feeds (stmt : BoundSelectStmt) :
    Feeds ExecState.Ready ExecState.left (select_row types stmt)
      (ExecNode.next types (select_node stmt)) := by
  have hscan : Feeds ExecState.Ready ExecState.left
      (fun values => .ok (some { columns := stmt.table.columns, values }))
      (ExecNode.next types (.seq_scan stmt.table)) := ExecNode.next_row_feeds stmt.table
  unfold select_node
  cases hw : stmt.where_ with
  | none =>
    have h := ExecNode.project_feeds types hscan stmt.items
    convert h using 1
    funext values
    simp only [select_row, hw]
    rfl
  | some predicate =>
    have h := ExecNode.project_feeds types (ExecNode.filter_feeds types hscan predicate) stmt.items
    convert h using 1
    funext values
    simp only [select_row, hw, after, ExecNode.sift, bind, Except.bind]
    cases where_holds types (some predicate) { columns := stmt.table.columns, values } with
    | error e => rfl
    | ok keep => cases keep <;> rfl

theorem collect_select (stmt : BoundSelectStmt) (rows : List (List Value)) :
    QueryEngine.collect types (select_node stmt) { opened := true, rows } =
      rows.filterMapM (select_row types stmt) := by
  have hdrain := ExecNode.drain_run types (select_node_feeds types stmt) (rows.length + 1)
    (s := { opened := true, rows }) rfl (Nat.lt_succ_self _)
  have hleft : ({ opened := true, rows } : ExecState).left = rows := rfl
  rw [hleft] at hdrain
  unfold QueryEngine.collect
  simp only
  rw [run_bind, run_attempt, hdrain]
  cases rows.filterMapM (select_row types stmt) with
  | error e => rfl
  | ok out => rfl

/-- Where no expression fails, a SELECT keeps rows and maps them. -/
theorem filterMapM_select {stmt : BoundSelectStmt} {rows : List (List Value)}
    {keep : List Value → Bool} {image : List Value → ExecRow}
    (hkeep : ∀ values ∈ rows,
      where_holds types stmt.where_ { columns := stmt.table.columns, values } = .ok (keep values))
    (himage : ∀ values ∈ rows, keep values = true →
      select_image types stmt.items { columns := stmt.table.columns, values } =
        .ok (image values)) :
    rows.filterMapM (select_row types stmt) = .ok ((rows.filter keep).map image) := by
  induction rows with
  | nil => rfl
  | cons values rest ih =>
    have hrest := ih (fun v hv => hkeep v (by simp [hv])) fun v hv => himage v (by simp [hv])
    have hrow : select_row types stmt values =
        .ok (if keep values then some (image values) else none) := by
      simp only [select_row, hkeep values (by simp), bind, Except.bind]
      cases hk : keep values with
      | false => rfl
      | true => simp [himage values (by simp) hk, pure, Except.pure]
    rw [List.filterMapM_cons, hrow, List.filter_cons]
    cases keep values with
    | false => exact hrest
    | true =>
      simp only [bind, Except.bind, hrest, if_true]
      rfl

theorem mem_of_filterMapM {α β : Type} {f : α → Result (Option β)} {xs : List α} {out : List β}
    (h : xs.filterMapM f = .ok out) {b : β} (hb : b ∈ out) : ∃ a ∈ xs, f a = .ok (some b) := by
  induction xs generalizing out with
  | nil =>
    cases h
    cases hb
  | cons a rest ih =>
    rw [List.filterMapM_cons] at h
    rcases hf : f a with e | _ | c
    · simp [hf, bind, Except.bind] at h
    · rw [hf] at h
      obtain ⟨x, hx, hfx⟩ := ih h hb
      exact ⟨x, by simp [hx], hfx⟩
    · rw [hf] at h
      cases hrest : rest.filterMapM f with
      | error e => simp [hrest, bind, Except.bind] at h
      | ok others =>
        simp only [hrest, bind, Except.bind, pure, Except.pure, Except.ok.injEq] at h
        subst h
        rcases List.mem_cons.mp hb with rfl | hb
        · exact ⟨a, by simp, hf⟩
        · obtain ⟨x, hx, hfx⟩ := ih hrest hb
          exact ⟨x, by simp [hx], hfx⟩

section Scans

/-- Every row of a scan is what the codec makes of some tuple. -/
def Decodes (codec : RowCodec) (values : List Value) : Prop :=
  ∃ tuple, codec.decode tuple = .ok values

theorem scan_loop_decodes (codec : RowCodec) (calls : Nat) (s : ScanState) :
    (Table.scan_loop codec calls).wp (fun rows _ => ∀ row ∈ rows, Decodes codec row.values)
      (fun _ _ => True) s := by
  induction calls generalizing s with
  | zero => exact (wp_fail _).mpr trivial
  | succ calls ih =>
    unfold Table.scan_loop
    rw [wp_bind]
    apply wp_mono (wp_trivial EdbHeapEngine.scan_next s) _ fun _ _ _ => trivial
    rintro (_ | tuple) s1 -
    · exact (wp_pure _).mpr (by simp)
    · dsimp only
      rw [wp_bind, wp_ofExcept]
      refine ⟨fun values hv => ?_, fun _ _ => trivial⟩
      rw [wp_bind]
      apply wp_mono (ih s1) _ fun _ _ _ => trivial
      intro rest s2 hrest
      rw [wp_pure]
      intro row hrow
      rcases List.mem_cons.mp hrow with rfl | hrow
      · exact ⟨tuple.data, hv⟩
      · exact hrest row hrow

theorem scan_decodes (codec : RowCodec) (s : HeapState) :
    (Table.scan codec).wp (fun rows _ => ∀ values ∈ rows, Decodes codec values)
      (fun _ _ => True) s := by
  unfold Table.scan Table.scan_rows
  rw [wp_bind, wp_bind, wp_get, wp_bind]
  apply wp_mono (wp_trivial EdbHeapEngine.begin_scan s) _ fun _ _ _ => trivial
  intro handle s1 _
  rw [wp_zoom, wp_bind]
  apply wp_mono (scan_loop_decodes codec _ _) _ fun _ _ _ => trivial
  intro rows s2 hrows
  rw [wp_bind]
  apply wp_mono (wp_trivial EdbHeapEngine.end_scan s2) _ fun _ _ _ => trivial
  intro _ s3 _
  rw [wp_pure, wp_pure]
  intro values hvalues
  obtain ⟨row, hrow, rfl⟩ := List.mem_map.mp hvalues
  exact hrows row hrow

/-- A scan through a table pointer decodes with the schema of the table. -/
theorem catalog_scan_decodes (oid : Nat) (s : CatalogState) :
    (do
      let schema ← Catalog.schema oid
      let rows ← Catalog.scan oid
      pure (schema, rows)).wp
      (fun r _ => ∀ values ∈ r.2,
        Decodes { registry := s.catalog.types, schema := r.1.columns } values)
      (fun _ _ => True) s := by
  unfold Catalog.schema Catalog.scan Catalog.on_user OpenedTableBundle.on_table
    OpenedTableBundle.on_engine
  rw [wp_bind, wp_bind, wp_get]
  rcases hb : s.catalog.user_tables.lookup oid with _ | b
  · exact (wp_fail _).mpr trivial
  rcases ht : b.table with _ | schema
  · simp only [Option.bind_some, ht]
    exact (wp_fail _).mpr trivial
  simp only [Option.bind_some, ht]
  rw [wp_pure, wp_bind, wp_bind, wp_get, wp_bind, wp_get, hb]
  dsimp only
  rw [wp_zoom, wp_bind, wp_get]
  dsimp only
  rw [ht]
  rcases b.engine with _ | engine
  · exact (wp_fail _).mpr trivial
  dsimp only
  rw [wp_bind, wp_get]
  dsimp only
  rcases b.backend with _ | file
  · exact (wp_fail _).mpr trivial
  dsimp only
  rw [wp_zoom]
  apply wp_mono (scan_decodes _ _) _ fun _ _ _ => trivial
  intro rows _ hrows
  exact (wp_pure _).mpr hrows

end Scans

/-- The rows of a table, as `SeqScanExecNode::open` reads them. -/
def scan_table (name : Bytes) : Call Error CatalogState (List (List Value)) := do
  let table ← Catalog.open_table name
  Catalog.scan table

/-- The table that the name opens has the columns that were bound. -/
def BoundTableRef.Current (table : BoundTableRef) (s : CatalogState) : Prop :=
  ∀ oid s', (Catalog.open_table table.name).run s = (.ok oid, s') →
    ∃ schema, (Catalog.schema oid).run s' = (.ok schema, s') ∧
      schema.columns.length = table.columns.length

theorem widths_of_current {table : BoundTableRef} {s s' : CatalogState} {rows : List (List Value)}
    (hcurrent : table.Current s) (hscan : (scan_table table.name).run s = (.ok rows, s')) :
    ∀ values ∈ rows, table.columns.length = values.length := by
  obtain ⟨oid, s1, hopen, hrows⟩ := exists_of_run_bind hscan
  obtain ⟨schema, hschema, hlen⟩ := hcurrent oid s1 hopen
  have hrun : (do
      let schema ← Catalog.schema oid
      let rows ← Catalog.scan oid
      pure (schema, rows)).run s1 = (.ok (schema, rows), s') := by
    rw [run_bind_ok _ hschema, run_bind_ok _ hrows]
    rfl
  have hdecodes := wp_ok (catalog_scan_decodes oid s1) hrun
  intro values hvalues
  obtain ⟨tuple, htuple⟩ := hdecodes values hvalues
  rw [← hlen, (RowCodec.decoded_of_decode htuple).2.1.length_eq]

theorem open_select_run (stmt : BoundSelectStmt) (s : CatalogState) :
    (ExecNode.open (select_node stmt)).run s =
      match (scan_table stmt.table.name).run s with
      | (.ok rows, s') => (.ok { opened := true, rows }, s')
      | (.error e, s') => (.error e, s') := by
  rw [open_select_node]
  unfold ExecNode.open_seq_scan scan_table
  rw [run_bind, run_bind]
  rcases (Catalog.open_table stmt.table.name).run s with ⟨e | table, s1⟩
  · rfl
  · simp only
    rw [run_bind]
    rcases (Catalog.scan table).run s1 with ⟨e | rows, s2⟩ <;> rfl

theorem execute_select_run (stmt : BoundSelectStmt) (q : QueryEngine) :
    (QueryEngine.execute_bound types (.select stmt)).run q =
      match (scan_table stmt.table.name).run q.catalog with
      | (.error e, s) => (.error e, { catalog := s, last_error := str "executor open failed" })
      | (.ok rows, s) =>
        match rows.filterMapM (select_row types stmt) with
        | .error e => (.error e, { catalog := s, last_error := str "executor next failed" })
        | .ok out => (.ok out, { q with catalog := s }) := by
  unfold QueryEngine.execute_bound QueryEngine.on_catalog
  rw [lower_select]
  simp only
  rw [run_bind, run_attempt, run_zoom, open_select_run]
  rcases (scan_table stmt.table.name).run q.catalog with ⟨e | rows, s⟩
  · rfl
  · simp only [collect_select]
    cases rows.filterMapM (select_row types stmt) with
    | error e => rfl
    | ok out => rfl

theorem length_select_row {stmt : BoundSelectStmt} {values : List Value} {row : ExecRow}
    (hwidth : stmt.table.columns.length = values.length)
    (h : select_row types stmt values = .ok (some row)) :
    row.columns.length = row.values.length := by
  simp only [select_row] at h
  cases hw : where_holds types stmt.where_ { columns := stmt.table.columns, values } with
  | error e => simp [hw, bind, Except.bind] at h
  | ok keep =>
    simp only [hw, bind, Except.bind] at h
    cases keep with
    | false => simp [pure, Except.pure] at h
    | true =>
      cases himage : select_image types stmt.items { columns := stmt.table.columns, values } with
      | error e => simp [himage] at h
      | ok image =>
        simp only [himage, pure, Except.pure, if_true, Except.ok.injEq, Option.some.injEq] at h
        subst h
        exact length_select_image types hwidth himage

/-- A bound SELECT that is lowered, opened, drained and closed gives the rows
of its table in the order of the scan, those for which the WHERE is true, each
mapped to the concatenation over the items. A scan that fails or an expression
that fails is all that makes it fail. Where the statement is bound to the table
as it is, a row of the result has as many columns as values. -/
theorem select_is_a_comprehension (stmt : BoundSelectStmt) (q : QueryEngine) :
    (QueryEngine.execute_bound types (.select stmt)).run q =
        (match (scan_table stmt.table.name).run q.catalog with
        | (.error e, s) => (.error e, { catalog := s, last_error := str "executor open failed" })
        | (.ok rows, s) =>
          match rows.filterMapM (select_row types stmt) with
          | .error e => (.error e, { catalog := s, last_error := str "executor next failed" })
          | .ok out => (.ok out, { q with catalog := s })) ∧
      ∀ rows s, (scan_table stmt.table.name).run q.catalog = (.ok rows, s) →
        (∀ keep image,
          (∀ values ∈ rows, where_holds types stmt.where_
            { columns := stmt.table.columns, values } = .ok (keep values)) →
          (∀ values ∈ rows, keep values = true → select_image types stmt.items
            { columns := stmt.table.columns, values } = .ok (image values)) →
          ((QueryEngine.execute_bound types (.select stmt)).run q).1 =
            .ok ((rows.filter keep).map image)) ∧
        (stmt.table.Current q.catalog →
          ∀ out, ((QueryEngine.execute_bound types (.select stmt)).run q).1 = .ok out →
            ∀ row ∈ out, row.columns.length = row.values.length) := by
  have hrun := execute_select_run types stmt q
  refine ⟨hrun, fun rows s hscan => ⟨fun keep image hkeep himage => ?_,
    fun hcurrent out hout row hmem => ?_⟩⟩
  · rw [hrun, hscan]
    simp only [filterMapM_select types hkeep himage]
  · rw [hrun, hscan] at hout
    simp only at hout
    cases hf : rows.filterMapM (select_row types stmt) with
    | error e => simp [hf] at hout
    | ok found =>
      simp only [hf, Except.ok.injEq] at hout
      subst hout
      obtain ⟨values, hvalues, hrow⟩ := mem_of_filterMapM hf hmem
      exact length_select_row types (widths_of_current hcurrent hscan values hvalues) hrow

/-- An engine with pages of 400 bytes, after some statements. -/
def sample_engine (statements : List String) : QueryEngine :=
  statements.foldl (fun q sql => ((QueryEngine.execute builtin_registry (str sql)).run q).2)
    { catalog := (Catalog.open.run
        { catalog := { types := builtin_registry, config := ⟨400, 8, {}⟩ } }).2 }

/-- A table with a number and a text that may be missing, and two rows. -/
def two_rows : QueryEngine :=
  sample_engine ["CREATE TABLE t (a INT, b TEXT)", "INSERT INTO t VALUES (1, 'x'), ('-2', NULL)"]

/-- `SELECT b AS c, * FROM t WHERE a < 1`. -/
def sample_select : BoundSelectStmt where
  table := ⟨5, str "t", [
    ⟨5, 1, str "a", ⟨1, str "int32", none⟩, true⟩, ⟨5, 2, str "b", ⟨5, str "text", none⟩, true⟩]⟩
  items := [.expr (.column ⟨5, 2, str "b", ⟨5, str "text", none⟩, true⟩) (some (str "c")), .star]
  where_ := some (.binary .Lt (.column ⟨5, 1, str "a", ⟨1, str "int32", none⟩, true⟩)
    (.literal ⟨⟨1, str "int32", none⟩, ⟨1, [1, 0, 0, 0], false⟩⟩) ⟨4, str "bool", none⟩)

/-- The second row is left, with its text twice. -/
theorem select_of_two_rows :
    (((QueryEngine.execute_bound builtin_registry (.select sample_select)).run two_rows).1).map
        (List.map ExecRow.values) =
      .ok [[⟨5, [], true⟩, ⟨1, [254, 255, 255, 255], false⟩, ⟨5, [], true⟩]] := by
  have hscan : ((scan_table sample_select.table.name).run two_rows.catalog).1 =
      .ok [[⟨1, [1, 0, 0, 0], false⟩, ⟨5, [120], false⟩],
        [⟨1, [254, 255, 255, 255], false⟩, ⟨5, [], true⟩]] := by decide +kernel
  have h := ((select_is_a_comprehension builtin_registry sample_select two_rows).2 _ _
    (run_eq_of_fst hscan)).1
    (fun values => values.head? != some ⟨1, [1, 0, 0, 0], false⟩)
    (fun values => ⟨[⟨0, 1, str "c", ⟨5, str "text", none⟩, true⟩] ++ sample_select.table.columns,
      values.drop 1 ++ values⟩) (by decide) (by decide)
  rw [h]
  rfl

end edb
