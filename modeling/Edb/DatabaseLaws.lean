-- What a client cannot see. Engines over pages of one size, with whatever buffer
-- pools, that execute the same SQL texts with reopens at whatever places, reply
-- the same, up to the order of the rows of a query.
import Edb.Database

namespace edb

/-- The setup with another buffer pool. -/
def Setup.with_pool (c : Setup) (pages : Nat) (eviction : EvictionPolicyConfig)
    (hpages : 1 ≤ pages) : Setup where
  types := c.types
  config := { c.config with buffer_pool_pages := pages, buffer_eviction := eviction }
  registered := c.registered
  page_min := c.page_min
  page_max := c.page_max
  frames := hpages

namespace SqlOp

/-- A query is not of a system table. -/
def OfTables : SqlOp → Prop
  | .execute sql => ∀ stmt, QueryEngine.statement sql = some (.select stmt) →
      ∀ t : SystemTable, stmt.table_name ≠ t.name
  | .reopen => True

/-- The replies to the SQL texts of a run. -/
def answers : List SqlOp → List (Option (List ExecRow)) → List (Option (List ExecRow))
  | .execute _ :: ops, reply :: replies => reply :: answers ops replies
  | .reopen :: ops, _ :: replies => answers ops replies
  | _, _ => []

/-- The SQL texts of a run. -/
def texts (ops : List SqlOp) : List SqlOp := ops.filter (· ≠ .reopen)

end SqlOp

/-! ## Queries -/

section

variable {table table' : BoundTableRef}

theorem Expr.bound_as_columns (h : table'.columns = table.columns) (e : Expr) :
    e.bound_as table' = e.bound_as table := by
  induction e with
  | literal value =>
    funext target
    cases target <;> rfl
  | column_ref name =>
    funext target
    simp only [bound_as, h]
  | binary op left right hl hr =>
    funext target
    simp only [bound_as, hl, hr]

/-- A query depends on the columns of its table only. -/
theorem SelectStmt.bound_columns (h : table'.columns = table.columns) (stmt : SelectStmt) :
    stmt.bound table' = (stmt.bound table).map fun bound => { bound with table := table' } := by
  have hitem : SelectItem.bound table' = SelectItem.bound table := by
    funext item
    cases item with
    | StarItem => rfl
    | ExprItem expr alias_ => simp only [SelectItem.bound, Expr.bound_as_columns h]
  have hwhere : bound_where table' stmt.where_ = bound_where table stmt.where_ := by
    cases stmt.where_ with
    | none => rfl
    | some expr => simp only [bound_where, Expr.bound_as_columns h]
  unfold SelectStmt.bound
  rw [hitem, hwhere]
  rcases stmt.items.mapM (SelectItem.bound table) with _ | items
  · rfl
  · rcases bound_where table stmt.where_ with _ | where_ <;> rfl

end

theorem filterMap_of_filterMapM {α β : Type} {f : α → Result (Option β)} {xs : List α}
    {out : List β} (h : xs.filterMapM f = .ok out) :
    out = xs.filterMap fun x => (f x).toOption.join := by
  induction xs generalizing out with
  | nil =>
    cases h
    rfl
  | cons x rest ih =>
    rw [List.filterMapM_cons] at h
    rcases hx : f x with e | y
    · rw [hx] at h
      cases h
    · rw [hx] at h
      cases y with
      | none => simpa [hx, Except.toOption] using ih h
      | some y =>
        rcases hrest : rest.filterMapM f with e | tail
        · simp only [hrest] at h
          cases h
        · simp only [hrest] at h
          cases h
          rw [ih hrest]
          simp [hx, Except.toOption]

theorem select_row_columns {types : TypeRegistry} {bound : BoundSelectStmt}
    {table : BoundTableRef} (h : table.columns = bound.table.columns) :
    select_row types { bound with table } = select_row types bound := by
  funext values
  simp only [select_row, h]

namespace Database

variable {c : Setup} {d d1 d2 : Database} {r1 r2 : Option (List ExecRow)}

/-- The same reply, up to the order of the rows. -/
abbrev SameReply : Option (List ExecRow) → Option (List ExecRow) → Prop := Option.Rel List.Perm

theorem Executes.unique_select {stmt : SelectStmt}
    (huser : ∀ t : SystemTable, stmt.table_name ≠ t.name)
    (h1 : d.Executes c (.select stmt) r1 d1) (h2 : d.Executes c (.select stmt) r2 d2) :
    SameReply r1 r2 ∧ d1 = d2 := by
  -- one relation, and one list of columns for both
  have hsame : ∀ {r r' : Relation} {table table' : BoundTableRef},
      d.open_table stmt.table_name = some r → d.open_table stmt.table_name = some r' →
      Binder.bind_columns c.types r.oid 0 r.columns = .ok table.columns →
      Binder.bind_columns c.types r'.oid 0 r'.columns = .ok table'.columns →
      r' = r ∧ table'.columns = table.columns := by
    intro r r' table table' hr hr' hcolumns hcolumns'
    cases hr.symm.trans hr'
    exact ⟨rfl, Except.ok.inj (hcolumns'.symm.trans hcolumns)⟩
  cases h1 with
  | select_system t ht => exact absurd ht (huser t)
  | select_missing hnone =>
    cases h2 with
    | select_system t ht => exact absurd ht (huser t)
    | select_missing _ => exact ⟨.none, rfl⟩
    | select_refused hr _ _ => cases hnone.symm.trans hr
    | select hr _ _ _ _ => cases hnone.symm.trans hr
  | select_refused hr hcolumns hbound =>
    cases h2 with
    | select_system t ht => exact absurd ht (huser t)
    | select_missing hnone => cases hnone.symm.trans hr
    | select_refused _ _ _ => exact ⟨.none, rfl⟩
    | select hr' hcolumns' hbound' _ _ =>
      rw [SelectStmt.bound_columns (hsame hr hr' hcolumns hcolumns').2, hbound] at hbound'
      cases hbound'
  | select hr hcolumns hbound horder hout =>
    cases h2 with
    | select_system t ht => exact absurd ht (huser t)
    | select_missing hnone => cases hnone.symm.trans hr
    | select_refused hr' hcolumns' hbound' =>
      rw [SelectStmt.bound_columns (hsame hr hr' hcolumns hcolumns').2, hbound] at hbound'
      cases hbound'
    | select hr' hcolumns' hbound' horder' hout' =>
      obtain ⟨rfl, hcols⟩ := hsame hr hr' hcolumns hcolumns'
      rw [SelectStmt.bound_columns hcols, hbound] at hbound'
      rw [← Option.some.inj hbound', select_row_columns hcols] at hout'
      rw [filterMap_of_filterMapM hout, filterMap_of_filterMapM hout']
      exact ⟨.some ((Multiset.coe_eq_coe.mp (horder.trans horder'.symm)).filterMap _), rfl⟩

/-- A statement has one reply and leaves one database. -/
theorem Executes.unique {stmt : Stmt}
    (huser : ∀ s, stmt = .select s → ∀ t : SystemTable, s.table_name ≠ t.name)
    (h1 : d.Executes c stmt r1 d1) (h2 : d.Executes c stmt r2 d2) :
    SameReply r1 r2 ∧ d1 = d2 := by
  cases stmt with
  -- the conditions of any two rules for a CREATE TABLE or an INSERT exclude each other
  | create_table stmt => cases h1 <;> cases h2 <;> simp_all <;> grind
  | insert stmt => cases h1 <;> cases h2 <;> simp_all <;> grind
  | select stmt => exact Executes.unique_select (huser stmt rfl) h1 h2

theorem Step.unique {op : SqlOp} (huser : op.OfTables) (h1 : d.Step c op r1 d1)
    (h2 : d.Step c op r2 d2) : SameReply r1 r2 ∧ d1 = d2 := by
  cases h1 with
  | reopen =>
    cases h2
    exact ⟨.some (.refl _), rfl⟩
  | not_one hnone =>
    cases h2 with
    | not_one _ => exact ⟨.none, rfl⟩
    | execute hstmt _ => cases hnone.symm.trans hstmt
  | execute hstmt hexec =>
    cases h2 with
    | not_one hnone => cases hnone.symm.trans hstmt
    | execute hstmt' hexec' =>
      cases hstmt.symm.trans hstmt'
      refine hexec.unique (fun s hs => huser s ?_) hexec'
      rw [hstmt, hs]

/-- A run of statements on user tables has one reply to each. -/
theorem Runs.unique {ops : List SqlOp} {rs1 rs2 : List (Option (List ExecRow))}
    (huser : ∀ op ∈ ops, op.OfTables) (h1 : d.Runs c ops rs1) (h2 : d.Runs c ops rs2) :
    List.Forall₂ SameReply rs1 rs2 := by
  induction h1 generalizing rs2 with
  | nil =>
    cases h2
    exact .nil
  | cons hstep hrest ih =>
    cases h2 with
    | cons hstep' hrest' =>
      obtain ⟨hop, hops⟩ := List.forall_mem_cons.mp huser
      obtain ⟨hreply, rfl⟩ := hstep.unique hop hstep'
      exact .cons hreply (ih hops hrest')

/-- Reopens leave no trace. -/
theorem Runs.texts {ops : List SqlOp} {replies : List (Option (List ExecRow))}
    (h : d.Runs c ops replies) : d.Runs c (SqlOp.texts ops) (SqlOp.answers ops replies) := by
  induction h with
  | nil => exact .nil
  | @cons d d' op reply ops replies hstep hrest ih =>
    cases op with
    | reopen =>
      cases hstep
      exact ih
    | execute sql => exact .cons hstep ih

section

variable {pages : Nat} {eviction : EvictionPolicyConfig} {hpages : 1 ≤ pages}

/-- A database does not know of a buffer pool. -/
theorem Executes.of_pool {stmt : Stmt}
    (h : d.Executes (c.with_pool pages eviction hpages) stmt r1 d1) : d.Executes c stmt r1 d1 := by
  cases h with
  | create_refused hbound => exact .create_refused hbound
  | create_taken hbound hhas hif => exact .create_taken hbound hhas hif
  | create_again hbound hhas hif => exact .create_again hbound hhas hif
  | create_too_large hbound hnew hclass => exact .create_too_large hbound hnew hclass
  | create_in_part hbound hnew hclass hcolumns => exact .create_in_part hbound hnew hclass hcolumns
  | create hbound hnew hclass hcolumns => exact .create hbound hnew hclass hcolumns
  | insert_refused hbound => exact .insert_refused hbound
  | insert_in_part hbound hlarge => exact .insert_in_part hbound hlarge
  | insert hbound hfit => exact .insert hbound hfit
  | select_system t hname => exact .select_system t hname
  | select_missing hnone => exact .select_missing hnone
  | select_refused hr hcolumns hbound => exact .select_refused hr hcolumns hbound
  | select hr hcolumns hbound horder hout => exact .select hr hcolumns hbound horder hout

theorem Runs.of_pool {ops : List SqlOp} {replies : List (Option (List ExecRow))}
    (h : d.Runs (c.with_pool pages eviction hpages) ops replies) : d.Runs c ops replies := by
  induction h with
  | nil => exact .nil
  | cons hstep _ ih =>
    refine .cons ?_ ih
    cases hstep with
    | reopen => exact .reopen
    | not_one hstmt => exact .not_one hstmt
    | execute hstmt hexec => exact .execute hstmt hexec.of_pool

end

end Database

/-- The replies of the engine to the SQL texts of a run over empty files. -/
def SqlOp.replies (c : Setup) (ops : List SqlOp) : List (Option (List ExecRow)) :=
  answers ops ((Run.exec (step c.types) ops (QueryEngine.fresh c.types c.config)).1.map
    Except.toOption)

/-- Neither the buffer pool nor the end of a session can be seen. Two engines with
pages of one size, whatever their frames and evictions, refuse the same texts and
give the same rows, wherever the one and the other are closed and opened again. -/
theorem pools_and_reopens_are_invisible (c : Setup) (hbuiltin : c.types = builtin_registry)
    (pages : Nat) (eviction : EvictionPolicyConfig) (hpages : 1 ≤ pages) (ops ops' : List SqlOp)
    (hsame : SqlOp.texts ops' = SqlOp.texts ops) (hplain : ∀ op ∈ ops, op.Plain)
    (huser : ∀ op ∈ ops, op.OfTables) (hsmall : (History.of ops).Small)
    (hsmall' : (History.of ops').Small) :
    List.Forall₂ (Option.Rel List.Perm) (SqlOp.replies c ops)
      (SqlOp.replies (c.with_pool pages eviction hpages) ops') := by
  have hplain' : ∀ op ∈ ops', op.Plain := by
    intro op hop
    by_cases hreopen : op = .reopen
    · rw [hreopen]
      trivial
    · have hmem : op ∈ SqlOp.texts ops' := List.mem_filter.mpr ⟨hop, decide_eq_true hreopen⟩
      rw [hsame] at hmem
      exact hplain op (List.mem_filter.mp hmem).1
  have hrun := (SqlOp.run_refines hbuiltin ops hplain hsmall (holds_fresh c) (Grown.booted c)
    (Represents.booted c)).texts
  have hrun' := (SqlOp.run_refines (c := c.with_pool pages eviction hpages) hbuiltin ops' hplain'
    hsmall' (holds_fresh _) (Grown.booted _) (Represents.booted _)).texts.of_pool
  rw [hsame] at hrun'
  exact hrun.unique (fun op hop => huser op (List.mem_filter.mp hop).1) hrun'

/-- One frame does as well as eight, and one more reopen changes nothing. -/
theorem one_frame_replies_the_same :
    List.Forall₂ (Option.Rel List.Perm) (SqlOp.replies small_setup sample_session)
      (SqlOp.replies (small_setup.with_pool 1 {} (Nat.le_refl 1)) (.reopen :: sample_session)) := by
  have hsame : SqlOp.texts (.reopen :: sample_session) = SqlOp.texts sample_session := by
    simp [SqlOp.texts]
  have hsmall : (History.of (.reopen :: sample_session)).Small := by
    unfold History.of
    rw [List.foldl_cons]
    exact sample_session_small true
  refine pools_and_reopens_are_invisible small_setup rfl 1 {} (Nat.le_refl 1) sample_session _
    hsame sample_session_plain (fun op hop => ?_) (sample_session_small false) hsmall
  obtain ⟨hcreate, hinsert, hall, hone⟩ := statements_of_session
  simp only [sample_session, List.mem_cons, List.not_mem_nil, or_false] at hop
  rcases hop with rfl | rfl | rfl | rfl | rfl
  · intro stmt hstmt
    cases hcreate.symm.trans hstmt
  · intro stmt hstmt
    cases hinsert.symm.trans hstmt
  · trivial
  · intro stmt hstmt t
    cases hall.symm.trans hstmt
    cases t <;> decide
  · intro stmt hstmt t
    cases hone.symm.trans hstmt
    cases t <;> decide

end edb
