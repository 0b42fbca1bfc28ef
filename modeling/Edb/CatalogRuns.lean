-- Runs of the catalog. Whatever a client does, from the first open on, the
-- catalog answers as the model does, as long as nobody inserts into a system
-- table and the numbers of the catalog stay in range.
import Edb.CatalogSessions
import Edb.Run

namespace edb

open Call

/-! ## The operations of a client -/

inductive CatalogOp where
  | open
  | close
  | get_type (name : Bytes)
  | get_class (name : Bytes)
  | get_attributes (class_oid : Nat)
  | create_table (spec : CreateTableSpec)
  | drop_table (class_oid : Nat)
  | open_table (name : Bytes)
  | insert (name : Bytes) (values : List Value)
  | scan (name : Bytes)
  deriving DecidableEq, Repr

inductive CatalogReply where
  | done (r : Result Unit)
  | type (r : Result CatalogType)
  | info (r : Result CatalogClass)
  | attributes (r : Result (List CatalogAttribute))
  | oid (r : Result Nat)
  | schema (r : Result TableSchema)
  | rows (r : Result (List (List Value)))
  deriving DecidableEq

namespace CatalogOp

/-- The call of an operation. A row goes in and out through `open_table`. -/
def call : CatalogOp → Call Error CatalogState CatalogReply
  | .open => do
    let r ← Catalog.open.attempt
    pure (.done r)
  | .close => do
    let r ← Catalog.close.attempt
    pure (.done r)
  | .get_type name => do
    let r ← (Catalog.get_type name).attempt
    pure (.type r)
  | .get_class name => do
    let r ← (Catalog.get_class name).attempt
    pure (.info r)
  | .get_attributes class_oid => do
    let r ← (Catalog.get_attributes class_oid).attempt
    pure (.attributes r)
  | .create_table spec => do
    let r ← (Catalog.create_table spec).attempt
    pure (.oid r)
  | .drop_table class_oid => do
    let r ← (Catalog.drop_table class_oid).attempt
    pure (.done r)
  | .open_table name => do
    let r ← (do
      let table ← Catalog.open_table name
      Catalog.schema table).attempt
    pure (.schema r)
  | .insert name values => do
    let r ← (do
      let table ← Catalog.open_table name
      let _ ← Catalog.insert table values
      pure ()).attempt
    pure (.done r)
  | .scan name => do
    let r ← (do
      let table ← Catalog.open_table name
      Catalog.scan table).attempt
    pure (.rows r)

def step (op : CatalogOp) (s : CatalogState) : CatalogReply × CatalogState :=
  match op.call.run s with
  | (.ok reply, s') => (reply, s')
  | (.error e, s') => (.done (.error e), s')

end CatalogOp

/-! ## The model takes the same operations -/

namespace CatalogModel

/-- The tuple that an insert adds to a table, if it adds one. -/
def inserts (c : Setup) (a : CatalogModel) (name : Bytes) (values : List Value) :
    Result (Nat × Bytes) := do
  let r ← a.open_table name
  let tuple ← (Catalog.codec c r).encode values
  if c.Fits tuple.length then .ok (r.oid, tuple) else .error .OutOfMemory

def next (c : Setup) (a : CatalogModel) : CatalogOp → CatalogModel
  | .open => a.reopened
  | .close => a.closed
  | .create_table spec => (a.create_table c spec).2
  | .drop_table class_oid => (a.drop_table class_oid).2
  | .insert name values =>
    match a.inserts c name values with
    | .ok (oid, tuple) => a.insert oid tuple
    | .error _ => a
  | _ => a

def step (c : Setup) (op : CatalogOp) (a : CatalogModel) : Unit × CatalogModel := ((), a.next c op)

/-- The tuples that a scan of a relation reads, where the model knows them: those
of a user table, and those of a system table that nobody has written to since
the catalog was opened. -/
def Scans (c : Setup) (a : CatalogModel) (r : Relation) (tuples : Multiset Bytes) : Prop :=
  (5 ≤ r.oid ∧ a.rows r.oid = some tuples) ∨
    ∃ t, r = Relation.system t ∧ a.written t = false ∧ tuples = a.content c.types t

/-- The answers that the model allows. A scan gives its rows in some order, and
anything where the model does not know the rows. -/
def Answers (c : Setup) (a : CatalogModel) : CatalogOp → CatalogReply → Prop
  | .open, r => r = .done (.ok ())
  | .close, r => r = .done (.ok ())
  | .get_type name, r => r = .type (a.get_type name)
  | .get_class name, r => r = .info (a.get_class name)
  | .get_attributes class_oid, r => r = .attributes (a.get_attributes class_oid)
  | .create_table spec, r => r = .oid (a.create_table c spec).1
  | .drop_table class_oid, r => r = .done (a.drop_table class_oid).1
  | .open_table name, r => r = .schema ((a.open_table name).map Relation.schema)
  | .insert name values, r => r = .done ((a.inserts c name values).map fun _ => ())
  | .scan name, r =>
    match a.open_table name with
    | .error e => r = .rows (.error e)
    | .ok relation => ∃ rows, r = .rows rows ∧ ∀ tuples, a.Scans c relation tuples →
        ∃ order : List Bytes, (order : Multiset Bytes) = tuples ∧
          rows = order.mapM (Catalog.codec c relation).decode

/-- An open is of a closed catalog, rows go into user tables, and the numbers of
the catalog are in range: oids and column numbers fit 31 bits, and pages are
counted in 32 bits. -/
def Allows (c : Setup) (op : CatalogOp) (a : CatalogModel) : Prop :=
  match op with
  | .open => a.opened = false ∧ ∀ t : SystemTable, a.reopened.inserted t.oid ≤ 2 ^ 32
  | .create_table spec => spec.columns.length < 2 ^ 31 ∧ a.next_oid < 2 ^ 31 ∧
      ∀ t : SystemTable, (a.create_table c spec).2.inserted t.oid ≤ 2 ^ 32
  | .insert name _ => ∀ r, a.open_table name = .ok r → 5 ≤ r.oid ∧ a.inserted r.oid ≤ 2 ^ 32
  | .scan name => ∀ r, a.open_table name = .ok r → a.inserted r.oid ≤ 2 ^ 32
  | _ => True

end CatalogModel

/-! ## One operation -/

namespace CatalogOp

variable {c : Setup} {a : CatalogModel} {s : CatalogState}

/-- An operation is a call and a reply that carries its result. -/
theorem step_of_wp {α : Type} {x : Call Error CatalogState α} {reply : Result α → CatalogReply}
    {op : CatalogOp} {P : CatalogReply → CatalogState → Prop}
    (hcall : op.call = do
      let r ← x.attempt
      pure (reply r))
    (hw : x.wp (fun r s' => P (reply (.ok r)) s') (fun e s' => P (reply (.error e)) s') s) :
    P (op.step s).1 (op.step s).2 := by
  have hcalled : op.call.wp P (fun _ _ => False) s := by
    rw [hcall, wp_bind, wp_attempt]
    exact wp_mono hw (fun _ _ h => (wp_pure _).mpr h) fun _ _ h => (wp_pure _).mpr h
  obtain ⟨r, s', hrun, hp⟩ := exists_ok_of_wp hcalled
  unfold step
  rw [hrun]
  exact hp

theorem rows_of_eq (codec : RowCodec) (h : Heap) :
    Catalog.rows_of codec h = (h.live.map Tuple.data).mapM codec.decode := by
  unfold Catalog.rows_of
  induction h.live with
  | nil => rfl
  | cons x rest ih =>
    have hcons : Table.decode_rows codec (x :: rest) = (do
      let values ← codec.decode x.data
      let rows ← Table.decode_rows codec rest
      pure (⟨x.id, values⟩ :: rows)) := rfl
    rw [List.map_cons, List.mapM_cons, ← ih, hcons]
    cases codec.decode x.data with
    | error e => rfl
    | ok values =>
      cases Table.decode_rows codec rest with
      | error e => rfl
      | ok rows => rfl

/-- The table that an open gives access to has the schema of its relation. -/
theorem schema_of_opened {r : Relation} {s' : CatalogState} (ho : Catalog.Opened c a r s') :
    (Catalog.schema r.oid).wp (fun schema s'' => schema = r.schema ∧ s'' = s') (fun _ _ => False)
      s' := by
  obtain ⟨-, -, b, hb, htable⟩ := ho
  unfold Catalog.schema
  rw [wp_bind, wp_get, hb]
  simp only [Option.bind_some, htable]
  exact (wp_pure _).mpr ⟨rfl, rfl⟩

theorem open_of_ok {name : Bytes} {r : Relation} (h : a.open_table name = .ok r) :
    a.opened = true ∧ r ∈ a.relations := by
  unfold CatalogModel.open_table at h
  cases ho : a.opened with
  | false => simp [ho] at h
  | true =>
    simp only [ho, Bool.not_true, Bool.false_eq_true, if_false] at h
    rcases hf : a.find name with _ | r'
    · simp [hf] at h
    · simp only [hf] at h
      split at h
      · cases h
      · cases h
        exact ⟨rfl, (CatalogModel.mem_of_find hf).1⟩

theorem name_of_ok {name : Bytes} {r : Relation} (h : a.open_table name = .ok r) :
    r.name = name := by
  unfold CatalogModel.open_table at h
  split at h
  · cases h
  · split at h
    · cases h
    · rename_i r' hf
      split at h
      · cases h
      · cases h
        exact (CatalogModel.mem_of_find hf).2

theorem step_insert (name : Bytes) (values : List Value) (hc : HoldsCatalog c a s)
    (hok : a.Allows c (.insert name values)) :
    a.Answers c (.insert name values) (step (.insert name values) s).1 ∧
      HoldsCatalog c (a.next c (.insert name values)) (step (.insert name values) s).2 := by
  refine step_of_wp (P := fun r s' => r = .done ((a.inserts c name values).map fun _ => ()) ∧
    HoldsCatalog c (a.next c (.insert name values)) s') rfl ?_
  rw [wp_bind]
  apply wp_mono (Catalog.open_table.spec hc name)
  · rintro oid s1 ⟨r, hr, rfl, hc1, -, b, hb, -⟩
    obtain ⟨ho, hmem⟩ := open_of_ok hr
    obtain ⟨hoid, hbound⟩ := hok r hr
    rw [wp_bind]
    apply wp_mono (Catalog.insert_user.spec hc1 ho hmem hoid hbound hb values)
    · rintro _ s2 ⟨tuple, henc, hfits, hc2⟩
      have hins : a.inserts c name values = .ok (r.oid, tuple) := by
        simp only [CatalogModel.inserts, hr, henc, bind, Except.bind, if_pos hfits]
      rw [wp_pure]
      simp only [CatalogModel.next, hins]
      exact ⟨rfl, hc2⟩
    · rintro e s2 ⟨hc2, hwhy⟩
      have hins : a.inserts c name values = .error e := by
        rcases hwhy with henc | ⟨tuple, henc, hbig, rfl⟩
        · simp only [CatalogModel.inserts, hr, henc, bind, Except.bind]
        · simp only [CatalogModel.inserts, hr, henc, bind, Except.bind, if_neg hbig]
      simp only [CatalogModel.next, hins]
      exact ⟨rfl, hc2⟩
  · rintro e s1 ⟨hr, hc1⟩
    have hins : a.inserts c name values = .error e := by
      simp only [CatalogModel.inserts, hr, bind, Except.bind]
    simp only [CatalogModel.next, hins]
    exact ⟨rfl, hc1⟩

theorem step_scan (name : Bytes) (hc : HoldsCatalog c a s) (hok : a.Allows c (.scan name)) :
    a.Answers c (.scan name) (step (.scan name) s).1 ∧ HoldsCatalog c a (step (.scan name) s).2 := by
  -- what the model says of the reply, once the table is open and when it is not
  have hopened : ∀ r rows, a.open_table name = .ok r →
      (∀ tuples, a.Scans c r tuples → ∃ order : List Bytes, (order : Multiset Bytes) = tuples ∧
        rows = order.mapM (Catalog.codec c r).decode) → a.Answers c (.scan name) (.rows rows) := by
    intro r rows hr hrows
    simp only [CatalogModel.Answers, hr]
    exact ⟨rows, rfl, hrows⟩
  refine step_of_wp (P := fun r s' => a.Answers c (.scan name) r ∧ HoldsCatalog c a s') rfl ?_
  rw [wp_bind]
  apply wp_mono (Catalog.open_table.spec hc name)
  · rintro oid s1 ⟨r, hr, rfl, hc1, -, b, hb, -⟩
    obtain ⟨ho, hmem⟩ := open_of_ok hr
    rcases hc.well_formed.kinds r hmem with ⟨t, rfl⟩ | ⟨hoid, -⟩
    · -- the second table on a system table
      obtain ⟨m, h, hs⟩ := (hc1.running ho).system t
      rw [show (s1.catalog.user_tables.lookup t.oid) = some b from hb] at hs
      have hrows : ∀ rows, (a.written t = false →
          Catalog.rows_of (t.codec c.types) h = rows) →
          ∀ tuples, a.Scans c (Relation.system t) tuples → ∃ order : List Bytes,
            (order : Multiset Bytes) = tuples ∧
              rows = order.mapM (Catalog.codec c (Relation.system t)).decode := by
        rintro rows hrows tuples (⟨hoid, -⟩ | ⟨t', ht', hw, rfl⟩)
        · have : t.oid < 5 := t.oid_lt.2
          exact absurd hoid (by show ¬ 5 ≤ t.oid; omega)
        · have hoids : t.oid = t'.oid := congrArg Relation.oid ht'
          cases SystemTable.oid_injective hoids
          refine ⟨h.live.map Tuple.data, hs.content, ?_⟩
          rw [← hrows hw, rows_of_eq]
          rfl
      apply wp_mono (Catalog.scan_alias.spec hc1 ho t hb hs)
      · rintro rows s2 ⟨hc2, heq⟩
        exact ⟨hopened _ _ hr (hrows _ heq), hc2⟩
      · rintro e s2 ⟨hc2, heq⟩
        exact ⟨hopened _ _ hr (hrows _ heq), hc2⟩
    · obtain ⟨h, hcontent, hscan⟩ := Catalog.scan_user.spec hc1 ho hmem hoid (hok r hr) hb
      have hrows : ∀ rows, Catalog.rows_of (Catalog.codec c r) h = rows →
          ∀ tuples, a.Scans c r tuples → ∃ order : List Bytes,
            (order : Multiset Bytes) = tuples ∧
              rows = order.mapM (Catalog.codec c r).decode := by
        rintro rows hrows tuples (⟨-, htuples⟩ | ⟨t, rfl, -, -⟩)
        · exact ⟨h.live.map Tuple.data, hcontent tuples htuples, by rw [← hrows, rows_of_eq]⟩
        · have : t.oid < 5 := t.oid_lt.2
          exact absurd hoid (by show ¬ 5 ≤ t.oid; omega)
      apply wp_mono hscan
      · rintro rows s2 ⟨heq, hc2⟩
        exact ⟨hopened _ _ hr (hrows _ heq), hc2⟩
      · rintro e s2 ⟨heq, hc2⟩
        exact ⟨hopened _ _ hr (hrows _ heq), hc2⟩
  · rintro e s1 ⟨hr, hc1⟩
    refine ⟨?_, hc1⟩
    simp only [CatalogModel.Answers, hr]

/-- Every operation answers as the model does and leaves the next model behind. -/
theorem step_spec (op : CatalogOp) (hc : HoldsCatalog c a s) (hok : a.Allows c op) :
    a.Answers c op (op.step s).1 ∧ HoldsCatalog c (a.next c op) (op.step s).2 := by
  cases op with
  | insert name values => exact step_insert name values hc hok
  | scan name => exact step_scan name hc hok
  | «open» =>
    refine step_of_wp (P := fun r s' => a.Answers c .open r ∧ HoldsCatalog c a.reopened s') rfl ?_
    exact wp_mono (Catalog.open.spec hc hok.1 hok.2) (fun _ _ h => ⟨rfl, h⟩) fun _ _ hf => hf.elim
  | close =>
    refine step_of_wp (P := fun r s' => a.Answers c .close r ∧ HoldsCatalog c a.closed s') rfl ?_
    exact wp_mono (Catalog.close.spec hc) (fun _ _ h => ⟨rfl, h⟩) fun _ _ hf => hf.elim
  | get_type name =>
    refine step_of_wp (P := fun r s' => a.Answers c (.get_type name) r ∧ HoldsCatalog c a s') rfl ?_
    exact wp_mono (Catalog.get_type.spec hc name) (fun _ _ h => ⟨congrArg _ h.1.symm, h.2.1⟩)
      fun _ _ h => ⟨congrArg _ h.1.symm, h.2.1⟩
  | get_class name =>
    refine step_of_wp (P := fun r s' => a.Answers c (.get_class name) r ∧ HoldsCatalog c a s') rfl ?_
    exact wp_mono (Catalog.get_class.spec hc name) (fun _ _ h => ⟨congrArg _ h.1.symm, h.2.1⟩)
      fun _ _ h => ⟨congrArg _ h.1.symm, h.2.1⟩
  | get_attributes oid =>
    refine step_of_wp (P := fun r s' => a.Answers c (.get_attributes oid) r ∧ HoldsCatalog c a s')
      rfl ?_
    exact wp_mono (Catalog.get_attributes.spec hc oid) (fun _ _ h => ⟨congrArg _ h.1.symm, h.2.1⟩)
      fun _ _ h => ⟨congrArg _ h.1.symm, h.2.1⟩
  | create_table spec =>
    refine step_of_wp (P := fun r s' => a.Answers c (.create_table spec) r ∧
      HoldsCatalog c (a.create_table c spec).2 s') rfl ?_
    exact wp_mono (Catalog.create_table.spec hc spec hok.1 hok.2.1 hok.2.2)
      (fun _ _ h => ⟨congrArg _ h.1.symm, h.2⟩) fun _ _ h => ⟨congrArg _ h.1.symm, h.2⟩
  | drop_table oid =>
    refine step_of_wp (P := fun r s' => a.Answers c (.drop_table oid) r ∧
      HoldsCatalog c (a.drop_table oid).2 s') rfl ?_
    exact wp_mono (Catalog.drop_table.spec hc oid)
      (fun _ _ h => ⟨congrArg _ h.1.symm, h.2⟩) fun _ _ h => ⟨congrArg _ h.1.symm, h.2⟩
  | open_table name =>
    refine step_of_wp (P := fun r s' => a.Answers c (.open_table name) r ∧ HoldsCatalog c a s')
      rfl ?_
    rw [wp_bind]
    apply wp_mono (Catalog.open_table.spec hc name)
    · rintro oid s1 ⟨r, hr, rfl, hopened⟩
      apply wp_mono (schema_of_opened hopened) _ fun _ _ hf => hf.elim
      rintro schema s2 ⟨rfl, rfl⟩
      refine ⟨?_, hopened.1⟩
      simp only [CatalogModel.Answers, hr]
      rfl
    · rintro e s1 ⟨hr, hc1⟩
      refine ⟨?_, hc1⟩
      simp only [CatalogModel.Answers, hr]
      rfl

theorem create_reply (hc : HoldsCatalog c a s) {spec : CreateTableSpec}
    (hok : a.Allows c (.create_table spec)) :
    (step (.create_table spec) s).1 = .oid (a.create_table c spec).1 :=
  (step_spec (.create_table spec) hc hok).1

theorem get_class_reply (hc : HoldsCatalog c a s) (name : Bytes) :
    (step (.get_class name) s).1 = .info (a.get_class name) :=
  (step_spec (.get_class name) hc trivial).1

theorem get_attributes_reply (hc : HoldsCatalog c a s) (oid : Nat) :
    (step (.get_attributes oid) s).1 = .attributes (a.get_attributes oid) :=
  (step_spec (.get_attributes oid) hc trivial).1

theorem open_table_reply (hc : HoldsCatalog c a s) (name : Bytes) :
    (step (.open_table name) s).1 = .schema ((a.open_table name).map Relation.schema) :=
  (step_spec (.open_table name) hc trivial).1

/-! ## Runs -/

/-- A catalog that was never opened, over empty files. -/
def start (c : Setup) : CatalogState := { catalog := { types := c.types, config := c.config } }

/-- The state after a run from the start. -/
def after (c : Setup) (ops : List CatalogOp) : CatalogState := (Run.exec step ops (start c)).2

theorem holds_start (c : Setup) : HoldsCatalog c {} (start c) := by
  have hsize : 0 < c.config.page_size := Nat.lt_of_lt_of_le (by decide) c.page_min
  have hfile : FileHolds c [] [] {} := ⟨stored_empty hsize, rfl, by simp⟩
  refine ⟨rfl, ⟨List.nodup_nil, List.nodup_nil, nofun, fun h => absurd rfl h, nofun, nofun⟩,
    fun _ => Nat.zero_le _, nofun, fun _ => ⟨rfl, rfl, rfl, fun _ => ⟨rfl, rfl⟩, rfl, fun t => ?_,
      fun oid _ => ⟨[], [], rfl, Nat.zero_le _, ?_, fun _ => hfile, nofun⟩, nofun, nofun, nofun⟩⟩
  · refine ⟨[], [], hfile, rfl, ?_, Nat.zero_le _⟩
    cases t <;> rfl
  · rintro tuples ⟨⟩
    rfl

end CatalogOp

namespace CatalogModel

/-- The model after a run from the start. -/
def after (c : Setup) (ops : List CatalogOp) : CatalogModel := (Run.exec (step c) ops {}).2

/-- Every operation of the run is allowed in the state in which it is made. -/
def AllowsRun (c : Setup) (ops : List CatalogOp) : Prop := Run.Allowed (Allows c) (step c) ops {}

end CatalogModel

theorem holds_after {c : Setup} {ops : List CatalogOp} (hok : CatalogModel.AllowsRun c ops) :
    HoldsCatalog c (CatalogModel.after c ops) (CatalogOp.after c ops) :=
  Run.follows (fun _ => True) (fun s a => HoldsCatalog c a s)
    (fun op _ _ _ hc hop => (op.step_spec hc hop).2) ops _ _ (fun _ _ => trivial)
    (CatalogOp.holds_start c) hok

end edb
