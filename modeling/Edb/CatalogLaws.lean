-- When a catalog over its files holds a model. Each system table and each user
-- table has its own part of the invariant, over its own bundle and its own
-- file, so that a call on one table leaves the parts of the others alone.
import Edb.CatalogModel
import Edb.EngineKeeps

namespace edb

open Call

/-! ## Bundles -/

/-- The engine has nothing to write, over any file. -/
def EdbHeapEngine.Idle (store : PageStore) (e : EdbHeapEngine) : Prop :=
  ∀ io, OnPool store (BufferPool.Clean store io) ⟨e, io⟩

/-- The table is open with the schema, and its engine over the file holds the
heap `h` in the pages `m`. -/
structure Serves (c : Setup) (schema : TableSchema) (m : List Bytes) (h : Heap)
    (b : OpenedTableBundle) (io : StorageIO) : Prop where
  backend : b.backend = some schema.relation_oid
  table : b.table = some schema
  engine : ∃ e, b.engine = some e ∧ HoldsHeap c.store c.config.buffer_pool_pages m h ⟨e, io⟩

/-- The table is open with the schema, and its engine has nothing to write. -/
structure IdleTable (c : Setup) (schema : TableSchema) (b : OpenedTableBundle) : Prop where
  backend : b.backend = some schema.relation_oid
  table : b.table = some schema
  engine : ∃ e, b.engine = some e ∧ e.Idle c.store

/-- The file holds the heap `h` in the pages `m`. -/
structure FileHolds (c : Setup) (m : List Bytes) (h : Heap) (io : StorageIO) : Prop where
  stored : BufferPool.Stored c.store m io
  slotted : Slotted m h

/-! ## The parts of the invariant -/

/-- A system table, the table that `open_table` may have opened on the same
file, and the file. Up to the first write, both hold the same heap. -/
structure SystemHolds (c : Setup) (a : CatalogModel) (t : SystemTable) (b : OpenedTableBundle)
    (second : Option OpenedTableBundle) (io : StorageIO) (m : List Bytes) (h : Heap) : Prop where
  serves : Serves c t.schema m h b io
  healthy : io.Healthy
  content : h.content = a.content c.types t
  pages : m.length ≤ a.inserted t.oid
  idle : ∀ b', second = some b' → IdleTable c t.schema b'
  unwritten : a.written t = false → IdleTable c t.schema b ∧
    ∀ b', second = some b' → Serves c t.schema m h b' io

/-- A user table and its file. The pages of the file are slotted pages also
while the table is open, so a table that is dropped leaves a heap behind. -/
structure UserHolds (c : Setup) (a : CatalogModel) (oid : Nat) (b : Option OpenedTableBundle)
    (io : StorageIO) (m : List Bytes) (h : Heap) : Prop where
  healthy : io.Healthy
  pages : m.length ≤ a.inserted oid
  rows : ∀ tuples, a.rows oid = some tuples → h.content = tuples
  closed : b = none → FileHolds c m h io
  opened : ∀ b', b = some b' → ∃ r ∈ a.relations, r.oid = oid ∧ r.columns ≠ [] ∧
    Serves c r.schema m h b' io ∧
    ∀ e, b'.engine = some e → OnPool c.store (EdbHeapEngine.Slots c.store) ⟨e, io⟩

/-- What the caches hold is what a scan would find. -/
structure CachesHold (a : CatalogModel) (catalog : Catalog) : Prop where
  types : ∀ name t, catalog.type_cache_by_name name = some t → t ∈ type_records ∧ t.name = name
  classes : ∀ name k, catalog.class_cache_by_name name = some k →
    ∃ r ∈ a.relations, r.info = k ∧ r.name = name
  attributes : ∀ oid xs, catalog.attribute_cache_by_relid oid = some xs →
    ∃ r ∈ a.relations, r.oid = oid ∧ r.columns ≠ [] ∧ xs = r.attributes

/-- The system tables are open and hold the model, as all other tables do. -/
structure Running (c : Setup) (a : CatalogModel) (s : CatalogState) : Prop where
  types : s.catalog.types = c.types
  config : s.catalog.config = c.config
  refusals : s.backends.refusals = []
  system : ∀ t : SystemTable, ∃ m h, SystemHolds c a t (s.catalog.system_tables t)
    (s.catalog.user_tables.lookup t.oid) (s.backends.files t.oid) m h
  user : ∀ oid, 5 ≤ oid → ∃ m h, UserHolds c a oid (s.catalog.user_tables.lookup oid)
    (s.backends.files oid) m h
  keys : ∀ oid ∈ s.catalog.user_tables, 1 ≤ oid
  caches : CachesHold a s.catalog

/-- All tables are closed, and the files hold the model. -/
structure Resting (c : Setup) (a : CatalogModel) (s : CatalogState) : Prop where
  types : s.catalog.types = c.types
  config : s.catalog.config = c.config
  refusals : s.backends.refusals = []
  closed : ∀ t : SystemTable, (s.catalog.system_tables t).engine = none ∧
    (s.catalog.system_tables t).backend = none
  user_tables : s.catalog.user_tables = ∅
  system : ∀ t : SystemTable, ∃ m h, FileHolds c m h (s.backends.files t.oid) ∧
    (s.backends.files t.oid).Healthy ∧ h.content = a.content c.types t ∧
    m.length ≤ a.inserted t.oid
  user : ∀ oid, 5 ≤ oid → ∃ m h, UserHolds c a oid none (s.backends.files oid) m h
  caches : CachesHold { relations := [] } s.catalog

/-- The state of the catalog is one that the model describes. -/
structure HoldsCatalog (c : Setup) (a : CatalogModel) (s : CatalogState) : Prop where
  opened : s.catalog.opened = a.opened
  well_formed : a.WellFormed c
  bound : ∀ t : SystemTable, a.inserted t.oid ≤ 2 ^ 32
  running : a.opened = true → Running c a s
  resting : a.opened = false → Resting c a s

/-! ## Calls on one table -/

namespace CatalogState

/-- The state with another bundle and file of a system table. -/
def with_system (s : CatalogState) (t : SystemTable) (b : OpenedTableBundle) (io : StorageIO) :
    CatalogState where
  catalog := { s.catalog with system_tables := Function.update s.catalog.system_tables t b }
  backends := s.backends.set_file t.oid io

/-- The state with another bundle and file of a user table. -/
def with_user (s : CatalogState) (oid : Nat) (b : OpenedTableBundle) (io : StorageIO) :
    CatalogState where
  catalog := { s.catalog with user_tables := s.catalog.user_tables.insert oid b }
  backends := s.backends.set_file oid io

end CatalogState

theorem SystemTable.oid_injective {t t' : SystemTable} (h : t.oid = t'.oid) : t = t' := by
  cases t <;> cases t' <;> first | rfl | cases h

theorem SystemTable.oid_lt (t : SystemTable) : 1 ≤ t.oid ∧ t.oid < 5 := by
  cases t <;> decide

namespace Running

variable {c : Setup} {a : CatalogModel} {s : CatalogState}

/-- A call on one system table leaves the others as they are. -/
theorem with_system (hr : Running c a s) {t : SystemTable} {b : OpenedTableBundle}
    {io : StorageIO} {m : List Bytes} {h : Heap}
    (hs : SystemHolds c a t b (s.catalog.user_tables.lookup t.oid) io m h) :
    Running c a (s.with_system t b io) := by
  refine ⟨hr.types, hr.config, hr.refusals, fun t' => ?_, fun oid hoid => ?_, hr.keys,
    ⟨hr.caches.types, hr.caches.classes, hr.caches.attributes⟩⟩
  · by_cases ht : t' = t
    · subst ht
      refine ⟨m, h, ?_⟩
      simp only [CatalogState.with_system, RelationBackendFactory.set_file, Function.update_self]
      exact hs
    · have hoid : t'.oid ≠ t.oid := fun he => ht (SystemTable.oid_injective he)
      obtain ⟨m', h', hs'⟩ := hr.system t'
      refine ⟨m', h', ?_⟩
      simp only [CatalogState.with_system, RelationBackendFactory.set_file,
        Function.update_of_ne ht, Function.update_of_ne hoid]
      exact hs'
  · have hne : oid ≠ t.oid := by
      have := t.oid_lt
      omega
    obtain ⟨m', h', hu⟩ := hr.user oid hoid
    refine ⟨m', h', ?_⟩
    simp only [CatalogState.with_system, RelationBackendFactory.set_file, Function.update_of_ne hne]
    exact hu

end Running

namespace Catalog

variable {α : Type} {c : Setup} {a : CatalogModel} {s : CatalogState} {t : SystemTable}
  {m : List Bytes} {h : Heap} {Q : α → CatalogState → Prop} {E : Error → CatalogState → Prop}

/-- The bundle of a table with another engine. -/
def with_engine (b : OpenedTableBundle) (e : EdbHeapEngine) : OpenedTableBundle :=
  { b with engine := some e }

theorem wp_on_system {x : RowCodec → Call Error HeapState α} {e : EdbHeapEngine}
    (htypes : s.catalog.types = c.types)
    (hs : Serves c t.schema m h (s.catalog.system_tables t) (s.backends.files t.oid))
    (he : (s.catalog.system_tables t).engine = some e)
    (hw : (x (t.codec c.types)).wp
      (fun r st => Q r (s.with_system t (with_engine (s.catalog.system_tables t) st.engine) st.io))
      (fun r st => E r (s.with_system t (with_engine (s.catalog.system_tables t) st.engine) st.io))
      ⟨e, s.backends.files t.oid⟩) :
    (on_system t (OpenedTableBundle.on_table s.catalog.types x)).wp Q E s := by
  rw [← htypes] at hw
  unfold on_system
  rw [wp_zoom]
  unfold OpenedTableBundle.on_table
  rw [wp_bind, wp_get]
  simp only [hs.table, he]
  unfold OpenedTableBundle.on_engine
  rw [wp_bind, wp_get]
  simp only [hs.backend]
  exact (wp_zoom _ _ _).mpr hw

theorem wp_on_user {x : RowCodec → Call Error HeapState α} {oid : Nat} {schema : TableSchema}
    {b : OpenedTableBundle} {e : EdbHeapEngine} (htypes : s.catalog.types = c.types)
    (hb : s.catalog.user_tables.lookup oid = some b) (htable : b.table = some schema)
    (hbackend : b.backend = some oid) (he : b.engine = some e)
    (hw : (x { registry := c.types, schema := schema.columns }).wp
      (fun r st => Q r (s.with_user oid (with_engine b st.engine) st.io))
      (fun r st => E r (s.with_user oid (with_engine b st.engine) st.io))
      ⟨e, s.backends.files oid⟩) :
    (on_user oid (OpenedTableBundle.on_table s.catalog.types x)).wp Q E s := by
  rw [← htypes] at hw
  unfold on_user
  rw [wp_bind, wp_get]
  simp only [hb]
  rw [wp_zoom]
  unfold OpenedTableBundle.on_table
  rw [wp_bind, wp_get]
  simp only [htable, he]
  unfold OpenedTableBundle.on_engine
  rw [wp_bind, wp_get]
  simp only [hbackend]
  exact (wp_zoom _ _ _).mpr hw

end Catalog

end edb
