-- The rows of user tables. Whatever statements one query engine is given, and
-- whichever of them fail, a user table holds rows of its schema only: the
-- binder makes values out of texts, the codec refuses a row that does not fit
-- the schema, and no call on another table touches the file.
import Edb.EngineKeeps
import Edb.InsertRuns
import Edb.StatementRuns

namespace edb

open Call EdbHeapEngine

/-! ## Rows of a schema -/

/-- The value is one of the column: a null only where the column may be null,
and otherwise bytes that the type of the column makes of some text. -/
structure Value.Conforms (types : TypeRegistry) (column : ColumnSchema) (value : Value) : Prop where
  typed : value.type_oid = column.type_oid
  null_ok : value.is_null = true → column.nullable = true
  made : value.Made types
  sized : value.is_null = false → ∀ type size, types.lookup column.type_oid = .ok type →
    type.fixed_size = some size → value.bytes.length = size

/-- One value for each column. -/
def RowConforms (types : TypeRegistry) (columns : List ColumnSchema) (values : List Value) : Prop :=
  List.Forall₂ (Value.Conforms types) columns values

theorem Value.conforms_of_fits {types : TypeRegistry} {column : ColumnSchema} {value : Value}
    (hfits : value.Fits types column) (hmade : value.Made types) :
    value.stored.Conforms types column := by
  obtain ⟨htype, ⟨type, hlook, hsize⟩, hnull⟩ := hfits
  unfold Value.stored
  split
  · rename_i hn
    refine ⟨htype, fun _ => hnull hn, ⟨fun _ => rfl, fun h => ?_⟩, fun h => ?_⟩ <;>
      simp [hn] at h
  · refine ⟨htype, hnull, hmade, fun hn type' size hlook' hfixed => ?_⟩
    rw [hlook] at hlook'
    cases hlook'
    exact hsize hn size hfixed

/-- The tuple decodes to a row that conforms. -/
def RowCodec.Stores (codec : RowCodec) (tuple : Bytes) : Prop :=
  ∃ values, codec.decode tuple = .ok values ∧ RowConforms codec.registry codec.schema values

/-- The codec accepts values that were made only when they are a row. -/
theorem RowCodec.stores_of_encode {codec : RowCodec} {values : List Value} {tuple : Bytes}
    (hmade : ∀ v ∈ values, v.Made codec.registry) (henc : codec.encode values = .ok tuple)
    (hsize : tuple.length < 2 ^ 32) : codec.Stores tuple := by
  refine ⟨_, decode_encode henc hsize, ?_⟩
  obtain ⟨hlen, hfits⟩ := row_iff.mp (row_of_encode henc)
  refine List.forall₂_iff_zip.mpr ⟨by rw [List.length_map, hlen], fun hmem => ?_⟩
  rw [List.zip_map_right] at hmem
  obtain ⟨⟨column, value⟩, hp, heq⟩ := List.mem_map.mp hmem
  cases heq
  exact Value.conforms_of_fits (hfits _ hp) (hmade _ (List.of_mem_zip hp).2)

/-! ## Engines -/

/-- Every tuple that the engine holds has `P`. Over pages of an odd size it
holds none. -/
def HoldsOnly (P : Bytes → Prop) (store : PageStore) (s : HeapState) : Prop :=
  (∃ n m h, HoldsHeap store n m h s ∧ s.io.Healthy ∧ ∀ x ∈ h.live, P x.data) ∨
    OddEngine store [] s

section

variable {P : Bytes → Prop} {store : PageStore} {codec : RowCodec}

theorem open_holds_only {size : Nat} (hsize : 0 < size) {cfg : EngineConfig}
    (hcap : 1 ≤ cfg.buffer_pool_pages) (hcfg : cfg.page_size = size) :
    (EdbHeapEngine.open (PageStore.open size) cfg).wp
      (fun _ s => HoldsOnly P (PageStore.open size) s) (fun _ _ => False) {} := by
  by_cases hodd : heap.OddSize size
  · have hstore : heap.OddSize (PageStore.open size).page_size := hodd
    exact wp_mono (open_odd hstore hcap {}) (fun _ _ hs => Or.inr hs) fun _ _ hf => hf
  · unfold heap.OddSize at hodd
    obtain ⟨s, hrun, hh, hio⟩ := open_holds_heap (s := {}) (h := [])
      (stored_empty hsize) ⟨rfl, by simp⟩ (show heap.PAGE_HEADER_SIZE ≤ size by omega)
      (show size ≤ heap.MAX_U16 by omega) hcap hcfg
    refine wp_of_run_ok hrun (Or.inl ⟨_, _, _, hh, by rw [hio]; rfl, ?_⟩)
    simp [Heap.live, Heap.entries]

theorem Table.insert_holds_only {values : List Value}
    (hmade : ∀ v ∈ values, v.Made codec.registry) :
    (Table.insert codec values).Keeps (HoldsOnly codec.Stores store) := by
  rintro s (⟨n, m, h, hh, hio, hlive⟩ | hodd)
  · rcases henc : codec.encode values with e | tuple
    · unfold Table.insert
      rw [wp_bind, henc, wp_ofExcept_error]
      exact Or.inl ⟨n, m, h, hh, hio, hlive⟩
    · apply wp_mono (Table.insert.spec hh hio henc)
      · rintro id s' ⟨hafter, m', h', hp, hh'⟩
        refine Or.inl ⟨n, m', h', hh', hafter.healthy hio, fun x hx => ?_⟩
        rw [Heap.mem_live, Heap.get_of_placed hh.slotted hp] at hx
        split at hx
        · cases hx
          have hfits := (inserted_of_placed hh hp hh').1
          have hsmall : store.page_size ≤ 65535 := hh.small
          exact RowCodec.stores_of_encode hmade henc (by omega)
        · exact hlive x (Heap.mem_live.mpr hx)
      · rintro e s' ⟨hafter, hh', -⟩
        exact Or.inl ⟨n, m, h, hh', hafter.healthy hio, hlive⟩
  · unfold Table.insert
    rw [wp_bind, wp_ofExcept]
    refine ⟨fun tuple _ => ?_, fun _ _ => Or.inr hodd⟩
    exact wp_mono (insert_tuple_odd hodd tuple) (fun _ _ hf => hf.elim)
      fun _ _ h => Or.inr h

theorem scan_next_holds_only {s : ScanState} (hs : HoldsOnly P store s.heap) :
    scan_next.wp
      (fun r s' => (∀ x, r = some x → P x.data) ∧ HoldsOnly P store s'.heap)
      (fun _ s' => HoldsOnly P store s'.heap) s := by
  rcases hs with ⟨n, m, h, hh, hio, hlive⟩ | hodd
  · apply wp_mono (scan_next.spec hh)
    · rintro r s' ⟨hh', hafter, hnext⟩
      refine ⟨?_, Or.inl ⟨n, m, h, hh', hafter.healthy hio, hlive⟩⟩
      rintro x rfl
      have hmem : x ∈ ahead h s.handle := by rw [hnext.first]; simp
      exact hlive x (Heap.mem_live.mpr (Heap.mem_rest_from.mp hmem).1)
    · rintro e s' ⟨-, hh', hafter, -⟩
      exact Or.inl ⟨n, m, h, hh', hafter.healthy hio, hlive⟩
  · exact wp_mono ((odd_invariant hodd.odd).scan_next hodd)
      (fun r s' h => ⟨by simp [h.1], Or.inr h.2.1⟩) fun _ _ h => Or.inr h.1

/-- A scan gives rows of tuples that the engine holds. -/
theorem Table.scan_loop_holds_only (calls : Nat) {s : ScanState}
    (hs : HoldsOnly P store s.heap) :
    (Table.scan_loop codec calls).wp
      (fun rows s' => (∀ row ∈ rows, ∃ tuple, P tuple ∧ codec.decode tuple = .ok row.values) ∧
        HoldsOnly P store s'.heap)
      (fun _ s' => HoldsOnly P store s'.heap) s := by
  induction calls generalizing s with
  | zero => exact (wp_fail _).mpr hs
  | succ calls ih =>
    unfold Table.scan_loop
    rw [wp_bind]
    refine wp_mono (scan_next_holds_only hs) (fun r s1 h1 => ?_) fun _ _ h => h
    cases r with
    | none => exact (wp_pure _).mpr ⟨by simp, h1.2⟩
    | some x =>
      dsimp only
      rw [wp_bind, wp_ofExcept]
      refine ⟨fun values hvalues => ?_, fun _ _ => h1.2⟩
      rw [wp_bind]
      refine wp_mono (ih h1.2) (fun rest s2 h2 => (wp_pure _).mpr ⟨?_, h2.2⟩) fun _ _ h => h
      exact List.forall_mem_cons.mpr ⟨⟨x.data, h1.1 x rfl, hvalues⟩, h2.1⟩

theorem Table.scan_holds_only {s : HeapState} (hs : HoldsOnly codec.Stores store s) :
    (Table.scan codec).wp
      (fun rows s' => (∀ row ∈ rows, RowConforms codec.registry codec.schema row) ∧
        HoldsOnly codec.Stores store s')
      (fun _ s' => HoldsOnly codec.Stores store s') s := by
  have hbegin : begin_scan.Keeps (HoldsOnly codec.Stores store) :=
    check_open_keeps.bind fun _ => keeps_pure _
  unfold Table.scan Table.scan_rows
  rw [wp_bind, wp_bind, wp_get, wp_bind]
  refine wp_mono (hbegin s hs) (fun handle s1 h1 => ?_) fun _ _ h => h
  rw [wp_zoom, wp_bind]
  refine wp_mono (Table.scan_loop_holds_only _ h1) (fun rows s2 h2 => ?_) fun _ _ h => h
  unfold end_scan set_cursor
  rw [wp_bind, wp_modify, wp_pure, wp_pure]
  refine ⟨fun row hrow => ?_, h2.2⟩
  obtain ⟨found, hfound, rfl⟩ := List.mem_map.mp hrow
  obtain ⟨tuple, ⟨values, hdecode, hrow⟩, heq⟩ := h2.1 found hfound
  rw [hdecode] at heq
  cases heq
  exact hrow

end

/-! ## Bundles -/

/-- The bundle has no file or that of `oid`, and the other files are `files`. -/
structure StaysOn (oid : Nat) (files : Nat → StorageIO) (s : BundleState) : Prop where
  backend : s.bundle.backend = none ∨ s.bundle.backend = some oid
  others : ∀ o ≠ oid, s.backends.files o = files o

namespace OpenedTableBundle

variable {α : Type} {oid : Nat} {files : Nat → StorageIO}

theorem on_engine_stays (engine : EdbHeapEngine) (x : Call Error HeapState α) :
    (on_engine engine x).Keeps (StaysOn oid files) := by
  refine keeps_get_bind fun s h => ?_
  rcases hb : s.bundle.backend with _ | o
  · exact (wp_fail _).mpr h
  · have ho : o = oid := by
      rcases h.backend with hn | hs
      · rw [hb] at hn
        cases hn
      · rw [hb] at hs
        exact Option.some.inj hs
    subst ho
    have hafter : ∀ t : HeapState, StaysOn o files
        { bundle := { s.bundle with engine := some t.engine }
          backends := s.backends.set_file o t.io } := fun t =>
      ⟨h.backend, fun o' ho' => (Function.update_of_ne ho' _ _).trans (h.others o' ho')⟩
    refine (wp_zoom _ _ _).mpr ?_
    exact wp_mono (wp_trivial _ _) (fun _ t _ => hafter t) fun _ t _ => hafter t

theorem on_table_stays (types : TypeRegistry) (x : RowCodec → Call Error HeapState α) :
    (on_table types x).Keeps (StaysOn oid files) := by
  refine keeps_get.bind fun s => ?_
  split
  · exact on_engine_stays _ _
  · exact keeps_fail _

theorem modify_bundle_stays {f : OpenedTableBundle → OpenedTableBundle}
    (hf : ∀ b, (f b).backend = b.backend ∨ (f b).backend = none ∨ (f b).backend = some oid) :
    (modify_bundle f).Keeps (StaysOn oid files) := by
  refine keeps_modify fun s h => ⟨?_, h.others⟩
  rcases hf s.bundle with heq | hset
  · show (f s.bundle).backend = none ∨ (f s.bundle).backend = some oid
    rw [heq]
    exact h.backend
  · exact hset

theorem open_backend_stays : (open_backend oid).Keeps (StaysOn oid files) := by
  refine keeps_get.bind fun s => Keeps.bind (keeps_modify ?_) fun _ => ?_
  · exact fun _ h => ⟨h.backend, h.others⟩
  · split
    · exact keeps_fail _
    · exact modify_bundle_stays fun _ => Or.inr (Or.inr rfl)

theorem open_stays {schema : TableSchema} (hoid : schema.relation_oid = oid) (cfg : EngineConfig) :
    (OpenedTableBundle.open schema cfg).Keeps (StaysOn oid files) := by
  subst hoid
  refine open_backend_stays.bind fun _ => Keeps.bind (modify_bundle_stays ?_) fun _ =>
    keeps_get.bind fun s => (on_engine_stays _ _).attempt.bind fun r => ?_
  · exact fun _ => Or.inl rfl
  · cases r with
    | error e =>
      refine Keeps.bind (modify_bundle_stays ?_) fun _ => keeps_fail _
      exact fun _ => Or.inr (Or.inl rfl)
    | ok _ => exact modify_bundle_stays fun _ => Or.inl rfl

end OpenedTableBundle

/-! ## The catalog -/

/-- The oid is not that of a system table. -/
def IsUser (oid : Nat) : Prop := ∀ t : SystemTable, oid ≠ t.oid

/-- The bundle of an open user table, over its file. -/
structure HoldsRows (types : TypeRegistry) (config : EngineConfig) (oid : Nat)
    (b : OpenedTableBundle) (io : StorageIO) : Prop where
  backend : b.backend = some oid
  rows : ∃ schema e, b.table = some schema ∧ b.engine = some e ∧
    HoldsOnly ({ registry := types, schema := schema.columns } : RowCodec).Stores
      (PageStore.open config.page_size) ⟨e, io⟩

/-- Every user table that is open holds rows of its schema, and the file of one
that was never open is empty. A bundle of a system table has no other file than
that of the system table. -/
structure TablesConform (types : TypeRegistry) (config : EngineConfig) (s : CatalogState) :
    Prop where
  types_eq : s.catalog.types = types
  config_eq : s.catalog.config = config
  system : ∀ t : SystemTable, (s.catalog.system_tables t).backend = none ∨
    (s.catalog.system_tables t).backend = some t.oid
  second : ∀ (t : SystemTable) b, s.catalog.user_tables.lookup t.oid = some b →
    b.backend = none ∨ b.backend = some t.oid
  closed : ∀ oid, IsUser oid → s.catalog.user_tables.lookup oid = none → s.backends.files oid = {}
  opened : ∀ oid, IsUser oid → ∀ b, s.catalog.user_tables.lookup oid = some b →
    HoldsRows types config oid b (s.backends.files oid)

/-- The two catalogs differ in their caches, or in whether they are open. -/
structure Catalog.SameTables (c c' : Catalog) : Prop where
  types : c'.types = c.types
  config : c'.config = c.config
  system_tables : c'.system_tables = c.system_tables
  user_tables : c'.user_tables = c.user_tables

/-- The calls that look something up in the system tables keep the invariant. -/
structure Catalog.KeptByScans (I : CatalogState → Prop) : Prop where
  modify : ∀ f, (∀ c, SameTables c (f c)) → (modify_catalog f).Keeps I
  scan : ∀ t, (scan_system t).Keeps I

namespace Catalog

variable {α : Type} {types : TypeRegistry} {config : EngineConfig} {I J : CatalogState → Prop}

theorem KeptByScans.and (hI : KeptByScans I) (hJ : KeptByScans J) :
    KeptByScans fun s => I s ∧ J s :=
  ⟨fun f hf => (hI.modify f hf).and (hJ.modify f hf), fun t => (hI.scan t).and (hJ.scan t)⟩

theorem check_open_keeps : check_open.Keeps I := by
  refine keeps_get.bind fun s => ?_
  split
  · exact keeps_fail _
  · exact keeps_pure _

theorem KeptByScans.get_type (hI : KeptByScans I) (name : Bytes) : (get_type name).Keeps I := by
  refine check_open_keeps.bind fun _ => keeps_get.bind fun s => ?_
  split
  · exact keeps_pure _
  · refine (hI.scan _).bind fun rows => (keeps_ofExcept _).bind fun r => ?_
    split
    · exact keeps_fail _
    · refine Keeps.bind (hI.modify _ ?_) fun _ => keeps_pure _
      exact fun _ => ⟨rfl, rfl, rfl, rfl⟩

theorem KeptByScans.get_class (hI : KeptByScans I) (name : Bytes) : (get_class name).Keeps I := by
  refine check_open_keeps.bind fun _ => keeps_get.bind fun s => ?_
  split
  · exact keeps_pure _
  · refine (hI.scan _).bind fun rows => (keeps_ofExcept _).bind fun r => ?_
    split
    · exact keeps_fail _
    · refine Keeps.bind (hI.modify _ ?_) fun _ => keeps_pure _
      exact fun _ => ⟨rfl, rfl, rfl, rfl⟩

theorem KeptByScans.get_attributes (hI : KeptByScans I) (oid : Nat) :
    (get_attributes oid).Keeps I := by
  refine check_open_keeps.bind fun _ => keeps_get.bind fun s => ?_
  split
  · exact keeps_pure _
  · refine (hI.scan _).bind fun rows => (keeps_ofExcept _).bind fun r => ?_
    dsimp only
    split
    · exact keeps_fail _
    · refine Keeps.bind (hI.modify _ ?_) fun _ => keeps_pure _
      exact fun _ => ⟨rfl, rfl, rfl, rfl⟩

/-! ### System tables -/

/-- A call on a system table leaves the files of user tables alone. -/
theorem on_system_conform {t : SystemTable} {x : Call Error BundleState α}
    (hx : ∀ files, x.Keeps (StaysOn t.oid files)) :
    (on_system t x).Keeps (TablesConform types config) := by
  intro s h
  have hafter : ∀ u : BundleState, StaysOn t.oid s.backends.files u → TablesConform types config
      { catalog := { s.catalog with
          system_tables := Function.update s.catalog.system_tables t u.bundle }
        backends := u.backends } := by
    intro u hu
    refine ⟨h.types_eq, h.config_eq, fun t' => ?_, h.second, fun oid ho hl => ?_,
      fun oid ho b hb => ?_⟩
    · by_cases ht : t' = t
      · subst ht
        simpa using hu.backend
      · simpa [ht] using h.system t'
    · rw [hu.others oid (ho t)]
      exact h.closed oid ho hl
    · rw [hu.others oid (ho t)]
      exact h.opened oid ho b hb
  refine (wp_zoom _ _ _).mpr ?_
  exact wp_mono (hx s.backends.files _ ⟨h.system t, fun _ _ => rfl⟩) (fun _ u hu => hafter u hu)
    fun _ u hu => hafter u hu

theorem insert_system_conform (t : SystemTable) (values : List Value) :
    (insert_system t values).Keeps (TablesConform types config) :=
  keeps_get.bind fun _ => on_system_conform fun _ => OpenedTableBundle.on_table_stays _ _

theorem conform_kept_by_scans : KeptByScans (TablesConform types config) := by
  refine ⟨fun f hf => keeps_modify fun s h => ?_, fun t => keeps_get.bind fun _ =>
    on_system_conform fun _ => OpenedTableBundle.on_table_stays _ _⟩
  obtain ⟨h1, h2, h3, h4⟩ := hf s.catalog
  refine ⟨h1.trans h.types_eq, h2.trans h.config_eq, ?_, ?_, ?_, ?_⟩ <;> dsimp only
  · rw [h3]
    exact h.system
  · rw [h4]
    exact h.second
  · rw [h4]
    exact h.closed
  · rw [h4]
    exact h.opened

theorem user_tables_kept_by_scans (tables : AList fun _ : Nat => OpenedTableBundle) :
    KeptByScans fun s => s.catalog.user_tables = tables := by
  refine ⟨fun f hf => keeps_modify fun s h => (hf s.catalog).user_tables.trans h, fun t =>
    keeps_get.bind fun _ => fun s h => (wp_zoom _ _ _).mpr ?_⟩
  exact wp_mono (wp_trivial _ _) (fun _ _ _ => h) fun _ _ _ => h

theorem insert_class_conform (oid : Nat) (name relkind : Bytes) :
    (insert_class oid name relkind).Keeps (TablesConform types config) :=
  keeps_get.bind fun _ => (keeps_ofExcept _).bind fun _ =>
    (insert_system_conform _ _).bind fun _ => keeps_pure _

theorem write_schema_attributes_conform (oid index : Nat) (columns : List ColumnSchema) :
    (write_schema_attributes oid index columns).Keeps (TablesConform types config) := by
  induction columns generalizing index with
  | nil => exact keeps_pure _
  | cons column rest ih =>
    exact keeps_get.bind fun _ => (keeps_ofExcept _).bind fun _ =>
      (insert_system_conform _ _).bind fun _ => ih _

/-! ### User tables -/

/-- A user table with another bundle, over files of which only its own differs. -/
theorem conform_with_user {s : CatalogState} {oid : Nat} {u : BundleState}
    (h : TablesConform types config s) (hu : StaysOn oid s.backends.files u)
    (hrows : IsUser oid → HoldsRows types config oid u.bundle (u.backends.files oid)) :
    TablesConform types config
      { catalog := { s.catalog with user_tables := s.catalog.user_tables.insert oid u.bundle }
        backends := u.backends } := by
  refine ⟨h.types_eq, h.config_eq, h.system, fun t b hb => ?_, fun o ho hl => ?_,
    fun o ho b hb => ?_⟩ <;> dsimp only at *
  · by_cases ht : t.oid = oid
    · subst ht
      rw [AList.lookup_insert] at hb
      cases hb
      exact hu.backend
    · rw [AList.lookup_insert_ne ht] at hb
      exact h.second t b hb
  · by_cases hoid : o = oid
    · subst hoid
      rw [AList.lookup_insert] at hl
      cases hl
    · rw [AList.lookup_insert_ne hoid] at hl
      rw [hu.others o hoid]
      exact h.closed o ho hl
  · by_cases hoid : o = oid
    · subst hoid
      rw [AList.lookup_insert] at hb
      cases hb
      exact hrows ho
    · rw [AList.lookup_insert_ne hoid] at hb
      rw [hu.others o hoid]
      exact h.opened o ho b hb

theorem conform_with_backends {s : CatalogState} {backends : RelationBackendFactory}
    (h : TablesConform types config s) (hf : ∀ oid, IsUser oid →
      backends.files oid = s.backends.files oid) : TablesConform types config { s with backends } :=
  ⟨h.types_eq, h.config_eq, h.system, h.second,
    fun oid ho hl => (hf oid ho).trans (h.closed oid ho hl),
    fun oid ho b hb => by
      dsimp only
      rw [hf oid ho]
      exact h.opened oid ho b hb⟩

end Catalog

/-- A table that is opened on an empty file. -/
theorem OpenedTableBundle.open_holds_rows {types : TypeRegistry} {config : EngineConfig}
    (hsize : 0 < config.page_size) (hcap : 1 ≤ config.buffer_pool_pages) {schema : TableSchema}
    {s : BundleState} (hfile : s.backends.files schema.relation_oid = {}) :
    (OpenedTableBundle.open schema config).wp
      (fun _ s' => HoldsRows types config schema.relation_oid s'.bundle
        (s'.backends.files schema.relation_oid))
      (fun _ s' => s'.backends.files = s.backends.files) s := by
  unfold OpenedTableBundle.open OpenedTableBundle.open_backend
  rw [wp_bind, wp_bind, wp_get, wp_bind, wp_modify]
  split
  · exact (wp_fail _).mpr rfl
  · unfold OpenedTableBundle.modify_bundle
    rw [wp_modify, wp_bind, wp_modify, wp_bind, wp_get, wp_bind, wp_attempt]
    unfold OpenedTableBundle.on_engine
    rw [wp_bind, wp_get]
    dsimp only
    rw [wp_zoom, hfile]
    refine wp_mono (open_holds_only (P := (RowCodec.mk types schema.columns).Stores) hsize hcap rfl)
      (fun _ t ht => ?_) fun _ _ hf => hf.elim
    refine (wp_modify _).mpr ⟨rfl, schema, t.engine, rfl, rfl, ?_⟩
    simpa [RelationBackendFactory.set_file] using ht

/-- A call on an open table that keeps a heap of rows of the schema. -/
theorem OpenedTableBundle.on_table_holds_rows {α : Type} {types : TypeRegistry}
    {config : EngineConfig} {oid : Nat} {x : RowCodec → Call Error HeapState α}
    {Q : List ColumnSchema → α → Prop}
    (hx : ∀ columns s,
      HoldsOnly (RowCodec.mk types columns).Stores (PageStore.open config.page_size) s →
      (x ⟨types, columns⟩).wp
        (fun a s' => Q columns a ∧
          HoldsOnly (RowCodec.mk types columns).Stores (PageStore.open config.page_size) s')
        (fun _ s' =>
          HoldsOnly (RowCodec.mk types columns).Stores (PageStore.open config.page_size) s') s)
    {s : BundleState} (h : HoldsRows types config oid s.bundle (s.backends.files oid)) :
    (OpenedTableBundle.on_table types x).wp
      (fun a s' => (∃ schema, s.bundle.table = some schema ∧ Q schema.columns a) ∧
        HoldsRows types config oid s'.bundle (s'.backends.files oid))
      (fun _ s' => HoldsRows types config oid s'.bundle (s'.backends.files oid)) s := by
  obtain ⟨hbackend, schema, e, htable, hengine, hrows⟩ := h
  unfold OpenedTableBundle.on_table
  rw [wp_bind, wp_get]
  simp only [htable, hengine]
  unfold OpenedTableBundle.on_engine
  rw [wp_bind, wp_get]
  simp only [hbackend]
  rw [wp_zoom]
  have hafter : ∀ t : HeapState,
      HoldsOnly (RowCodec.mk types schema.columns).Stores (PageStore.open config.page_size) t →
      HoldsRows types config oid { s.bundle with engine := some t.engine }
        ((s.backends.set_file oid t.io).files oid) := by
    intro t ht
    refine ⟨hbackend, schema, t.engine, htable, rfl, ?_⟩
    simpa [RelationBackendFactory.set_file] using ht
  exact wp_mono (hx schema.columns _ hrows)
    (fun a t ht => ⟨⟨schema, rfl, ht.1⟩, hafter t ht.2⟩) fun _ t ht => hafter t ht

namespace Catalog

variable {α : Type} {types : TypeRegistry} {config : EngineConfig}

/-- Whatever is done to a table that is open under an oid, it is done to its own
file, and the rows of a user table are kept. -/
theorem on_user_conform {oid : Nat} {x : RowCodec → Call Error HeapState α}
    {Q : List ColumnSchema → α → Prop}
    (hx : ∀ columns s,
      HoldsOnly (RowCodec.mk types columns).Stores (PageStore.open config.page_size) s →
      (x ⟨types, columns⟩).wp
        (fun a s' => Q columns a ∧
          HoldsOnly (RowCodec.mk types columns).Stores (PageStore.open config.page_size) s')
        (fun _ s' =>
          HoldsOnly (RowCodec.mk types columns).Stores (PageStore.open config.page_size) s') s)
    {s : CatalogState} (h : TablesConform types config s) :
    (on_user oid (OpenedTableBundle.on_table types x)).wp
      (fun a s' => (IsUser oid → ∃ b schema, s.catalog.user_tables.lookup oid = some b ∧
          b.table = some schema ∧ Q schema.columns a) ∧ TablesConform types config s')
      (fun _ s' => TablesConform types config s') s := by
  unfold on_user
  rw [wp_bind, wp_get]
  rcases hb : s.catalog.user_tables.lookup oid with _ | b
  · exact (wp_fail _).mpr h
  · dsimp only
    rw [wp_zoom]
    have hkeep : (OpenedTableBundle.on_table types x).Keeps (StaysOn oid s.backends.files) :=
      OpenedTableBundle.on_table_stays types x
    by_cases huser : IsUser oid
    · have hrows := h.opened oid huser b hb
      have hstay := hkeep { bundle := b, backends := s.backends }
        ⟨Or.inr hrows.backend, fun _ _ => rfl⟩
      refine wp_mono (wp_and hstay (OpenedTableBundle.on_table_holds_rows hx
        (s := { bundle := b, backends := s.backends }) hrows)) ?_ ?_
      · rintro a u ⟨hu, ⟨schema, htable, hQ⟩, hr⟩
        exact ⟨fun _ => ⟨b, schema, rfl, htable, hQ⟩, conform_with_user h hu fun _ => hr⟩
      · rintro e u ⟨hu, hr⟩
        exact conform_with_user h hu fun _ => hr
    · obtain ⟨t, rfl⟩ : ∃ t : SystemTable, oid = t.oid := by
        unfold IsUser at huser
        push Not at huser
        exact huser
      have hstay := hkeep { bundle := b, backends := s.backends } ⟨h.second t b hb, fun _ _ => rfl⟩
      exact wp_mono hstay
        (fun _ u hu => ⟨fun hno => absurd hno huser, conform_with_user h hu fun hno => absurd hno huser⟩)
        fun _ u hu => conform_with_user h hu fun hno => absurd hno huser

theorem insert_conform {values : List Value} (hmade : ∀ v ∈ values, v.Made types) (oid : Nat) :
    (insert oid values).Keeps (TablesConform types config) := by
  refine keeps_get_bind fun s h => ?_
  rw [h.types_eq]
  refine wp_mono (on_user_conform (Q := fun _ _ => True) (fun columns t ht => ?_) h)
    (fun _ _ h' => h'.2) fun _ _ h' => h'
  exact wp_mono (Table.insert_holds_only hmade t ht) (fun _ _ h' => ⟨trivial, h'⟩) fun _ _ h' => h'

/-- A scan of a user table gives rows of its schema. -/
theorem scan_conform {s : CatalogState} (h : TablesConform types config s) (oid : Nat) :
    (scan oid).wp
      (fun rows s' => (IsUser oid → ∃ b schema, s.catalog.user_tables.lookup oid = some b ∧
        b.table = some schema ∧ ∀ row ∈ rows, RowConforms types schema.columns row) ∧
        TablesConform types config s')
      (fun _ s' => TablesConform types config s') s := by
  unfold scan
  rw [wp_bind, wp_get, h.types_eq]
  exact on_user_conform (Q := fun columns rows => ∀ row ∈ rows, RowConforms types columns row)
    (fun columns t ht => Table.scan_holds_only ht) h

/-! ### Opening and creating tables -/

section

variable (hsize : 0 < config.page_size) (hcap : 1 ≤ config.buffer_pool_pages)

include hsize hcap

/-- The bundle of a table that is opened while none is open under its oid. -/
theorem open_bundle_conform {s : CatalogState} {schema : TableSchema}
    (h : TablesConform types config s)
    (hnone : s.catalog.user_tables.lookup schema.relation_oid = none) :
    (do
      let bundle ← ((do
          OpenedTableBundle.open schema config
          let t ← .get
          pure t.bundle) : Call Error BundleState OpenedTableBundle).zoom
        (fun s => { bundle := {}, backends := s.backends })
        fun t s => { s with backends := t.backends }
      modify_catalog fun c =>
        { c with user_tables := c.user_tables.insert schema.relation_oid bundle }
      pure schema.relation_oid : Call Error CatalogState Nat).wp
      (fun _ => TablesConform types config) (fun _ => TablesConform types config) s := by
  have hkeep : (OpenedTableBundle.open schema config).Keeps
      (StaysOn schema.relation_oid s.backends.files) := OpenedTableBundle.open_stays rfl config
  have hstay := hkeep { bundle := {}, backends := s.backends } ⟨Or.inl rfl, fun _ _ => rfl⟩
  rw [wp_bind, wp_zoom, wp_bind]
  by_cases huser : IsUser schema.relation_oid
  · have hopen : (OpenedTableBundle.open schema config).wp
        (fun _ u => HoldsRows types config schema.relation_oid u.bundle _) _ _ :=
      OpenedTableBundle.open_holds_rows hsize hcap
        (s := { bundle := {}, backends := s.backends }) (h.closed _ huser hnone)
    refine wp_mono (wp_and hstay hopen) ?_ ?_
    · rintro _ u ⟨hu, hrows⟩
      rw [wp_bind, wp_get, wp_pure, wp_bind]
      exact (wp_modify _).mpr ((wp_pure _).mpr (conform_with_user (s := s) h hu fun _ => hrows))
    · rintro e u ⟨-, hfiles⟩
      exact conform_with_backends h fun o _ => congrFun hfiles o
  · have hother : ∀ o, IsUser o → o ≠ schema.relation_oid := fun o ho he => huser (he ▸ ho)
    refine wp_mono hstay (fun _ u hu => ?_) fun _ u hu => ?_
    · rw [wp_bind, wp_get, wp_pure, wp_bind]
      exact (wp_modify _).mpr ((wp_pure _).mpr
        (conform_with_user (s := s) h hu fun hno => absurd hno huser))
    · exact conform_with_backends h fun o ho => hu.others o (hother o ho)

theorem ensure_user_table_open_conform (oid : Nat) (name : Bytes) :
    (ensure_user_table_open oid name []).Keeps (TablesConform types config) := by
  refine keeps_get_bind fun s h => ?_
  split
  · exact (wp_pure _).mpr h
  · rename_i hnone
    -- the lookup of the columns opens no table
    have hkept : KeptByScans fun s' => TablesConform types config s' ∧
        s'.catalog.user_tables = s.catalog.user_tables :=
      conform_kept_by_scans.and (user_tables_kept_by_scans s.catalog.user_tables)
    rw [if_pos (by rfl), wp_bind]
    refine wp_mono (hkept.get_attributes oid s ⟨h, rfl⟩) (fun resolved s1 h1 => ?_)
      fun _ _ h1 => h1.1
    rw [h.config_eq]
    refine open_bundle_conform hsize hcap h1.1 ?_
    dsimp only
    rw [h1.2]
    simpa using hnone

theorem open_table_conform (name : Bytes) :
    (open_table name).Keeps (TablesConform types config) :=
  check_open_keeps.bind fun _ => (conform_kept_by_scans.get_class name).bind fun _ =>
    ensure_user_table_open_conform hsize hcap _ _

theorem conform_kept_by_lookups : KeptByLookups (TablesConform types config) :=
  ⟨conform_kept_by_scans.get_type, conform_kept_by_scans.get_class, open_table_conform hsize hcap⟩

theorem create_table_conform (spec : CreateTableSpec) :
    (create_table spec).Keeps (TablesConform types config) := by
  have hnext : next_relation_oid.Keeps (TablesConform types config) :=
    keeps_get.bind fun _ => (conform_kept_by_scans.scan _).bind fun _ =>
      (keeps_ofExcept _).bind fun _ => keeps_pure _
  refine check_open_keeps.bind fun _ => ?_
  split
  · exact keeps_fail _
  · refine (conform_kept_by_scans.get_class _).attempt.bind fun r => ?_
    cases r with
    | ok _ => exact keeps_fail _
    | error e =>
      dsimp only
      split
      · exact keeps_fail _
      · refine keeps_get.bind fun s => ?_
        split
        · exact keeps_fail _
        · refine hnext.bind fun oid => (insert_class_conform _ _ _).bind fun _ =>
            (write_schema_attributes_conform _ _ _).bind fun _ => Keeps.bind
              (conform_kept_by_scans.modify _ ?_) fun _ =>
                ensure_user_table_open_conform hsize hcap _ _
          exact fun _ => ⟨rfl, rfl, rfl, rfl⟩

end

theorem open_system_table_conform (t : SystemTable) :
    (open_system_table t).Keeps (TablesConform types config) := by
  refine keeps_get_bind fun s h => ?_
  rw [wp_bind, wp_ofExcept]
  refine ⟨fun schema hschema => ?_, fun _ _ => h⟩
  have hoid : schema.relation_oid = t.oid := by
    unfold system_schema at hschema
    split at hschema
    · cases hschema
      rfl
    · cases hschema
  exact on_system_conform (fun files => OpenedTableBundle.open_stays hoid _) s h

theorem bootstrap_catalog_conform : bootstrap_catalog.Keeps (TablesConform types config) := by
  refine Keeps.bind (keeps_each (fun name => ?_) _) fun _ => Keeps.bind (keeps_each (fun t => ?_) _)
    fun _ => Keeps.bind (conform_kept_by_scans.scan _) fun _ => keeps_each (fun t => ?_) _
  · exact keeps_get.bind fun _ => (keeps_ofExcept _).bind fun _ => (keeps_ofExcept _).bind fun _ =>
      (insert_system_conform _ _).bind fun _ => keeps_pure _
  · exact insert_class_conform _ _ _
  · exact keeps_get.bind fun _ => write_schema_attributes_conform _ _ _

theorem open_conform : Catalog.open.Keeps (TablesConform types config) := by
  refine (keeps_each open_system_table_conform SystemTable.all).bind fun _ => Keeps.bind ?_ fun _ =>
    conform_kept_by_scans.modify _ fun _ => ⟨rfl, rfl, rfl, rfl⟩
  refine (conform_kept_by_scans.scan _).bind fun classes => ?_
  split
  · exact keeps_pure _
  · exact bootstrap_catalog_conform

end Catalog

/-! ## Runs -/

section

variable {types : TypeRegistry} {config : EngineConfig} (hsize : 0 < config.page_size)
  (hcap : 1 ≤ config.buffer_pool_pages)

include hsize hcap

theorem conform_kept_by_statements :
    Catalog.KeptByStatements types (TablesConform types config) :=
  ⟨Catalog.conform_kept_by_lookups hsize hcap, Catalog.create_table_conform hsize hcap,
    fun oid _ hmade => Catalog.insert_conform hmade oid,
    fun oid _ h => wp_mono (Catalog.scan_conform h oid) (fun _ _ h' => h'.2) fun _ _ h' => h'⟩

theorem conform_after (statements : List Bytes) : TablesConform types config
    (QueryEngine.after types statements (QueryEngine.fresh types config)).catalog := by
  refine QueryEngine.after_keeps (conform_kept_by_statements hsize hcap) statements ?_
  refine Catalog.open_conform.after ⟨rfl, rfl, fun _ => Or.inl rfl, ?_, fun _ _ _ => rfl, ?_⟩
  · intro t b hb
    simp at hb
  · intro oid _ b hb
    simp at hb

end

/-- What a client reads of a table: its oid, its schema and its rows. -/
def Catalog.read_table (name : Bytes) :
    Call Error CatalogState (Nat × TableSchema × List (List Value)) := do
  let oid ← Catalog.open_table name
  let schema ← Catalog.schema oid
  let rows ← Catalog.scan oid
  pure (oid, schema, rows)

/-- After any statements, each row that a scan of a user table gives has one
value for each column of the schema of the table. The value has the type of the
column, it is a null only where the column may be null, and its bytes are ones
that the type makes of a text. -/
theorem scanned_rows_conform (types : TypeRegistry) (config : EngineConfig)
    (hsize : 0 < config.page_size) (hcap : 1 ≤ config.buffer_pool_pages)
    (statements : List Bytes) (name : Bytes) (oid : Nat) (schema : TableSchema)
    (rows : List (List Value)) (s : CatalogState) (huser : IsUser oid)
    (hread : (Catalog.read_table name).run
      (QueryEngine.after types statements (QueryEngine.fresh types config)).catalog =
        (.ok (oid, schema, rows), s)) :
    ∀ row ∈ rows, RowConforms types schema.columns row := by
  obtain ⟨oid', s1, hopen, hread⟩ := exists_of_run_bind hread
  obtain ⟨schema', s2, hschema, hread⟩ := exists_of_run_bind hread
  obtain ⟨rows', s3, hscan, hread⟩ := exists_of_run_bind hread
  cases hread
  have hkeep : (Catalog.open_table name).Keeps (TablesConform types config) :=
    Catalog.open_table_conform hsize hcap name
  have h1 := wp_ok (hkeep _ (conform_after hsize hcap statements)) hopen
  have hsame := wp_ok (Catalog.schema_keeps (I := fun s => s = s1) oid s1 rfl) hschema
  subst hsame
  obtain ⟨hrows, -⟩ := wp_ok (Catalog.scan_conform h1 oid) hscan
  obtain ⟨b, schema', hb, htable, hrows⟩ := hrows huser
  unfold Catalog.schema at hschema
  rw [run_bind_ok _ (run_get s2), hb] at hschema
  simp only [Option.bind_some, htable, run_pure, Prod.mk.injEq, Except.ok.injEq] at hschema
  rw [← hschema.1]
  exact hrows

/-- An engine with pages of 400 bytes after an insert that fails and one of two
rows. -/
def two_inserts : QueryEngine :=
  QueryEngine.after builtin_registry [
    str "CREATE TABLE t (a INT, b TEXT NOT NULL)",
    str "INSERT INTO t (b, a) VALUES (1, 'x')",
    str "INSERT INTO t VALUES (1, 'x'), (NULL, 'y')"] (QueryEngine.fresh builtin_registry ⟨400, 8, {}⟩)

theorem rows_of_two_inserts_conform :
    RowConforms builtin_registry [⟨str "a", 1, true⟩, ⟨str "b", 5, false⟩]
        [⟨1, [1, 0, 0, 0], false⟩, ⟨5, [120], false⟩] ∧
      RowConforms builtin_registry [⟨str "a", 1, true⟩, ⟨str "b", 5, false⟩]
        [⟨1, [], true⟩, ⟨5, [121], false⟩] := by
  have hread : ((Catalog.read_table (str "t")).run two_inserts.catalog).1 =
      .ok (5, ⟨5, str "t", [⟨str "a", 1, true⟩, ⟨str "b", 5, false⟩]⟩,
        [[⟨1, [1, 0, 0, 0], false⟩, ⟨5, [120], false⟩], [⟨1, [], true⟩, ⟨5, [121], false⟩]]) := by
    decide +kernel
  have hrows := scanned_rows_conform builtin_registry ⟨400, 8, {}⟩ (by decide) (by decide) _
    (str "t") 5 ⟨5, str "t", [⟨str "a", 1, true⟩, ⟨str "b", 5, false⟩]⟩ _ _
    (fun t => by cases t <;> decide) (run_eq_of_fst hread)
  exact ⟨hrows _ List.mem_cons_self, hrows _ (List.mem_cons_of_mem _ List.mem_cons_self)⟩

end edb
