-- Tables that are opened and closed. A table that is opened on a file has
-- nothing to write and serves what the file holds; a close brings what it
-- serves to the file.
import Edb.CatalogWrites

namespace edb

open Call StorageIO

theorem StorageIO.close_run {io : StorageIO} (hio : io.Healthy) :
    StorageIO.close.run io = (.ok (), io) := by
  obtain ⟨bytes, faults⟩ := io
  cases hio
  rfl

theorem RelationBackendFactory.set_file_self (backends : RelationBackendFactory) (oid : Nat) :
    backends.set_file oid (backends.files oid) = backends := by
  unfold set_file
  rw [Function.update_eq_self]

theorem RelationBackendFactory.set_file_same (backends : RelationBackendFactory) (oid : Nat)
    (io : StorageIO) : (backends.set_file oid io).files oid = io := Function.update_self _ _ _

/-- A file of whole pages holds some pages. -/
theorem BufferPool.exists_stored {store : PageStore} {io : StorageIO} (hl : store.Laid io)
    (hio : io.Healthy) : ∃ m, BufferPool.Stored store m io := by
  refine ⟨(List.range (store.pages io)).map (store.page io), hl, hio.readsWell, by simp, ?_⟩
  intro p d hd
  rw [List.getElem?_map] at hd
  by_cases hp : p < store.pages io
  · rw [List.getElem?_range hp] at hd
    exact Option.some.inj hd
  · rw [List.getElem?_eq_none (by simpa using hp)] at hd
    cases hd

/-! ## Bundles -/

/-- A table that was just opened on the pages `m` of a file. -/
structure Fresh (c : Setup) (schema : TableSchema) (m : List Bytes) (b : OpenedTableBundle)
    (io : StorageIO) : Prop where
  backend : b.backend = some schema.relation_oid
  table : b.table = some schema
  stored : BufferPool.Stored c.store m io
  engine : ∃ e, b.engine = some e ∧ Ready c.store c.config.buffer_pool_pages m [] ⟨e, io⟩ ∧
    e.Idle c.store ∧
    ∀ f ∈ e.buffer_pool.frames, f.data = List.replicate c.store.page_size 0

namespace Fresh

variable {c : Setup} {schema : TableSchema} {m : List Bytes} {h : Heap} {b : OpenedTableBundle}
  {io : StorageIO}

theorem idle (hf : Fresh c schema m b io) : IdleTable c schema b := by
  obtain ⟨e, he, -, hidle, -⟩ := hf.engine
  exact ⟨hf.backend, hf.table, e, he, hidle⟩

theorem serves (hf : Fresh c schema m b io) (hs : Slotted m h) : Serves c schema m h b io := by
  obtain ⟨e, he, hr, -, -⟩ := hf.engine
  exact ⟨hf.backend, hf.table, e, he, hr, hs, c.header, c.page_max⟩

theorem slots (hf : Fresh c schema m b io) (hs : Slotted m h) (hio : io.Healthy)
    {e : EdbHeapEngine} (he : b.engine = some e) :
    OnPool c.store (EdbHeapEngine.Slots c.store) ⟨e, io⟩ := by
  obtain ⟨e', he', hr, -, hzero⟩ := hf.engine
  rw [he] at he'
  cases he'
  have hpage := heap.page_zeros c.header c.page_max
  refine ⟨hr.opened, hr.page_store, hr.pool.opened, hr.pool.laid, hio, fun f hf' => ?_,
    fun f hf' => ?_, fun p hp => ?_⟩
  · rw [hzero f hf']
    simp
  · rw [hzero f hf']
    exact hpage
  · have hlt : p < m.length := hf.stored.count ▸ hp
    have hd := List.getElem?_eq_getElem hlt
    rw [hf.stored.page p _ hd]
    obtain ⟨slots, -, hgood⟩ := hs.slots_of hd
    exact ⟨hr.pool.length_of_page hd, slots, hgood⟩

end Fresh

namespace OpenedTableBundle

variable {c : Setup} {schema : TableSchema} {m : List Bytes} {h : Heap} {u : BundleState}

theorem open.spec (href : u.backends.refusals = [])
    (hst : BufferPool.Stored c.store m (u.backends.files schema.relation_oid)) :
    (OpenedTableBundle.open schema c.config).wp
      (fun _ u' => u'.backends = u.backends ∧
        Fresh c schema m u'.bundle (u.backends.files schema.relation_oid))
      (fun _ _ => False) u := by
  obtain ⟨bundle, files, refusals⟩ := u
  simp only at href hst
  subst href
  unfold OpenedTableBundle.open open_backend
  rw [wp_bind, wp_bind, wp_get, wp_bind, wp_modify]
  simp only [List.head?_nil, modify_bundle]
  rw [wp_modify, wp_bind, wp_modify, wp_bind, wp_get, wp_bind, wp_attempt]
  unfold on_engine
  rw [wp_bind, wp_get]
  simp only
  rw [wp_zoom]
  have hopen := EdbHeapEngine.open.spec (s := ⟨{}, files schema.relation_oid⟩)
    hst c.frames rfl
  have hclean := EdbHeapEngine.open_clean c.store c.config ⟨{}, files schema.relation_oid⟩
  apply wp_mono (wp_and hopen hclean) _ fun _ _ hf => hf.1.elim
  rintro _ t ⟨⟨hr, hio'⟩, hcl, hzero⟩
  have hio : t.io = files schema.relation_oid := hio'
  rw [wp_modify]
  refine ⟨?_, rfl, rfl, hst, t.engine, rfl, ?_, EdbHeapEngine.idle_of_clean hcl, hzero⟩
  · show RelationBackendFactory.mk (Function.update files _ t.io) [] = _
    rw [hio, Function.update_eq_self]
  · rw [← hio]
    exact hr

/-- A close of the engine that goes through is a close of the table. -/
theorem wp_close {oid : Nat} {e : EdbHeapEngine} {P : StorageIO → Prop}
    (he : u.bundle.engine = some e) (hb : u.bundle.backend = some oid)
    (hclose : EdbHeapEngine.close.wp (fun _ s' => P s'.io ∧ s'.io.Healthy) (fun _ _ => False)
      ⟨e, u.backends.files oid⟩) :
    close.wp
      (fun _ u' => u'.bundle.engine = none ∧ u'.bundle.backend = none ∧
        ∃ io, u'.backends = u.backends.set_file oid io ∧ P io ∧ io.Healthy)
      (fun _ _ => False) u := by
  obtain ⟨⟨backend, page_store, engine, table⟩, backends⟩ := u
  simp only at he hb hclose
  subst he hb
  unfold close
  simp only [modify_bundle]
  rw [wp_bind, wp_modify, wp_bind, wp_get]
  simp only
  unfold on_engine
  rw [wp_bind, wp_bind, wp_get]
  simp only
  rw [wp_zoom]
  apply wp_mono hclose _ fun _ _ hf => hf
  rintro _ t ⟨hp, hio⟩
  rw [wp_bind, wp_modify, wp_bind, wp_modify, wp_bind, wp_zoom]
  simp only [RelationBackendFactory.set_file_same]
  refine wp_of_run_ok (close_run hio) ((wp_modify _).mpr ⟨rfl, rfl, t.io, ?_, hp, hio⟩)
  show RelationBackendFactory.set_file (backends.set_file oid t.io) oid t.io = _
  simp [RelationBackendFactory.set_file]

/-- A close brings the heap to the file. -/
theorem close.spec (hs : Serves c schema m h u.bundle (u.backends.files schema.relation_oid))
    (hio : (u.backends.files schema.relation_oid).Healthy) :
    close.wp
      (fun _ u' => u'.bundle.engine = none ∧ u'.bundle.backend = none ∧
        ∃ io, u'.backends = u.backends.set_file schema.relation_oid io ∧ FileHolds c m h io ∧
          io.Healthy)
      (fun _ _ => False) u := by
  obtain ⟨e, he, hh⟩ := hs.engine
  refine wp_close he hs.backend ?_
  apply wp_mono (EdbHeapEngine.close.spec hh.ready)
  · exact fun _ s' hc => ⟨⟨hc.2.1, hh.slotted⟩, hc.2.2.healthy hio⟩
  · rintro _ s' ⟨-, -, -, -, ⟨j, -, hlets⟩ | ⟨-, hsync⟩⟩
    · rw [hio.lets] at hlets
      cases hlets
    · unfold StorageIO.Healthy at hio
      simp [hio] at hsync

/-- A table that has nothing to write leaves the file as it is. -/
theorem close_idle (hs : IdleTable c schema u.bundle)
    (hio : (u.backends.files schema.relation_oid).Healthy) :
    close.wp (fun _ u' => u'.backends = u.backends) (fun _ _ => False) u := by
  obtain ⟨e, he, hidle⟩ := hs.engine
  have hclose := EdbHeapEngine.close_clean (hidle (u.backends.files schema.relation_oid)) hio rfl
  apply wp_mono (wp_close (P := (· = u.backends.files schema.relation_oid)) he hs.backend
    (wp_mono hclose (fun _ s' h => ⟨h, h ▸ hio⟩) fun _ _ hf => hf)) _ fun _ _ hf => hf
  rintro _ u' ⟨-, -, io, hbackends, rfl, -⟩
  rw [hbackends, RelationBackendFactory.set_file_self]

/-- A close of a table that is not open does nothing to the files. -/
theorem close_closed (he : u.bundle.engine = none) (hb : u.bundle.backend = none) :
    close.wp
      (fun _ u' => u'.bundle.engine = none ∧ u'.bundle.backend = none ∧
        u'.backends = u.backends)
      (fun _ _ => False) u := by
  obtain ⟨⟨backend, page_store, engine, table⟩, backends⟩ := u
  simp only at he hb
  subst he hb
  unfold close
  simp only [modify_bundle]
  rw [wp_bind, wp_modify, wp_bind, wp_get]
  simp only
  rw [wp_bind, wp_modify]
  exact (wp_pure _).mpr ⟨rfl, rfl, rfl⟩

end OpenedTableBundle

/-! ## Tables of the catalog -/

namespace Running

variable {c : Setup} {a : CatalogModel} {s : CatalogState}

/-- Another model that says the same of everything but the rows under one oid. -/
structure SameBesides (a a' : CatalogModel) (oid : Nat) : Prop where
  relations : a'.relations = a.relations
  written : a'.written = a.written
  inserted : ∀ o, o ≠ oid → a'.inserted o = a.inserted o
  rows : ∀ o, o ≠ oid → a'.rows o = a.rows o

theorem SameBesides.refl (a : CatalogModel) (oid : Nat) : SameBesides a a oid :=
  ⟨rfl, rfl, fun _ _ => rfl, fun _ _ => rfl⟩

theorem SameBesides.content {a' : CatalogModel} {oid : Nat} (h : SameBesides a a' oid)
    (types : TypeRegistry) (t : SystemTable) : a'.content types t = a.content types t := by
  cases t <;> simp only [CatalogModel.content, h.relations]

theorem SameBesides.caches {a' : CatalogModel} {oid : Nat} (h : SameBesides a a' oid)
    {catalog : Catalog} (hc : CachesHold a catalog) : CachesHold a' catalog := by
  refine ⟨hc.types, ?_, ?_⟩
  · rw [h.relations]
    exact hc.classes
  · rw [h.relations]
    exact hc.attributes

/-- A call on one user table leaves the other tables as they are. -/
theorem with_user (hr : Running c a s) {a' : CatalogModel} {oid : Nat} {b : OpenedTableBundle}
    {io : StorageIO} {m : List Bytes} {h : Heap} (hoid : 5 ≤ oid) (hsame : SameBesides a a' oid)
    (hu : UserHolds c a' oid (some b) io m h) : Running c a' (s.with_user oid b io) := by
  have hlookup : ∀ o, o ≠ oid →
      (s.with_user oid b io).catalog.user_tables.lookup o = s.catalog.user_tables.lookup o :=
    fun o ho => AList.lookup_insert_ne ho
  have hfile : ∀ o, o ≠ oid → (s.with_user oid b io).backends.files o = s.backends.files o :=
    fun o ho => Function.update_of_ne ho _ _
  refine ⟨hr.types, hr.config, hr.refusals, fun t => ?_, fun o ho => ?_, fun o ho => ?_,
    hsame.caches ⟨hr.caches.types, hr.caches.classes, hr.caches.attributes⟩⟩
  · have hne : t.oid ≠ oid := by
      have := t.oid_lt
      omega
    obtain ⟨m', h', hs⟩ := hr.system t
    refine ⟨m', h', ?_⟩
    rw [hlookup _ hne, hfile _ hne]
    exact ⟨hs.serves, hs.healthy, by rw [hsame.content]; exact hs.content,
      by rw [hsame.inserted _ hne]; exact hs.pages, hs.idle,
      by rw [hsame.written]; exact hs.unwritten⟩
  · by_cases hoo : o = oid
    · subst hoo
      refine ⟨m, h, ?_⟩
      have h1 : (s.with_user o b io).catalog.user_tables.lookup o = some b := AList.lookup_insert _
      have h2 : (s.with_user o b io).backends.files o = io := Function.update_self _ _ _
      rw [h1, h2]
      exact hu
    · obtain ⟨m', h', hu'⟩ := hr.user o ho
      refine ⟨m', h', ?_⟩
      rw [hlookup _ hoo, hfile _ hoo]
      exact ⟨hu'.healthy, by rw [hsame.inserted _ hoo]; exact hu'.pages,
        by rw [hsame.rows _ hoo]; exact hu'.rows, hu'.closed,
        by rw [hsame.relations]; exact hu'.opened⟩
  · rcases (AList.mem_insert _).mp ho with rfl | ho
    · omega
    · exact hr.keys o ho

/-- A second table on the file of a system table leaves all as it is. -/
theorem with_alias (hr : Running c a s) {t : SystemTable} {b : OpenedTableBundle} {m : List Bytes}
    {h : Heap}
    (hs : SystemHolds c a t (s.catalog.system_tables t) (some b) (s.backends.files t.oid) m h) :
    Running c a (s.with_user t.oid b (s.backends.files t.oid)) := by
  have hfiles : (s.with_user t.oid b (s.backends.files t.oid)).backends = s.backends :=
    s.backends.set_file_self _
  refine ⟨hr.types, hr.config, hr.refusals, fun t' => ?_, fun o ho => ?_, fun o ho => ?_,
    ⟨hr.caches.types, hr.caches.classes, hr.caches.attributes⟩⟩
  · rw [hfiles]
    by_cases ht : t' = t
    · subst ht
      have hlookup : (s.with_user t'.oid b (s.backends.files t'.oid)).catalog.user_tables.lookup
          t'.oid = some b := AList.lookup_insert _
      rw [hlookup]
      exact ⟨m, h, hs⟩
    · have hlookup : (s.with_user t.oid b (s.backends.files t.oid)).catalog.user_tables.lookup
          t'.oid = s.catalog.user_tables.lookup t'.oid :=
        AList.lookup_insert_ne fun he => ht (SystemTable.oid_injective he)
      rw [hlookup]
      exact hr.system t'
  · have hne : o ≠ t.oid := by
      have := t.oid_lt
      omega
    have hlookup : (s.with_user t.oid b (s.backends.files t.oid)).catalog.user_tables.lookup o =
        s.catalog.user_tables.lookup o := AList.lookup_insert_ne hne
    rw [hfiles, hlookup]
    exact hr.user o ho
  · rcases (AList.mem_insert _).mp ho with rfl | ho
    · exact t.oid_lt.1
    · exact hr.keys o ho

end Running

/-- A system table with nothing to write has its heap in the file. -/
theorem SystemHolds.stored {c : Setup} {a : CatalogModel} {t : SystemTable} {b : OpenedTableBundle}
    {second : Option OpenedTableBundle} {io : StorageIO} {m : List Bytes} {h : Heap}
    (hs : SystemHolds c a t b second io m h) :
    ∃ m', BufferPool.Stored c.store m' io ∧ (a.written t = false → m' = m ∧ Slotted m h) := by
  obtain ⟨e, he, hh⟩ := hs.serves.engine
  cases hw : a.written t with
  | true =>
    obtain ⟨m', hm'⟩ := BufferPool.exists_stored hh.ready.pool.laid hs.healthy
    exact ⟨m', hm', nofun⟩
  | false =>
    obtain ⟨e', he', hidle⟩ := (hs.unwritten hw).1.engine
    rw [he] at he'
    cases he'
    exact ⟨m, BufferPool.stored_of_flushed hh.ready.pool (hidle io).pool.pending_eq,
      fun _ => ⟨rfl, hh.slotted⟩⟩

theorem Relation.schema_system (t : SystemTable) : (Relation.system t).schema = t.schema := by
  cases t <;> rfl

namespace Catalog

variable {c : Setup} {a : CatalogModel} {s : CatalogState}

/-- The table that is open under the oid of a relation has the columns of the
relation. -/
theorem schema_of_open (hc : HoldsCatalog c a s) (ho : a.opened = true) {r : Relation}
    (hr : r ∈ a.relations) {b : OpenedTableBundle}
    (hb : s.catalog.user_tables.lookup r.oid = some b) :
    b.table = some r.schema ∧ r.columns ≠ [] := by
  have hrun := hc.running ho
  rcases hc.well_formed.kinds r hr with ⟨t, rfl⟩ | ⟨hoid, -⟩
  · obtain ⟨m, h, hs⟩ := hrun.system t
    refine ⟨?_, by cases t <;> decide⟩
    rw [Relation.schema_system]
    exact (hs.idle b hb).table
  · obtain ⟨m, h, hu⟩ := hrun.user r.oid hoid
    obtain ⟨r', hr', hroid, hne, hserves, -⟩ := hu.opened b hb
    cases List.inj_on_of_nodup_map hc.well_formed.oids hr' hr hroid
    exact ⟨hserves.table, hne⟩

/-- A table that is just opened on the file of a relation joins the tables that
are open. -/
theorem open_bundle (hc : HoldsCatalog c a s) (ho : a.opened = true) {r : Relation}
    (hr : r ∈ a.relations) (hne : r.columns ≠ [])
    (hnone : s.catalog.user_tables.lookup r.oid = none) :
    ∃ m, BufferPool.Stored c.store m (s.backends.files r.oid) ∧
      ∀ b, Fresh c r.schema m b (s.backends.files r.oid) →
        HoldsCatalog c a (s.with_user r.oid b (s.backends.files r.oid)) := by
  have hrun := hc.running ho
  rcases hc.well_formed.kinds r hr with ⟨t, rfl⟩ | ⟨hoid, -⟩
  · obtain ⟨m, h, hs⟩ := hrun.system t
    obtain ⟨m', hst, hunwritten⟩ := hs.stored
    refine ⟨m', hst, fun b hf => hc.same ho rfl ?_⟩
    rw [Relation.schema_system] at hf
    refine hrun.with_alias ⟨hs.serves, hs.healthy, hs.content, hs.pages, ?_, fun hw => ?_⟩
    · rintro _ ⟨⟩
      exact hf.idle
    · obtain ⟨rfl, hslots⟩ := hunwritten hw
      refine ⟨(hs.unwritten hw).1, ?_⟩
      rintro _ ⟨⟩
      exact hf.serves hslots
  · obtain ⟨m, h, hu⟩ := hrun.user r.oid hoid
    have hfile := hu.closed hnone
    refine ⟨m, hfile.stored, fun b hf => hc.same ho rfl ?_⟩
    refine hrun.with_user hoid (.refl a _) ⟨hu.healthy, hu.pages, hu.rows, nofun, ?_⟩
    rintro _ ⟨⟩
    exact ⟨r, hr, rfl, hne, hf.serves hfile.slotted, fun e he =>
      hf.slots hfile.slotted hu.healthy he⟩

/-- What an open of a relation leaves: the model, and the table under its oid. -/
def Opened (c : Setup) (a : CatalogModel) (r : Relation) (s' : CatalogState) : Prop :=
  HoldsCatalog c a s' ∧ r.columns ≠ [] ∧
    ∃ b, s'.catalog.user_tables.lookup r.oid = some b ∧ b.table = some r.schema

theorem ensure_user_table_open.spec (hc : HoldsCatalog c a s) (ho : a.opened = true) {r : Relation}
    (hr : r ∈ a.relations) :
    (ensure_user_table_open r.oid r.name []).wp
      (fun oid s' => oid = r.oid ∧ Opened c a r s')
      (fun e s' => e = .NotFound ∧ r.columns = [] ∧ HoldsCatalog c a s') s := by
  have hw := hc.well_formed
  unfold ensure_user_table_open
  rw [wp_bind, wp_get]
  split
  · rename_i hsome
    obtain ⟨b, hb⟩ := Option.isSome_iff_exists.mp hsome
    obtain ⟨htable, hne⟩ := schema_of_open hc ho hr hb
    exact (wp_pure _).mpr ⟨rfl, hc, hne, b, hb, htable⟩
  · rename_i hnone
    rw [if_pos (by rfl), wp_bind]
    apply wp_mono (get_attributes.spec hc r.oid)
    · rintro xs s1 ⟨hxs, hc1, htables⟩
      unfold CatalogModel.get_attributes at hxs
      rw [ho, hw.find_oid_mem hr] at hxs
      simp only [Bool.not_true, Bool.false_eq_true, if_false] at hxs
      split at hxs
      · cases hxs
      · rename_i hcols
        cases hxs
        have hne : r.columns ≠ [] := by simpa using hcols
        have hcolumns : (sort_by_attnum r.attributes).map (fun x : CatalogAttribute =>
            ({ name := x.name, type_oid := x.type_oid, nullable := x.nullable } : ColumnSchema)) =
            r.columns := by
          unfold Relation.attributes
          rw [sort_by_attnum_perm (.refl _) (Relation.sorted_numbered _ _ _)]
          exact Relation.columns_of_numbered _ _ _
        have hnone1 : s1.catalog.user_tables.lookup r.oid = none := by
          rw [htables]
          simpa using hnone
        have hrun1 := hc1.running ho
        obtain ⟨m, hst, hopen⟩ := open_bundle hc1 ho hr hne hnone1
        rw [(hc.running ho).config]
        dsimp only
        rw [hcolumns, wp_bind, wp_zoom, wp_bind]
        apply wp_mono (OpenedTableBundle.open.spec hrun1.refusals hst) _
          fun _ _ hf => hf.elim
        rintro _ t ⟨hbackends, hfresh⟩
        rw [wp_bind, wp_get, wp_pure, wp_bind]
        unfold modify_catalog
        rw [wp_modify, wp_pure, hbackends]
        have hstate := hopen t.bundle hfresh
        unfold CatalogState.with_user at hstate
        rw [RelationBackendFactory.set_file_self] at hstate
        exact ⟨rfl, hstate, hne, t.bundle, AList.lookup_insert _, hfresh.table⟩
    · rintro e s1 ⟨hxs, hc1, -⟩
      unfold CatalogModel.get_attributes at hxs
      rw [ho, hw.find_oid_mem hr] at hxs
      simp only [Bool.not_true, Bool.false_eq_true, if_false] at hxs
      split at hxs
      · rename_i hcols
        cases hxs
        exact ⟨rfl, by simpa using hcols, hc1⟩
      · cases hxs

end Catalog

end edb
