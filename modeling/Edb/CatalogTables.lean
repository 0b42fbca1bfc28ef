-- Scans, inserts and deletes on the system tables of a catalog that holds a
-- model. A scan gives the records of the model in some order, and an insert or
-- a delete changes the tuples of one table.
import Edb.CatalogLaws

namespace edb

open Call

theorem Heap.page_lt_of_get {h : Heap} {id : TupleId} {t : Bytes} (hg : h.get id = some t) :
    id.page_id < h.length := by
  unfold get at hg
  rcases hp : h[id.page_id]? with _ | slots
  · simp [hp] at hg
  · exact (List.getElem?_eq_some_iff.mp hp).1

/-- Every tuple of a heap with at most 2^32 pages is in reach of a scan. -/
theorem Slotted.inReach {m : List Bytes} {h : Heap} (hs : Slotted m h) (hm : m.length ≤ 2 ^ 32) :
    EdbHeapEngine.InReach h.live := by
  intro x hx
  have hlt := Heap.page_lt_of_get (Heap.mem_live.mp hx)
  rw [← hs.length] at hlt
  exact Nat.lt_of_lt_of_le hlt hm

/-- A tuple that was placed goes on a page. -/
theorem Placed.fits {store : PageStore} {n : Nat} {m m' : List Bytes} {h h' : Heap} {s : HeapState}
    {t : Bytes} {id : TupleId} (hp : Placed store.page_size t m h id m' h')
    (hh : HoldsHeap store n m h s) :
    t.length + heap.SLOT_SIZE + heap.PAGE_HEADER_SIZE ≤ store.page_size := by
  cases hp with
  | new hfull hfits hfree => exact hfits
  | @existing p d d' slots hd hslots hroom hfirst hfree =>
    have hgood := hh.slotted.good p d slots hd hslots
    have hlen := hh.ready.pool.length_of_page hd
    unfold heap.free at hroom
    simp only [heap.SLOT_SIZE, heap.PAGE_HEADER_SIZE] at hroom ⊢
    rcases hgood.bounds with ⟨h1, h2, h3⟩ | ⟨-, h1, h2⟩
    · rw [heap.slot_offset_eq] at h1 h2
      omega
    · omega

theorem EdbHeapEngine.idle_of_clean {store : PageStore} {io : StorageIO} {s : HeapState}
    (h : OnPool store (BufferPool.Clean store io) s) : s.engine.Idle store :=
  fun _ => ⟨h.opened, h.page_store, h.pool.opened, h.pool.clean, rfl⟩

theorem Setup.header (c : Setup) : heap.PAGE_HEADER_SIZE ≤ c.store.page_size :=
  Nat.le_trans (by decide) c.page_min

namespace Catalog

variable {c : Setup} {a : CatalogModel} {s : CatalogState} {t : SystemTable}
  {second : Option OpenedTableBundle} {m : List Bytes} {h : Heap}

/-! ## Scans -/

theorem wp_scan_system {Q : List TableRow → CatalogState → Prop} {E : Error → CatalogState → Prop}
    (htypes : s.catalog.types = c.types)
    (hs : SystemHolds c a t (s.catalog.system_tables t) second (s.backends.files t.oid) m h)
    (hbound : a.inserted t.oid ≤ 2 ^ 32)
    (hq : ∀ rows b io, Table.decode_rows (t.codec c.types) h.live = .ok rows →
      SystemHolds c a t b second io m h → Q rows (s.with_system t b io))
    (he : ∀ e b io, Table.decode_rows (t.codec c.types) h.live = .error e →
      SystemHolds c a t b second io m h → E e (s.with_system t b io)) :
    (scan_system t).wp Q E s := by
  obtain ⟨e, heng, hh⟩ := hs.serves.engine
  have hreach := hh.slotted.inReach (Nat.le_trans hs.pages hbound)
  -- the state of the table after a scan
  have hafter : ∀ st : HeapState, HoldsHeap c.store c.config.buffer_pool_pages m h st →
      (s.backends.files t.oid).After st.io →
      (e.Idle c.store → OnPool c.store (BufferPool.Clean c.store (s.backends.files t.oid)) st) →
      SystemHolds c a t (with_engine (s.catalog.system_tables t) st.engine) second st.io m h := by
    intro st hst haft hclean
    refine ⟨⟨hs.serves.backend, hs.serves.table, _, rfl, hst⟩, haft.healthy hs.healthy, hs.content,
      hs.pages, hs.idle, fun hw => ?_⟩
    obtain ⟨hidle, hsecond⟩ := hs.unwritten hw
    obtain ⟨e', heng', hidle'⟩ := hidle.engine
    rw [heng] at heng'
    cases heng'
    have hst' := hclean hidle'
    refine ⟨⟨hs.serves.backend, hs.serves.table, _, rfl, EdbHeapEngine.idle_of_clean hst'⟩, ?_⟩
    have hfile : st.io = s.backends.files t.oid := hst'.pool.file
    rw [hfile]
    exact hsecond
  unfold scan_system
  rw [wp_bind, wp_get]
  refine wp_on_system htypes hs.serves heng ?_
  have hscan := Table.scan_rows.spec hh hs.healthy hreach (t.codec c.types)
  by_cases hidle : e.Idle c.store
  · have hkeep := Table.scan_rows_keeps (EdbHeapEngine.scannable_clean hs.healthy)
      (t.codec c.types) _ (hidle (s.backends.files t.oid))
    apply wp_mono (wp_and hscan hkeep)
    · rintro rows st ⟨⟨hrows, hst, haft⟩, hclean⟩
      exact hq rows _ _ hrows (hafter st hst haft fun _ => hclean)
    · rintro err st ⟨⟨hrows, hst, haft⟩, hclean⟩
      exact he err _ _ hrows (hafter st hst haft fun _ => hclean)
  · apply wp_mono hscan
    · rintro rows st ⟨hrows, hst, haft⟩
      exact hq rows _ _ hrows (hafter st hst haft fun hi => absurd hi hidle)
    · rintro err st ⟨hrows, hst, haft⟩
      exact he err _ _ hrows (hafter st hst haft fun hi => absurd hi hidle)

/-- A scan of a table that holds records gives them, each under an id. -/
theorem wp_scan_records {ρ : Type} (k : RecordKind ρ) {rs : List ρ}
    {Q : List TableRow → CatalogState → Prop} {E : Error → CatalogState → Prop}
    (htypes : s.catalog.types = c.types)
    (hs : SystemHolds c a k.table (s.catalog.system_tables k.table) second
      (s.backends.files k.table.oid) m h)
    (hbound : a.inserted k.table.oid ≤ 2 ^ 32)
    (hrs : a.content c.types k.table = (rs.map (k.tuple c.types) : List Bytes))
    (hlen : ∀ r ∈ rs, (k.tuple c.types r).length < 2 ^ 32)
    (hq : ∀ pairs b io, h.live = k.tuples c.types pairs → (pairs.map Prod.snd).Perm rs →
      SystemHolds c a k.table b second io m h →
      Q (k.rows pairs) (s.with_system k.table b io)) :
    (scan_system k.table).wp Q E s := by
  obtain ⟨pairs, hlive, hperm⟩ := k.exists_pairs (hs.content.trans hrs)
  have hrows := k.decode_rows_tuples c.registered pairs fun p hp =>
    hlen p.2 (hperm.subset (List.mem_map_of_mem hp))
  refine wp_scan_system htypes hs hbound ?_ ?_
  · intro rows b io hdec hs'
    rw [hlive, hrows] at hdec
    cases hdec
    exact hq pairs b io hlive hperm hs'
  · intro e b io hdec _
    rw [hlive, hrows] at hdec
    cases hdec

/-! ## Inserts and deletes -/

/-- An insert of a record writes its tuple, if the tuple goes on a page. -/
theorem wp_insert_record {ρ : Type} (k : RecordKind ρ) (r : ρ)
    {Q : TupleId → CatalogState → Prop} {E : Error → CatalogState → Prop}
    (htypes : s.catalog.types = c.types)
    (hs : Serves c k.table.schema m h (s.catalog.system_tables k.table)
      (s.backends.files k.table.oid))
    (hio : (s.backends.files k.table.oid).Healthy) (hroom : m.length ≤ 2 ^ 32)
    (hq : c.Fits (k.tuple c.types r).length → ∀ id b io m' h', Serves c k.table.schema m' h' b io →
      io.Healthy → h'.content = k.tuple c.types r ::ₘ h.content → m'.length ≤ m.length + 1 →
      Q id (s.with_system k.table b io))
    (he : ¬ c.Fits (k.tuple c.types r).length → ∀ b io, Serves c k.table.schema m h b io →
      io.Healthy → E .OutOfMemory (s.with_system k.table b io)) :
    (insert_system k.table (k.values r)).wp Q E s := by
  obtain ⟨e, heng, hh⟩ := hs.engine
  unfold insert_system
  rw [wp_bind, wp_get]
  refine wp_on_system htypes hs heng ?_
  apply wp_mono (Table.insert.spec hh hio (k.encode_eq c.registered r))
  · rintro id st ⟨haft, m', h', hp, hst⟩
    refine hq (hp.fits hh) id _ _ m' h' ⟨hs.backend, hs.table, _, rfl, hst⟩ (haft.healthy hio)
      (Heap.content_of_placed hh.slotted hp) ?_
    cases hp with
    | existing => simp
    | new => simp
  · rintro err st ⟨haft, hst, ⟨rfl, hbig⟩ | ⟨rfl, hfull⟩⟩
    · refine he ?_ _ _ ⟨hs.backend, hs.table, _, rfl, hst⟩ (haft.healthy hio)
      exact Nat.not_le.mpr hbig
    · -- so many pages have fewer than 2^64 bytes
      have hsize : c.store.page_size ≤ 65535 := c.page_max
      have hmul : (m.length + 1) * c.store.page_size ≤ (2 ^ 32 + 1) * 65535 :=
        Nat.mul_le_mul (by omega) hsize
      omega

theorem wp_delete_system {Q : Unit → CatalogState → Prop} {E : Error → CatalogState → Prop}
    {id : TupleId} {d : Bytes} (htypes : s.catalog.types = c.types)
    (hs : Serves c t.schema m h (s.catalog.system_tables t) (s.backends.files t.oid))
    (hio : (s.backends.files t.oid).Healthy) (hid : h.get id = some d)
    (hq : ∀ b io m', Serves c t.schema m' (h.erase id) b io → io.Healthy →
      m'.length = m.length → Q () (s.with_system t b io)) :
    (delete_system t id).wp Q E s := by
  obtain ⟨e, heng, hh⟩ := hs.engine
  unfold delete_system
  rw [wp_bind, wp_get]
  refine wp_on_system htypes hs heng ?_
  apply wp_mono (EdbHeapEngine.delete_tuple.spec hh id)
  · rintro _ st ⟨haft, -, m', -, hst⟩
    refine hq _ _ m' ⟨hs.backend, hs.table, _, rfl, hst⟩ (haft.healthy hio) ?_
    rw [hst.slotted.length, hh.slotted.length]
    simp [Heap.erase]
  · rintro err st ⟨-, -, hnone | ⟨-, hne⟩⟩
    · rw [hid] at hnone
      cases hnone
    · exact absurd hio.write_eq hne

end Catalog

end edb
