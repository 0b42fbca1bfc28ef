-- The calls of a client on a catalog that holds a model: opens of a table,
-- scans and inserts through it, and the calls that create and drop a table.
-- Each of them answers from the model and leaves the next model behind.
import Mathlib.Data.List.TakeWhile
import Edb.CatalogOpens

namespace edb

open Call

namespace Catalog

variable {c : Setup} {a : CatalogModel} {s : CatalogState}

/-! ## Opens -/

theorem open_table.spec (hc : HoldsCatalog c a s) (name : Bytes) :
    (open_table name).wp
      (fun oid s' => ∃ r, a.open_table name = .ok r ∧ oid = r.oid ∧ Opened c a r s')
      (fun e s' => a.open_table name = .error e ∧ HoldsCatalog c a s') s := by
  unfold open_table CatalogModel.open_table
  rw [wp_bind]
  refine wp_check_open hc (fun ho => ?_) fun ho => by rw [ho]; exact ⟨rfl, hc⟩
  rw [wp_bind]
  apply wp_mono (get_class.spec hc name)
  · rintro k s1 ⟨hk, hc1, -⟩
    unfold CatalogModel.get_class at hk
    rw [ho] at hk ⊢
    simp only [Bool.not_true, Bool.false_eq_true, if_false] at hk ⊢
    rcases hfind : a.find name with _ | r
    · rw [hfind] at hk
      cases hk
    · rw [hfind] at hk
      cases hk
      obtain ⟨hr, -⟩ := CatalogModel.mem_of_find hfind
      apply wp_mono (ensure_user_table_open.spec hc1 ho hr)
      · rintro oid s2 ⟨rfl, hopened⟩
        exact ⟨r, if_neg (by simpa using hopened.2.1), rfl, hopened⟩
      · rintro e s2 ⟨rfl, hnil, hc2⟩
        exact ⟨if_pos (by simpa using hnil), hc2⟩
  · rintro e s1 ⟨hk, hc1, -⟩
    unfold CatalogModel.get_class at hk
    rw [ho] at hk ⊢
    simp only [Bool.not_true, Bool.false_eq_true, if_false] at hk ⊢
    rcases hfind : a.find name with _ | r
    · rw [hfind] at hk
      cases hk
      exact ⟨rfl, hc1⟩
    · rw [hfind] at hk
      cases hk

/-! ## Scans and inserts -/

/-- The codec of the rows of a relation. -/
def codec (c : Setup) (r : Relation) : RowCodec := { registry := c.types, schema := r.columns }

/-- The values of the rows of a heap, in the order of a scan. -/
def rows_of (codec : RowCodec) (h : Heap) : Result (List (List Value)) := do
  let rows ← Table.decode_rows codec h.live
  pure (rows.map TableRow.values)

end Catalog

theorem Table.scan.spec {store : PageStore} {n : Nat} {m : List Bytes} {h : Heap} {s : HeapState}
    (hh : HoldsHeap store n m h s) (hio : s.io.Healthy) (hreach : EdbHeapEngine.InReach h.live)
    (codec : RowCodec) :
    (Table.scan codec).wp
      (fun rows s' => Catalog.rows_of codec h = .ok rows ∧ HoldsHeap store n m h s' ∧
        s.io.After s'.io)
      (fun e s' => Catalog.rows_of codec h = .error e ∧ HoldsHeap store n m h s' ∧
        s.io.After s'.io) s := by
  unfold Table.scan Catalog.rows_of
  rw [wp_bind]
  apply wp_mono (Table.scan_rows.spec hh hio hreach codec)
  · rintro rows s' ⟨hrows, hrest⟩
    rw [wp_pure, hrows]
    exact ⟨rfl, hrest⟩
  · rintro e s' ⟨hrows, hrest⟩
    rw [hrows]
    exact ⟨rfl, hrest⟩

theorem UserHolds.slotted {c : Setup} {a : CatalogModel} {oid : Nat}
    {b : Option OpenedTableBundle} {io : StorageIO} {m : List Bytes} {h : Heap}
    (hu : UserHolds c a oid b io m h) : Slotted m h := by
  cases b with
  | none => exact (hu.closed rfl).slotted
  | some b =>
    obtain ⟨r, -, -, -, hserves, -⟩ := hu.opened b rfl
    obtain ⟨e, -, hh⟩ := hserves.engine
    exact hh.slotted

namespace Catalog

variable {c : Setup} {a : CatalogModel} {s : CatalogState}

/-- A scan of a user table reads the heap that the table serves. -/
theorem scan_user.spec (hc : HoldsCatalog c a s) (ho : a.opened = true) {r : Relation}
    (hr : r ∈ a.relations) (hoid : 5 ≤ r.oid) (hbound : a.inserted r.oid ≤ 2 ^ 32)
    {b : OpenedTableBundle} (hb : s.catalog.user_tables.lookup r.oid = some b) :
    ∃ h, (∀ tuples, a.rows r.oid = some tuples → h.content = tuples) ∧
      (scan r.oid).wp (fun rows s' => rows_of (codec c r) h = .ok rows ∧ HoldsCatalog c a s')
        (fun e s' => rows_of (codec c r) h = .error e ∧ HoldsCatalog c a s') s := by
  have hrun := hc.running ho
  obtain ⟨m, h, hu⟩ := hrun.user r.oid hoid
  obtain ⟨r', hr', hroid, hne, hserves, hslots⟩ := hu.opened b hb
  cases List.inj_on_of_nodup_map hc.well_formed.oids hr' hr hroid
  obtain ⟨e, he, hh⟩ := hserves.engine
  refine ⟨h, hu.rows, ?_⟩
  unfold scan
  rw [wp_bind, wp_get]
  refine wp_on_user hrun.types hb hserves.table hserves.backend he ?_
  have hspec := Table.scan.spec hh hu.healthy
    (hh.slotted.inReach (Nat.le_trans hu.pages hbound)) (codec c r)
  have hkeep := Table.scan_keeps EdbHeapEngine.scannable_sound (codec c r) _ (hslots e he)
  -- the table serves the same heap after the scan
  have hafter : ∀ st : HeapState, HoldsHeap c.store c.config.buffer_pool_pages m h st →
      (s.backends.files r.oid).After st.io → OnPool c.store (EdbHeapEngine.Slots c.store) st →
      HoldsCatalog c a (s.with_user r.oid (with_engine b st.engine) st.io) := by
    intro st hst haft hsound
    refine hc.same ho rfl (hrun.with_user hoid (.refl a _) ⟨haft.healthy hu.healthy, hu.pages,
      hu.rows, nofun, ?_⟩)
    rintro _ ⟨⟩
    refine ⟨r, hr, rfl, hne, ⟨hserves.backend, hserves.table, _, rfl, hst⟩, ?_⟩
    rintro _ ⟨⟩
    exact hsound
  apply wp_mono (wp_and hspec hkeep)
  · rintro rows st ⟨⟨hrows, hst, haft⟩, hsound⟩
    exact ⟨hrows, hafter st hst haft hsound⟩
  · rintro e st ⟨⟨hrows, hst, haft⟩, hsound⟩
    exact ⟨hrows, hafter st hst haft hsound⟩

/-- A scan of the second table on a system table. Before the first write it reads
the heap of the system table. -/
theorem scan_alias.spec (hc : HoldsCatalog c a s) (ho : a.opened = true) (t : SystemTable)
    {b : OpenedTableBundle} (hb : s.catalog.user_tables.lookup t.oid = some b)
    {m : List Bytes} {h : Heap} (hs : SystemHolds c a t (s.catalog.system_tables t) (some b)
      (s.backends.files t.oid) m h) :
    (scan t.oid).wp
      (fun rows s' => HoldsCatalog c a s' ∧
        (a.written t = false → rows_of (t.codec c.types) h = .ok rows))
      (fun e s' => HoldsCatalog c a s' ∧
        (a.written t = false → rows_of (t.codec c.types) h = .error e)) s := by
  have hrun := hc.running ho
  have hidle := hs.idle b rfl
  obtain ⟨e, he, hclean⟩ := hidle.engine
  unfold scan
  rw [wp_bind, wp_get]
  have hbackend : b.backend = some t.oid := by
    rw [hidle.backend]
    cases t <;> rfl
  refine wp_on_user hrun.types hb hidle.table hbackend he ?_
  have hkeep := Table.scan_keeps (EdbHeapEngine.scannable_clean hs.healthy) (t.codec c.types) _
    (hclean (s.backends.files t.oid))
  have hafter : ∀ st : HeapState,
      OnPool c.store (BufferPool.Clean c.store (s.backends.files t.oid)) st →
      (a.written t = false → HoldsHeap c.store c.config.buffer_pool_pages m h st) →
      HoldsCatalog c a (s.with_user t.oid (with_engine b st.engine) st.io) := by
    intro st hst hheap
    have hio : st.io = s.backends.files t.oid := hst.pool.file
    rw [hio]
    refine hc.same ho rfl (hrun.with_alias ⟨hs.serves, hs.healthy, hs.content, hs.pages, ?_,
      fun hw => ⟨(hs.unwritten hw).1, ?_⟩⟩)
    · rintro _ ⟨⟩
      exact ⟨hidle.backend, hidle.table, _, rfl, EdbHeapEngine.idle_of_clean hst⟩
    · rintro _ ⟨⟩
      exact ⟨hidle.backend, hidle.table, _, rfl, hio ▸ hheap hw⟩
  cases hw : a.written t with
  | true =>
    apply wp_mono hkeep
    · exact fun _ st hst => ⟨hafter st hst (by rw [hw]; exact nofun), nofun⟩
    · exact fun _ st hst => ⟨hafter st hst (by rw [hw]; exact nofun), nofun⟩
  | false =>
    obtain ⟨e', he', hh⟩ := ((hs.unwritten hw).2 b rfl).engine
    rw [he] at he'
    cases he'
    have hspec := Table.scan.spec hh hs.healthy
      (hh.slotted.inReach (Nat.le_trans hs.pages (hc.bound t))) (t.codec c.types)
    apply wp_mono (wp_and hspec hkeep)
    · rintro rows st ⟨⟨hrows, hst, -⟩, hkept⟩
      exact ⟨hafter st hkept fun _ => hst, fun _ => hrows⟩
    · rintro e st ⟨⟨hrows, hst, -⟩, hkept⟩
      exact ⟨hafter st hkept fun _ => hst, fun _ => hrows⟩

/-- An insert into a user table is an insert of the encoded row in the model. -/
theorem insert_user.spec (hc : HoldsCatalog c a s) (ho : a.opened = true) {r : Relation}
    (hr : r ∈ a.relations) (hoid : 5 ≤ r.oid) (hbound : a.inserted r.oid ≤ 2 ^ 32)
    {b : OpenedTableBundle} (hb : s.catalog.user_tables.lookup r.oid = some b)
    (values : List Value) :
    (insert r.oid values).wp
      (fun _ s' => ∃ tuple, (codec c r).encode values = .ok tuple ∧ c.Fits tuple.length ∧
        HoldsCatalog c (a.insert r.oid tuple) s')
      (fun e s' => HoldsCatalog c a s' ∧ ((codec c r).encode values = .error e ∨
        ∃ tuple, (codec c r).encode values = .ok tuple ∧ ¬ c.Fits tuple.length ∧
          e = .OutOfMemory)) s := by
  have hrun := hc.running ho
  obtain ⟨m, h, hu⟩ := hrun.user r.oid hoid
  obtain ⟨r', hr', hroid, hne, hserves, hslots⟩ := hu.opened b hb
  cases List.inj_on_of_nodup_map hc.well_formed.oids hr' hr hroid
  obtain ⟨e, he, hh⟩ := hserves.engine
  unfold insert
  rw [wp_bind, wp_get]
  refine wp_on_user hrun.types hb hserves.table hserves.backend he ?_
  have hkeep := Table.insert_keeps c.header c.page_max (codec c r) values _ (hslots e he)
  -- the state of the catalog after the insert, under either model
  have hafter : ∀ (a' : CatalogModel) (st : HeapState) (m' : List Bytes) (h' : Heap),
      HoldsHeap c.store c.config.buffer_pool_pages m' h' st →
      (s.backends.files r.oid).After st.io → OnPool c.store (EdbHeapEngine.Slots c.store) st →
      Running.SameBesides a a' r.oid → m'.length ≤ a'.inserted r.oid →
      (∀ tuples, a'.rows r.oid = some tuples → h'.content = tuples) →
      Running c a' (s.with_user r.oid (with_engine b st.engine) st.io) := by
    intro a' st m' h' hst haft hsound hsame hpages hrows
    refine hrun.with_user hoid hsame ⟨haft.healthy hu.healthy, hpages, hrows, nofun, ?_⟩
    rintro _ ⟨⟩
    refine ⟨r, hsame.relations ▸ hr, rfl, hne, ⟨hserves.backend, hserves.table, _, rfl, hst⟩, ?_⟩
    rintro _ ⟨⟩
    exact hsound
  rcases henc : (codec c r).encode values with err | tuple
  · unfold Table.insert
    have henc' : ({ registry := c.types, schema := r.schema.columns } : RowCodec).encode values =
        .error err := henc
    rw [henc', wp_bind, wp_ofExcept_error]
    refine ⟨?_, Or.inl rfl⟩
    exact hc.same ho rfl (hafter a ⟨e, s.backends.files r.oid⟩ m h hh (.refl _) (hslots e he)
      (.refl a _) hu.pages hu.rows)
  · apply wp_mono (wp_and (Table.insert.spec hh hu.healthy henc) hkeep)
    · rintro id st ⟨⟨haft, m', h', hp, hst⟩, hsound⟩
      refine ⟨tuple, rfl, hp.fits hh, ?_⟩
      have hpages : m'.length ≤ m.length + 1 := by
        cases hp with
        | existing => simp
        | new => simp
      have hle := hu.pages
      have hsame : Running.SameBesides a (a.insert r.oid tuple) r.oid :=
        ⟨rfl, rfl, fun o hne => Function.update_of_ne hne _ _,
          fun o hne => Function.update_of_ne hne _ _⟩
      refine hc.of_running ho rfl rfl ?_ ?_ (hafter _ st m' h' hst haft hsound hsame ?_ ?_)
      · have hw := hc.well_formed
        exact ⟨hw.names, hw.oids, hw.keeps, hw.system, hw.kinds, hw.opened⟩
      · intro t
        have hne : t.oid ≠ r.oid := by
          have := t.oid_lt
          omega
        rw [hsame.inserted _ hne]
        exact hc.bound t
      · simp only [CatalogModel.insert, Function.update_self]
        omega
      · intro tuples hrows
        simp only [CatalogModel.insert, Function.update_self, Option.map_eq_some_iff] at hrows
        obtain ⟨old, hold, rfl⟩ := hrows
        rw [Heap.content_of_placed hh.slotted hp, hu.rows old hold]
    · rintro err st ⟨⟨haft, hst, ⟨rfl, hbig⟩ | ⟨rfl, hfull⟩⟩, hsound⟩
      · refine ⟨?_, Or.inr ⟨tuple, rfl, Nat.not_le.mpr hbig, rfl⟩⟩
        exact hc.same ho rfl (hafter a st m h hst haft hsound (.refl a _) hu.pages hu.rows)
      · have hsize : c.store.page_size ≤ 65535 := c.page_max
        have hmul : (m.length + 1) * c.store.page_size ≤ (2 ^ 32 + 1) * 65535 :=
          Nat.mul_le_mul (by have := hu.pages; omega) hsize
        omega

/-! ## Creations -/

/-- The largest number of a list does not depend on its order. -/
theorem foldl_larger {ι : Type} (pairs : List (ι × CatalogClass)) (b : Nat) :
    pairs.foldl (fun m p => if p.2.oid > m then p.2.oid else m) b =
      ((pairs.map Prod.snd).map CatalogClass.oid).foldl max b := by
  induction pairs generalizing b with
  | nil => rfl
  | cons p rest ih =>
    have hmax : (if p.2.oid > b then p.2.oid else b) = max b p.2.oid := by
      split <;> omega
    simp only [List.foldl_cons, List.map_cons, hmax, ih]

theorem next_relation_oid.spec (hc : HoldsCatalog c a s) (ho : a.opened = true)
    (hsmall : a.next_oid < 2 ^ 32) :
    next_relation_oid.wp (fun oid s' => oid = a.next_oid ∧ Looked c a s s') (fun _ _ => False) s := by
  have hw := hc.well_formed
  unfold next_relation_oid
  rw [wp_bind, wp_get, wp_bind]
  refine wp_records class_kind hc ho (CatalogModel.content_class _)
    (fun k hk => hw.short_class hk) fun pairs b io m h _ hp hs hc' => ?_
  have hrows := class_kind.filter_rows_rows c.registered (fun _ => true) pairs
    fun p hp' => hw.small_class (hp.subset (List.mem_map_of_mem hp'))
  rw [wp_bind, (hc.running ho).types]
  erw [hrows, wp_ofExcept_ok]
  refine (wp_pure _).mpr ⟨?_, hc', rfl⟩
  have hmax : ((pairs.filter fun _ => true).map fun p =>
      (TableRow.mk p.1 (class_kind.values p.2), p.2)).foldl
        (fun m p => if p.2.oid > m then p.2.oid else m) 0 =
      (a.relations.map Relation.oid).foldl max 0 := by
    rw [foldl_larger, List.map_map, List.filter_true]
    have hperm := (hp.map CatalogClass.oid).foldl_eq (f := max) 0
    have hoids : a.class_records.map CatalogClass.oid = a.relations.map Relation.oid := by
      unfold CatalogModel.class_records
      rw [List.map_map]
      rfl
    rw [hoids] at hperm
    rw [← hperm, List.map_map, List.map_map]
    rfl
  rw [hmax]
  exact Nat.mod_eq_of_lt hsmall

/-- The rows of a user table under an oid that holds no row yet. -/
theorem user_holds_add {r : Relation} {oid : Nat} {b : Option OpenedTableBundle} {io : StorageIO}
    {m : List Bytes} {h : Heap} (hoid : 5 ≤ oid) (hu : UserHolds c a oid b io m h) :
    UserHolds c (a.add r) oid b io m h := by
  have hins : (a.add r).inserted oid = a.inserted oid := by
    have h2 : oid ≠ SystemTable.class_table.oid := by
      have := SystemTable.class_table.oid_lt
      omega
    have h3 : oid ≠ SystemTable.attribute_table.oid := by
      have := SystemTable.attribute_table.oid_lt
      omega
    simp [CatalogModel.add, h2, h3]
  refine ⟨hu.healthy, hins ▸ hu.pages, fun tuples htuples => ?_, hu.closed, fun b' hb' => ?_⟩
  · by_cases he : oid = r.oid
    · subst he
      simp only [CatalogModel.add, Function.update_self] at htuples
      split at htuples
      · rename_i hzero
        cases htuples
        have hlen : h.length = 0 := by
          have := hu.pages
          rw [← hu.slotted.length]
          omega
        rw [List.length_eq_zero_iff.mp hlen]
        rfl
      · cases htuples
    · simp only [CatalogModel.add, Function.update_of_ne he] at htuples
      exact hu.rows tuples htuples
  · obtain ⟨r', hr', hrest⟩ := hu.opened b' hb'
    exact ⟨r', List.mem_append_left _ hr', hrest⟩

/-- The table that a creation has described is one of the model. -/
theorem running_add (hc : HoldsCatalog c a s) (ho : a.opened = true) {r : Relation}
    {s' : CatalogState} (hsame : SameBut [.class_table, .attribute_table] s s')
    (hclass : TableHolds c .class_table (a.content c.types .class_table +
      {class_kind.tuple c.types r.info}) (a.inserted SystemTable.class_table.oid + 1) s')
    (hattributes : TableHolds c .attribute_table (a.content c.types .attribute_table +
      (r.attributes.map (attribute_kind.tuple c.types) : List Bytes))
      (a.inserted SystemTable.attribute_table.oid + r.columns.length) s') :
    Running c (a.add r) s' := by
  have hr := hc.running ho
  have hne := hc.well_formed.opened ho
  refine hr.change hsame ?_ ?_ (fun oid b io m h hoid hu => user_holds_add hoid hu) ?_
  · intro t ht
    rcases List.mem_cons.mp ht with rfl | ht
    · refine ⟨?_, by simp [CatalogModel.add]⟩
      have hcontent : (a.add r).content c.types .class_table =
          a.content c.types .class_table + {class_kind.tuple c.types r.info} := by
        show ((List.map _ (a.relations ++ [r]) : List Bytes) : Multiset Bytes) = _
        rw [List.map_append, ← Multiset.coe_add]
        rfl
      rw [hcontent]
      exact hclass
    · rw [List.mem_singleton.mp ht]
      refine ⟨?_, by simp [CatalogModel.add]⟩
      have hcontent : (a.add r).content c.types .attribute_table =
          a.content c.types .attribute_table +
            (r.attributes.map (attribute_kind.tuple c.types) : List Bytes) := by
        simp [CatalogModel.content, CatalogModel.add]
      rw [hcontent]
      exact hattributes
  · intro t ht
    cases t with
    | class_table => simp at ht
    | attribute_table => simp at ht
    | type_table =>
      have hwritten : (a.written .type_table || false || false) = a.written .type_table := by simp
      exact ⟨by simp [CatalogModel.content, CatalogModel.add, hne], rfl, hwritten⟩
    | index_table =>
      have hwritten : (a.written .index_table || false || false) = a.written .index_table := by simp
      exact ⟨rfl, rfl, hwritten⟩
  · have hcaches := hsame.caches hr.caches
    refine ⟨hcaches.types, fun name k hk => ?_, fun oid xs hxs => ?_⟩
    · obtain ⟨r', hr', hrest⟩ := hcaches.classes name k hk
      exact ⟨r', List.mem_append_left _ hr', hrest⟩
    · obtain ⟨r', hr', hrest⟩ := hcaches.attributes oid xs hxs
      exact ⟨r', List.mem_append_left _ hr', hrest⟩

/-- A row of a class that could not be written leaves the model as it is. -/
theorem running_touch (hc : HoldsCatalog c a s) (ho : a.opened = true) {s' : CatalogState}
    (hsame : SameBut [.class_table] s s')
    (hclass : TableHolds c .class_table (a.content c.types .class_table)
      (a.inserted SystemTable.class_table.oid) s') :
    Running c (a.touch .class_table) s' := by
  have hr := hc.running ho
  refine hr.change hsame ?_ ?_ (fun _ _ _ _ _ _ hu =>
    ⟨hu.healthy, hu.pages, hu.rows, hu.closed, hu.opened⟩) ?_
  · intro t ht
    rw [List.mem_singleton.mp ht]
    exact ⟨hclass, by simp [CatalogModel.touch]⟩
  · intro t ht
    refine ⟨?_, rfl, Function.update_of_ne (by simpa using ht) _ _⟩
    cases t <;> rfl
  · have hcaches := hsame.caches hr.caches
    exact ⟨hcaches.types, hcaches.classes, hcaches.attributes⟩

/-- An entry of the caches that is gone does no harm. -/
theorem invalidate_class_cache.spec (hc : HoldsCatalog c a s) (ho : a.opened = true) (oid : Nat)
    (name : Bytes) :
    (invalidate_class_cache oid name).wp (fun _ s' => HoldsCatalog c a s') (fun _ _ => False) s := by
  have hr := hc.running ho
  unfold invalidate_class_cache modify_catalog
  rw [wp_modify]
  exact hc.same ho rfl ⟨hr.types, hr.config, hr.refusals, hr.system, hr.user, hr.keys,
    hr.caches.types, cache_forget hr.caches.classes name, cache_forget hr.caches.attributes oid⟩

/-- The rows of a new table are written, and the table is not open yet. -/
structure Described (c : Setup) (a : CatalogModel) (r : Relation) (s : CatalogState) : Prop where
  opened : s.catalog.opened = true
  running : Running c (a.add r) s
  user_tables : s.catalog.user_tables.lookup r.oid = none

/-- A creation up to the point where it opens the table: what is refused, the rows
that do not go on a page, and the table that is described. -/
theorem wp_create_table {Q : Nat → CatalogState → Prop} {E : Error → CatalogState → Prop}
    (hc : HoldsCatalog c a s) (spec : CreateTableSpec) (hoid : a.next_oid < 2 ^ 31)
    (hroom : a.refuses c spec = none → c.ClassFits spec.name RELKIND_TABLE →
      a.inserted SystemTable.attribute_table.oid + (c.fitting spec.columns).length ≤ 2 ^ 32)
    (hrefuse : ∀ e s', a.refuses c spec = some e → HoldsCatalog c a s' → E e s')
    (hclass : a.refuses c spec = none → ¬ c.ClassFits spec.name RELKIND_TABLE →
      ∀ s', HoldsCatalog c (a.touch .class_table) s' → E .OutOfMemory s')
    (hcolumns : a.refuses c spec = none → c.ClassFits spec.name RELKIND_TABLE →
      (spec.columns.all fun column => decide (c.ColumnFits column)) = false →
      ∀ s', Described c a (a.created c spec) s' → E .OutOfMemory s')
    (hwritten : a.refuses c spec = none → c.ClassFits spec.name RELKIND_TABLE →
      (spec.columns.all fun column => decide (c.ColumnFits column)) = true →
      ∀ s', Described c a (a.created c spec) s' →
        (invalidate_class_cache a.next_oid spec.name >>= fun _ =>
          ensure_user_table_open a.next_oid spec.name []).wp Q E s') :
    (create_table spec).wp Q E s := by
  have hw := hc.well_formed
  unfold create_table
  rw [wp_bind]
  refine wp_check_open hc (fun ho => ?_) fun ho => hrefuse _ s (by
    unfold CatalogModel.refuses
    rw [ho]
    rfl) hc
  by_cases hempty : (spec.name.isEmpty || spec.columns.isEmpty) = true
  · rw [if_pos hempty]
    refine (wp_fail _).mpr (hrefuse _ s ?_ hc)
    simp [CatalogModel.refuses, ho, hempty]
  rw [if_neg hempty, wp_bind, wp_attempt]
  apply wp_mono (get_class.spec hc spec.name)
  · rintro k s1 ⟨hk, hc1, -⟩
    refine (wp_fail _).mpr (hrefuse _ s1 ?_ hc1)
    have hfound : (a.find spec.name).isSome = true := by
      unfold CatalogModel.get_class at hk
      rw [ho] at hk
      cases hf : a.find spec.name with
      | none => rw [hf] at hk; cases hk
      | some r => rfl
    simp [CatalogModel.refuses, ho, hempty, hfound]
  rintro e s1 ⟨hk, hc1, -⟩
  obtain ⟨rfl, hnone⟩ : e = .NotFound ∧ a.find spec.name = none := by
    unfold CatalogModel.get_class at hk
    rw [ho] at hk
    cases hf : a.find spec.name with
    | none => rw [hf] at hk; cases hk; exact ⟨rfl, rfl⟩
    | some r => rw [hf] at hk; cases hk
  have hr1 := hc1.running ho
  simp only [ne_eq, not_true_eq_false, if_false]
  rw [wp_bind, wp_get, hr1.types]
  by_cases htype : (spec.columns.any fun column =>
      (c.types.lookup column.type_oid).toOption.isNone) = true
  · rw [if_pos htype]
    refine (wp_fail _).mpr (hrefuse _ s1 ?_ hc1)
    simp [CatalogModel.refuses, ho, hempty, hnone, htype]
  rw [if_neg htype, wp_bind]
  have hrefuses : a.refuses c spec = none := by
    simp [CatalogModel.refuses, ho, hempty, hnone, htype]
  apply wp_mono (next_relation_oid.spec hc1 ho (by omega)) _ fun _ _ hf => hf.elim
  rintro oid s2 ⟨rfl, hc2, -⟩
  have hr2 := hc2.running ho
  rw [wp_bind]
  apply wp_mono (insert_class.spec (a.created c spec) hoid hr2.types
    (hr2.table_holds .class_table) (hc2.bound .class_table))
  · rintro _ s3 ⟨hfits, hclass3, hsame3⟩
    have hattr : TableHolds c .attribute_table (a.content c.types .attribute_table)
        (a.inserted SystemTable.attribute_table.oid) s3 :=
      hsame3.table_holds (by simp) (hr2.table_holds .attribute_table)
    -- no table is open under the new oid
    have hclosed : s2.catalog.user_tables.lookup a.next_oid = none := by
      rcases hb : s2.catalog.user_tables.lookup a.next_oid with _ | b
      · rfl
      · obtain ⟨m, h, hu⟩ := hr2.user a.next_oid (hw.five_le_next_oid ho)
        obtain ⟨r, hr, hroid, -⟩ := hu.opened b hb
        have := CatalogModel.lt_next_oid hr
        omega
    have hadded : ∀ s4, TableHolds c .attribute_table (a.content c.types .attribute_table +
        ((Relation.numbered a.next_oid 0 (c.fitting spec.columns)).map
          (attribute_kind.tuple c.types) : List Bytes))
        (a.inserted SystemTable.attribute_table.oid + (c.fitting spec.columns).length) s4 →
        SameBut [.attribute_table] s3 s4 → Described c a (a.created c spec) s4 := by
      intro s4 hh4 hsame4
      have hsame : SameBut [.class_table, .attribute_table] s2 s4 :=
        (hsame3.mono (by simp)).trans (hsame4.mono (by simp))
      refine ⟨hsame.opened.trans (hc2.opened.trans ho),
        running_add hc2 ho hsame (hsame4.table_holds (by simp) hclass3) hh4, ?_⟩
      rw [hsame.user_tables]
      exact hclosed
    rw [wp_bind]
    apply wp_mono (write_schema_attributes.spec a.next_oid 0 spec.columns
      (hsame3.types.trans hr2.types) hattr (hroom hrefuses hfits))
    · rintro _ s4 ⟨hall, hh4, hsame4⟩
      exact hwritten hrefuses hfits hall s4 (hadded s4 hh4 hsame4)
    · rintro _ s4 ⟨rfl, hall, hh4, hsame4⟩
      exact hcolumns hrefuses hfits hall s4 (hadded s4 hh4 hsame4)
  · rintro e s3 ⟨rfl, hbig, hclass3, hsame3⟩
    exact hclass hrefuses hbig s3 (hc2.of_running ho hsame3.opened rfl
      ⟨hw.names, hw.oids, hw.keeps, hw.system, hw.kinds, hw.opened⟩ hc.bound
      (running_touch hc2 ho hsame3 hclass3))

theorem create_table.spec (hc : HoldsCatalog c a s) (spec : CreateTableSpec)
    (hcount : spec.columns.length < 2 ^ 31) (hoid : a.next_oid < 2 ^ 31)
    (hroom : ∀ t : SystemTable, (a.create_table c spec).2.inserted t.oid ≤ 2 ^ 32) :
    (create_table spec).wp
      (fun oid s' => (a.create_table c spec).1 = .ok oid ∧
        HoldsCatalog c (a.create_table c spec).2 s')
      (fun e s' => (a.create_table c spec).1 = .error e ∧
        HoldsCatalog c (a.create_table c spec).2 s') s := by
  have hmodel : a.refuses c spec = none → c.ClassFits spec.name RELKIND_TABLE →
      a.create_table c spec =
        (if spec.columns.all fun column => decide (c.ColumnFits column) then .ok a.next_oid
          else .error .OutOfMemory, a.add (a.created c spec)) := by
    intro hrefuses hfits
    unfold CatalogModel.create_table
    rw [hrefuses]
    exact if_pos hfits
  -- the names, the oid and the types are those that a catalog can keep
  have hadded : a.refuses c spec = none → c.ClassFits spec.name RELKIND_TABLE →
      ∀ s', Described c a (a.created c spec) s' → HoldsCatalog c (a.add (a.created c spec)) s' := by
    intro hrefuses hfits s' hs'
    obtain ⟨ho, -, hnone, htypes⟩ := CatalogModel.of_refuses_none hrefuses
    rw [hmodel hrefuses hfits] at hroom
    have hkeeps : c.Keeps (a.created c spec) := by
      refine ⟨hoid, ?_, hfits, fun column hcolumn => ?_⟩
      · exact Nat.lt_of_le_of_lt (List.takeWhile_sublist _).length_le hcount
      · have hmem := (List.takeWhile_sublist _).subset hcolumn
        obtain ⟨type, hlookup⟩ := htypes column hmem
        exact ⟨c.registered.small _ _ hlookup, by simpa using List.mem_takeWhile_imp hcolumn⟩
    exact ⟨hs'.opened.trans ho.symm, hc.well_formed.add ho hkeeps hnone rfl rfl, hroom,
      fun _ => hs'.running, fun hn => by
        rw [show (a.add (a.created c spec)).opened = a.opened from rfl, ho] at hn
        cases hn⟩
  refine wp_create_table hc spec hoid ?_ ?_ ?_ ?_ ?_
  · intro hrefuses hfits
    rw [hmodel hrefuses hfits] at hroom
    exact hroom .attribute_table
  · intro e s' he hs'
    have hrefused : a.create_table c spec = (.error e, a) := by
      unfold CatalogModel.create_table
      rw [he]
    rw [hrefused]
    exact ⟨rfl, hs'⟩
  · intro hrefuses hbig s' hs'
    have htouched : a.create_table c spec = (.error .OutOfMemory, a.touch .class_table) := by
      unfold CatalogModel.create_table
      rw [hrefuses]
      exact if_neg hbig
    rw [htouched]
    exact ⟨rfl, hs'⟩
  · intro hrefuses hfits hall s' hs'
    rw [hmodel hrefuses hfits, hall]
    exact ⟨rfl, hadded hrefuses hfits s' hs'⟩
  · intro hrefuses hfits hall s4 hs4
    obtain ⟨ho, hcols, -, -⟩ := CatalogModel.of_refuses_none hrefuses
    have hc4 := hadded hrefuses hfits s4 hs4
    rw [hmodel hrefuses hfits, if_pos hall, wp_bind]
    apply wp_mono (invalidate_class_cache.spec hc4 ho a.next_oid spec.name) _
      fun _ _ hf => hf.elim
    intro _ s5 hc5
    have hmem : a.created c spec ∈ (a.add (a.created c spec)).relations := by
      simp [CatalogModel.add]
    apply wp_mono (ensure_user_table_open.spec hc5 ho hmem)
    · rintro _ s6 ⟨rfl, hc6, -⟩
      exact ⟨rfl, hc6⟩
    · rintro _ s6 ⟨-, hnil, -⟩
      have hfit : c.fitting spec.columns = spec.columns :=
        List.takeWhile_eq_self_iff.mpr (List.all_eq_true.mp hall)
      exact absurd (hfit ▸ hnil) hcols

/-! ## Drops -/

/-- The relation that is dropped, and the relations that stay. -/
theorem perm_remove (hw : a.WellFormed c) {r : Relation} (hr : r ∈ a.relations) :
    a.relations.Perm (r :: (a.remove r.oid).relations) := by
  have hone : a.relations.filter (fun x => !(x.oid != r.oid)) = [r] := by
    have hnodup := hw.oids
    generalize a.relations = relations at hr hnodup
    induction relations with
    | nil => cases hr
    | cons x rest ih =>
      rw [List.map_cons, List.nodup_cons] at hnodup
      rcases List.mem_cons.mp hr with rfl | hr
      · have hrest : rest.filter (fun x => !(x.oid != r.oid)) = [] := by
          refine List.filter_eq_nil_iff.mpr fun x hx he => hnodup.1 ?_
          have hoid : x.oid = r.oid := by simpa using he
          exact hoid ▸ List.mem_map_of_mem hx
        simp [hrest]
      · have hne : x.oid ≠ r.oid := fun he => hnodup.1 (he ▸ List.mem_map_of_mem hr)
        rw [List.filter_cons_of_neg (by simpa using hne)]
        exact ih hr hnodup.2
  have hperm := List.filter_append_perm (fun x : Relation => !(x.oid != r.oid)) a.relations
  rw [hone] at hperm
  simp only [Bool.not_not] at hperm
  exact hperm.symm

/-- Pages that are slotted pages hold a heap. -/
theorem exists_slotted {size : Nat} {m : List Bytes} (hm : ∀ d ∈ m, heap.Page size d) :
    ∃ h, Slotted m h := by
  induction m with
  | nil => exact ⟨[], rfl, by simp⟩
  | cons d rest ih =>
    obtain ⟨-, slots, hgood⟩ := hm d (by simp)
    obtain ⟨h, hs⟩ := ih fun d' hd' => hm d' (by simp [hd'])
    refine ⟨slots :: h, by simp [hs.length], fun p d' slots' hd' hslots' => ?_⟩
    cases p with
    | zero =>
      cases hd'
      cases hslots'
      exact hgood
    | succ p => exact hs.good p d' slots' hd' hslots'

/-- The file of a table that is dropped holds a heap, whatever was in its frames. -/
theorem user_holds_dropped {oid : Nat} {b : Option OpenedTableBundle} {io : StorageIO}
    {m : List Bytes} {h : Heap} (hu : UserHolds c a oid b io m h) :
    ∃ m' h', UserHolds c (a.remove oid) oid none io m' h' := by
  -- nothing is said of the rows of the file, and no table is open on it
  have hfile : ∀ m' h', m'.length ≤ a.inserted oid → FileHolds c m' h' io →
      UserHolds c (a.remove oid) oid none io m' h' := by
    intro m' h' hpages hholds
    refine ⟨hu.healthy, hpages, fun tuples htuples => ?_, fun _ => hholds, fun _ hb => by cases hb⟩
    simp [CatalogModel.remove] at htuples
  cases b with
  | none => exact ⟨m, h, hfile m h hu.pages (hu.closed rfl)⟩
  | some b =>
    obtain ⟨r, -, -, -, hserves, hslots⟩ := hu.opened b rfl
    obtain ⟨e, he, hh⟩ := hserves.engine
    obtain ⟨m', hst, hpages⟩ := (hslots e he).pool.stored
    obtain ⟨h', hs⟩ := exists_slotted hpages
    have hlen : m'.length = m.length := hst.count.trans hh.ready.pool.frames.count.symm
    exact ⟨m', h', hfile m' h' (by rw [hlen]; exact hu.pages) ⟨hst, hs⟩⟩

theorem user_holds_kept {r : Relation} {oid : Nat} {b : Option OpenedTableBundle} {io : StorageIO}
    {m : List Bytes} {h : Heap} (hne : oid ≠ r.oid) (hu : UserHolds c a oid b io m h) :
    UserHolds c (a.remove r.oid) oid b io m h := by
  refine ⟨hu.healthy, hu.pages, ?_, hu.closed, fun b' hb' => ?_⟩
  · simp only [CatalogModel.remove, Function.update_of_ne hne]
    exact hu.rows
  · obtain ⟨r', hr', hoid, hrest⟩ := hu.opened b' hb'
    have hkeep : r' ∈ (a.remove r.oid).relations :=
      List.mem_filter.mpr ⟨hr', by simpa [hoid] using hne⟩
    exact ⟨r', hkeep, hoid, hrest⟩

/-- What the catalog forgets of a table that it drops. -/
def forget (oid : Nat) (name : Bytes) (catalog : Catalog) : Catalog :=
  { catalog with
    user_tables := catalog.user_tables.erase oid
    class_cache_by_name := Function.update catalog.class_cache_by_name name none
    attribute_cache_by_relid := Function.update catalog.attribute_cache_by_relid oid none }

theorem running_remove (hc : HoldsCatalog c a s) (ho : a.opened = true) {r : Relation}
    (hr : r ∈ a.relations) (hkind : r.relkind = RELKIND_TABLE) {s' : CatalogState}
    (hsame : SameBut [.class_table, .attribute_table] s s')
    (hclass : TableHolds c .class_table ((a.remove r.oid).content c.types .class_table)
      (a.inserted SystemTable.class_table.oid) s')
    (hattributes : TableHolds c .attribute_table
      ((a.remove r.oid).content c.types .attribute_table)
      (a.inserted SystemTable.attribute_table.oid) s') :
    Running c (a.remove r.oid) { s' with catalog := forget r.oid r.name s'.catalog } := by
  have hrun := hc.running ho
  have hw := hc.well_formed
  have hne := (hw.remove hr hkind).opened ho
  have hoid : 5 ≤ r.oid := by
    rcases hw.kinds r hr with ⟨t, rfl⟩ | ⟨h, -⟩
    · exact absurd hkind (CatalogModel.WellFormed.system_relkind_ne t)
    · exact h
  have hlookup : ∀ o, o ≠ r.oid →
      (s'.catalog.user_tables.erase r.oid).lookup o = s.catalog.user_tables.lookup o := by
    intro o ho
    rw [AList.lookup_erase_ne ho, hsame.user_tables]
  -- relations that are not the one that is dropped
  have hkept : ∀ r' ∈ a.relations, r'.oid ≠ r.oid → r' ∈ (a.remove r.oid).relations :=
    fun r' hr' hne' => List.mem_filter.mpr ⟨hr', by simpa using hne'⟩
  refine ⟨hsame.types.trans hrun.types, hsame.config.trans hrun.config,
    hsame.refusals.trans hrun.refusals, fun t => ?_, fun o hoo => ?_, fun o hoo => ?_, ?_⟩
  · obtain ⟨m, h, hs⟩ := hrun.system t
    have htne : t.oid ≠ r.oid := by
      have := t.oid_lt
      omega
    simp only [forget]
    rw [hlookup _ htne]
    by_cases ht : t ∈ [SystemTable.class_table, SystemTable.attribute_table]
    · have hin : TableHolds c t ((a.remove r.oid).content c.types t) (a.inserted t.oid) s' ∧
          (a.remove r.oid).written t = true := by
        rcases List.mem_cons.mp ht with rfl | ht
        · exact ⟨hclass, by simp [CatalogModel.remove]⟩
        · rw [List.mem_singleton.mp ht]
          exact ⟨hattributes, by simp [CatalogModel.remove]⟩
      obtain ⟨⟨m', h', ⟨hserves, hio⟩, hcontent, hpages⟩, hwritten⟩ := hin
      exact ⟨m', h', hserves, hio, hcontent, hpages, hs.idle,
        fun hn => by rw [hwritten] at hn; cases hn⟩
    · have hfile := hsame.files t.oid fun t' ht' he => ht (SystemTable.oid_injective he ▸ ht')
      refine ⟨m, h, ?_⟩
      rw [hsame.tables t ht, hfile]
      refine ⟨hs.serves, hs.healthy, ?_, hs.pages, hs.idle, fun hn => hs.unwritten ?_⟩
      · rw [hs.content]
        cases t with
        | class_table => simp at ht
        | attribute_table => simp at ht
        | type_table => simp [CatalogModel.content, hne, hw.opened ho]
        | index_table => rfl
      · simp only [CatalogModel.remove, Bool.or_eq_false_iff] at hn
        exact hn.1.1
  · have hfile := hsame.files o fun t _ he => by
      have := t.oid_lt
      omega
    obtain ⟨m, h, hu⟩ := hrun.user o hoo
    simp only [forget]
    rw [hfile]
    by_cases ho' : o = r.oid
    · subst ho'
      rw [AList.lookup_erase]
      exact user_holds_dropped hu
    · rw [hlookup o ho']
      exact ⟨m, h, user_holds_kept ho' hu⟩
  · have hmem := AList.mem_erase.mp hoo
    exact hrun.keys o (hsame.user_tables ▸ hmem.2)
  · have hcaches := hsame.caches hrun.caches
    refine ⟨hcaches.types, fun name k hk => ?_, fun oid xs hxs => ?_⟩
    · simp only [forget, Function.update_apply] at hk
      split at hk
      · cases hk
      · rename_i hname
        obtain ⟨r', hr', hinfo, hrname⟩ := hcaches.classes name k hk
        refine ⟨r', hkept r' hr' fun he => hname ?_, hinfo, hrname⟩
        rw [← hrname, List.inj_on_of_nodup_map hw.oids hr' hr he]
    · simp only [forget, Function.update_apply] at hxs
      split at hxs
      · cases hxs
      · rename_i hoid'
        obtain ⟨r', hr', hroid, hrest⟩ := hcaches.attributes oid xs hxs
        exact ⟨r', hkept r' hr' (by rw [hroid]; exact hoid'), hroid, hrest⟩

theorem nodup_ids (h : Heap) : (h.live.map Tuple.id).Nodup := by
  refine List.Nodup.map_on (fun x hx y hy he => ?_) (Heap.nodup_live h)
  have hx' := Heap.mem_live.mp hx
  rw [he, Heap.mem_live.mp hy] at hx'
  obtain ⟨xid, xdata⟩ := x
  obtain ⟨yid, ydata⟩ := y
  cases he
  cases hx'
  rfl

/-- A record of a heap is read under its id. -/
theorem get_of_pair {ρ : Type} {k : RecordKind ρ} {h : Heap} {pairs : List (TupleId × ρ)}
    (hlive : h.live = k.tuples c.types pairs) {p : TupleId × ρ} (hp : p ∈ pairs) :
    h.get p.1 = some (k.tuple c.types p.2) := by
  have hmem : (⟨p.1, k.tuple c.types p.2⟩ : Tuple) ∈ h.live := by
    rw [hlive]
    exact List.mem_map_of_mem hp
  exact Heap.mem_live.mp hmem

theorem content_class_remove (hw : a.WellFormed c) {r : Relation} (hr : r ∈ a.relations) :
    a.content c.types .class_table = class_kind.tuple c.types r.info ::ₘ
      (a.remove r.oid).content c.types .class_table := by
  have hperm := (perm_remove hw hr).map fun x => class_kind.tuple c.types x.info
  exact Multiset.coe_eq_coe.mpr hperm

theorem content_attribute_remove (hw : a.WellFormed c) {r : Relation} (hr : r ∈ a.relations) :
    a.content c.types .attribute_table =
      (r.attributes.map (attribute_kind.tuple c.types) : List Bytes) +
        (a.remove r.oid).content c.types .attribute_table := by
  have hperm := ((perm_remove hw hr).flatMap_right Relation.attributes).map
    (attribute_kind.tuple c.types)
  rw [List.flatMap_cons, List.map_append] at hperm
  exact Multiset.coe_eq_coe.mpr hperm

/-- The writes of a drop: the rows of the attributes go, then the row of the
class, and then the catalog forgets the table. -/
theorem drop_rows.spec (hc : HoldsCatalog c a s) (ho : a.opened = true) {r : Relation}
    (hr : r ∈ a.relations) (hkind : r.relkind = RELKIND_TABLE) {m1 m2 : List Bytes} {h1 h2 : Heap}
    (hat1 : HeapAt c .class_table m1 h1 s) (hm1 : m1.length ≤ a.inserted SystemTable.class_table.oid)
    (hcontent1 : h1.content = a.content c.types .class_table)
    (hat2 : HeapAt c .attribute_table m2 h2 s)
    (hm2 : m2.length ≤ a.inserted SystemTable.attribute_table.oid)
    (hcontent2 : h2.content = a.content c.types .attribute_table) {id : TupleId}
    (hid : h1.get id = some (class_kind.tuple c.types r.info))
    {pairs : List (TupleId × CatalogAttribute)}
    (hlive : h2.live = attribute_kind.tuples c.types pairs)
    (hperm : (pairs.map Prod.snd).Perm a.attribute_records) {rows : List TableRow}
    (hrows : rows = (pairs.filter fun q => q.2.relation_oid == r.oid).map fun q =>
      TableRow.mk q.1 (attribute_kind.values q.2)) :
    (do
      each (fun row : TableRow => delete_system .attribute_table row.id) rows
      delete_system .class_table id
      modify_catalog fun c => { c with user_tables := c.user_tables.erase r.oid }
      invalidate_class_cache r.oid r.name).wp
      (fun _ s' => HoldsCatalog c (a.remove r.oid) s') (fun _ _ => False) s := by
  have hw := hc.well_formed
  have htypes := (hc.running ho).types
  have hsub : (pairs.filter fun q => q.2.relation_oid == r.oid).Sublist pairs :=
    List.filter_sublist
  have hnodup : (rows.map TableRow.id).Nodup := by
    have hall := nodup_ids h2
    rw [hlive] at hall
    unfold RecordKind.tuples at hall
    rw [List.map_map] at hall
    rw [hrows, List.map_map]
    exact hall.sublist (hsub.map _)
  have hget : ∀ row ∈ rows, h2.get row.id = some ((h2.get row.id).getD []) := by
    intro row hrow
    rw [hrows] at hrow
    obtain ⟨q, hq, rfl⟩ := List.mem_map.mp hrow
    rw [get_of_pair hlive (hsub.subset hq)]
    rfl
  -- the tuples that the deletes take out are those of the attributes
  have hdata : ((rows.map fun row => (h2.get row.id).getD [] : List Bytes) : Multiset Bytes) =
      (r.attributes.map (attribute_kind.tuple c.types) : List Bytes) := by
    have hfilter := filter_attributes hw r.oid hperm
    rw [hw.find_oid_mem hr, Option.map_some, Option.getD_some] at hfilter
    rw [← Multiset.coe_eq_coe.mpr (hfilter.map (attribute_kind.tuple c.types)), hrows,
      List.map_map, List.map_map]
    refine congrArg _ (List.map_congr_left fun q hq => ?_)
    simp only [Function.comp]
    rw [get_of_pair hlive (hsub.subset hq)]
    rfl
  rw [wp_bind]
  apply wp_mono (deletes.spec rows _ htypes hat2 hnodup hget) _ fun _ _ hf => hf
  rintro _ s3 ⟨m3, h3, hat3, hm3, hcontent3, hsame3⟩
  rw [wp_bind]
  apply wp_mono (delete_system.spec (hsame3.types.trans htypes)
    (hsame3.heap_at (by simp) hat1) hid) _ fun _ _ hf => hf
  rintro _ s4 ⟨m4, hat4, hm4, hsame4⟩
  unfold invalidate_class_cache modify_catalog
  rw [wp_bind, wp_modify, wp_modify]
  have hsame : SameBut [.class_table, .attribute_table] s s4 :=
    (hsame3.mono (by simp)).trans (hsame4.mono (by simp))
  have hclass : TableHolds c .class_table ((a.remove r.oid).content c.types .class_table)
      (a.inserted SystemTable.class_table.oid) s4 := by
    refine ⟨m4, _, hat4, ?_, by omega⟩
    have herase := Heap.content_of_erase hid
    rw [hcontent1, content_class_remove hw hr] at herase
    exact ((Multiset.cons_inj_right _).mp herase).symm
  have hattributes : TableHolds c .attribute_table
      ((a.remove r.oid).content c.types .attribute_table)
      (a.inserted SystemTable.attribute_table.oid) s4 := by
    refine hsame4.table_holds (by simp) ⟨m3, h3, hat3, ?_, by omega⟩
    rw [hcontent2, content_attribute_remove hw hr, hdata] at hcontent3
    exact (Multiset.add_right_inj.mp hcontent3).symm
  exact hc.of_running ho hsame.opened rfl (hw.remove hr hkind) hc.bound
    (running_remove hc ho hr hkind hsame hclass hattributes)

theorem drop_table.spec (hc : HoldsCatalog c a s) (oid : Nat) :
    (drop_table oid).wp
      (fun _ s' => (a.drop_table oid).1 = .ok () ∧ HoldsCatalog c (a.drop_table oid).2 s')
      (fun e s' => (a.drop_table oid).1 = .error e ∧ HoldsCatalog c (a.drop_table oid).2 s') s := by
  have hw := hc.well_formed
  unfold drop_table CatalogModel.drop_table
  rw [wp_bind]
  refine wp_check_open hc (fun ho => ?_) fun ho => by rw [ho]; exact ⟨rfl, hc⟩
  rw [ho]
  simp only [Bool.not_true, Bool.false_eq_true, if_false]
  have htypes := (hc.running ho).types
  unfold lookup_class_row
  rw [wp_bind, wp_bind, wp_get, wp_bind]
  refine wp_records class_kind hc ho (CatalogModel.content_class _)
    (fun k hk => hw.short_class hk) fun pairs1 b1 io1 m1 h1 hlive1 hp1 hs1 hc1 => ?_
  rw [htypes]
  rcases find_record class_kind CatalogClass.oid oid hp1
    (fun k hk => hw.small_class hk) with ⟨hrow, hall⟩ | ⟨p, hp, hrow, hmem, hkey⟩
  · have hno : a.find_oid oid = none :=
      CatalogModel.find_oid_eq_none.mpr fun r hr => hall r.info (List.mem_map_of_mem hr)
    erw [hrow, wp_ofExcept_ok, hno]
    exact (wp_fail _).mpr ⟨rfl, hc1⟩
  erw [hrow, wp_ofExcept_ok]
  obtain ⟨r, hr, hinfo⟩ := List.mem_map.mp hmem
  have hroid : r.oid = oid := by
    rw [← hinfo] at hkey
    exact hkey
  subst hroid
  rw [hw.find_oid_mem hr]
  simp only [← hinfo]
  have hrelkind : r.info.relkind = r.relkind := rfl
  rw [hrelkind]
  by_cases hkind : r.relkind ≠ RELKIND_TABLE
  · rw [if_pos hkind, if_pos hkind]
    exact (wp_fail _).mpr ⟨rfl, hc1⟩
  rw [if_neg hkind, if_neg hkind, wp_bind]
  rw [not_not] at hkind
  unfold lookup_attribute_rows
  have htypes1 := (hc1.running ho).types
  rw [wp_bind, wp_get, wp_bind]
  refine wp_records attribute_kind hc1 ho (CatalogModel.content_attribute _)
    (fun x hx => hw.short_attribute hx) fun pairs2 b2 io2 m2 h2 hlive2 hp2 hs2 hc2 => ?_
  have hrows := attribute_kind.filter_rows_rows c.registered (fun x => x.relation_oid == r.oid)
    pairs2 fun q hq => hw.small_attribute (hp2.subset (List.mem_map_of_mem hq))
  rw [wp_bind, htypes1]
  erw [hrows, wp_ofExcept_ok]
  rw [wp_pure, List.map_map]
  have hat1 : HeapAt c .class_table m1 h1 ((s.with_system .class_table b1 io1).with_system
      .attribute_table b2 io2) :=
    (SameBut.with_system _ _ _ _).heap_at (by simp) (.with_system hs1.serves hs1.healthy s)
  apply wp_mono (drop_rows.spec hc2 ho hr hkind hat1 hs1.pages hs1.content
    (.with_system hs2.serves hs2.healthy _) hs2.pages hs2.content
    (hinfo ▸ get_of_pair hlive1 hp) hlive2 hp2 rfl) _ fun _ _ hf => hf.elim
  exact fun _ s' hs' => ⟨rfl, hs'⟩

end Catalog

end edb
