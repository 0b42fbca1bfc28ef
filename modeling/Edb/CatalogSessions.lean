-- Sessions of a catalog. The first open of a catalog on empty files writes the
-- rows that describe the system tables, a later open finds them, and a close
-- brings all tables to their files.
import Edb.CatalogCalls

namespace edb

open Call

namespace Catalog

variable {c : Setup} {a : CatalogModel} {s : CatalogState}

/-! ## The rows of the first open -/

/-- Calls that each write some tuples to one table write all of them. -/
theorem wp_writes {ι : Type} {t : SystemTable} (f : ι → Call Error CatalogState Unit)
    (g : ι → List Bytes) (xs : List ι) {X : Multiset Bytes} {n : Nat}
    (hh : TableHolds c t X n s) (hroom : n + (xs.flatMap g).length ≤ 2 ^ 32)
    (hstep : ∀ x ∈ xs, ∀ s' X' n', SameBut [t] s s' → TableHolds c t X' n' s' →
      n' + (g x).length ≤ 2 ^ 32 →
      (f x).wp (fun _ s'' => TableHolds c t (X' + (g x : List Bytes)) (n' + (g x).length) s'' ∧
        SameBut [t] s' s'') (fun _ _ => False) s') :
    (each f xs).wp (fun _ s' => TableHolds c t (X + (xs.flatMap g : List Bytes))
      (n + (xs.flatMap g).length) s' ∧ SameBut [t] s s') (fun _ _ => False) s := by
  induction xs generalizing X n s with
  | nil => exact (wp_pure _).mpr ⟨by simpa using hh, .refl _ _⟩
  | cons x rest ih =>
    rw [List.flatMap_cons, List.length_append] at hroom
    unfold each
    rw [wp_bind]
    apply wp_mono (hstep x (by simp) s X n (.refl _ _) hh (by omega)) _ fun _ _ hf => hf
    rintro _ s1 ⟨hh1, hsame1⟩
    apply wp_mono (ih hh1 (by omega) fun y hy s' X' n' hsame => hstep y (by simp [hy]) s' X' n'
      (hsame1.trans hsame)) _ fun _ _ hf => hf
    rintro _ s2 ⟨hh2, hsame2⟩
    refine ⟨?_, hsame1.trans hsame2⟩
    rw [List.flatMap_cons, ← Multiset.coe_add, ← Multiset.add_assoc, List.length_append,
      ← Nat.add_assoc]
    exact hh2

/-- The row of a builtin type. -/
def builtin_record (b : Builtin) : CatalogType := ⟨b.oid, b.type.name, b.type.fixed_size⟩

theorem bootstrap_type.spec (b : Builtin) {X : Multiset Bytes} {n : Nat}
    (htypes : s.catalog.types = c.types) (hh : TableHolds c .type_table X n s)
    (hroom : n ≤ 2 ^ 32) :
    (bootstrap_type b.type.name).wp
      (fun _ s' => TableHolds c .type_table (X + {type_kind.tuple c.types (builtin_record b)})
        (n + 1) s' ∧ SameBut [.type_table] s s')
      (fun _ _ => False) s := by
  have hsmall : SmallType (builtin_record b) := by
    cases b <;> exact ⟨by decide, by decide, by decide⟩
  have hrow : type_row c.types (narrow b.type.oid) b.type.name
      (fixed_size_to_catalog_length b.type.fixed_size) = .ok (type_values (builtin_record b)) := by
    have hoid : b.type.oid = b.oid := by cases b <;> rfl
    rw [hoid]
    exact type_row_eq (t := builtin_record b) c.registered hsmall.1 hsmall.2.1
  unfold bootstrap_type
  rw [wp_bind, wp_get, htypes, c.registered.by_name b, wp_bind, wp_ofExcept_ok, hrow, wp_bind,
    wp_ofExcept_ok, wp_bind]
  apply wp_mono (wp_write type_kind (builtin_record b) htypes hh hroom)
  · rintro _ s' ⟨-, hh', hsame⟩
    exact (wp_pure _).mpr ⟨hh', hsame⟩
  · rintro _ s' ⟨-, hbig, -⟩
    refine hbig ?_
    have hpage := c.page_min
    unfold Setup.Fits
    rw [length_type_tuple c.registered]
    have hname : (builtin_record b).name.length ≤ 7 := by cases b <;> decide
    simp only [heap.SLOT_SIZE, heap.PAGE_HEADER_SIZE]
    omega

theorem bootstrap_types.spec {X : Multiset Bytes} {n : Nat} (htypes : s.catalog.types = c.types)
    (hh : TableHolds c .type_table X n s) (hroom : n + 5 ≤ 2 ^ 32) :
    bootstrap_types.wp
      (fun _ s' => TableHolds c .type_table
        (X + (type_records.map (type_kind.tuple c.types) : List Bytes)) (n + 5) s' ∧
        SameBut [.type_table] s s')
      (fun _ _ => False) s := by
  have hnames : [str "int32", str "int64", str "float64", str "bool", str "text"] =
      Builtin.all.map fun b => b.type.name := rfl
  unfold bootstrap_types
  rw [hnames, each_map]
  exact wp_writes (fun b : Builtin => bootstrap_type b.type.name)
    (fun b => [type_kind.tuple c.types (builtin_record b)]) Builtin.all hh hroom
    fun b _ s' X' n' hsame hh' hroom' =>
      bootstrap_type.spec b (hsame.types.trans htypes) hh' (Nat.le_of_succ_le hroom')

theorem fits_system_class (t : SystemTable) : c.ClassFits t.name t.relkind := by
  have hpage := c.page_min
  have hlen : t.name.length + t.relkind.length ≤ 19 := by cases t <;> decide
  unfold Setup.ClassFits Setup.Fits
  simp only [heap.SLOT_SIZE, heap.PAGE_HEADER_SIZE]
  omega

theorem fits_system_columns (t : SystemTable) :
    ∀ column ∈ t.schema.columns, column.type_oid < 2 ^ 31 ∧ c.ColumnFits column := by
  have hpage := c.page_min
  have hlen : ∀ column ∈ t.schema.columns, column.type_oid < 2 ^ 31 ∧ column.name.length ≤ 8 := by
    cases t <;> decide
  intro column hmem
  obtain ⟨htype, hname⟩ := hlen column hmem
  refine ⟨htype, ?_⟩
  unfold Setup.ColumnFits Setup.Fits
  simp only [heap.SLOT_SIZE, heap.PAGE_HEADER_SIZE]
  omega

theorem fitting_system (t : SystemTable) : c.fitting t.schema.columns = t.schema.columns :=
  List.takeWhile_eq_self_iff.mpr fun column hmem => by
    simpa using (fits_system_columns t column hmem).2

theorem bootstrap_classes.spec {X : Multiset Bytes} {n : Nat} (htypes : s.catalog.types = c.types)
    (hh : TableHolds c .class_table X n s) (hroom : n + 4 ≤ 2 ^ 32) :
    bootstrap_classes.wp
      (fun _ s' => TableHolds c .class_table (X + (SystemTable.all.map fun t =>
        class_kind.tuple c.types (Relation.system t).info : List Bytes)) (n + 4) s' ∧
        SameBut [.class_table] s s')
      (fun _ _ => False) s := by
  refine wp_writes (fun t : SystemTable => insert_class t.oid t.name t.relkind)
    (fun t => [class_kind.tuple c.types (Relation.system t).info]) SystemTable.all hh hroom
    fun t _ s' X' n' hsame hh' hroom' => ?_
  have hoid : (Relation.system t).oid < 2 ^ 31 := by cases t <;> decide
  apply wp_mono (insert_class.spec (Relation.system t) hoid (hsame.types.trans htypes) hh'
    (Nat.le_of_succ_le hroom'))
  · exact fun _ s'' h => h.2
  · exact fun _ s'' h => h.2.1 (fits_system_class t)

/-- The loops over the columns of the system tables, which are open. -/
theorem bootstrap_columns.spec {X : Multiset Bytes} {n : Nat} (htypes : s.catalog.types = c.types)
    (hopen : ∀ t, (s.catalog.system_tables t).table = some t.schema)
    (hh : TableHolds c .attribute_table X n s) (hroom : n + 14 ≤ 2 ^ 32) :
    (each (fun table => do
      let s ← .get
      write_schema_attributes table.oid 0 (system_columns s.catalog table)) SystemTable.all).wp
      (fun _ s' => TableHolds c .attribute_table (X + ((SystemTable.all.flatMap fun t =>
        (Relation.system t).attributes).map (attribute_kind.tuple c.types) : List Bytes))
        (n + 14) s' ∧ SameBut [.attribute_table] s s')
      (fun _ _ => False) s := by
  have hall := wp_writes (fun table => do
      let s ← .get
      write_schema_attributes table.oid 0 (system_columns s.catalog table))
    (fun t : SystemTable => (Relation.system t).attributes.map (attribute_kind.tuple c.types))
    SystemTable.all hh hroom ?_
  · rw [List.map_flatMap]
    exact hall
  intro t _ s' X' n' hsame hh' hroom'
  have hschema : system_columns s'.catalog t = t.schema.columns := by
    have htable : (s'.catalog.system_tables t).table = some t.schema := by
      by_cases ht : t = .attribute_table
      · subst ht
        exact hh'.table
      · rw [hsame.tables t (by simpa using ht)]
        exact hopen t
    unfold system_columns
    rw [htable]
    rfl
  have hlen : (Relation.system t).attributes.length = t.schema.columns.length :=
    Relation.length_numbered _ _ _
  rw [List.length_map, hlen] at hroom' ⊢
  rw [wp_bind, wp_get, hschema]
  have hfit := fitting_system (c := c) t
  apply wp_mono (write_schema_attributes.spec t.oid 0 t.schema.columns (hsame.types.trans htypes)
    hh' (by rw [hfit]; exact hroom'))
  · rintro _ s'' ⟨-, hh'', hsame'⟩
    rw [hfit] at hh''
    exact ⟨hh'', hsame'⟩
  · rintro _ s'' ⟨-, hall, -⟩
    have hfits : (t.schema.columns.all fun column => decide (c.ColumnFits column)) = true :=
      List.all_eq_true.mpr fun column hmem => by simpa using (fits_system_columns t column hmem).2
    rw [hfits] at hall
    cases hall

/-! ## Opens -/

/-- After the tables are opened, the catalog holds what the files hold. -/
theorem open_system_tables.spec (hrest : Resting c a s) :
    open_system_tables.wp (fun _ s' => Running c a.opened_again s') (fun _ _ => False) s := by
  choose m h hfile hio hcontent hpages using hrest.system
  -- the tables that are open so far
  let I := fun (done : List SystemTable) (s' : CatalogState) => s'.backends = s.backends ∧
    s'.catalog = { s.catalog with system_tables := s'.catalog.system_tables } ∧
    ∀ t ∈ done, Fresh c t.schema (m t) (s'.catalog.system_tables t) (s.backends.files t.oid)
  have hloop : open_system_tables.wp (fun _ => I ([] ++ SystemTable.all)) (fun _ _ => False) s := by
    refine wp_each open_system_table I SystemTable.all [] ⟨rfl, rfl, by simp⟩ ?_
    rintro t before after s1 hsplit ⟨hbackends, hcatalog, hfresh⟩
    have htypes : s1.catalog.types = c.types := by
      rw [hcatalog]
      exact hrest.types
    have hconfig : s1.catalog.config = c.config := by
      rw [hcatalog]
      exact hrest.config
    have hoid : t.schema.relation_oid = t.oid := by cases t <;> rfl
    unfold open_system_table
    rw [wp_bind, wp_get, htypes, SystemTable.system_schema_eq c.registered, wp_bind, wp_ofExcept_ok, hconfig]
    unfold on_system
    rw [wp_zoom]
    have hst : BufferPool.Stored c.store (m t) (s1.backends.files t.schema.relation_oid) := by
      rw [hbackends, hoid]
      exact (hfile t).stored
    apply wp_mono (OpenedTableBundle.open.spec (hbackends ▸ hrest.refusals) hst) _
      fun _ _ hf => hf
    rintro _ st ⟨hst', hnew⟩
    refine ⟨hst'.trans hbackends, by rw [hcatalog], fun t' ht' => ?_⟩
    by_cases he : t' = t
    · subst he
      rw [hbackends, hoid] at hnew
      simpa using hnew
    · have hmem : t' ∈ [] ++ before := by simpa [he] using ht'
      simp only [Function.update_of_ne he]
      exact hfresh t' hmem
  apply wp_mono hloop _ fun _ _ hf => hf
  rintro _ s' ⟨hbackends, hcatalog, hfresh⟩
  have hnone : s'.catalog.user_tables = ∅ := by
    rw [hcatalog]
    exact hrest.user_tables
  refine ⟨?_, ?_, by rw [hbackends]; exact hrest.refusals, fun t => ⟨m t, h t, ?_⟩,
    fun oid hoid => ?_, ?_, ?_⟩
  · rw [hcatalog]
    exact hrest.types
  · rw [hcatalog]
    exact hrest.config
  · have hf := hfresh t (by cases t <;> simp [SystemTable.all])
    rw [hnone, hbackends]
    exact ⟨hf.serves (hfile t).slotted, hio t, by rw [hcontent t]; cases t <;> rfl, hpages t,
      fun _ hb => by simp at hb, fun _ => ⟨hf.idle, fun _ hb => by simp at hb⟩⟩
  · obtain ⟨m', h', hu⟩ := hrest.user oid hoid
    rw [hnone, hbackends]
    exact ⟨m', h', hu.healthy, hu.pages, hu.rows, fun _ => hu.closed rfl,
      fun _ hb => by simp at hb⟩
  · rw [hnone]
    intro oid hmem
    simp at hmem
  · have hcaches := hrest.caches
    rw [hcatalog]
    refine ⟨hcaches.types, fun name k hk => ?_, fun oid xs hxs => ?_⟩
    · obtain ⟨r, hr, -⟩ := hcaches.classes name k hk
      cases hr
    · obtain ⟨r, hr, -⟩ := hcaches.attributes oid xs hxs
      cases hr

theorem well_formed_booted (c : Setup) (a : CatalogModel) : a.booted.WellFormed c := by
  refine ⟨?_, ?_, fun r hr => ?_, fun _ t => ?_, fun r hr => ?_, fun _ => List.cons_ne_nil _ _⟩
  · show (SystemTable.all.map fun t => (Relation.system t).name).Nodup
    decide
  · show (SystemTable.all.map fun t => (Relation.system t).oid).Nodup
    decide
  · obtain ⟨t, -, rfl⟩ := List.mem_map.mp hr
    exact ⟨by cases t <;> decide, by cases t <;> decide, fits_system_class t,
      fits_system_columns t⟩
  · exact List.mem_map_of_mem (by cases t <;> simp [SystemTable.all])
  · obtain ⟨t, -, rfl⟩ := List.mem_map.mp hr
    exact Or.inl ⟨t, rfl⟩

/-- The rows of the first open. -/
theorem bootstrap_catalog.spec (hr : Running c a.opened_again s) (hnone : a.relations = [])
    (hroom : ∀ t : SystemTable, a.booted.inserted t.oid ≤ 2 ^ 32) :
    bootstrap_catalog.wp (fun _ s' => Running c a.booted s') (fun _ _ => False) s := by
  have hw := well_formed_booted c a
  -- the system tables hold nothing yet
  have hzero : ∀ t, TableHolds c t 0 (a.inserted t.oid) s := by
    intro t
    have hcontent : a.opened_again.content c.types t = 0 := by
      cases t <;> simp [CatalogModel.content, CatalogModel.opened_again, hnone]
    exact hcontent ▸ hr.table_holds t
  unfold bootstrap_catalog
  rw [wp_bind]
  apply wp_mono (bootstrap_types.spec hr.types (hzero .type_table) (hroom .type_table)) _
    fun _ _ hf => hf
  rintro _ s1 ⟨hh1, hsame1⟩
  rw [wp_bind]
  apply wp_mono (bootstrap_classes.spec (hsame1.types.trans hr.types)
    (hsame1.table_holds (by simp) (hzero .class_table)) (hroom .class_table)) _ fun _ _ hf => hf
  rintro _ s2 ⟨hh2, hsame2⟩
  have hsame12 : SameBut [.type_table, .class_table, .attribute_table] s s2 :=
    (hsame1.mono (by simp)).trans (hsame2.mono (by simp))
  have htypes2 := hsame12.types.trans hr.types
  unfold bootstrap_attributes
  rw [wp_bind]
  obtain ⟨m, h, hat, hcontent, hpages⟩ := hh2
  have hs : SystemHolds c a.booted .class_table (s2.catalog.system_tables .class_table) none
      (s2.backends.files SystemTable.class_table.oid) m h := by
    refine ⟨hat.serves, hat.healthy, ?_, hpages, fun _ hb => (by cases hb),
      fun hn => (by cases hn)⟩
    rw [hcontent, Multiset.zero_add]
    rfl
  refine wp_scan_records class_kind htypes2 hs (hroom .class_table)
    (CatalogModel.content_class _) (fun k hk => hw.short_class hk) ?_
  intro pairs b io _ _ hs3
  have hsame3 := SameBut.with_system s2 .class_table b io
  have hsame : SameBut [.type_table, .class_table, .attribute_table] s
      (s2.with_system .class_table b io) := hsame12.trans (hsame3.mono (by simp))
  have hclass : TableHolds c .class_table (a.booted.content c.types .class_table)
      (a.booted.inserted SystemTable.class_table.oid) (s2.with_system .class_table b io) :=
    ⟨m, h, .with_system hs3.serves hs3.healthy s2, hs3.content, hs3.pages⟩
  have htype : TableHolds c .type_table (a.booted.content c.types .type_table)
      (a.booted.inserted SystemTable.type_table.oid) (s2.with_system .class_table b io) := by
    have hh := hsame3.table_holds (by simp) (hsame2.table_holds (by simp) hh1)
    rw [Multiset.zero_add] at hh
    exact hh
  have hattributes := hsame3.table_holds (by simp) (hsame2.table_holds (by simp)
    (hsame1.table_holds (by simp) (hzero .attribute_table)))
  have hindex := hsame.table_holds (by simp) (hzero .index_table)
  have hopen : ∀ t, ((s2.with_system .class_table b io).catalog.system_tables t).table =
      some t.schema := by
    intro t
    cases t with
    | type_table => exact htype.table
    | class_table => exact hclass.table
    | attribute_table => exact hattributes.table
    | index_table => exact hindex.table
  apply wp_mono (bootstrap_columns.spec (hsame.types.trans hr.types) hopen hattributes
    (hroom .attribute_table)) _ fun _ _ hf => hf
  rintro _ s4 ⟨hh4, hsame4⟩
  have hlast : SameBut [.type_table, .class_table, .attribute_table] s s4 :=
    hsame.trans (hsame4.mono (by simp))
  refine hr.change hlast ?_ ?_ ?_ ?_
  · intro t ht
    cases t with
    | type_table => exact ⟨hsame4.table_holds (by simp) htype, rfl⟩
    | class_table => exact ⟨hsame4.table_holds (by simp) hclass, rfl⟩
    | attribute_table =>
      rw [Multiset.zero_add] at hh4
      exact ⟨hh4, rfl⟩
    | index_table => simp at ht
  · intro t ht
    cases t with
    | index_table => exact ⟨rfl, rfl, rfl⟩
    | _ => simp at ht
  · intro oid b io m h hoid hu
    have hins : a.booted.inserted oid = a.inserted oid := by
      show a.inserted oid + _ = _
      rw [if_neg (by omega), if_neg (by omega), if_neg (by omega)]
      rfl
    refine ⟨hu.healthy, hins ▸ hu.pages, hu.rows, hu.closed, fun b' hb' => ?_⟩
    obtain ⟨r, hmem, -⟩ := hu.opened b' hb'
    rw [show a.opened_again.relations = [] from hnone] at hmem
    cases hmem
  · have hcaches := hlast.caches hr.caches
    refine ⟨hcaches.types, fun name k hk => ?_, fun oid xs hxs => ?_⟩
    · obtain ⟨r, hmem, -⟩ := hcaches.classes name k hk
      rw [show a.opened_again.relations = [] from hnone] at hmem
      cases hmem
    · obtain ⟨r, hmem, -⟩ := hcaches.attributes oid xs hxs
      rw [show a.opened_again.relations = [] from hnone] at hmem
      cases hmem

end Catalog

theorem Catalog.open.spec {c : Setup} {a : CatalogModel} {s : CatalogState}
    (hc : HoldsCatalog c a s) (ho : a.opened = false)
    (hroom : ∀ t : SystemTable, a.reopened.inserted t.oid ≤ 2 ^ 32) :
    Catalog.open.wp (fun _ s' => HoldsCatalog c a.reopened s') (fun _ _ => False) s := by
  have hw := hc.well_formed
  unfold Catalog.open
  rw [wp_bind]
  apply wp_mono (Catalog.open_system_tables.spec (hc.resting ho)) _ fun _ _ hf => hf
  intro _ s1 hr1
  obtain ⟨m, h, hs⟩ := hr1.system .class_table
  unfold Catalog.bootstrap_if_needed Catalog.modify_catalog
  rw [wp_bind, wp_bind]
  refine Catalog.wp_scan_records Catalog.class_kind hr1.types hs (hc.bound .class_table)
    (CatalogModel.content_class _) (fun k hk => hw.short_class hk) ?_
  intro pairs b io _ hperm hs2
  have hr2 := hr1.with_system hs2
  have hlen : pairs.length = a.relations.length := by
    have hlen := hperm.length_eq
    unfold CatalogModel.class_records at hlen
    rw [List.length_map, List.length_map] at hlen
    exact hlen
  have hempty : (Catalog.class_kind.rows pairs).isEmpty = a.relations.isEmpty := by
    unfold RecordKind.rows
    rw [Bool.eq_iff_iff, List.isEmpty_iff_length_eq_zero, List.isEmpty_iff_length_eq_zero,
      List.length_map, hlen]
  unfold CatalogModel.reopened at hroom ⊢
  rw [hempty]
  cases hnil : a.relations.isEmpty with
  | false =>
    rw [hnil] at hroom
    have hne : a.relations ≠ [] := by simpa using hnil
    refine (wp_pure _).mpr ((wp_modify _).mpr ?_)
    exact ⟨rfl, ⟨hw.names, hw.oids, hw.keeps, hw.system, hw.kinds, fun _ => hne⟩, hroom,
      fun _ => ⟨hr2.types, hr2.config, hr2.refusals, hr2.system, hr2.user, hr2.keys,
        ⟨hr2.caches.types, hr2.caches.classes, hr2.caches.attributes⟩⟩, fun hn => by cases hn⟩
  | true =>
    rw [hnil] at hroom
    apply wp_mono (Catalog.bootstrap_catalog.spec hr2 (by simpa using hnil) hroom) _
      fun _ _ hf => hf
    intro _ s3 hr3
    refine (wp_modify _).mpr ?_
    exact ⟨rfl, Catalog.well_formed_booted c a, hroom,
      fun _ => ⟨hr3.types, hr3.config, hr3.refusals, hr3.system, hr3.user, hr3.keys,
        ⟨hr3.caches.types, hr3.caches.classes, hr3.caches.attributes⟩⟩, fun hn => by cases hn⟩

/-! ## Closes -/

namespace Catalog

variable {c : Setup} {a : CatalogModel} {s : CatalogState}

/-- A catalog that has closed the tables under the oids `done`. -/
structure Closing (c : Setup) (a : CatalogModel) (done : List Nat) (s : CatalogState) : Prop where
  types : s.catalog.types = c.types
  config : s.catalog.config = c.config
  refusals : s.backends.refusals = []
  system : ∀ t : SystemTable, TableHolds c t (a.content c.types t) (a.inserted t.oid) s
  second : ∀ t : SystemTable, t.oid ∉ done → ∀ b, s.catalog.user_tables.lookup t.oid = some b →
    IdleTable c t.schema b
  user : ∀ oid, 5 ≤ oid → ∃ m h, UserHolds c a oid
    (if oid ∈ done then none else s.catalog.user_tables.lookup oid) (s.backends.files oid) m h

theorem closing_of_running (hr : Running c a s) : Closing c a [] s := by
  refine ⟨hr.types, hr.config, hr.refusals, hr.table_holds, fun t _ b hb => ?_, fun oid hoid => ?_⟩
  · obtain ⟨m, h, hs⟩ := hr.system t
    exact hs.idle b hb
  · simpa using hr.user oid hoid

theorem wp_on_user_close {oid : Nat} {b : OpenedTableBundle} {P : StorageIO → Prop}
    {Q : CatalogState → Prop} (hb : s.catalog.user_tables.lookup oid = some b)
    (hclose : OpenedTableBundle.close.wp
      (fun _ st => ∃ io, st.backends = s.backends.set_file oid io ∧ P io) (fun _ _ => False)
      ⟨b, s.backends⟩)
    (hq : ∀ b' io, P io → Q (s.with_user oid b' io)) :
    (on_user oid OpenedTableBundle.close).wp (fun _ => Q) (fun _ _ => False) s := by
  unfold on_user
  rw [wp_bind, wp_get]
  simp only [hb]
  rw [wp_zoom]
  apply wp_mono hclose _ fun _ _ hf => hf
  rintro _ st ⟨io, hbackends, hp⟩
  rw [hbackends]
  exact hq st.bundle io hp

theorem file_with_user {oid o : Nat} {b : OpenedTableBundle} {io : StorageIO}
    (h : o = oid → io = s.backends.files oid) :
    (s.with_user oid b io).backends.files o = s.backends.files o := by
  by_cases ho : o = oid
  · subst ho
    rw [h rfl]
    exact Function.update_self _ _ _
  · exact Function.update_of_ne ho _ _

theorem table_holds_with_user {t : SystemTable} {X : Multiset Bytes} {n oid : Nat}
    {b : OpenedTableBundle} {io : StorageIO} (hh : TableHolds c t X n s)
    (h : t.oid = oid → io = s.backends.files oid) :
    TableHolds c t X n (s.with_user oid b io) := by
  obtain ⟨m, hp, hat, hrest⟩ := hh
  refine ⟨m, hp, ⟨?_, ?_⟩, hrest⟩
  · rw [file_with_user h]
    exact hat.serves
  · rw [file_with_user h]
    exact hat.healthy

/-- One more table is closed, if its part of the invariant holds without it. -/
theorem Closing.step {done : List Nat} {oid : Nat} {b : OpenedTableBundle} {io : StorageIO}
    (hcl : Closing c a done s) (hsys : ∀ t : SystemTable, t.oid = oid → io = s.backends.files oid)
    (huser : 5 ≤ oid → ∃ m h, UserHolds c a oid none io m h) :
    Closing c a (done ++ [oid]) (s.with_user oid b io) ∧
      ∀ o, o ≠ oid → (s.with_user oid b io).catalog.user_tables.lookup o =
        s.catalog.user_tables.lookup o := by
  have hlookup : ∀ o, o ≠ oid → (s.with_user oid b io).catalog.user_tables.lookup o =
      s.catalog.user_tables.lookup o := fun o ho => AList.lookup_insert_ne ho
  refine ⟨⟨hcl.types, hcl.config, hcl.refusals,
    fun t => table_holds_with_user (hcl.system t) (hsys t), fun t ht b' hb' => ?_,
    fun o ho => ?_⟩, hlookup⟩
  · simp only [List.mem_append, List.mem_singleton, not_or] at ht
    rw [hlookup _ ht.2] at hb'
    exact hcl.second t ht.1 b' hb'
  · by_cases hne : o = oid
    · subst hne
      have hfile : (s.with_user o b io).backends.files o = io := Function.update_self _ _ _
      rw [if_pos (by simp), hfile]
      exact huser ho
    · have hmem : o ∈ done ++ [oid] ↔ o ∈ done := by simp [hne]
      rw [hlookup _ hne, file_with_user fun h => absurd h hne]
      simp only [hmem]
      exact hcl.user o ho

theorem close_user.spec {done : List Nat} {oid : Nat} (hcl : Closing c a done s) (hoid : 1 ≤ oid)
    (hnew : oid ∉ done) {b : OpenedTableBundle}
    (hb : s.catalog.user_tables.lookup oid = some b) :
    (on_user oid OpenedTableBundle.close).wp
      (fun _ s' => Closing c a (done ++ [oid]) s' ∧
        ∀ o, o ≠ oid → s'.catalog.user_tables.lookup o = s.catalog.user_tables.lookup o)
      (fun _ _ => False) s := by
  by_cases hsys : oid < 5
  · obtain ⟨t, rfl⟩ : ∃ t : SystemTable, t.oid = oid := by
      have hcases : oid = 1 ∨ oid = 2 ∨ oid = 3 ∨ oid = 4 := by omega
      rcases hcases with rfl | rfl | rfl | rfl
      · exact ⟨.type_table, rfl⟩
      · exact ⟨.class_table, rfl⟩
      · exact ⟨.attribute_table, rfl⟩
      · exact ⟨.index_table, rfl⟩
    obtain ⟨m, h, hat, -⟩ := hcl.system t
    have hschema : t.schema.relation_oid = t.oid := by cases t <;> rfl
    have hclose := OpenedTableBundle.close_idle (u := ⟨b, s.backends⟩) (hcl.second t hnew b hb)
      (by rw [hschema]; exact hat.healthy)
    refine wp_on_user_close (P := (· = s.backends.files t.oid)) hb (wp_mono hclose
      (fun _ st hst => ⟨_, hst.trans (s.backends.set_file_self _).symm, rfl⟩)
      fun _ _ hf => hf) fun b' io hio => ?_
    exact hcl.step (fun _ _ => hio) fun h5 => absurd hsys (by omega)
  · obtain ⟨m, h, hu⟩ := hcl.user oid (by omega)
    rw [if_neg hnew] at hu
    obtain ⟨r, -, rfl, -, hserves, -⟩ := hu.opened b hb
    have hclose := OpenedTableBundle.close.spec (u := ⟨b, s.backends⟩) hserves hu.healthy
    refine wp_on_user_close hb (wp_mono hclose (fun _ st hst => hst.2.2) fun _ _ hf => hf)
      fun b' io hio => hcl.step (fun t ht => ?_) fun _ => ⟨m, h, ?_⟩
    · have := t.oid_lt
      omega
    · exact ⟨hio.2, hu.pages, hu.rows, fun _ => hio.1, fun _ hn => (by cases hn)⟩

/-- A catalog that has closed its user tables and the system tables `done`. -/
structure Ending (c : Setup) (a : CatalogModel) (done : List SystemTable) (s : CatalogState) :
    Prop where
  types : s.catalog.types = c.types
  config : s.catalog.config = c.config
  refusals : s.backends.refusals = []
  user_tables : s.catalog.user_tables = ∅
  opened : ∀ t, t ∉ done → TableHolds c t (a.content c.types t) (a.inserted t.oid) s
  closed : ∀ t ∈ done, (s.catalog.system_tables t).engine = none ∧
    (s.catalog.system_tables t).backend = none ∧
    ∃ m h, FileHolds c m h (s.backends.files t.oid) ∧ (s.backends.files t.oid).Healthy ∧
      h.content = a.content c.types t ∧ m.length ≤ a.inserted t.oid
  user : ∀ oid, 5 ≤ oid → ∃ m h, UserHolds c a oid none (s.backends.files oid) m h

theorem close_system.spec {done : List SystemTable} {t : SystemTable} (he : Ending c a done s)
    (hnew : t ∉ done) :
    (on_system t OpenedTableBundle.close).wp (fun _ s' => Ending c a (done ++ [t]) s')
      (fun _ _ => False) s := by
  obtain ⟨m, h, hat, hcontent, hpages⟩ := he.opened t hnew
  have hschema : t.schema.relation_oid = t.oid := by cases t <;> rfl
  unfold on_system
  rw [wp_zoom]
  have hclose := OpenedTableBundle.close.spec (u := ⟨s.catalog.system_tables t, s.backends⟩)
    (hschema ▸ hat.serves) (hschema ▸ hat.healthy)
  rw [hschema] at hclose
  apply wp_mono hclose _ fun _ _ hf => hf
  rintro _ st ⟨hengine, hbackend, io, hbackends, hfile, hio⟩
  rw [hbackends]
  have hstate : SameBut [t] s (s.with_system t st.bundle io) := SameBut.with_system _ _ _ _
  refine ⟨he.types, he.config, he.refusals, he.user_tables, fun t' ht' => ?_, fun t' ht' => ?_,
    fun o ho => ?_⟩
  · simp only [List.mem_append, List.mem_singleton, not_or] at ht'
    exact hstate.table_holds (by simpa using ht'.2) (he.opened t' ht'.1)
  · by_cases hne : t' = t
    · subst hne
      simp only [Function.update_self, RelationBackendFactory.set_file_same]
      exact ⟨hengine, hbackend, m, h, hfile, hio, hcontent, hpages⟩
    · have hmem : t' ∈ done := by simpa [hne] using ht'
      have hfile' : (s.backends.set_file t.oid io).files t'.oid = s.backends.files t'.oid :=
        Function.update_of_ne (fun h => hne (SystemTable.oid_injective h)) _ _
      simp only [Function.update_of_ne hne]
      rw [hfile']
      exact he.closed t' hmem
  · have hne : o ≠ t.oid := by
      have := t.oid_lt
      omega
    have hfile' : (s.backends.set_file t.oid io).files o = s.backends.files o :=
      Function.update_of_ne hne _ _
    rw [hfile']
    exact he.user o ho

theorem mem_all (t : SystemTable) : t ∈ SystemTable.all := by
  cases t <;> simp [SystemTable.all]

/-- A second close of the system tables. -/
theorem close_system_again.spec (he : Ending c a SystemTable.all s) (t : SystemTable) :
    (on_system t OpenedTableBundle.close).wp (fun _ s' => Ending c a SystemTable.all s')
      (fun _ _ => False) s := by
  obtain ⟨hengine, hbackend, -⟩ := he.closed t (mem_all t)
  unfold on_system
  rw [wp_zoom]
  apply wp_mono (OpenedTableBundle.close_closed (u := ⟨s.catalog.system_tables t, s.backends⟩)
    hengine hbackend) _ fun _ _ hf => hf
  rintro _ st ⟨hengine', hbackend', hbackends⟩
  rw [hbackends]
  refine ⟨he.types, he.config, he.refusals, he.user_tables, fun t' ht' => absurd (mem_all t') ht',
    fun t' ht' => ?_, he.user⟩
  obtain ⟨h1, h2, hfile⟩ := he.closed t' ht'
  by_cases hne : t' = t
  · subst hne
    simp only [Function.update_self]
    exact ⟨hengine', hbackend', hfile⟩
  · simp only [Function.update_of_ne hne]
    exact ⟨h1, h2, hfile⟩

/-- Nothing is left of a catalog that is closed but its files. -/
theorem holds_closed (he : Ending c a SystemTable.all s) (hw : a.WellFormed c)
    (hb : ∀ t : SystemTable, a.inserted t.oid ≤ 2 ^ 32) :
    HoldsCatalog c a.closed ⟨{ s.catalog with
      type_cache_by_name := fun _ => none
      class_cache_by_name := fun _ => none
      attribute_cache_by_relid := fun _ => none
      opened := false }, s.backends⟩ := by
  refine ⟨rfl, ⟨hw.names, hw.oids, hw.keeps, hw.system, hw.kinds, fun h => (by cases h)⟩, hb,
    fun h => (by cases h), fun _ => ⟨he.types, he.config, he.refusals, fun t => ?_,
      he.user_tables, fun t => ?_, fun oid hoid => ?_,
      ⟨fun _ _ h => (by cases h), fun _ _ h => (by cases h), fun _ _ h => (by cases h)⟩⟩⟩
  · obtain ⟨h1, h2, -⟩ := he.closed t (mem_all t)
    exact ⟨h1, h2⟩
  · obtain ⟨-, -, m, h, hfile, hio, hcontent, hpages⟩ := he.closed t (mem_all t)
    exact ⟨m, h, hfile, hio, by rw [hcontent]; cases t <;> rfl, hpages⟩
  · obtain ⟨m, h, hu⟩ := he.user oid hoid
    exact ⟨m, h, hu.healthy, hu.pages, hu.rows, hu.closed, hu.opened⟩

theorem close.spec (hc : HoldsCatalog c a s) :
    close.wp (fun _ s' => HoldsCatalog c a.closed s') (fun _ _ => False) s := by
  have hw := hc.well_formed
  have hall : [] ++ SystemTable.all.reverse = SystemTable.all.reverse := rfl
  unfold close
  rw [wp_bind, wp_get, wp_bind]
  cases ho : a.opened with
  | false =>
    have hrest := hc.resting ho
    rw [hrest.user_tables]
    refine (wp_pure _).mpr ?_
    unfold modify_catalog
    rw [wp_bind, wp_modify, wp_bind]
    have hend : Ending c a SystemTable.all ⟨{ s.catalog with user_tables := ∅ }, s.backends⟩ := by
      refine ⟨hrest.types, hrest.config, hrest.refusals, rfl,
        fun t ht => absurd (mem_all t) ht, fun t _ => ?_, hrest.user⟩
      exact ⟨(hrest.closed t).1, (hrest.closed t).2, hrest.system t⟩
    apply wp_mono (wp_each (fun table => on_system table OpenedTableBundle.close)
      (fun _ => Ending c a SystemTable.all) SystemTable.all.reverse [] hend
      fun t _ _ s1 _ he => close_system_again.spec he t) _ fun _ _ hf => hf
    intro _ s1 he
    exact (wp_modify _).mpr (holds_closed he hw hc.bound)
  | true =>
    have hr := hc.running ho
    -- the user tables, one after the other
    let I := fun (done : List Nat) (s' : CatalogState) => Closing c a done s' ∧
      ∀ o, o ∉ done → s'.catalog.user_tables.lookup o = s.catalog.user_tables.lookup o
    have hloop : (each (fun oid => on_user oid OpenedTableBundle.close)
        s.catalog.user_tables.keys).wp (fun _ => I ([] ++ s.catalog.user_tables.keys))
        (fun _ _ => False) s := by
      refine wp_each _ I _ [] ⟨closing_of_running hr, fun _ _ => rfl⟩ ?_
      rintro oid before after s1 hsplit ⟨hcl, hsame⟩
      have hmem : oid ∈ s.catalog.user_tables := by
        have hkey : oid ∈ s.catalog.user_tables.keys := by simp [hsplit]
        exact hkey
      have hnew : oid ∉ [] ++ before := by
        have hnodup := s.catalog.user_tables.keys_nodup
        rw [hsplit] at hnodup
        have hdisj := List.nodup_append.mp hnodup
        intro hb
        exact hdisj.2.2 oid (by simpa using hb) oid (by simp) rfl
      obtain ⟨b, hb⟩ := Option.isSome_iff_exists.mp (AList.lookup_isSome.mpr hmem)
      rw [← hsame oid hnew] at hb
      apply wp_mono (close_user.spec hcl (hr.keys oid hmem) hnew hb) _ fun _ _ hf => hf
      rintro _ s2 ⟨hcl2, hsame2⟩
      refine ⟨hcl2, fun o ho' => ?_⟩
      simp only [List.mem_append, List.mem_singleton, not_or] at ho'
      rw [hsame2 o ho'.2]
      exact hsame o (by simpa using ho'.1)
    apply wp_mono hloop _ fun _ _ hf => hf
    rintro _ s1 ⟨hcl, hsame⟩
    unfold modify_catalog
    rw [wp_bind, wp_modify, wp_bind]
    have hend : Ending c a [] ⟨{ s1.catalog with user_tables := ∅ }, s1.backends⟩ := by
      refine ⟨hcl.types, hcl.config, hcl.refusals, rfl, fun t _ => ?_,
        fun t ht => (by cases ht), fun oid hoid => ?_⟩
      · obtain ⟨m, h, hat, hrest⟩ := hcl.system t
        exact ⟨m, h, ⟨hat.serves, hat.healthy⟩, hrest⟩
      obtain ⟨m, h, hu⟩ := hcl.user oid hoid
      refine ⟨m, h, ?_⟩
      split at hu
      · exact hu
      · rename_i hno
        have hnone : s1.catalog.user_tables.lookup oid = none := by
          rw [hsame oid hno]
          exact AList.lookup_eq_none.mpr fun hmem => hno hmem
        rw [hnone] at hu
        exact hu
    have hsys : (each (fun table => on_system table OpenedTableBundle.close)
        SystemTable.all.reverse).wp (fun _ => Ending c a ([] ++ SystemTable.all.reverse))
        (fun _ _ => False) ⟨{ s1.catalog with user_tables := ∅ }, s1.backends⟩ := by
      refine wp_each _ (Ending c a) _ [] hend ?_
      intro t before after s2 hsplit he
      refine close_system.spec he fun hmem => ?_
      have hnodup : SystemTable.all.reverse.Nodup := by decide
      rw [hsplit] at hnodup
      exact (List.nodup_append.mp hnodup).2.2 t (by simpa using hmem) t (by simp) rfl
    apply wp_mono hsys _ fun _ _ hf => hf
    intro _ s2 he
    rw [hall] at he
    refine (wp_modify _).mpr (holds_closed ?_ hw hc.bound)
    exact ⟨he.types, he.config, he.refusals, he.user_tables,
      fun t ht => he.opened t (by simpa using ht), fun t ht => he.closed t (by simpa using ht),
      he.user⟩

end Catalog

end edb
