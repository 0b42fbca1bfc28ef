-- The calls that write rows of the system tables: the rows of a new relation,
-- the rows of the first open, and the deletes of a drop. Each call is described
-- by the tuples of the tables that it writes, and by all that it leaves alone.
import Edb.CatalogLookups

namespace edb

open Call

/-- A system table serves the heap `h` in the pages `m`. -/
structure HeapAt (c : Setup) (t : SystemTable) (m : List Bytes) (h : Heap) (s : CatalogState) :
    Prop where
  serves : Serves c t.schema m h (s.catalog.system_tables t) (s.backends.files t.oid)
  healthy : (s.backends.files t.oid).Healthy

/-- A system table serves a heap with the tuples `X` in at most `n` pages. -/
def TableHolds (c : Setup) (t : SystemTable) (X : Multiset Bytes) (n : Nat) (s : CatalogState) :
    Prop :=
  ∃ m h, HeapAt c t m h s ∧ h.content = X ∧ m.length ≤ n

theorem TableHolds.table {c : Setup} {t : SystemTable} {X : Multiset Bytes} {n : Nat}
    {s : CatalogState} (hh : TableHolds c t X n s) :
    (s.catalog.system_tables t).table = some t.schema := by
  obtain ⟨m, h, hat, -⟩ := hh
  exact hat.serves.table

theorem HeapAt.with_system {c : Setup} {t : SystemTable} {m : List Bytes} {h : Heap}
    {b : OpenedTableBundle} {io : StorageIO} (hb : Serves c t.schema m h b io) (hio : io.Healthy)
    (s : CatalogState) : HeapAt c t m h (s.with_system t b io) := by
  constructor <;>
    simpa only [CatalogState.with_system, RelationBackendFactory.set_file, Function.update_self]

/-- All that is not one of the system tables `ts` is the same in both states. -/
structure SameBut (ts : List SystemTable) (s s' : CatalogState) : Prop where
  catalog : s'.catalog = { s.catalog with system_tables := s'.catalog.system_tables }
  tables : ∀ t, t ∉ ts → s'.catalog.system_tables t = s.catalog.system_tables t
  files : ∀ oid, (∀ t ∈ ts, oid ≠ t.oid) → s'.backends.files oid = s.backends.files oid
  refusals : s'.backends.refusals = s.backends.refusals

namespace SameBut

variable {ts ts' : List SystemTable} {s s' s'' : CatalogState}

theorem refl (ts : List SystemTable) (s : CatalogState) : SameBut ts s s :=
  ⟨rfl, fun _ _ => rfl, fun _ _ => rfl, rfl⟩

theorem trans (h : SameBut ts s s') (h' : SameBut ts s' s'') : SameBut ts s s'' := by
  refine ⟨h'.catalog.trans ?_, fun t ht => (h'.tables t ht).trans (h.tables t ht),
    fun oid ho => (h'.files oid ho).trans (h.files oid ho), h'.refusals.trans h.refusals⟩
  exact congrArg (fun k : Catalog => { k with system_tables := s''.catalog.system_tables }) h.catalog

theorem mono (h : SameBut ts s s') (hsub : ts ⊆ ts') : SameBut ts' s s' :=
  ⟨h.catalog, fun t ht => h.tables t fun hm => ht (hsub hm),
    fun oid ho => h.files oid fun t ht => ho t (hsub ht), h.refusals⟩

theorem with_system (s : CatalogState) (t : SystemTable) (b : OpenedTableBundle)
    (io : StorageIO) : SameBut [t] s (s.with_system t b io) :=
  ⟨rfl, fun t' ht => Function.update_of_ne (by simpa using ht) _ _,
    fun oid ho => Function.update_of_ne (ho t (by simp)) _ _, rfl⟩

theorem heap_at (h : SameBut ts s s') {c : Setup} {t : SystemTable} {m : List Bytes} {hp : Heap}
    (ht : t ∉ ts) (hs : HeapAt c t m hp s) : HeapAt c t m hp s' := by
  have hfile := h.files t.oid fun t' ht' he => ht (SystemTable.oid_injective he ▸ ht')
  have hbundle := h.tables t ht
  exact ⟨by rw [hbundle, hfile]; exact hs.serves, by rw [hfile]; exact hs.healthy⟩

theorem table_holds (h : SameBut ts s s') {c : Setup} {t : SystemTable} {X : Multiset Bytes}
    {n : Nat} (ht : t ∉ ts) (hs : TableHolds c t X n s) : TableHolds c t X n s' := by
  obtain ⟨m, hp, hat, hrest⟩ := hs
  exact ⟨m, hp, h.heap_at ht hat, hrest⟩

section

variable (h : SameBut ts s s')
include h

theorem types : s'.catalog.types = s.catalog.types := by rw [h.catalog]
theorem config : s'.catalog.config = s.catalog.config := by rw [h.catalog]
theorem opened : s'.catalog.opened = s.catalog.opened := by rw [h.catalog]
theorem user_tables : s'.catalog.user_tables = s.catalog.user_tables :=
  by rw [h.catalog]

theorem caches {a : CatalogModel} (hc : CachesHold a s.catalog) : CachesHold a s'.catalog := by
  have htypes := congrArg Catalog.type_cache_by_name h.catalog
  have hclasses := congrArg Catalog.class_cache_by_name h.catalog
  have hattributes := congrArg Catalog.attribute_cache_by_relid h.catalog
  exact ⟨htypes ▸ hc.types, hclasses ▸ hc.classes, hattributes ▸ hc.attributes⟩

end

end SameBut

/-- A catalog that writes some of its system tables holds another model, if the
tables that it wrote and its caches hold that model. -/
theorem Running.change {c : Setup} {a a' : CatalogModel} {s s' : CatalogState}
    {ts : List SystemTable} (hr : Running c a s) (hsame : SameBut ts s s')
    (hin : ∀ t ∈ ts, TableHolds c t (a'.content c.types t) (a'.inserted t.oid) s' ∧
      a'.written t = true)
    (hout : ∀ t, t ∉ ts → a'.content c.types t = a.content c.types t ∧
      a'.inserted t.oid = a.inserted t.oid ∧ a'.written t = a.written t)
    (huser : ∀ oid b io m h, 5 ≤ oid → UserHolds c a oid b io m h → UserHolds c a' oid b io m h)
    (hcaches : CachesHold a' s'.catalog) : Running c a' s' := by
  refine ⟨hsame.types.trans hr.types, hsame.config.trans hr.config,
    hsame.refusals.trans hr.refusals, fun t => ?_, fun oid hoid => ?_,
    by rw [hsame.user_tables]; exact hr.keys, hcaches⟩
  · obtain ⟨m, h, hs⟩ := hr.system t
    rw [hsame.user_tables]
    by_cases ht : t ∈ ts
    · obtain ⟨⟨m', h', ⟨hserves, hio⟩, hcontent, hpages⟩, hw⟩ := hin t ht
      exact ⟨m', h', hserves, hio, hcontent, hpages, hs.idle, fun hn => by rw [hw] at hn; cases hn⟩
    · obtain ⟨hcontent, hpages, hw⟩ := hout t ht
      have hfile := hsame.files t.oid fun t' ht' he => ht (SystemTable.oid_injective he ▸ ht')
      refine ⟨m, h, ?_⟩
      rw [hsame.tables t ht, hfile]
      exact ⟨hs.serves, hs.healthy, hcontent ▸ hs.content, hpages ▸ hs.pages, hs.idle,
        hw ▸ hs.unwritten⟩
  · obtain ⟨m, h, hu⟩ := hr.user oid hoid
    have hfile := hsame.files oid fun t _ he => by
      have := t.oid_lt
      omega
    rw [hsame.user_tables, hfile]
    exact ⟨m, h, huser oid _ _ m h hoid hu⟩

theorem Running.table_holds {c : Setup} {a : CatalogModel} {s : CatalogState}
    (hr : Running c a s) (t : SystemTable) :
    TableHolds c t (a.content c.types t) (a.inserted t.oid) s := by
  obtain ⟨m, h, hs⟩ := hr.system t
  exact ⟨m, h, ⟨hs.serves, hs.healthy⟩, hs.content, hs.pages⟩

namespace Catalog

variable {c : Setup} {a : CatalogModel} {s : CatalogState}

/-! ## Inserts -/

/-- What an insert of a record leaves behind, if it goes on a page and if not. -/
theorem wp_write {ρ : Type} (k : RecordKind ρ) (r : ρ) {X : Multiset Bytes} {n : Nat}
    (htypes : s.catalog.types = c.types) (hh : TableHolds c k.table X n s) (hroom : n ≤ 2 ^ 32) :
    (insert_system k.table (k.values r)).wp
      (fun _ s' => c.Fits (k.tuple c.types r).length ∧
        TableHolds c k.table (X + {k.tuple c.types r}) (n + 1) s' ∧ SameBut [k.table] s s')
      (fun e s' => e = .OutOfMemory ∧ ¬ c.Fits (k.tuple c.types r).length ∧
        TableHolds c k.table X n s' ∧ SameBut [k.table] s s') s := by
  obtain ⟨m, h, ⟨hserves, hio⟩, hcontent, hpages⟩ := hh
  refine wp_insert_record k r htypes hserves hio (Nat.le_trans hpages hroom) ?_ ?_
  · intro hfits id b io m' h' hs' hio' hc' hm'
    refine ⟨hfits, ⟨m', h', .with_system hs' hio' s, ?_, by omega⟩, .with_system _ _ _ _⟩
    rw [hc', hcontent, Multiset.add_comm, Multiset.singleton_add]
  · intro hbig b io hs' hio'
    exact ⟨rfl, hbig, ⟨m, h, .with_system hs' hio' s, hcontent, hpages⟩, .with_system _ _ _ _⟩

theorem insert_class.spec (r : Relation) (hoid : r.oid < 2 ^ 31) {X : Multiset Bytes} {n : Nat}
    (htypes : s.catalog.types = c.types) (hh : TableHolds c .class_table X n s)
    (hroom : n ≤ 2 ^ 32) :
    (insert_class r.oid r.name r.relkind).wp
      (fun _ s' => c.ClassFits r.name r.relkind ∧
        TableHolds c .class_table (X + {class_kind.tuple c.types r.info}) (n + 1) s' ∧
        SameBut [.class_table] s s')
      (fun e s' => e = .OutOfMemory ∧ ¬ c.ClassFits r.name r.relkind ∧
        TableHolds c .class_table X n s' ∧ SameBut [.class_table] s s') s := by
  unfold insert_class
  have hrow : class_row c.types (narrow r.oid) r.name r.relkind = .ok (class_values r.info) :=
    class_row_eq (c := r.info) c.registered hoid
  rw [wp_bind, wp_get, htypes, hrow, wp_bind, wp_ofExcept_ok, wp_bind]
  have hlen : c.Fits (class_kind.tuple c.types r.info).length ↔ c.ClassFits r.name r.relkind := by
    rw [length_class_tuple c.registered]
    rfl
  rw [← hlen]
  refine wp_mono (wp_write class_kind r.info htypes hh hroom) ?_ (fun _ _ he => he)
  exact fun _ s' h => (wp_pure _).mpr h

theorem write_schema_attributes.spec (oid index : Nat) (columns : List ColumnSchema)
    {X : Multiset Bytes} {n : Nat} (htypes : s.catalog.types = c.types)
    (hh : TableHolds c .attribute_table X n s)
    (hroom : n + (c.fitting columns).length ≤ 2 ^ 32) :
    let Wrote := fun s' => TableHolds c .attribute_table
      (X + ((Relation.numbered oid index (c.fitting columns)).map
        (attribute_kind.tuple c.types) : List Bytes)) (n + (c.fitting columns).length) s' ∧
      SameBut [.attribute_table] s s'
    (write_schema_attributes oid index columns).wp
      (fun _ s' => (columns.all fun column => decide (c.ColumnFits column)) = true ∧ Wrote s')
      (fun e s' => e = .OutOfMemory ∧
        (columns.all fun column => decide (c.ColumnFits column)) = false ∧ Wrote s') s := by
  induction columns generalizing index X n s with
  | nil => exact (wp_pure _).mpr ⟨rfl, by simpa [Setup.fitting, Relation.numbered] using hh, .refl _ _⟩
  | cons column rest ih =>
    unfold write_schema_attributes
    rw [wp_bind, wp_get, htypes, attribute_row_eq c.registered, wp_bind, wp_ofExcept_ok, wp_bind]
    have hlen : c.Fits (attribute_kind.tuple c.types
        ⟨oid, index + 1, column.name, column.type_oid, column.nullable⟩).length ↔
        c.ColumnFits column := by
      rw [length_attribute_tuple c.registered]
      rfl
    apply wp_mono (wp_write attribute_kind _ htypes hh (by omega))
    · rintro _ s' ⟨hfits, hh', hsame⟩
      have hcol := hlen.mp hfits
      have hcons : c.fitting (column :: rest) = column :: c.fitting rest := by
        simp [Setup.fitting, hcol]
      rw [hcons] at hroom ⊢
      have hrest := ih (index + 1) (hsame.types.trans htypes) hh' (by simp at hroom; omega)
      have hcontent : X + {attribute_kind.tuple c.types
          ⟨oid, index + 1, column.name, column.type_oid, column.nullable⟩} +
          (((Relation.numbered oid (index + 1) (c.fitting rest)).map
            (attribute_kind.tuple c.types) : List Bytes) : Multiset Bytes) =
          X + ((Relation.numbered oid index (column :: c.fitting rest)).map
            (attribute_kind.tuple c.types) : List Bytes) := by
        rw [Multiset.add_assoc]
        rfl
      have hcount : n + 1 + (c.fitting rest).length = n + (column :: c.fitting rest).length := by
        simp
        omega
      simp only [List.all_cons, hcol, decide_true, Bool.true_and]
      rw [hcontent, hcount] at hrest
      apply wp_mono hrest
      · exact fun _ s'' h => ⟨h.1, h.2.1, hsame.trans h.2.2⟩
      · exact fun _ s'' h => ⟨h.1, h.2.1, h.2.2.1, hsame.trans h.2.2.2⟩
    · rintro e s' ⟨rfl, hbig, hh', hsame⟩
      have hcol : ¬ c.ColumnFits column := fun hf => hbig (hlen.mpr hf)
      have hnil : c.fitting (column :: rest) = [] := by simp [Setup.fitting, hcol]
      rw [hnil]
      exact ⟨rfl, by simp [hcol], by simpa [Relation.numbered, attribute_kind] using hh', hsame⟩

/-! ## Deletes -/

theorem delete_system.spec {t : SystemTable} {m : List Bytes} {h : Heap} {id : TupleId} {d : Bytes}
    (htypes : s.catalog.types = c.types) (hh : HeapAt c t m h s) (hid : h.get id = some d) :
    (delete_system t id).wp
      (fun _ s' => ∃ m', HeapAt c t m' (h.erase id) s' ∧ m'.length = m.length ∧ SameBut [t] s s')
      (fun _ _ => False) s :=
  wp_delete_system htypes hh.serves hh.healthy hid fun _ _ m' hs' hio' hm' =>
    ⟨m', .with_system hs' hio' s, hm', .with_system _ _ _ _⟩

/-- Deletes of distinct rows take their tuples out of the heap. -/
theorem deletes.spec {t : SystemTable} {m : List Bytes} {h : Heap} (rows : List TableRow)
    (data : TableRow → Bytes) (htypes : s.catalog.types = c.types) (hh : HeapAt c t m h s)
    (hnodup : (rows.map TableRow.id).Nodup) (hget : ∀ row ∈ rows, h.get row.id = some (data row)) :
    (each (fun row : TableRow => delete_system t row.id) rows).wp
      (fun _ s' => ∃ m' h', HeapAt c t m' h' s' ∧ m'.length = m.length ∧
        h.content = (rows.map data : List Bytes) + h'.content ∧ SameBut [t] s s')
      (fun _ _ => False) s := by
  induction rows generalizing m h s with
  | nil => exact (wp_pure _).mpr ⟨m, h, hh, rfl, by simp, .refl _ _⟩
  | cons row rest ih =>
    have hrow := hget row (by simp)
    rw [List.map_cons, List.nodup_cons] at hnodup
    unfold each
    rw [wp_bind]
    apply wp_mono (delete_system.spec htypes hh hrow) _ fun _ _ hf => hf
    rintro _ s1 ⟨m1, h1, hm1, hsame⟩
    have hrest : ∀ row' ∈ rest, (h.erase row.id).get row'.id = some (data row') := by
      intro row' hmem
      have hne : row'.id ≠ row.id := fun he => hnodup.1 (he ▸ List.mem_map_of_mem hmem)
      rw [Heap.get_erase, if_neg hne]
      exact hget row' (by simp [hmem])
    apply wp_mono (ih (hsame.types.trans htypes) h1 hnodup.2 hrest) _ fun _ _ hf => hf
    rintro _ s2 ⟨m2, h2, hat, hm2, hcontent, hsame'⟩
    refine ⟨m2, h2, hat, hm2.trans hm1, ?_, hsame.trans hsame'⟩
    rw [Heap.content_of_erase hrow, hcontent]
    rfl

end Catalog

end edb
