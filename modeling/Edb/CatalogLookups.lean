-- The lookups of a catalog that holds a model give the answers of the model,
-- from a cache or from a scan, and they leave the model as it is.
import Edb.CatalogTables

namespace edb

open Call

namespace CatalogModel

variable {c : Setup} {a : CatalogModel}

def class_records (a : CatalogModel) : List CatalogClass := a.relations.map Relation.info

def attribute_records (a : CatalogModel) : List CatalogAttribute :=
  a.relations.flatMap Relation.attributes

theorem content_class (types : TypeRegistry) : a.content types Catalog.class_kind.table =
    (a.class_records.map (Catalog.class_kind.tuple types) : List Bytes) := by
  unfold class_records
  rw [List.map_map]
  rfl

theorem content_attribute (types : TypeRegistry) : a.content types Catalog.attribute_kind.table =
    (a.attribute_records.map (Catalog.attribute_kind.tuple types) : List Bytes) := rfl

theorem content_type (types : TypeRegistry) (h : a.relations ≠ []) :
    a.content types Catalog.type_kind.table =
      (type_records.map (Catalog.type_kind.tuple types) : List Bytes) := by
  show (if a.relations.isEmpty then _ else _) = _
  rw [if_neg (by simpa using h)]

theorem small_type {t : CatalogType} (h : t ∈ type_records) : Catalog.SmallType t := by
  obtain ⟨b, -, rfl⟩ := List.mem_map.mp h
  cases b <;> exact ⟨by decide, by decide, by decide⟩

theorem short_type {t : CatalogType} (h : t ∈ type_records) :
    (Catalog.type_kind.tuple c.types t).length < 2 ^ 32 := by
  rw [Catalog.length_type_tuple c.registered]
  obtain ⟨b, -, rfl⟩ := List.mem_map.mp h
  cases b <;> decide

/-- The rows of the classes can be written and read back. -/
structure ClassesKept (c : Setup) (a : CatalogModel) : Prop where
  names : (a.relations.map Relation.name).Nodup
  oids : ∀ r ∈ a.relations, r.oid < 2 ^ 31
  fits : ∀ r ∈ a.relations, c.ClassFits r.name r.relkind

theorem ClassesKept.small_class (hk : a.ClassesKept c) {k : CatalogClass}
    (h : k ∈ a.class_records) : Catalog.class_kind.Small k := by
  obtain ⟨r, hr, rfl⟩ := List.mem_map.mp h
  exact hk.oids r hr

theorem ClassesKept.short_class (hk : a.ClassesKept c) {k : CatalogClass}
    (h : k ∈ a.class_records) : (Catalog.class_kind.tuple c.types k).length < 2 ^ 32 := by
  obtain ⟨r, hr, rfl⟩ := List.mem_map.mp h
  have hfits := hk.fits r hr
  have hmax := c.page_max
  unfold Setup.ClassFits Setup.Fits at hfits
  rw [Catalog.length_class_tuple c.registered]
  simp only [Relation.info]
  omega

namespace WellFormed

theorem classes (hw : WellFormed c a) : a.ClassesKept c :=
  ⟨hw.names, fun r hr => (hw.keeps r hr).oid, fun r hr => (hw.keeps r hr).fits⟩

theorem small_class (hw : WellFormed c a) {k : CatalogClass} (h : k ∈ a.class_records) :
    Catalog.class_kind.Small k := hw.classes.small_class h

theorem short_class (hw : WellFormed c a) {k : CatalogClass} (h : k ∈ a.class_records) :
    (Catalog.class_kind.tuple c.types k).length < 2 ^ 32 := hw.classes.short_class h

theorem small_attribute (hw : WellFormed c a) {x : CatalogAttribute}
    (h : x ∈ a.attribute_records) : Catalog.attribute_kind.Small x := by
  obtain ⟨r, hr, hx⟩ := List.mem_flatMap.mp h
  have hk := hw.keeps r hr
  have hnum := Relation.attnum_of_mem hx
  have hcount := hk.count
  refine ⟨?_, by omega, (hk.columns _ (Relation.column_of_mem hx)).1⟩
  rw [Relation.relation_oid_of_mem hx]
  exact hk.oid

theorem short_attribute (hw : WellFormed c a) {x : CatalogAttribute}
    (h : x ∈ a.attribute_records) : (Catalog.attribute_kind.tuple c.types x).length < 2 ^ 32 := by
  obtain ⟨r, hr, hx⟩ := List.mem_flatMap.mp h
  have hfits := ((hw.keeps r hr).columns _ (Relation.column_of_mem hx)).2
  have hmax := c.page_max
  unfold Setup.ColumnFits Setup.Fits at hfits
  rw [Catalog.length_attribute_tuple c.registered]
  simp only at hfits
  omega

end WellFormed

end CatalogModel

namespace HoldsCatalog

variable {c : Setup} {a : CatalogModel} {s : CatalogState}

/-- A catalog that is open stays one when its tables and caches still hold. -/
theorem of_running {a' : CatalogModel} {s' : CatalogState} (hc : HoldsCatalog c a s)
    (ho : a.opened = true) (hopen : s'.catalog.opened = s.catalog.opened)
    (ho' : a'.opened = a.opened) (hw : a'.WellFormed c)
    (hb : ∀ t : SystemTable, a'.inserted t.oid ≤ 2 ^ 32) (hr : Running c a' s') :
    HoldsCatalog c a' s' :=
  ⟨hopen.trans (hc.opened.trans ho'.symm), hw, hb, fun _ => hr, fun hn => by
    rw [ho', ho] at hn
    cases hn⟩

theorem same (hc : HoldsCatalog c a s) (ho : a.opened = true) {s' : CatalogState}
    (hopen : s'.catalog.opened = s.catalog.opened) (hr : Running c a s') :
    HoldsCatalog c a s' :=
  hc.of_running ho hopen rfl hc.well_formed hc.bound hr

end HoldsCatalog

namespace Catalog

variable {c : Setup} {a : CatalogModel} {s : CatalogState}

/-- What a lookup leaves: the model, and the tables that are open. -/
def Looked (c : Setup) (a : CatalogModel) (s s' : CatalogState) : Prop :=
  HoldsCatalog c a s' ∧ s'.catalog.user_tables = s.catalog.user_tables

theorem wp_check_open {Q : Unit → CatalogState → Prop} {E : Error → CatalogState → Prop}
    (hc : HoldsCatalog c a s) (hq : a.opened = true → Q () s)
    (he : a.opened = false → E .InvalidArgument s) : check_open.wp Q E s := by
  unfold check_open
  rw [wp_bind, wp_get, hc.opened]
  cases ho : a.opened with
  | true => exact (wp_pure _).mpr (hq ho)
  | false => exact (wp_fail _).mpr (he ho)

/-- A scan of the records of the model. -/
theorem wp_records {ρ : Type} (k : RecordKind ρ) {rs : List ρ}
    {Q : List TableRow → CatalogState → Prop} {E : Error → CatalogState → Prop}
    (hc : HoldsCatalog c a s) (ho : a.opened = true)
    (hrs : a.content c.types k.table = (rs.map (k.tuple c.types) : List Bytes))
    (hlen : ∀ r ∈ rs, (k.tuple c.types r).length < 2 ^ 32)
    (hq : ∀ pairs b io m h, h.live = k.tuples c.types pairs → (pairs.map Prod.snd).Perm rs →
      SystemHolds c a k.table b (s.catalog.user_tables.lookup k.table.oid) io m h →
      HoldsCatalog c a (s.with_system k.table b io) →
      Q (k.rows pairs) (s.with_system k.table b io)) :
    (scan_system k.table).wp Q E s := by
  have hr := hc.running ho
  obtain ⟨m, h, hs⟩ := hr.system k.table
  refine wp_scan_records k hr.types hs (hc.bound _) hrs hlen fun pairs b io hlive hp hs' => ?_
  exact hq pairs b io m h hlive hp hs' (hc.same ho rfl (hr.with_system hs'))

/-- A search for a key that records have once does not depend on their order. -/
theorem find_record {ρ κ : Type} [BEq κ] [LawfulBEq κ] (k : RecordKind ρ) (key : ρ → κ) (wanted : κ)
    {pairs : List (TupleId × ρ)} {rs : List ρ} (hp : (pairs.map Prod.snd).Perm rs)
    (hsmall : ∀ r ∈ rs, k.Small r) :
    (find_row (k.decode c.types) (fun r => key r == wanted) (k.rows pairs) = .ok none ∧
        ∀ r ∈ rs, key r ≠ wanted) ∨
      ∃ p ∈ pairs, find_row (k.decode c.types) (fun r => key r == wanted) (k.rows pairs) =
          .ok (some (⟨p.1, k.values p.2⟩, p.2)) ∧ p.2 ∈ rs ∧ key p.2 = wanted := by
  have hrow := k.find_row_rows c.registered (fun r => key r == wanted) pairs
    fun p hp' => hsmall _ (hp.subset (List.mem_map_of_mem hp'))
  rcases hf : pairs.find? fun p => key p.2 == wanted with _ | p
  · refine Or.inl ⟨by rw [hrow, hf]; rfl, fun r hr he => ?_⟩
    obtain ⟨p, hp', rfl⟩ := List.mem_map.mp (hp.symm.subset hr)
    have hno := List.find?_eq_none.mp hf p hp'
    simp [he] at hno
  · have hmem := List.mem_of_find?_eq_some hf
    exact Or.inr ⟨p, hmem, by rw [hrow, hf]; rfl, hp.subset (List.mem_map_of_mem hmem),
      by simpa using List.find?_some hf⟩

/-- A cache that holds in all entries holds with one more. -/
theorem cache_update {κ ρ : Type} [DecidableEq κ] {cache : κ → Option ρ} {P : κ → ρ → Prop}
    (h : ∀ n u, cache n = some u → P n u) {key : κ} {r : ρ} (hr : P key r) :
    ∀ n u, Function.update cache key (some r) n = some u → P n u := by
  intro n u hu
  by_cases hn : n = key
  · subst hn
    rw [Function.update_self] at hu
    cases hu
    exact hr
  · rw [Function.update_of_ne hn] at hu
    exact h n u hu

theorem cache_forget {κ ρ : Type} [DecidableEq κ] {cache : κ → Option ρ} {P : κ → ρ → Prop}
    (h : ∀ n u, cache n = some u → P n u) (key : κ) :
    ∀ n u, Function.update cache key none n = some u → P n u := by
  intro n u hu
  by_cases hn : n = key
  · subst hn
    simp at hu
  · rw [Function.update_of_ne hn] at hu
    exact h n u hu

/-! ## Types and classes -/

theorem get_type.spec (hc : HoldsCatalog c a s) (name : Bytes) :
    (get_type name).wp (fun t s' => a.get_type name = .ok t ∧ Looked c a s s')
      (fun e s' => a.get_type name = .error e ∧ Looked c a s s') s := by
  unfold get_type CatalogModel.get_type
  rw [wp_bind]
  refine wp_check_open hc (fun ho => ?_) fun ho => by rw [ho]; exact ⟨rfl, hc, rfl⟩
  rw [wp_bind, wp_get, ho]
  simp only [Bool.not_true, Bool.false_eq_true, if_false]
  have hr := hc.running ho
  -- names are distinct, so the type with a name is the first one with it
  have hfind : ∀ t ∈ type_records, type_records.find? (fun u => u.name == t.name) = some t := by
    decide
  split
  · rename_i found hcache
    obtain ⟨hmem, hname⟩ := hr.caches.types name found hcache
    rw [← hname, hfind found hmem]
    exact (wp_pure _).mpr ⟨rfl, hc, rfl⟩
  · rw [wp_bind]
    refine wp_records type_kind hc ho (CatalogModel.content_type _ (hc.well_formed.opened ho))
      (fun t ht => CatalogModel.short_type ht) fun pairs b io m h _ hp hs hc' => ?_
    rw [wp_bind, hr.types]
    rcases find_record type_kind CatalogType.name name hp
      (fun t ht => CatalogModel.small_type ht) with ⟨hrow, hall⟩ | ⟨p, -, hrow, hmem, hname⟩
    · have hno : type_records.find? (fun t => t.name == name) = none := by simpa using hall
      erw [hrow, wp_ofExcept_ok, hno]
      exact (wp_fail _).mpr ⟨rfl, hc', rfl⟩
    · erw [hrow, wp_ofExcept_ok]
      have hr' := hc'.running ho
      rw [← hname, hfind p.2 hmem]
      simp only
      rw [wp_bind]
      unfold modify_catalog
      rw [wp_modify, wp_pure]
      exact ⟨rfl, hc'.same ho rfl ⟨hr'.types, hr'.config, hr'.refusals, hr'.system, hr'.user,
        hr'.keys, ⟨cache_update hr'.caches.types ⟨hmem, rfl⟩, hr'.caches.classes,
          hr'.caches.attributes⟩⟩, rfl⟩

/-- A lookup of a class reads the table of the classes only. -/
theorem get_class.running (hr : Running c a s) (hopen : s.catalog.opened = true)
    (hbound : a.inserted SystemTable.class_table.oid ≤ 2 ^ 32) (hk : a.ClassesKept c)
    (name : Bytes) :
    let Kept := fun s' => Running c a s' ∧ s'.catalog.opened = true ∧
      s'.catalog.user_tables = s.catalog.user_tables
    (get_class name).wp (fun k s' => (∃ r, a.find name = some r ∧ r.info = k) ∧ Kept s')
      (fun e s' => (a.find name = none ∧ e = .NotFound) ∧ Kept s') s := by
  unfold get_class check_open
  rw [wp_bind, wp_bind, wp_get, hopen]
  simp only [Bool.not_true, Bool.false_eq_true, if_false]
  rw [wp_pure, wp_bind, wp_get]
  split
  · rename_i found hcache
    obtain ⟨r, hmem, rfl, rfl⟩ := hr.caches.classes name found hcache
    exact (wp_pure _).mpr ⟨⟨r, CatalogModel.find_of_nodup hk.names hmem, rfl⟩, hr, hopen, rfl⟩
  · rw [wp_bind]
    obtain ⟨m, h, hs⟩ := hr.system .class_table
    refine wp_scan_records class_kind hr.types hs hbound (CatalogModel.content_class _)
      (fun k h => hk.short_class h) fun pairs b io _ hp hs' => ?_
    have hr' := hr.with_system hs'
    rw [wp_bind, hr.types]
    rcases find_record class_kind CatalogClass.name name hp
      (fun k h => hk.small_class h) with ⟨hrow, hall⟩ | ⟨p, -, hrow, hmem, hname⟩
    · have hno : a.find name = none :=
        CatalogModel.find_eq_none.mpr fun r hr => hall r.info (List.mem_map_of_mem hr)
      erw [hrow, wp_ofExcept_ok]
      exact (wp_fail _).mpr ⟨⟨hno, rfl⟩, hr', hopen, rfl⟩
    · erw [hrow, wp_ofExcept_ok]
      obtain ⟨r, hrel, hinfo⟩ := List.mem_map.mp hmem
      rw [← hinfo] at hname ⊢
      have hfind : a.find name = some r := hname ▸ CatalogModel.find_of_nodup hk.names hrel
      simp only
      rw [wp_bind]
      unfold modify_catalog
      rw [wp_modify, wp_pure]
      exact ⟨⟨r, hfind, rfl⟩, ⟨hr'.types, hr'.config, hr'.refusals, hr'.system, hr'.user,
        hr'.keys, ⟨hr'.caches.types, cache_update hr'.caches.classes ⟨r, hrel, rfl, rfl⟩,
          hr'.caches.attributes⟩⟩, hopen, rfl⟩

theorem get_class.spec (hc : HoldsCatalog c a s) (name : Bytes) :
    (get_class name).wp (fun k s' => a.get_class name = .ok k ∧ Looked c a s s')
      (fun e s' => a.get_class name = .error e ∧ Looked c a s s') s := by
  cases ho : a.opened with
  | false =>
    unfold get_class CatalogModel.get_class
    rw [wp_bind]
    exact wp_check_open hc (fun ho' => by rw [ho] at ho'; cases ho') fun _ => by
      rw [ho]
      exact ⟨rfl, hc, rfl⟩
  | true =>
    have hopened := hc.opened.trans ho
    unfold CatalogModel.get_class
    rw [ho]
    apply wp_mono (get_class.running (hc.running ho) hopened
      (hc.bound .class_table) hc.well_formed.classes name)
    · rintro k s' ⟨⟨r, hfind, rfl⟩, hr', hopen, htables⟩
      rw [hfind]
      exact ⟨rfl, hc.same ho (hopen.trans hopened.symm) hr', htables⟩
    · rintro e s' ⟨⟨hfind, rfl⟩, hr', hopen, htables⟩
      rw [hfind]
      exact ⟨rfl, hc.same ho (hopen.trans hopened.symm) hr', htables⟩

/-! ## Attributes -/

/-- Sorting by number undoes the order of the scan. -/
theorem sort_by_attnum_perm {xs ys : List CatalogAttribute} (hp : xs.Perm ys)
    (hs : ys.Pairwise fun x y => x.attnum < y.attnum) : sort_by_attnum xs = ys := by
  have hperm := (List.perm_insertionSort
    (fun x y : CatalogAttribute => x.attnum ≤ y.attnum) xs).trans hp
  refine hperm.eq_of_pairwise ?_ (List.pairwise_insertionSort _ xs) (hs.imp Nat.le_of_lt)
  -- two attributes of the list with one number are one
  have hnodup : (ys.map CatalogAttribute.attnum).Nodup :=
    (List.pairwise_map.mpr hs).imp Nat.ne_of_lt
  intro x y hx hy hxy hyx
  exact List.inj_on_of_nodup_map hnodup (hperm.subset hx) hy (Nat.le_antisymm hxy hyx)

/-- The attributes of a relation, from the records of all. -/
theorem filter_attributes (hw : a.WellFormed c) (oid : Nat)
    {pairs : List (TupleId × CatalogAttribute)}
    (hp : (pairs.map Prod.snd).Perm a.attribute_records) :
    ((pairs.filter fun p => p.2.relation_oid == oid).map Prod.snd).Perm
      (((a.find_oid oid).map Relation.attributes).getD []) := by
  rw [← hw.attributes_of oid]
  have h := hp.filter fun x => x.relation_oid == oid
  rwa [List.filter_map] at h

theorem get_attributes.spec (hc : HoldsCatalog c a s) (oid : Nat) :
    (get_attributes oid).wp (fun xs s' => a.get_attributes oid = .ok xs ∧ Looked c a s s')
      (fun e s' => a.get_attributes oid = .error e ∧ Looked c a s s') s := by
  unfold get_attributes CatalogModel.get_attributes
  rw [wp_bind]
  refine wp_check_open hc (fun ho => ?_) fun ho => by rw [ho]; exact ⟨rfl, hc, rfl⟩
  rw [wp_bind, wp_get, ho]
  simp only [Bool.not_true, Bool.false_eq_true, if_false]
  have hr := hc.running ho
  have hw := hc.well_formed
  split
  · rename_i found hcache
    obtain ⟨r, hmem, rfl, hne, rfl⟩ := hr.caches.attributes oid found hcache
    rw [hw.find_oid_mem hmem]
    exact (wp_pure _).mpr ⟨by simp [hne], hc, rfl⟩
  · rw [wp_bind]
    refine wp_records attribute_kind hc ho (CatalogModel.content_attribute _)
      (fun x hx => hw.short_attribute hx) fun pairs b io m h _ hp hs hc' => ?_
    have hrows := attribute_kind.filter_rows_rows c.registered (fun x => x.relation_oid == oid)
      pairs fun p hp' => hw.small_attribute (hp.subset (List.mem_map_of_mem hp'))
    rw [wp_bind, hr.types]
    erw [hrows, wp_ofExcept_ok]
    have hsort : sort_by_attnum ((List.map (fun p => (TableRow.mk p.1 (attribute_kind.values p.2),
        p.2)) (pairs.filter fun p => p.2.relation_oid == oid)).map Prod.snd) =
        ((a.find_oid oid).map Relation.attributes).getD [] := by
      rw [List.map_map]
      refine sort_by_attnum_perm (filter_attributes hw oid hp) ?_
      rcases a.find_oid oid with _ | r
      · exact .nil
      · exact Relation.sorted_numbered _ _ _
    rw [hsort]
    rcases hfind : a.find_oid oid with _ | r
    · exact (wp_fail _).mpr ⟨rfl, hc', rfl⟩
    · obtain ⟨hmem, hoid⟩ := CatalogModel.mem_of_find_oid hfind
      have hempty : r.attributes.isEmpty = r.columns.isEmpty := by
        unfold Relation.attributes
        cases r.columns <;> rfl
      simp only [Option.map_some, Option.getD_some, hempty]
      split
      · exact (wp_fail _).mpr ⟨rfl, hc', rfl⟩
      · rename_i hne
        have hr' := hc'.running ho
        rw [wp_bind]
        unfold modify_catalog
        rw [wp_modify, wp_pure]
        exact ⟨rfl, hc'.same ho rfl ⟨hr'.types, hr'.config, hr'.refusals, hr'.system, hr'.user,
          hr'.keys, ⟨hr'.caches.types, hr'.caches.classes, cache_update hr'.caches.attributes
            ⟨r, hmem, hoid, by simpa using hne, rfl⟩⟩⟩, rfl⟩

end Catalog

end edb
