-- What the catalog is for: a list of relations under names and oids, and the
-- tuples of each user table. The calls of the catalog answer from it.
import Mathlib.Data.Multiset.MapFold
import Edb.CatalogRows

namespace edb

/-- A relation as the catalog describes it. -/
structure Relation where
  oid : Nat
  name : Bytes
  relkind : Bytes
  columns : List ColumnSchema
  deriving DecidableEq, Repr

namespace Relation

/-- The columns as attributes, numbered from `index + 1` on. -/
def numbered (oid : Nat) : Nat → List ColumnSchema → List CatalogAttribute
  | _, [] => []
  | index, column :: rest =>
    ⟨oid, index + 1, column.name, column.type_oid, column.nullable⟩ :: numbered oid (index + 1) rest

def info (r : Relation) : CatalogClass := ⟨r.oid, r.name, r.relkind⟩

def attributes (r : Relation) : List CatalogAttribute := numbered r.oid 0 r.columns

def schema (r : Relation) : TableSchema := ⟨r.oid, r.name, r.columns⟩

theorem relation_oid_of_mem {oid index : Nat} {columns : List ColumnSchema} {x : CatalogAttribute}
    (h : x ∈ numbered oid index columns) : x.relation_oid = oid := by
  induction columns generalizing index with
  | nil => cases h
  | cons column rest ih =>
    rcases List.mem_cons.mp h with rfl | h
    · rfl
    · exact ih h

theorem attnum_of_mem {oid index : Nat} {columns : List ColumnSchema} {x : CatalogAttribute}
    (h : x ∈ numbered oid index columns) :
    index < x.attnum ∧ x.attnum ≤ index + columns.length := by
  induction columns generalizing index with
  | nil => cases h
  | cons column rest ih =>
    rw [List.length_cons]
    rcases List.mem_cons.mp h with rfl | h
    · dsimp only
      omega
    · have := ih h
      omega

theorem exists_attnum (oid : Nat) {index n : Nat} {columns : List ColumnSchema} (hlt : index < n)
    (hle : n ≤ index + columns.length) : ∃ x ∈ numbered oid index columns, x.attnum = n := by
  induction columns generalizing index with
  | nil =>
    rw [List.length_nil] at hle
    omega
  | cons column rest ih =>
    rw [List.length_cons] at hle
    by_cases hn : n = index + 1
    · exact ⟨_, List.mem_cons_self, hn.symm⟩
    · have hrest : ∃ x ∈ numbered oid (index + 1) rest, x.attnum = n := ih (by omega) (by omega)
      obtain ⟨x, hx, hnum⟩ := hrest
      exact ⟨x, List.mem_cons_of_mem _ hx, hnum⟩

theorem sorted_numbered (oid index : Nat) (columns : List ColumnSchema) :
    (numbered oid index columns).Pairwise fun x y => x.attnum < y.attnum := by
  induction columns generalizing index with
  | nil => exact .nil
  | cons column rest ih =>
    exact List.pairwise_cons.mpr ⟨fun x hx => (attnum_of_mem hx).1, ih (index + 1)⟩

theorem column_of_mem {oid index : Nat} {columns : List ColumnSchema} {x : CatalogAttribute}
    (h : x ∈ numbered oid index columns) : ⟨x.name, x.type_oid, x.nullable⟩ ∈ columns := by
  induction columns generalizing index with
  | nil => cases h
  | cons column rest ih =>
    rcases List.mem_cons.mp h with rfl | h
    · exact List.mem_cons_self
    · exact List.mem_cons_of_mem _ (ih h)

theorem columns_of_numbered (oid index : Nat) (columns : List ColumnSchema) :
    ((numbered oid index columns).map fun x => ColumnSchema.mk x.name x.type_oid x.nullable) =
      columns := by
  induction columns generalizing index with
  | nil => rfl
  | cons column rest ih => simp [numbered, ih]

theorem length_numbered (oid index : Nat) (columns : List ColumnSchema) :
    (numbered oid index columns).length = columns.length := by
  induction columns generalizing index with
  | nil => rfl
  | cons column rest ih => simp [numbered, ih]

/-- A system table as `bootstrap_catalog` describes it. -/
def system (t : SystemTable) : Relation := ⟨t.oid, t.name, t.relkind, t.schema.columns⟩

end Relation

/-- The rows of `edb_type`. -/
def type_records : List CatalogType :=
  Builtin.all.map fun t => ⟨t.oid, t.type.name, t.type.fixed_size⟩

/-- A registry and a configuration with which a catalog can work: the rows that
describe the system tables fit a page, and a page has 16 bit offsets. -/
structure Setup where
  types : TypeRegistry
  config : EngineConfig
  registered : Registered types
  page_min : 98 ≤ config.page_size
  page_max : config.page_size ≤ 65535
  frames : 1 ≤ config.buffer_pool_pages

namespace Setup

variable (c : Setup)

def store : PageStore := PageStore.open c.config.page_size

/-- A tuple of so many bytes goes on a page. -/
def Fits (length : Nat) : Prop := length + heap.SLOT_SIZE + heap.PAGE_HEADER_SIZE ≤ c.config.page_size

instance (length : Nat) : Decidable (c.Fits length) := inferInstanceAs (Decidable (_ ≤ _))

/-- The row of the class, and the row of a column. -/
def ClassFits (name relkind : Bytes) : Prop := c.Fits (33 + name.length + relkind.length)

def ColumnFits (column : ColumnSchema) : Prop := c.Fits (58 + column.name.length)

instance (name relkind : Bytes) : Decidable (c.ClassFits name relkind) :=
  inferInstanceAs (Decidable (c.Fits _))

instance (column : ColumnSchema) : Decidable (c.ColumnFits column) :=
  inferInstanceAs (Decidable (c.Fits _))

/-- The columns up to the first whose row does not go on a page. -/
def fitting (columns : List ColumnSchema) : List ColumnSchema :=
  columns.takeWhile fun column => decide (c.ColumnFits column)

/-- The catalog can keep the relation. -/
structure Keeps (r : Relation) : Prop where
  oid : r.oid < 2 ^ 31
  count : r.columns.length < 2 ^ 31
  fits : c.ClassFits r.name r.relkind
  columns : ∀ column ∈ r.columns, column.type_oid < 2 ^ 31 ∧ c.ColumnFits column

end Setup

/-- The state of a catalog. `inserted` counts the rows ever inserted under an
oid, and `rows` are the tuples of a user table, where they are known. Whether a
write to a system table was tried since the catalog was opened is in `written`. -/
structure CatalogModel where
  opened : Bool := false
  relations : List Relation := []
  inserted : Nat → Nat := fun _ => 0
  rows : Nat → Option (Multiset Bytes) := fun _ => some 0
  written : SystemTable → Bool := fun _ => false

namespace CatalogModel

def find (a : CatalogModel) (name : Bytes) : Option Relation :=
  a.relations.find? fun r => r.name == name

def find_oid (a : CatalogModel) (oid : Nat) : Option Relation :=
  a.relations.find? fun r => r.oid == oid

def get_type (a : CatalogModel) (name : Bytes) : Result CatalogType :=
  if !a.opened then .error .InvalidArgument
  else match type_records.find? fun t => t.name == name with
  | none => .error .NotFound
  | some t => .ok t

def get_class (a : CatalogModel) (name : Bytes) : Result CatalogClass :=
  if !a.opened then .error .InvalidArgument
  else match a.find name with
  | none => .error .NotFound
  | some r => .ok r.info

def get_attributes (a : CatalogModel) (oid : Nat) : Result (List CatalogAttribute) :=
  if !a.opened then .error .InvalidArgument
  else match a.find_oid oid with
  | none => .error .NotFound
  | some r => if r.columns.isEmpty then .error .NotFound else .ok r.attributes

/-- The relation that an open gives access to. -/
def open_table (a : CatalogModel) (name : Bytes) : Result Relation :=
  if !a.opened then .error .InvalidArgument
  else match a.find name with
  | none => .error .NotFound
  | some r => if r.columns.isEmpty then .error .NotFound else .ok r

def next_oid (a : CatalogModel) : Nat :=
  (a.relations.map Relation.oid).foldl max 0 + 1

/-- One more relation. Its row is written first and its columns follow. What it
holds is not known where rows were inserted under its oid before. -/
def add (a : CatalogModel) (r : Relation) : CatalogModel :=
  { a with
    relations := a.relations ++ [r]
    inserted := fun oid => a.inserted oid +
      if oid = SystemTable.class_table.oid then 1
      else if oid = SystemTable.attribute_table.oid then r.columns.length else 0
    rows := Function.update a.rows r.oid (if a.inserted r.oid = 0 then some 0 else none)
    written := fun t => a.written t || t == .class_table || t == .attribute_table }

/-- A relation less. What its file holds is not known afterwards. -/
def remove (a : CatalogModel) (oid : Nat) : CatalogModel :=
  { a with
    relations := a.relations.filter fun r => r.oid != oid
    rows := Function.update a.rows oid none
    written := fun t => a.written t || t == .class_table || t == .attribute_table }

/-- A write to a system table that failed. -/
def touch (a : CatalogModel) (t : SystemTable) : CatalogModel :=
  { a with written := Function.update a.written t true }

/-- A tuple more in a user table. -/
def insert (a : CatalogModel) (oid : Nat) (tuple : Bytes) : CatalogModel :=
  { a with
    inserted := Function.update a.inserted oid (a.inserted oid + 1)
    rows := Function.update a.rows oid ((a.rows oid).map (tuple ::ₘ ·)) }

/-- Why a table is not created, before a write is tried. -/
def refuses (c : Setup) (a : CatalogModel) (spec : CreateTableSpec) : Option Error :=
  if !a.opened then some .InvalidArgument
  else if spec.name.isEmpty || spec.columns.isEmpty then some .InvalidArgument
  else if (a.find spec.name).isSome then some .AlreadyExists
  else if spec.columns.any fun column => (c.types.lookup column.type_oid).toOption.isNone then
    some .TypeNotFound
  else none

/-- The relation that a creation leaves, with the columns that it could write. -/
def created (c : Setup) (a : CatalogModel) (spec : CreateTableSpec) : Relation where
  oid := a.next_oid
  name := spec.name
  relkind := Catalog.RELKIND_TABLE
  columns := c.fitting spec.columns

def create_table (c : Setup) (a : CatalogModel) (spec : CreateTableSpec) :
    Result Nat × CatalogModel :=
  match a.refuses c spec with
  | some e => (.error e, a)
  | none =>
    if c.ClassFits spec.name Catalog.RELKIND_TABLE then
      (if spec.columns.all fun column => decide (c.ColumnFits column) then .ok a.next_oid
        else .error .OutOfMemory,
        a.add (a.created c spec))
    else (.error .OutOfMemory, a.touch .class_table)

def drop_table (a : CatalogModel) (oid : Nat) : Result Unit × CatalogModel :=
  if !a.opened then (.error .InvalidArgument, a)
  else match a.find_oid oid with
  | none => (.error .NotFound, a)
  | some r =>
    if r.relkind ≠ Catalog.RELKIND_TABLE then (.error .InvalidArgument, a)
    else (.ok (), a.remove oid)

/-- The tuples that a system table holds. -/
def content (types : TypeRegistry) (a : CatalogModel) : SystemTable → Multiset Bytes
  | .type_table =>
    if a.relations.isEmpty then 0 else (type_records.map (Catalog.type_kind.tuple types) : List _)
  | .class_table => (a.relations.map fun r => Catalog.class_kind.tuple types r.info : List _)
  | .attribute_table =>
    ((a.relations.flatMap Relation.attributes).map (Catalog.attribute_kind.tuple types) : List _)
  | .index_table => 0

/-- The catalog after its first open. -/
def booted (a : CatalogModel) : CatalogModel :=
  { a with
    opened := true
    relations := SystemTable.all.map Relation.system
    inserted := fun oid => a.inserted oid +
      if oid = 1 then 5 else if oid = 2 then 4 else if oid = 3 then 14 else 0
    written := fun t => t != .index_table }

def opened_again (a : CatalogModel) : CatalogModel :=
  { a with opened := true, written := fun _ => false }

/-- An open describes the system tables if no relation is described yet. -/
def reopened (a : CatalogModel) : CatalogModel :=
  if a.relations.isEmpty then a.booted else a.opened_again

def closed (a : CatalogModel) : CatalogModel := { a with opened := false }

/-- Names and oids are distinct, and each relation is a system table or a user
table. Once there are relations, the system tables are among them. -/
structure WellFormed (c : Setup) (a : CatalogModel) : Prop where
  names : (a.relations.map Relation.name).Nodup
  oids : (a.relations.map Relation.oid).Nodup
  keeps : ∀ r ∈ a.relations, c.Keeps r
  system : a.relations ≠ [] → ∀ t, Relation.system t ∈ a.relations
  kinds : ∀ r ∈ a.relations, (∃ t, r = Relation.system t) ∨
    (5 ≤ r.oid ∧ r.relkind = Catalog.RELKIND_TABLE)
  opened : a.opened = true → a.relations ≠ []

variable {c : Setup} {a : CatalogModel}

theorem mem_of_find {name : Bytes} {r : Relation} (h : a.find name = some r) :
    r ∈ a.relations ∧ r.name = name :=
  ⟨List.mem_of_find?_eq_some h, by simpa using List.find?_some h⟩

theorem mem_of_find_oid {oid : Nat} {r : Relation} (h : a.find_oid oid = some r) :
    r ∈ a.relations ∧ r.oid = oid :=
  ⟨List.mem_of_find?_eq_some h, by simpa using List.find?_some h⟩

theorem find_eq_none {name : Bytes} : a.find name = none ↔ ∀ r ∈ a.relations, r.name ≠ name := by
  unfold find
  simp

theorem find_oid_eq_none {oid : Nat} : a.find_oid oid = none ↔ ∀ r ∈ a.relations, r.oid ≠ oid := by
  unfold find_oid
  simp

/-- A table that is not refused is new, and its types are known. -/
theorem of_refuses_none {spec : CreateTableSpec} (h : a.refuses c spec = none) :
    a.opened = true ∧ spec.columns ≠ [] ∧ a.find spec.name = none ∧
      ∀ column ∈ spec.columns, ∃ type, c.types.lookup column.type_oid = .ok type := by
  unfold refuses at h
  split at h
  · cases h
  · rename_i ho
    split at h
    · cases h
    · rename_i hempty
      split at h
      · cases h
      · rename_i hnew
        split at h
        · cases h
        · rename_i htype
          refine ⟨by simpa using ho, fun hnil => by simp [hnil] at hempty, by simpa using hnew, ?_⟩
          intro column hmem
          rcases hlookup : c.types.lookup column.type_oid with e | type
          · exact absurd (List.any_eq_true.mpr ⟨column, hmem, by rw [hlookup]; rfl⟩) htype
          · exact ⟨type, rfl⟩

theorem le_foldl_max (xs : List Nat) (b : Nat) :
    b ≤ xs.foldl max b ∧ ∀ x ∈ xs, x ≤ xs.foldl max b := by
  induction xs generalizing b with
  | nil => simp
  | cons y rest ih =>
    obtain ⟨h1, h2⟩ := ih (max b y)
    refine ⟨by simp only [List.foldl_cons]; omega, fun x hx => ?_⟩
    rcases List.mem_cons.mp hx with rfl | hx
    · simp only [List.foldl_cons]
      omega
    · exact h2 x hx

theorem lt_next_oid {r : Relation} (hr : r ∈ a.relations) : r.oid < a.next_oid := by
  have h := (le_foldl_max (a.relations.map Relation.oid) 0).2 r.oid (List.mem_map_of_mem hr)
  unfold next_oid
  omega

theorem find_of_nodup (hnames : (a.relations.map Relation.name).Nodup) {r : Relation}
    (hr : r ∈ a.relations) : a.find r.name = some r := by
  rcases hf : a.find r.name with _ | r'
  · exact absurd rfl (find_eq_none.mp hf r hr)
  · obtain ⟨hr', hname⟩ := mem_of_find hf
    rw [List.inj_on_of_nodup_map hnames hr' hr hname]

theorem nodup_names_add (hnames : (a.relations.map Relation.name).Nodup) {r : Relation}
    (hname : a.find r.name = none) : ((a.add r).relations.map Relation.name).Nodup := by
  simp only [add, List.map_append, List.map_singleton]
  refine List.nodup_append.mpr ⟨hnames, List.nodup_singleton _, fun x hx y hy => ?_⟩
  obtain ⟨r', hr', rfl⟩ := List.mem_map.mp hx
  rw [List.mem_singleton.mp hy]
  exact find_eq_none.mp hname r' hr'

namespace WellFormed

theorem find_mem (hw : WellFormed c a) {r : Relation} (hr : r ∈ a.relations) :
    a.find r.name = some r :=
  find_of_nodup hw.names hr

theorem find_oid_mem (hw : WellFormed c a) {r : Relation} (hr : r ∈ a.relations) :
    a.find_oid r.oid = some r := by
  rcases hf : a.find_oid r.oid with _ | r'
  · exact absurd rfl (find_oid_eq_none.mp hf r hr)
  · obtain ⟨hr', hoid⟩ := mem_of_find_oid hf
    rw [List.inj_on_of_nodup_map hw.oids hr' hr hoid]

/-- The attributes of one relation among those of all. -/
theorem attributes_of (hw : WellFormed c a) (oid : Nat) :
    (a.relations.flatMap Relation.attributes).filter (fun x => x.relation_oid == oid) =
      ((a.find_oid oid).map Relation.attributes).getD [] := by
  have hfilter : ∀ r : Relation, r.attributes.filter (fun x => x.relation_oid == oid) =
      if r.oid == oid then r.attributes else [] := by
    intro r
    have hmem : ∀ x ∈ r.attributes, (x.relation_oid == oid) = (r.oid == oid) := fun x hx => by
      rw [Relation.relation_oid_of_mem hx]
    cases he : r.oid == oid with
    | true => simpa [he] using hmem
    | false => simpa [he] using hmem
  have hnodup := hw.oids
  unfold find_oid
  generalize a.relations = relations at hnodup
  induction relations with
  | nil => rfl
  | cons r rest ih =>
    rw [List.map_cons, List.nodup_cons] at hnodup
    rw [List.flatMap_cons, List.filter_append, hfilter, ih hnodup.2, List.find?_cons]
    cases he : r.oid == oid with
    | true =>
      have hnone : rest.find? (fun r => r.oid == oid) = none := by
        rw [List.find?_eq_none]
        intro r' hr' he'
        refine hnodup.1 (List.mem_map.mpr ⟨r', hr', ?_⟩)
        simp only [beq_iff_eq] at he he'
        omega
      simp [hnone]
    | false => simp

/-- A new oid is none of the system tables'. -/
theorem five_le_next_oid (hw : WellFormed c a) (ho : a.opened = true) : 5 ≤ a.next_oid := by
  have h : 4 < a.next_oid := lt_next_oid (hw.system (hw.opened ho) .index_table)
  omega

theorem add (hw : WellFormed c a) (ho : a.opened = true) {r : Relation} (hk : c.Keeps r)
    (hname : a.find r.name = none) (hoid : r.oid = a.next_oid)
    (hkind : r.relkind = Catalog.RELKIND_TABLE) : WellFormed c (a.add r) := by
  have hnew : ∀ r' ∈ a.relations, r'.oid ≠ r.oid := fun r' hr' => by
    have := lt_next_oid hr'
    omega
  refine ⟨nodup_names_add hw.names hname, ?_, fun r' hr' => ?_, fun _ t => ?_, fun r' hr' => ?_,
    fun _ => by simp [CatalogModel.add]⟩
  · simp only [CatalogModel.add, List.map_append, List.map_singleton]
    refine List.nodup_append.mpr ⟨hw.oids, List.nodup_singleton _, fun x hx y hy => ?_⟩
    obtain ⟨r', hr', rfl⟩ := List.mem_map.mp hx
    rw [List.mem_singleton.mp hy]
    exact hnew r' hr'
  · rcases List.mem_append.mp hr' with hr' | hr'
    · exact hw.keeps r' hr'
    · rw [List.mem_singleton.mp hr']
      exact hk
  · exact List.mem_append_left _ (hw.system (hw.opened ho) t)
  · rcases List.mem_append.mp hr' with hr' | hr'
    · exact hw.kinds r' hr'
    · rw [List.mem_singleton.mp hr']
      exact Or.inr ⟨hoid ▸ hw.five_le_next_oid ho, hkind⟩

theorem system_relkind_ne (t : SystemTable) : t.relkind ≠ Catalog.RELKIND_TABLE := by
  cases t <;> decide

theorem remove (hw : WellFormed c a) {r : Relation} (hr : r ∈ a.relations)
    (hkind : r.relkind = Catalog.RELKIND_TABLE) : WellFormed c (a.remove r.oid) := by
  have hsub : (a.remove r.oid).relations.Sublist a.relations := List.filter_sublist
  -- the system tables stay, since their oids are others
  have hsys : ∀ t, Relation.system t ∈ (a.remove r.oid).relations := by
    intro t
    have hmem := hw.system (List.ne_nil_of_mem hr) t
    refine List.mem_filter.mpr ⟨hmem, ?_⟩
    have hne : Relation.system t ≠ r := by
      rintro rfl
      exact system_relkind_ne t hkind
    have hoid : (Relation.system t).oid ≠ r.oid :=
      fun he => hne (List.inj_on_of_nodup_map hw.oids hmem hr he)
    simpa using hoid
  exact ⟨hw.names.sublist (hsub.map _), hw.oids.sublist (hsub.map _),
    fun r' hr' => hw.keeps r' (hsub.subset hr'), fun _ => hsys,
    fun r' hr' => hw.kinds r' (hsub.subset hr'), fun _ => List.ne_nil_of_mem (hsys .type_table)⟩

end WellFormed

end CatalogModel

end edb
