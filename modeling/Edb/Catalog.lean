-- The catalog (src/catalog/catalog.cpp): four system tables that describe all
-- tables, caches over them, and the tables that are open. The catalog runs on
-- the files of its backend factory, one for each relation oid.
import Mathlib.Data.List.AList
import Mathlib.Data.List.Sort
import Mathlib.Logic.Function.Basic
import Edb.Table

namespace edb

structure CatalogType where
  oid : Nat := 0
  name : Bytes
  fixed_size : Option Nat
  deriving DecidableEq, Repr

structure CatalogClass where
  oid : Nat := 0
  name : Bytes
  relkind : Bytes
  deriving DecidableEq, Repr

structure CatalogAttribute where
  relation_oid : Nat := 0
  attnum : Nat := 0
  name : Bytes
  type_oid : Nat := 0
  nullable : Bool := false
  deriving DecidableEq, Repr

structure CreateTableSpec where
  name : Bytes
  columns : List ColumnSchema
  deriving DecidableEq, Repr

/-- The file of each relation, and the answers to come of `open_backend`: an
error, or none for a backend. An empty list is a factory that never fails. -/
structure RelationBackendFactory where
  files : Nat → StorageIO := fun _ => {}
  refusals : List (Option Error) := []

def RelationBackendFactory.set_file (backends : RelationBackendFactory) (oid : Nat)
    (io : StorageIO) : RelationBackendFactory :=
  { backends with files := Function.update backends.files oid io }

/-! ## Opened tables -/

/-- `backend` is the oid of the file that the backend gives access to. -/
structure OpenedTableBundle where
  backend : Option Nat := none
  page_store : PageStore := {}
  engine : Option EdbHeapEngine := none
  table : Option TableSchema := none

/-- A bundle and the files. -/
structure BundleState where
  bundle : OpenedTableBundle := {}
  backends : RelationBackendFactory := {}

namespace OpenedTableBundle

def modify_bundle (f : OpenedTableBundle → OpenedTableBundle) : Call Error BundleState Unit :=
  .modify fun s => { s with bundle := f s.bundle }

def open_backend (oid : Nat) : Call Error BundleState Unit := do
  let s ← .get
  .modify fun s => { s with backends.refusals := s.backends.refusals.tail }
  match s.backends.refusals.head? with
  | some (some e) => .fail e
  | _ => modify_bundle fun b => { b with backend := some oid }

/-- A call on an engine and on the file of the backend. -/
def on_engine {α : Type} (engine : EdbHeapEngine) (x : Call Error HeapState α) :
    Call Error BundleState α := do
  let s ← .get
  match s.bundle.backend with
  | none => .fail .InvalidArgument
  | some oid => x.zoom (fun s => { engine, io := s.backends.files oid }) fun t s =>
      { bundle := { s.bundle with engine := some t.engine }
        backends := s.backends.set_file oid t.io }

/-- A call on the table: its row codec and its engine. A table that is not open
is a null pointer, and a call on it has no meaning. -/
def on_table {α : Type} (types : TypeRegistry) (x : RowCodec → Call Error HeapState α) :
    Call Error BundleState α := do
  let s ← .get
  match s.bundle.table, s.bundle.engine with
  | some schema, some engine => on_engine engine (x { registry := types, schema := schema.columns })
  | _, _ => .fail .InvalidArgument

def close : Call Error BundleState Unit := do
  modify_bundle fun b => { b with table := none }
  let s ← .get
  match s.bundle.engine with
  | none => pure ()
  | some engine =>
    on_engine engine EdbHeapEngine.close
    modify_bundle fun b => { b with engine := none }
  modify_bundle fun b => { b with page_store := b.page_store.close }
  match s.bundle.backend with
  | none => pure ()
  | some oid =>
    StorageIO.close.zoom (fun s => s.backends.files oid) fun io s =>
      { s with backends := s.backends.set_file oid io }
    modify_bundle fun b => { b with backend := none }

end OpenedTableBundle

/-- The engine factory makes an engine and opens it on the page store. -/
def OpenedTableBundle.open (schema : TableSchema) (cfg : EngineConfig) :
    Call Error BundleState Unit := do
  OpenedTableBundle.open_backend schema.relation_oid
  OpenedTableBundle.modify_bundle fun b => { b with page_store := PageStore.open cfg.page_size }
  let s ← .get
  match ← (OpenedTableBundle.on_engine {}
    (EdbHeapEngine.open s.bundle.page_store cfg)).attempt with
  | .error e =>
    OpenedTableBundle.modify_bundle fun b =>
      { b with engine := s.bundle.engine, page_store := b.page_store.close, backend := none }
    .fail e
  | .ok () => OpenedTableBundle.modify_bundle fun b => { b with table := some schema }

/-! ## Rows of the system tables -/

namespace Catalog

def RELKIND_SYSTEM : Bytes := str "system"
def RELKIND_TABLE : Bytes := str "table"
def RELKIND_INDEX : Bytes := str "index"

/-- A size is stored as an `int32`. -/
def fixed_size_to_catalog_length : Option Nat → Int
  | none => -1
  | some size => to_signed 4 (size % 2 ^ 32)

def catalog_length_to_fixed_size (length : Int) : Option Nat :=
  if length < 0 then none else some length.toNat

/-- The narrowing of an unsigned number to an `int32`. -/
def narrow (n : Nat) : Int := to_signed 4 (n % 2 ^ 32)

/-- A value of a builtin type from its text. -/
def make_value (types : TypeRegistry) (type_name text : Bytes) : Result Value := do
  let type ← types.lookup_name type_name
  let bytes ← type.from_text text
  pure { type_oid := type.oid, bytes, is_null := false }

def make_int32_value (types : TypeRegistry) (value : Int) : Result Value :=
  make_value types (str "int32") (dec.int_text value)

def make_text_value (types : TypeRegistry) (text : Bytes) : Result Value :=
  make_value types (str "text") text

def make_bool_value (types : TypeRegistry) (value : Bool) : Result Value :=
  make_value types (str "bool") (if value then str "true" else str "false")

/-- The text of a value. -/
def parse_text (types : TypeRegistry) (value : Value) : Result Bytes :=
  match types.lookup value.type_oid with
  | .error _ => .error .TypeNotFound
  | .ok type => .ok (type.to_text value.bytes)

/-- `std::stoi` skips spaces, reads a sign and digits, and leaves the rest. -/
def parse_i32 (types : TypeRegistry) (value : Value) : Result Int := do
  let text ← parse_text types value
  match dec.read_int (text.dropWhile dec.is_space) with
  | none => .error .Corruption
  | some (parsed, _) => if fits_signed 4 parsed then .ok parsed else .error .Corruption

def parse_bool (types : TypeRegistry) (value : Value) : Result Bool := do
  let text ← parse_text types value
  if text = str "true" then .ok true
  else if text = str "false" then .ok false
  else .error .Corruption

/-- The values of a row, if all of them could be made. -/
def make_row (values : List (Result Value)) : Result (List Value) :=
  match values.mapM id with
  | .error _ => .error .TypeNotFound
  | .ok row => .ok row

def type_row (types : TypeRegistry) (oid : Int) (name : Bytes) (length : Int) :
    Result (List Value) :=
  make_row [make_int32_value types oid, make_text_value types name, make_int32_value types length]

def class_row (types : TypeRegistry) (oid : Int) (name relkind : Bytes) : Result (List Value) :=
  make_row [make_int32_value types oid, make_text_value types name, make_text_value types relkind]

def attribute_row (types : TypeRegistry) (relation_oid attnum : Nat) (column : ColumnSchema) :
    Result (List Value) :=
  make_row [make_int32_value types (narrow relation_oid), make_int32_value types (narrow attnum),
    make_text_value types column.name, make_int32_value types (narrow column.type_oid),
    make_bool_value types column.nullable]

def decode_type (types : TypeRegistry) (row : TableRow) : Result CatalogType :=
  match row.values with
  | [oid, name, length] =>
    match parse_i32 types oid, parse_text types name, parse_i32 types length with
    | .ok oid, .ok name, .ok length =>
      if oid < 0 then .error .Corruption
      else .ok { oid := oid.toNat, name, fixed_size := catalog_length_to_fixed_size length }
    | _, _, _ => .error .Corruption
  | _ => .error .Corruption

def decode_class (types : TypeRegistry) (row : TableRow) : Result CatalogClass :=
  match row.values with
  | [oid, name, relkind] =>
    match parse_i32 types oid, parse_text types name, parse_text types relkind with
    | .ok oid, .ok name, .ok relkind =>
      if oid < 0 then .error .Corruption else .ok { oid := oid.toNat, name, relkind }
    | _, _, _ => .error .Corruption
  | _ => .error .Corruption

def decode_attribute (types : TypeRegistry) (row : TableRow) : Result CatalogAttribute :=
  match row.values with
  | [relid, attnum, name, type_oid, nullable] =>
    match parse_i32 types relid, parse_i32 types attnum, parse_text types name,
        parse_i32 types type_oid, parse_bool types nullable with
    | .ok relid, .ok attnum, .ok name, .ok type_oid, .ok nullable =>
      if relid < 0 ∨ attnum < 0 ∨ type_oid < 0 then .error .Corruption
      else .ok {
        relation_oid := relid.toNat
        attnum := attnum.toNat
        name
        type_oid := type_oid.toNat
        nullable }
    | _, _, _, _, _ => .error .Corruption
  | _ => .error .Corruption

/-! ## Searches in the rows of a scan -/

/-- The loops of the lookups: rows are decoded up to the first that is looked
for, and a row that cannot be decoded stops the loop. -/
def find_row {α : Type} (decode : TableRow → Result α) (wanted : α → Bool) :
    List TableRow → Result (Option (TableRow × α))
  | [] => .ok none
  | row :: rest => do
    let decoded ← decode row
    if wanted decoded then .ok (some (row, decoded)) else find_row decode wanted rest

/-- The loops that go through all rows and keep some of them. -/
def filter_rows {α : Type} (decode : TableRow → Result α) (wanted : α → Bool) :
    List TableRow → Result (List (TableRow × α))
  | [] => .ok []
  | row :: rest => do
    let decoded ← decode row
    let kept ← filter_rows decode wanted rest
    pure (if wanted decoded then (row, decoded) :: kept else kept)

/-- Attributes with the same number stay in their order here; the source's
`std::ranges::sort` may put them in any. -/
def sort_by_attnum (attributes : List CatalogAttribute) : List CatalogAttribute :=
  attributes.insertionSort fun lhs rhs => lhs.attnum ≤ rhs.attnum

end Catalog

/-! ## The catalog -/

inductive SystemTable where
  | type_table
  | class_table
  | attribute_table
  | index_table
  deriving DecidableEq, Repr

namespace SystemTable

def oid : SystemTable → Nat
  | type_table => 1
  | class_table => 2
  | attribute_table => 3
  | index_table => 4

def name : SystemTable → Bytes
  | type_table => str "edb_type"
  | class_table => str "edb_class"
  | attribute_table => str "edb_attribute"
  | index_table => str "edb_index"

/-- `bootstrap_classes` writes the index table as an index. -/
def relkind : SystemTable → Bytes
  | index_table => Catalog.RELKIND_INDEX
  | _ => Catalog.RELKIND_SYSTEM

def all : List SystemTable := [type_table, class_table, attribute_table, index_table]

/-- The columns, over the oids of `int32`, `text` and `bool`. None is nullable. -/
def columns (int32 text bool : Nat) : SystemTable → List ColumnSchema
  | type_table => [⟨str "oid", int32, false⟩, ⟨str "name", text, false⟩, ⟨str "typlen", int32, false⟩]
  | class_table => [⟨str "oid", int32, false⟩, ⟨str "name", text, false⟩, ⟨str "relkind", text, false⟩]
  | attribute_table => [⟨str "attrelid", int32, false⟩, ⟨str "attnum", int32, false⟩,
      ⟨str "name", text, false⟩, ⟨str "type_oid", int32, false⟩, ⟨str "nullable", bool, false⟩]
  | index_table => [⟨str "oid", int32, false⟩, ⟨str "indrelid", int32, false⟩, ⟨str "am_name", text, false⟩]

end SystemTable

/-- `system_tables` are `type_table`, `class_table`, `attribute_table` and
`index_table`. The order in which `user_tables` is walked is not specified. -/
structure Catalog where
  types : TypeRegistry
  config : EngineConfig
  opened : Bool := false
  system_tables : SystemTable → OpenedTableBundle := fun _ => {}
  user_tables : AList fun _ : Nat => OpenedTableBundle := ∅
  type_cache_by_name : Bytes → Option CatalogType := fun _ => none
  class_cache_by_name : Bytes → Option CatalogClass := fun _ => none
  attribute_cache_by_relid : Nat → Option (List CatalogAttribute) := fun _ => none

/-- A catalog and the files behind it. -/
structure CatalogState where
  catalog : Catalog
  backends : RelationBackendFactory := {}

namespace Catalog

def modify_catalog (f : Catalog → Catalog) : Call Error CatalogState Unit :=
  .modify fun s => { s with catalog := f s.catalog }

/-- A call on the bundle of a system table. -/
def on_system {α : Type} (table : SystemTable) (x : Call Error BundleState α) :
    Call Error CatalogState α :=
  x.zoom (fun s => { bundle := s.catalog.system_tables table, backends := s.backends })
    fun t s =>
      { catalog := { s.catalog with
          system_tables := Function.update s.catalog.system_tables table t.bundle }
        backends := t.backends }

/-- A call on the bundle of an open user table. -/
def on_user {α : Type} (oid : Nat) (x : Call Error BundleState α) : Call Error CatalogState α := do
  let s ← .get
  match s.catalog.user_tables.lookup oid with
  | none => .fail .InvalidArgument
  | some bundle => x.zoom (fun s => { bundle, backends := s.backends }) fun t s =>
      { catalog := { s.catalog with user_tables := s.catalog.user_tables.insert oid t.bundle }
        backends := t.backends }

def scan_system (table : SystemTable) : Call Error CatalogState (List TableRow) := do
  let s ← .get
  on_system table (OpenedTableBundle.on_table s.catalog.types Table.scan_rows)

def insert_system (table : SystemTable) (values : List Value) :
    Call Error CatalogState TupleId := do
  let s ← .get
  on_system table (OpenedTableBundle.on_table s.catalog.types fun codec => Table.insert codec values)

/-- `table.engine->delete_tuple(id)`. -/
def delete_system (table : SystemTable) (id : TupleId) : Call Error CatalogState Unit := do
  let s ← .get
  on_system table (OpenedTableBundle.on_table s.catalog.types fun _ => EdbHeapEngine.delete_tuple id)

def check_open : Call Error CatalogState Unit := do
  let s ← .get
  if !s.catalog.opened then .fail .InvalidArgument else pure ()

/-! ### Opening and closing -/

def system_schema (types : TypeRegistry) (table : SystemTable) : Result TableSchema :=
  match types.lookup_name (str "int32"), types.lookup_name (str "text"),
      types.lookup_name (str "bool") with
  | .ok int32, .ok text, .ok bool => .ok {
      relation_oid := table.oid
      name := table.name
      columns := table.columns int32.oid text.oid bool.oid }
  | _, _, _ => .error .TypeNotFound

def open_system_table (table : SystemTable) : Call Error CatalogState Unit := do
  let s ← .get
  let schema ← .ofExcept (system_schema s.catalog.types table)
  on_system table (OpenedTableBundle.open schema s.catalog.config)

def open_system_tables : Call Error CatalogState Unit := .each open_system_table SystemTable.all

def bootstrap_type (name : Bytes) : Call Error CatalogState Unit := do
  let s ← .get
  let type ← .ofExcept (s.catalog.types.lookup_name name)
  let row ← .ofExcept (type_row s.catalog.types (narrow type.oid) type.name
    (fixed_size_to_catalog_length type.fixed_size))
  let _ ← insert_system .type_table row
  pure ()

def bootstrap_types : Call Error CatalogState Unit :=
  .each bootstrap_type [str "int32", str "int64", str "float64", str "bool", str "text"]

def insert_class (oid : Nat) (name relkind : Bytes) : Call Error CatalogState Unit := do
  let s ← .get
  let row ← .ofExcept (class_row s.catalog.types (narrow oid) name relkind)
  let _ ← insert_system .class_table row
  pure ()

def bootstrap_classes : Call Error CatalogState Unit :=
  .each (fun table => insert_class table.oid table.name table.relkind) SystemTable.all

/-- The loop over the columns of a relation, in `bootstrap_attributes` and in
`create_table`. -/
def write_schema_attributes (relation_oid : Nat) :
    Nat → List ColumnSchema → Call Error CatalogState Unit
  | _, [] => pure ()
  | index, column :: rest => do
    let s ← .get
    let row ← .ofExcept (attribute_row s.catalog.types relation_oid (index + 1) column)
    let _ ← insert_system .attribute_table row
    write_schema_attributes relation_oid (index + 1) rest

def system_columns (catalog : Catalog) (table : SystemTable) : List ColumnSchema :=
  ((catalog.system_tables table).table.map TableSchema.columns).getD []

def bootstrap_attributes : Call Error CatalogState Unit := do
  let _ ← scan_system .class_table
  .each (fun table => do
    let s ← .get
    write_schema_attributes table.oid 0 (system_columns s.catalog table)) SystemTable.all

def bootstrap_catalog : Call Error CatalogState Unit := do
  bootstrap_types
  bootstrap_classes
  bootstrap_attributes

def bootstrap_if_needed : Call Error CatalogState Unit := do
  let classes ← scan_system .class_table
  if !classes.isEmpty then pure () else bootstrap_catalog

def close : Call Error CatalogState Unit := do
  let s ← .get
  .each (fun oid => on_user oid OpenedTableBundle.close) s.catalog.user_tables.keys
  modify_catalog fun c => { c with user_tables := ∅ }
  .each (fun table => on_system table OpenedTableBundle.close) SystemTable.all.reverse
  modify_catalog fun c =>
    { c with
      type_cache_by_name := fun _ => none
      class_cache_by_name := fun _ => none
      attribute_cache_by_relid := fun _ => none
      opened := false }

/-! ### Lookups -/

def invalidate_class_cache (class_oid : Nat) (class_name : Bytes) : Call Error CatalogState Unit :=
  modify_catalog fun c =>
    { c with
      class_cache_by_name := Function.update c.class_cache_by_name class_name none
      attribute_cache_by_relid := Function.update c.attribute_cache_by_relid class_oid none }

def get_type (name : Bytes) : Call Error CatalogState CatalogType := do
  check_open
  let s ← .get
  match s.catalog.type_cache_by_name name with
  | some found => pure found
  | none =>
    let rows ← scan_system .type_table
    match ← .ofExcept (find_row (decode_type s.catalog.types) (fun t => t.name == name) rows) with
    | none => .fail .NotFound
    | some (_, decoded) =>
      modify_catalog fun c =>
        { c with type_cache_by_name := Function.update c.type_cache_by_name decoded.name decoded }
      pure decoded

def get_class (name : Bytes) : Call Error CatalogState CatalogClass := do
  check_open
  let s ← .get
  match s.catalog.class_cache_by_name name with
  | some found => pure found
  | none =>
    let rows ← scan_system .class_table
    match ← .ofExcept (find_row (decode_class s.catalog.types) (fun c => c.name == name) rows) with
    | none => .fail .NotFound
    | some (_, decoded) =>
      modify_catalog fun c =>
        { c with class_cache_by_name := Function.update c.class_cache_by_name decoded.name decoded }
      pure decoded

def get_attributes (class_oid : Nat) : Call Error CatalogState (List CatalogAttribute) := do
  check_open
  let s ← .get
  match s.catalog.attribute_cache_by_relid class_oid with
  | some found => pure found
  | none =>
    let rows ← scan_system .attribute_table
    let kept ← .ofExcept (filter_rows (decode_attribute s.catalog.types)
      (fun a => a.relation_oid == class_oid) rows)
    let attributes := sort_by_attnum (kept.map Prod.snd)
    if attributes.isEmpty then .fail .NotFound
    else
      modify_catalog fun c =>
        { c with
          attribute_cache_by_relid :=
            Function.update c.attribute_cache_by_relid class_oid attributes }
      pure attributes

/-- The largest oid and one, as a `u32`. -/
def next_relation_oid : Call Error CatalogState Nat := do
  let s ← .get
  let rows ← scan_system .class_table
  let classes ← .ofExcept (filter_rows (decode_class s.catalog.types) (fun _ => true) rows)
  let max_oid := classes.foldl (fun m c => if c.2.oid > m then c.2.oid else m) 0
  pure ((max_oid + 1) % 2 ^ 32)

/-! ### Tables -/

/-- The result stands for the pointer to the table that is open under the oid. -/
def ensure_user_table_open (relation_oid : Nat) (relation_name : Bytes)
    (attributes : List CatalogAttribute) : Call Error CatalogState Nat := do
  let s ← .get
  if (s.catalog.user_tables.lookup relation_oid).isSome then pure relation_oid
  else
    let resolved ← if attributes.isEmpty then get_attributes relation_oid else pure attributes
    let schema : TableSchema := {
      relation_oid
      name := relation_name
      columns := (sort_by_attnum resolved).map fun a =>
        { name := a.name, type_oid := a.type_oid, nullable := a.nullable } }
    let opened : Call Error BundleState OpenedTableBundle := do
      OpenedTableBundle.open schema s.catalog.config
      let t ← .get
      pure t.bundle
    let bundle ← opened.zoom (fun s => { bundle := {}, backends := s.backends })
      fun t s => { s with backends := t.backends }
    modify_catalog fun c => { c with user_tables := c.user_tables.insert relation_oid bundle }
    pure relation_oid

def open_table (name : Bytes) : Call Error CatalogState Nat := do
  check_open
  let found ← get_class name
  ensure_user_table_open found.oid found.name []

def create_table (spec : CreateTableSpec) : Call Error CatalogState Nat := do
  check_open
  if spec.name.isEmpty || spec.columns.isEmpty then .fail .InvalidArgument
  else
    match ← (get_class spec.name).attempt with
    | .ok _ => .fail .AlreadyExists
    | .error e =>
      if e ≠ .NotFound then .fail e
      else
        let s ← .get
        if spec.columns.any fun column =>
            (s.catalog.types.lookup column.type_oid).toOption.isNone then .fail .TypeNotFound
        else
          let relation_oid ← next_relation_oid
          insert_class relation_oid spec.name RELKIND_TABLE
          write_schema_attributes relation_oid 0 spec.columns
          invalidate_class_cache relation_oid spec.name
          ensure_user_table_open relation_oid spec.name []

def lookup_class_row (class_oid : Nat) :
    Call Error CatalogState (Option (TableRow × CatalogClass)) := do
  let s ← .get
  let rows ← scan_system .class_table
  .ofExcept (find_row (decode_class s.catalog.types) (fun c => c.oid == class_oid) rows)

def lookup_attribute_rows (class_oid : Nat) : Call Error CatalogState (List TableRow) := do
  let s ← .get
  let rows ← scan_system .attribute_table
  let kept ← .ofExcept (filter_rows (decode_attribute s.catalog.types)
    (fun a => a.relation_oid == class_oid) rows)
  pure (kept.map Prod.fst)

/-- The bundle of the table goes away without a close. -/
def drop_table (class_oid : Nat) : Call Error CatalogState Unit := do
  check_open
  match ← lookup_class_row class_oid with
  | none => .fail .NotFound
  | some (row, decoded) =>
    if decoded.relkind ≠ RELKIND_TABLE then .fail .InvalidArgument
    else
      let attribute_rows ← lookup_attribute_rows class_oid
      .each (fun row => delete_system .attribute_table row.id) attribute_rows
      delete_system .class_table row.id
      modify_catalog fun c => { c with user_tables := c.user_tables.erase class_oid }
      invalidate_class_cache class_oid decoded.name

/-! ### Calls through a table pointer -/

def insert (oid : Nat) (values : List Value) : Call Error CatalogState TupleId := do
  let s ← .get
  on_user oid (OpenedTableBundle.on_table s.catalog.types fun codec => Table.insert codec values)

def scan (oid : Nat) : Call Error CatalogState (List (List Value)) := do
  let s ← .get
  on_user oid (OpenedTableBundle.on_table s.catalog.types Table.scan)

/-- `table->schema()`. -/
def schema (oid : Nat) : Call Error CatalogState TableSchema := do
  let s ← .get
  match (s.catalog.user_tables.lookup oid).bind OpenedTableBundle.table with
  | none => .fail .InvalidArgument
  | some schema => pure schema

end Catalog

def Catalog.open : Call Error CatalogState Unit := do
  Catalog.open_system_tables
  Catalog.bootstrap_if_needed
  Catalog.modify_catalog fun c => { c with opened := true }

end edb
