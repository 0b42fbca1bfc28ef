-- The rows of the system tables. A class, a type or an attribute becomes a
-- row of values through the text of each field, and the row is read back
-- through text too. Numbers come back as they were when they fit an int32.
import Mathlib.Data.List.Perm.Basic
import Mathlib.Data.List.Forall2
import Edb.Catalog

namespace edb

/-- The builtin types were registered first, and oids are `int32` numbers. -/
structure Registered (types : TypeRegistry) : Prop where
  by_name : ∀ t : Builtin, types.lookup_name t.type.name = .ok t.type
  by_oid : ∀ t : Builtin, types.lookup t.oid = .ok t.type
  small : ∀ oid type, types.lookup oid = .ok type → oid < 2 ^ 31

theorem registered_builtin : Registered builtin_registry := by
  refine ⟨lookup_name_builtin, lookup_builtin, fun oid type h => ?_⟩
  obtain ⟨t, rfl, -⟩ := builtin_of_lookup h
  cases t <;> decide

namespace Catalog

variable {types : TypeRegistry}

/-! ## Values -/

def int32_value (v : Int) : Value := { type_oid := Builtin.int32.oid, bytes := signed_bytes 4 v }

def text_value (text : Bytes) : Value := { type_oid := Builtin.text.oid, bytes := text }

def bool_value (b : Bool) : Value :=
  { type_oid := Builtin.bool.oid, bytes := [if b then 1 else 0] }

theorem make_value_eq (ht : Registered types) (t : Builtin) {text bytes : Bytes}
    (h : t.type.from_text text = .ok bytes) :
    make_value types t.type.name text = .ok { type_oid := t.oid, bytes } := by
  unfold make_value
  rw [ht.by_name t]
  show (t.type.from_text text >>= _) = _
  rw [h]
  cases t <;> rfl

theorem make_int32_value_eq (ht : Registered types) {v : Int} (hv : fits_signed 4 v = true) :
    make_int32_value types v = .ok (int32_value v) :=
  make_value_eq ht .int32 (parse_int_text hv)

theorem make_text_value_eq (ht : Registered types) (text : Bytes) :
    make_text_value types text = .ok (text_value text) :=
  make_value_eq ht .text rfl

theorem make_bool_value_eq (ht : Registered types) (b : Bool) :
    make_bool_value types b = .ok (bool_value b) := by
  cases b <;> exact make_value_eq ht .bool rfl

theorem parse_text_eq (ht : Registered types) (t : Builtin) (bytes : Bytes) :
    parse_text types { type_oid := t.oid, bytes } = .ok (t.type.to_text bytes) := by
  unfold parse_text
  rw [ht.by_oid t]

theorem parse_text_value (ht : Registered types) (text : Bytes) :
    parse_text types (text_value text) = .ok text :=
  parse_text_eq ht .text text

theorem parse_i32_value (ht : Registered types) {v : Int} (hv : fits_signed 4 v = true) :
    parse_i32 types (int32_value v) = .ok v := by
  have hspace := dec.dropWhile_int_text v []
  have hread := dec.read_int_int_text v
    (show ∀ b ∈ ([] : Bytes).head?, dec.is_digit b = false by simp)
  rw [List.append_nil] at hspace hread
  have hto : Builtin.int32.type.to_text = signed_to_text 4 := rfl
  have htext := parse_text_eq ht .int32 (signed_bytes 4 v)
  rw [hto, signed_to_text_bytes hv] at htext
  change parse_text types (int32_value v) = _ at htext
  unfold parse_i32
  simp only [htext, bind, Except.bind, hspace, hread, hv, if_true]

theorem parse_bool_value (ht : Registered types) (b : Bool) :
    parse_bool types (bool_value b) = .ok b := by
  have htext : parse_text types (bool_value b) = .ok (if b then str "true" else str "false") := by
    unfold bool_value
    rw [parse_text_eq ht .bool]
    cases b <;> rfl
  unfold parse_bool
  rw [htext]
  cases b <;> rfl

/-! ## Numbers -/

theorem fits_narrow (n : Nat) : fits_signed 4 (narrow n) = true := by
  have hcast : ((256 ^ 4 : Nat) : Int) = 4294967296 := by norm_num
  have h1 := Int.le_bmod (x := (n % 2 ^ 32 : Nat)) (m := 256 ^ 4) (by decide)
  have h2 := Int.bmod_lt (x := (n % 2 ^ 32 : Nat)) (m := 256 ^ 4) (by decide)
  unfold fits_signed narrow to_signed
  rw [decide_eq_true_eq]
  rw [hcast] at h1 h2
  norm_num at h1 h2 ⊢
  omega

theorem narrow_of_lt {n : Nat} (h : n < 2 ^ 31) : narrow n = n := by
  unfold narrow to_signed
  rw [Nat.mod_eq_of_lt (by omega)]
  exact Int.bmod_eq_of_le (by omega) (by norm_num; omega)

theorem fits_of_lt {n : Nat} (h : n < 2 ^ 31) : fits_signed 4 (n : Int) = true := by
  rw [← narrow_of_lt h]
  exact fits_narrow n

/-! ## Rows -/

theorem make_row_ok (values : List Value) : make_row (values.map .ok) = .ok values := by
  have hmap : (values.map (Except.ok (ε := Error))).mapM id = .ok values := by
    induction values with
    | nil => rfl
    | cons v rest ih =>
      rw [List.map_cons, List.mapM_cons, ih]
      rfl
  unfold make_row
  rw [hmap]

def type_values (t : CatalogType) : List Value :=
  [int32_value t.oid, text_value t.name, int32_value (fixed_size_to_catalog_length t.fixed_size)]

def class_values (c : CatalogClass) : List Value :=
  [int32_value c.oid, text_value c.name, text_value c.relkind]

/-- The numbers as they are stored. -/
def attribute_values (a : CatalogAttribute) : List Value :=
  [int32_value (narrow a.relation_oid), int32_value (narrow a.attnum), text_value a.name,
    int32_value (narrow a.type_oid), bool_value a.nullable]

theorem type_row_eq (ht : Registered types) {t : CatalogType} (ho : t.oid < 2 ^ 31)
    (hl : fits_signed 4 (fixed_size_to_catalog_length t.fixed_size) = true) :
    type_row types (narrow t.oid) t.name (fixed_size_to_catalog_length t.fixed_size) =
      .ok (type_values t) := by
  unfold type_row
  rw [narrow_of_lt ho, make_int32_value_eq ht (fits_of_lt ho), make_text_value_eq ht,
    make_int32_value_eq ht hl]
  exact make_row_ok (type_values t)

theorem class_row_eq (ht : Registered types) {c : CatalogClass} (ho : c.oid < 2 ^ 31) :
    class_row types (narrow c.oid) c.name c.relkind = .ok (class_values c) := by
  unfold class_row
  rw [narrow_of_lt ho, make_int32_value_eq ht (fits_of_lt ho), make_text_value_eq ht,
    make_text_value_eq ht]
  exact make_row_ok (class_values c)

theorem attribute_row_eq (ht : Registered types) (relation_oid attnum : Nat)
    (column : ColumnSchema) :
    attribute_row types relation_oid attnum column = .ok (attribute_values
      ⟨relation_oid, attnum, column.name, column.type_oid, column.nullable⟩) := by
  unfold attribute_row
  rw [make_int32_value_eq ht (fits_narrow _), make_int32_value_eq ht (fits_narrow _),
    make_text_value_eq ht, make_int32_value_eq ht (fits_narrow _), make_bool_value_eq ht]
  exact make_row_ok (attribute_values
    ⟨relation_oid, attnum, column.name, column.type_oid, column.nullable⟩)

theorem decode_type_values (ht : Registered types) (id : TupleId) {t : CatalogType}
    (ho : t.oid < 2 ^ 31)
    (hl : fits_signed 4 (fixed_size_to_catalog_length t.fixed_size) = true)
    (hsize : catalog_length_to_fixed_size (fixed_size_to_catalog_length t.fixed_size) =
      t.fixed_size) :
    decode_type types ⟨id, type_values t⟩ = .ok t := by
  unfold decode_type type_values
  simp only [parse_i32_value ht (fits_of_lt ho), parse_text_value ht, parse_i32_value ht hl,
    hsize, Int.toNat_natCast]
  exact if_neg (by omega)

theorem decode_class_values (ht : Registered types) (id : TupleId) {c : CatalogClass}
    (ho : c.oid < 2 ^ 31) : decode_class types ⟨id, class_values c⟩ = .ok c := by
  unfold decode_class class_values
  simp only [parse_i32_value ht (fits_of_lt ho), parse_text_value ht, Int.toNat_natCast]
  exact if_neg (by omega)

/-- An attribute comes back when its numbers fit. -/
theorem decode_attribute_values (ht : Registered types) (id : TupleId) {a : CatalogAttribute}
    (hr : a.relation_oid < 2 ^ 31) (hn : a.attnum < 2 ^ 31) (ho : a.type_oid < 2 ^ 31) :
    decode_attribute types ⟨id, attribute_values a⟩ = .ok a := by
  unfold decode_attribute attribute_values
  simp only [narrow_of_lt hr, narrow_of_lt hn, narrow_of_lt ho, parse_i32_value ht (fits_of_lt hr),
    parse_i32_value ht (fits_of_lt hn), parse_i32_value ht (fits_of_lt ho), parse_text_value ht,
    parse_bool_value ht, Int.toNat_natCast]
  exact if_neg (by omega)

/-- A column past 2^31 is stored under a negative number, and its row cannot be
decoded. -/
theorem decode_attribute_wrapped (ht : Registered types) (id : TupleId) {a : CatalogAttribute}
    (hn : narrow a.attnum < 0) :
    decode_attribute types ⟨id, attribute_values a⟩ = .error .Corruption := by
  unfold decode_attribute attribute_values
  simp only [parse_i32_value ht (fits_narrow _), parse_text_value ht, parse_bool_value ht]
  exact if_pos (Or.inr (Or.inl hn))

theorem fits_int32 (ht : Registered types) (name : Bytes) (v : Int) :
    (int32_value v).Fits types ⟨name, Builtin.int32.oid, false⟩ :=
  ⟨rfl, ⟨_, ht.by_oid .int32, fun _ _ h => by cases h; exact length_signed_bytes 4 v⟩, nofun⟩

theorem fits_text (ht : Registered types) (name text : Bytes) :
    (text_value text).Fits types ⟨name, Builtin.text.oid, false⟩ :=
  ⟨rfl, ⟨_, ht.by_oid .text, fun _ _ h => nomatch h⟩, nofun⟩

theorem fits_bool (ht : Registered types) (name : Bytes) (b : Bool) :
    (bool_value b).Fits types ⟨name, Builtin.bool.oid, false⟩ :=
  ⟨rfl, ⟨_, ht.by_oid .bool, fun _ _ h => by cases h; rfl⟩, nofun⟩

end Catalog

/-! ## Records -/

namespace SystemTable

/-- The schema over the builtin types. -/
def schema (t : SystemTable) : TableSchema where
  relation_oid := t.oid
  name := t.name
  columns := t.columns Builtin.int32.oid Builtin.text.oid Builtin.bool.oid

theorem system_schema_eq {types : TypeRegistry} (ht : Registered types) (t : SystemTable) :
    Catalog.system_schema types t = .ok t.schema := by
  have h1 : types.lookup_name (str "int32") = .ok Builtin.int32.type := ht.by_name .int32
  have h2 : types.lookup_name (str "text") = .ok Builtin.text.type := ht.by_name .text
  have h3 : types.lookup_name (str "bool") = .ok Builtin.bool.type := ht.by_name .bool
  unfold Catalog.system_schema
  simp only [h1, h2, h3]
  rfl

def codec (types : TypeRegistry) (t : SystemTable) : RowCodec :=
  { registry := types, schema := t.schema.columns }

end SystemTable

/-- How a system table keeps records: as rows of its schema, which are decoded
to the records again when their numbers are small. -/
structure RecordKind (ρ : Type) where
  table : SystemTable
  values : ρ → List Value
  decode : TypeRegistry → TableRow → Result ρ
  Small : ρ → Prop
  row : ∀ {types}, Registered types → ∀ r, RowCodec.Row types table.schema.columns (values r)
  present : ∀ r, ∀ v ∈ values r, v.is_null = false
  decode_values : ∀ {types}, Registered types → ∀ id r, Small r →
    decode types ⟨id, values r⟩ = .ok r

namespace RecordKind

variable {ρ : Type} (k : RecordKind ρ) {types : TypeRegistry}

/-- The bytes of a record. -/
def tuple (types : TypeRegistry) (r : ρ) : Bytes :=
  match (k.table.codec types).encode (k.values r) with
  | .ok t => t
  | .error _ => []

theorem row_of_codec (ht : Registered types) (r : ρ) :
    RowCodec.Row (k.table.codec types).registry (k.table.codec types).schema (k.values r) :=
  k.row ht r

theorem encode_eq (ht : Registered types) (r : ρ) :
    (k.table.codec types).encode (k.values r) = .ok (k.tuple types r) := by
  obtain ⟨bitmap, henc, -⟩ := RowCodec.encode_of_row (k.row_of_codec ht r)
  unfold tuple
  rw [henc]

theorem length_tuple (ht : Registered types) (r : ρ) :
    (k.tuple types r).length = RowCodec.header_size (k.values r).length +
      ((k.values r).flatMap Value.bytes).length := by
  obtain ⟨bitmap, henc, hb, -⟩ := RowCodec.encode_of_row (k.row_of_codec ht r)
  have hpayload : (k.values r).flatMap RowCodec.payload = (k.values r).flatMap Value.bytes := by
    refine List.flatMap_congr fun v hv => ?_
    unfold RowCodec.payload Value.stored
    rw [k.present r v hv]
    rfl
  rw [k.encode_eq ht] at henc
  rw [Except.ok.inj henc, RowCodec.length_encoded hb, hpayload]

theorem decode_tuple (ht : Registered types) {r : ρ} (hlen : (k.tuple types r).length < 2 ^ 32) :
    (k.table.codec types).decode (k.tuple types r) = .ok (k.values r) := by
  rw [RowCodec.decode_encode (k.encode_eq ht r) hlen]
  congr 1
  refine (List.map_congr_left fun v hv => ?_).trans (List.map_id _)
  unfold Value.stored
  rw [k.present r v hv]
  rfl

/-- The tuples of records under their ids, and the rows that they decode to. -/
def tuples (types : TypeRegistry) (pairs : List (TupleId × ρ)) : List Tuple :=
  pairs.map fun p => ⟨p.1, k.tuple types p.2⟩

def rows (pairs : List (TupleId × ρ)) : List TableRow := pairs.map fun p => ⟨p.1, k.values p.2⟩

theorem decode_rows_tuples (ht : Registered types) (pairs : List (TupleId × ρ))
    (hlen : ∀ p ∈ pairs, (k.tuple types p.2).length < 2 ^ 32) :
    Table.decode_rows (k.table.codec types) (k.tuples types pairs) = .ok (k.rows pairs) := by
  induction pairs with
  | nil => rfl
  | cons p rest ih =>
    exact Table.decode_rows_cons (k.decode_tuple ht (hlen p (by simp)))
      (ih fun q hq => hlen q (by simp [hq]))

/-- A search decodes rows up to the first record that is looked for. -/
theorem find_row_rows (ht : Registered types) (wanted : ρ → Bool) (pairs : List (TupleId × ρ))
    (hsmall : ∀ p ∈ pairs, k.Small p.2) :
    Catalog.find_row (k.decode types) wanted (k.rows pairs) =
      .ok ((pairs.find? fun p => wanted p.2).map fun p => (⟨p.1, k.values p.2⟩, p.2)) := by
  induction pairs with
  | nil => rfl
  | cons p rest ih =>
    have hdec := k.decode_values ht p.1 p.2 (hsmall p (by simp))
    have hrest := ih fun q hq => hsmall q (by simp [hq])
    show Catalog.find_row _ _ (⟨p.1, k.values p.2⟩ :: k.rows rest) = _
    unfold Catalog.find_row
    rw [hdec, List.find?_cons]
    cases hw : wanted p.2 with
    | true => simp [bind, Except.bind, hw]
    | false => simp [bind, Except.bind, hw, hrest]

/-- A loop over all rows decodes each of them. -/
theorem filter_rows_rows (ht : Registered types) (wanted : ρ → Bool) (pairs : List (TupleId × ρ))
    (hsmall : ∀ p ∈ pairs, k.Small p.2) :
    Catalog.filter_rows (k.decode types) wanted (k.rows pairs) =
      .ok ((pairs.filter fun p => wanted p.2).map fun p => (⟨p.1, k.values p.2⟩, p.2)) := by
  induction pairs with
  | nil => rfl
  | cons p rest ih =>
    have hdec := k.decode_values ht p.1 p.2 (hsmall p (by simp))
    have hrest := ih fun q hq => hsmall q (by simp [hq])
    show Catalog.filter_rows _ _ (⟨p.1, k.values p.2⟩ :: k.rows rest) = _
    unfold Catalog.filter_rows
    rw [hdec, hrest, List.filter_cons]
    cases hw : wanted p.2 with
    | true => simp [bind, Except.bind, pure, Except.pure, hw]
    | false => simp [bind, Except.bind, pure, Except.pure, hw]

/-- A heap whose tuples are those of some records holds each record under an id. -/
theorem exists_pairs {h : Heap} {rs : List ρ}
    (hc : h.content = (rs.map (k.tuple types) : List Bytes)) :
    ∃ pairs, h.live = k.tuples types pairs ∧ (pairs.map Prod.snd).Perm rs := by
  have hperm : (h.live.map Tuple.data).Perm (rs.map (k.tuple types)) := Multiset.coe_eq_coe.mp hc
  have hsame : List.Forall₂ (fun d r => d = k.tuple types r) (rs.map (k.tuple types)) rs := by
    rw [List.forall₂_map_left_iff]
    exact List.forall₂_same.mpr fun _ _ => rfl
  obtain ⟨rs', hrs, hp⟩ := List.perm_comp_forall₂ hperm hsame
  have hlen : h.live.length = rs'.length := by simpa using hrs.length_eq
  refine ⟨(h.live.map Tuple.id).zip rs', ?_, ?_⟩
  · unfold tuples
    refine List.ext_getElem (by simp [hlen]) fun i h1 h2 => ?_
    have hi : i < rs'.length := hlen ▸ h1
    have hdata := (List.forall₂_iff_get.mp hrs).2 i (by simpa using h1) hi
    simp only [List.get_eq_getElem, List.getElem_map] at hdata
    simp [← hdata]
  · rw [List.map_snd_zip (by simp [hlen])]
    exact hp

end RecordKind

namespace Catalog

/-- A type whose numbers fit. -/
def SmallType (t : CatalogType) : Prop :=
  t.oid < 2 ^ 31 ∧ fits_signed 4 (fixed_size_to_catalog_length t.fixed_size) = true ∧
    catalog_length_to_fixed_size (fixed_size_to_catalog_length t.fixed_size) = t.fixed_size

def type_kind : RecordKind CatalogType where
  table := .type_table
  values := type_values
  decode := decode_type
  Small := SmallType
  row ht _ := .cons (fits_int32 ht _ _) (.cons (fits_text ht _ _) (.cons (fits_int32 ht _ _) .nil))
  present _ v hv := by
    simp only [type_values, List.mem_cons, List.not_mem_nil, or_false] at hv
    rcases hv with rfl | rfl | rfl <;> rfl
  decode_values ht id _ h := decode_type_values ht id h.1 h.2.1 h.2.2

def class_kind : RecordKind CatalogClass where
  table := .class_table
  values := class_values
  decode := decode_class
  Small c := c.oid < 2 ^ 31
  row ht _ := .cons (fits_int32 ht _ _) (.cons (fits_text ht _ _) (.cons (fits_text ht _ _) .nil))
  present _ v hv := by
    simp only [class_values, List.mem_cons, List.not_mem_nil, or_false] at hv
    rcases hv with rfl | rfl | rfl <;> rfl
  decode_values ht id _ h := decode_class_values ht id h

def attribute_kind : RecordKind CatalogAttribute where
  table := .attribute_table
  values := attribute_values
  decode := decode_attribute
  Small a := a.relation_oid < 2 ^ 31 ∧ a.attnum < 2 ^ 31 ∧ a.type_oid < 2 ^ 31
  row ht _ := .cons (fits_int32 ht _ _) (.cons (fits_int32 ht _ _) (.cons (fits_text ht _ _)
    (.cons (fits_int32 ht _ _) (.cons (fits_bool ht _ _) .nil))))
  present _ v hv := by
    simp only [attribute_values, List.mem_cons, List.not_mem_nil, or_false] at hv
    rcases hv with rfl | rfl | rfl | rfl | rfl <;> rfl
  decode_values ht id _ h := decode_attribute_values ht id h.1 h.2.1 h.2.2

variable {types : TypeRegistry}

theorem length_class_tuple (ht : Registered types) (c : CatalogClass) :
    (class_kind.tuple types c).length = 33 + c.name.length + c.relkind.length := by
  rw [class_kind.length_tuple ht]
  simp [class_kind, class_values, int32_value, text_value, RowCodec.header_size,
    RowCodec.COLUMN_COUNT_BYTES, RowCodec.bitmap_bytes_for_columns, RowCodec.OFFSET_BYTES,
    RowCodec.LENGTH_BYTES]
  omega

theorem length_type_tuple (ht : Registered types) (t : CatalogType) :
    (type_kind.tuple types t).length = 37 + t.name.length := by
  rw [type_kind.length_tuple ht]
  simp [type_kind, type_values, int32_value, text_value, RowCodec.header_size,
    RowCodec.COLUMN_COUNT_BYTES, RowCodec.bitmap_bytes_for_columns, RowCodec.OFFSET_BYTES,
    RowCodec.LENGTH_BYTES]
  omega

theorem length_attribute_tuple (ht : Registered types) (a : CatalogAttribute) :
    (attribute_kind.tuple types a).length = 58 + a.name.length := by
  rw [attribute_kind.length_tuple ht]
  simp [attribute_kind, attribute_values, int32_value, text_value, bool_value,
    RowCodec.header_size, RowCodec.COLUMN_COUNT_BYTES, RowCodec.bitmap_bytes_for_columns,
    RowCodec.OFFSET_BYTES, RowCodec.LENGTH_BYTES]
  omega

end Catalog

end edb
