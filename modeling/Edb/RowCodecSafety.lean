-- What decoding does with bytes that no row was encoded to. It reads inside the
-- bytes only, a row that was cut off is never taken for a row, and the values it
-- gives can be encoded again as long as the bitmap names nullable columns only.
import Edb.RowCodecLaws

open seq

namespace edb

namespace RowCodec

/-! ## Round trips -/

/-- A row that was encoded is decoded to the same values. -/
theorem row_codec_round_trip (codec : RowCodec) (values : List Value) (tuple : Bytes)
    (h : codec.encode values = .ok tuple) (hsize : tuple.length < 2 ^ 32) :
    ∃ decoded, codec.decode tuple = .ok decoded ∧
      List.Forall₂ (fun value value' => value'.type_oid = value.type_oid ∧
        value'.is_null = value.is_null ∧
        value'.bytes = if value.is_null then [] else value.bytes) values decoded := by
  refine ⟨values.map Value.stored, decode_encode h hsize, ?_⟩
  rw [List.forall₂_map_right_iff]
  refine List.forall₂_same.mpr fun value _ => ?_
  unfold Value.stored
  cases hn : value.is_null <;> simp [hn]

/-- The codec of a number and of a text that may be missing. -/
def two_columns : RowCodec where
  registry := builtin_registry
  schema := [⟨str "a", Builtin.int32.oid, false⟩, ⟨str "b", Builtin.text.oid, true⟩]

/-- A row with a null. -/
def row_with_null : List Value :=
  [⟨Builtin.int32.oid, [7, 0, 0, 0], false⟩, ⟨Builtin.text.oid, [], true⟩]

/-- The bytes of the row with a null. -/
def tuple_with_null : Bytes :=
  [2, 0, 0, 0, 2, 21, 0, 0, 0, 4, 0, 0, 0, 0, 0, 0, 0, 0, 0, 0, 0, 7, 0, 0, 0]

theorem encode_row_with_null : two_columns.encode row_with_null = .ok tuple_with_null := by
  decide

theorem row_with_null_round_trip :
    ∃ decoded, two_columns.decode tuple_with_null = .ok decoded ∧
      List.Forall₂ (fun value value' => value'.type_oid = value.type_oid ∧
        value'.is_null = value.is_null ∧
        value'.bytes = if value.is_null then [] else value.bytes) row_with_null decoded :=
  row_codec_round_trip two_columns row_with_null tuple_with_null encode_row_with_null (by decide)

/-! ## Rows that are cut off -/

/-- If some bytes of the values are missing, the value that they belong to is
found to be outside. -/
theorem rereads_cut {bytes : Bytes} {header before : Nat} (values : List Value)
    (hstart : header + before ≤ bytes.length)
    (hcut : bytes.length < header + before + (values.flatMap payload).length)
    (hsize : header + before + (values.flatMap payload).length < 2 ^ 32) :
    rereads bytes header before values = .error .Corruption := by
  induction values generalizing before with
  | nil =>
    rw [List.flatMap_nil, List.length_nil] at hcut
    omega
  | cons value rest ih =>
    rw [List.flatMap_cons, List.length_append] at hcut hsize
    -- the values after a value that is there
    have hrest : header + (before + (payload value).length) ≤ bytes.length →
        rereads bytes header (before + (payload value).length) rest = .error .Corruption :=
      fun hnext => ih hnext (by omega) (by omega)
    unfold rereads reread
    cases hn : value.is_null with
    | true =>
      have hempty : (payload value).length = 0 := by simp [payload, Value.stored, hn]
      rw [hrest (by omega)]
      rfl
    | false =>
      rw [payload_of_present hn] at hrest hsize ⊢
      simp only [Bool.false_eq_true, if_false]
      rw [Nat.mod_eq_of_lt (by omega)]
      by_cases hout : header + before + value.bytes.length > bytes.length
      · rw [if_pos (Or.inr hout)]
      · rw [if_neg (by omega), hrest (by omega)]

/-- Every strict beginning of an encoded row is refused. -/
theorem truncated_row_is_corrupt (codec : RowCodec) (values : List Value) (tuple : Bytes)
    (h : codec.encode values = .ok tuple) (hsize : tuple.length < 2 ^ 32) (k : Nat)
    (hk : k < tuple.length) : codec.decode (tuple.take k) = .error .Corruption := by
  have hrow := row_of_encode h
  obtain ⟨bitmap, hrun, hb, hbits⟩ := encode_of_row hrow
  rw [h] at hrun
  cases hrun
  have hlength := length_encoded hb
  have hcount := le_header_size values.length
  have hschema := (row_iff.mp hrow).1
  have htake : ((encoded bitmap values).take k).length = k := by
    rw [List.length_take]
    omega
  have hheader : COLUMN_COUNT_BYTES + bitmap_bytes_for_columns values.length +
      values.length * (OFFSET_BYTES + LENGTH_BYTES) = header_size values.length := rfl
  by_cases hfour : k < COLUMN_COUNT_BYTES
  · unfold decode read_u32_le
    rw [if_pos (by omega)]
  by_cases hhead : k < header_size values.length
  · -- the number of columns is there, and the entries are not
    have hread : read_u32_le ((encoded bitmap values).take k) 0 = .ok values.length := by
      have hfirst : (encoded bitmap values).take k = [] ++ le.encode 4 values.length ++
          (bitmap ++ entries (header_size values.length) 0 values ++
            values.flatMap payload).take (k - 4) := by
        unfold encoded
        rw [List.append_assoc, List.append_assoc, List.take_append]
        simp only [COLUMN_COUNT_BYTES] at hfour
        rw [List.take_of_length_le (by rw [le.length_encode]; omega), le.length_encode]
        simp
      rw [hfirst]
      have hmid := read_u32_le_mid values.length [] ((bitmap ++
        entries (header_size values.length) 0 values ++ values.flatMap payload).take (k - 4))
      rwa [Nat.mod_eq_of_lt (by omega)] at hmid
    unfold decode
    rw [hread]
    simp only [hschema, ne_eq, not_true_eq_false, if_false]
    rw [hheader, if_pos (by omega)]
  · have hsplit : (encoded bitmap values).take k = le.encode 4 values.length ++ bitmap ++
        entries (header_size values.length) 0 values ++
          (values.flatMap payload).take (k - header_size values.length) := by
      have hlen : (le.encode 4 values.length ++ bitmap ++
          entries (header_size values.length) 0 values).length = header_size values.length := by
        unfold encoded at hlength
        rw [List.length_append] at hlength
        omega
      unfold encoded
      rw [List.take_append, List.take_of_length_le (by omega), hlen]
    have hshort : ∀ v ∈ values, (payload v).length < 2 ^ 32 := fun v hv => by
      have := length_payload_le hv
      omega
    rw [decode_header hrow (by omega) hshort hb hbits hsplit]
    exact rereads_cut values (by omega) (by omega) (by omega)

theorem truncated_row_with_null :
    two_columns.decode (tuple_with_null.take 24) = .error .Corruption :=
  truncated_row_is_corrupt two_columns row_with_null tuple_with_null encode_row_with_null
    (by decide) 24 (by decide)

/-! ## Reads -/

-- The decoder once more, with every access to the bytes checked: there is no
-- result when an access is outside of them.
namespace Checked

/-- The bytes at `offset` and after it, one access for each. -/
def read_bytes (bytes : Bytes) : Nat → Nat → Option Bytes
  | _, 0 => some []
  | offset, n + 1 => do
    let byte ← bytes[offset]?
    let rest ← read_bytes bytes (offset + 1) n
    pure (byte :: rest)

/-- `subspan`, which must stay inside. -/
def subspan (bytes : Bytes) (offset count : Nat) : Option Bytes :=
  if offset + count ≤ bytes.length then some (slice bytes offset count) else none

def read_u32_le (bytes : Bytes) (offset : Nat) : Option (Result Nat) :=
  if offset + COLUMN_COUNT_BYTES > bytes.length then some (.error .Corruption)
  else do
    let word ← read_bytes bytes offset COLUMN_COUNT_BYTES
    pure (.ok (le.decode word))

def is_null_bit_set (bitmap : Bytes) (index : Nat) : Option Bool := do
  let byte ← bitmap[index / 8]?
  pure (decide (byte &&& null_mask index ≠ 0))

def decode_column (codec : RowCodec) (tuple bitmap : Bytes) (entries_offset payload_offset : Nat)
    (index : Nat) (column : ColumnSchema) : Option (Result Value) :=
  match codec.lookup_type column.type_oid with
  | .error e => some (.error e)
  | .ok type => do
    let entry_offset := entries_offset + index * (OFFSET_BYTES + LENGTH_BYTES)
    let offset ← read_u32_le tuple entry_offset
    let length ← read_u32_le tuple (entry_offset + OFFSET_BYTES)
    match offset, length with
    | .ok start, .ok count =>
      let null ← is_null_bit_set bitmap index
      if null then pure (.ok { type_oid := column.type_oid, bytes := [], is_null := true })
      else if start < payload_offset ∨ start + count > tuple.length then pure (.error .Corruption)
      else if type.fixed_size.any fun size => count ≠ size then pure (.error .Corruption)
      else
        let bytes ← subspan tuple start count
        pure (.ok { type_oid := column.type_oid, bytes, is_null := false })
    | _, _ => pure (.error .Corruption)

def decode_columns (codec : RowCodec) (tuple bitmap : Bytes) (entries_offset payload_offset : Nat) :
    List ColumnSchema → Nat → Option (Result (List Value))
  | [], _ => some (.ok [])
  | column :: rest, index => do
    let first ← decode_column codec tuple bitmap entries_offset payload_offset index column
    match first with
    | .error e => pure (.error e)
    | .ok value =>
      let others ← decode_columns codec tuple bitmap entries_offset payload_offset rest (index + 1)
      match others with
      | .error e => pure (.error e)
      | .ok values => pure (.ok (value :: values))

def decode (codec : RowCodec) (tuple : Bytes) : Option (Result (List Value)) := do
  let count ← read_u32_le tuple 0
  match count with
  | .error e => pure (.error e)
  | .ok stored_columns =>
    if stored_columns ≠ codec.schema.length then pure (.error .Corruption)
    else
      let column_count := codec.schema.length
      let bitmap_size := bitmap_bytes_for_columns column_count
      let entries_offset := COLUMN_COUNT_BYTES + bitmap_size
      let payload_offset := entries_offset + column_count * (OFFSET_BYTES + LENGTH_BYTES)
      if tuple.length < payload_offset then pure (.error .Corruption)
      else
        let bitmap ← subspan tuple COLUMN_COUNT_BYTES bitmap_size
        decode_columns codec tuple bitmap entries_offset payload_offset codec.schema 0

theorem read_bytes_eq {bytes : Bytes} {offset n : Nat} (h : offset + n ≤ bytes.length) :
    read_bytes bytes offset n = some (slice bytes offset n) := by
  induction n generalizing offset with
  | zero => simp [read_bytes, slice]
  | succ n ih =>
    have hlt : offset < bytes.length := by omega
    have hslice : slice bytes offset (n + 1) = bytes[offset] :: slice bytes (offset + 1) n := by
      unfold slice
      rw [List.drop_eq_getElem_cons hlt, List.take_succ_cons]
    unfold read_bytes
    rw [List.getElem?_eq_getElem hlt, ih (by omega), hslice]
    rfl

theorem subspan_eq {bytes : Bytes} {offset count : Nat} (h : offset + count ≤ bytes.length) :
    subspan bytes offset count = some (slice bytes offset count) := if_pos h

theorem read_u32_le_eq (bytes : Bytes) (offset : Nat) :
    read_u32_le bytes offset = some (RowCodec.read_u32_le bytes offset) := by
  unfold read_u32_le RowCodec.read_u32_le
  by_cases h : offset + COLUMN_COUNT_BYTES > bytes.length
  · rw [if_pos h, if_pos h]
  · rw [if_neg h, if_neg h, read_bytes_eq (by omega)]
    rfl

theorem is_null_bit_set_eq {bitmap : Bytes} {index : Nat} (h : index / 8 < bitmap.length) :
    is_null_bit_set bitmap index = some (RowCodec.is_null_bit_set bitmap index) := by
  unfold is_null_bit_set RowCodec.is_null_bit_set
  rw [List.getD_eq_getElem?_getD, List.getElem?_eq_getElem h]
  rfl

variable {codec : RowCodec} {tuple bitmap : Bytes} {entries_offset payload_offset index : Nat}

theorem decode_column_eq (h : index / 8 < bitmap.length) (column : ColumnSchema) :
    decode_column codec tuple bitmap entries_offset payload_offset index column =
      some (codec.decode_column tuple bitmap entries_offset payload_offset index column) := by
  unfold decode_column RowCodec.decode_column
  rw [is_null_bit_set_eq h]
  rcases codec.lookup_type column.type_oid with e | type
  · rfl
  simp only [read_u32_le_eq, Option.pure_def, Option.bind_eq_bind, Option.bind_some]
  rcases RowCodec.read_u32_le tuple (entries_offset + index * (OFFSET_BYTES + LENGTH_BYTES))
    with e | start
  · rfl
  rcases RowCodec.read_u32_le tuple (entries_offset + index * (OFFSET_BYTES + LENGTH_BYTES) +
    OFFSET_BYTES) with e | count
  · rfl
  simp only
  split
  · rfl
  · split
    · rfl
    · rename_i hinside
      split
      · rfl
      · rw [subspan_eq (by omega)]
        rfl

theorem decode_columns_eq (columns : List ColumnSchema)
    (h : index + columns.length ≤ 8 * bitmap.length) :
    decode_columns codec tuple bitmap entries_offset payload_offset columns index =
      some (codec.decode_columns tuple bitmap entries_offset payload_offset columns index) := by
  induction columns generalizing index with
  | nil => rfl
  | cons column rest ih =>
    rw [List.length_cons] at h
    unfold decode_columns RowCodec.decode_columns
    rw [decode_column_eq (by omega), ih (by omega)]
    rcases codec.decode_column tuple bitmap entries_offset payload_offset index column with e | value
    · rfl
    · rcases codec.decode_columns tuple bitmap entries_offset payload_offset rest (index + 1)
        with e | values <;> rfl

/-- No access of the decoder is outside of the bytes. -/
theorem decode_eq (codec : RowCodec) (tuple : Bytes) :
    decode codec tuple = some (codec.decode tuple) := by
  unfold decode RowCodec.decode
  rw [read_u32_le_eq]
  rcases RowCodec.read_u32_le tuple 0 with e | stored_columns
  · rfl
  simp only [Option.pure_def, Option.bind_eq_bind, Option.bind_some]
  split
  · rfl
  · split
    · rfl
    · rename_i hlong
      have hfits : COLUMN_COUNT_BYTES + bitmap_bytes_for_columns codec.schema.length ≤
          tuple.length := by omega
      rw [subspan_eq hfits, Option.bind_some]
      refine decode_columns_eq _ ?_
      rw [length_slice_of_le hfits]
      unfold bitmap_bytes_for_columns
      omega

end Checked

/-! ## Values that are encoded again -/

/-- A value that was decoded for a column. Nothing is said of a null in a column
that is not nullable. -/
structure Decoded (registry : TypeRegistry) (column : ColumnSchema) (value : Value) : Prop where
  same_type : value.type_oid = column.type_oid
  known : ∃ type, registry.lookup column.type_oid = .ok type ∧
    (value.is_null = false → ∀ size, type.fixed_size = some size → value.bytes.length = size)
  stored : value.stored = value
  short : value.bytes.length < 2 ^ 32

/-- The bytes that a row has for a value, and nothing for a null. -/
def part (value : Value) : Option Bytes := if value.is_null then none else some value.bytes

theorem payload_eq (value : Value) : payload value = (part value).getD [] := by
  unfold payload part Value.stored
  split <;> rfl

/-- The bytes of a row that its entry for a column names, and nothing where the
bitmap marks a null. -/
def named (tuple bitmap : Bytes) (entries_offset index : Nat) : Option Bytes :=
  let entry_offset := entries_offset + index * (OFFSET_BYTES + LENGTH_BYTES)
  if is_null_bit_set bitmap index then none
  else some (slice tuple (le.decode (slice tuple entry_offset OFFSET_BYTES))
    (le.decode (slice tuple (entry_offset + OFFSET_BYTES) LENGTH_BYTES)))

theorem isNone_part (value : Value) : (part value).isNone = value.is_null := by
  unfold part
  cases value.is_null <;> rfl

theorem isNone_named (tuple bitmap : Bytes) (entries_offset index : Nat) :
    (named tuple bitmap entries_offset index).isNone = is_null_bit_set bitmap index := by
  unfold named
  cases is_null_bit_set bitmap index <;> rfl

section

variable {codec : RowCodec} {tuple bitmap : Bytes} {entries_offset payload_offset index : Nat}

theorem read_u32_le_lt {bytes : Bytes} {offset n : Nat} (h : read_u32_le bytes offset = .ok n) :
    n < 2 ^ 32 ∧ n = le.decode (slice bytes offset 4) := by
  unfold read_u32_le at h
  split at h
  · cases h
  · rename_i hinside
    cases h
    have hlt := le.decode_lt (slice bytes offset COLUMN_COUNT_BYTES)
    rw [length_slice_of_le (by omega)] at hlt
    exact ⟨hlt, rfl⟩

theorem decoded_of_decode_column {column : ColumnSchema} {value : Value}
    (h : codec.decode_column tuple bitmap entries_offset payload_offset index column = .ok value) :
    Decoded codec.registry column value ∧ part value = named tuple bitmap entries_offset index := by
  unfold decode_column at h
  split at h
  · cases h
  · rename_i type htype
    have hlook := lookup_of_lookup_type htype
    simp only at h
    split at h
    · rename_i start count hstart hcount
      split at h
      · rename_i hnull
        cases h
        exact ⟨⟨rfl, ⟨type, hlook, nofun⟩, rfl, by simp⟩, (if_pos hnull).symm⟩
      · rename_i hnull
        split at h
        · cases h
        · rename_i hinside
          split at h
          · cases h
          · rename_i hfixed
            cases h
            have hlen : (slice tuple start count).length = count :=
              length_slice_of_le (by omega)
            obtain ⟨-, rfl⟩ := read_u32_le_lt hstart
            obtain ⟨hshort, rfl⟩ := read_u32_le_lt hcount
            refine ⟨⟨rfl, ⟨type, hlook, fun _ size hsize => ?_⟩, rfl, ?_⟩, (if_neg hnull).symm⟩
            · rw [hlen]
              simpa [hsize] using hfixed
            · rw [hlen]
              exact hshort
    · cases h

theorem decoded_of_decode_columns {columns : List ColumnSchema} {values : List Value}
    (h : codec.decode_columns tuple bitmap entries_offset payload_offset columns index =
      .ok values) :
    List.Forall₂ (Decoded codec.registry) columns values ∧
      values.map part =
        (List.range' index columns.length).map (named tuple bitmap entries_offset) := by
  induction columns generalizing index values with
  | nil =>
    cases h
    exact ⟨.nil, rfl⟩
  | cons column rest ih =>
    unfold decode_columns at h
    split at h
    · cases h
    · rename_i value hvalue
      split at h
      · cases h
      · rename_i others hothers
        cases h
        obtain ⟨hdecoded, hpart⟩ := decoded_of_decode_column hvalue
        obtain ⟨hrest, hparts⟩ := ih hothers
        refine ⟨.cons hdecoded hrest, ?_⟩
        rw [List.map_cons, hpart, hparts, List.length_cons, List.range'_succ, List.map_cons]

/-- The bitmap of a row. -/
def bitmap_of (codec : RowCodec) (tuple : Bytes) : Bytes :=
  slice tuple COLUMN_COUNT_BYTES (bitmap_bytes_for_columns codec.schema.length)

/-- The bytes that the bitmap and the entries of a row name, column by column. -/
def parts_of (codec : RowCodec) (tuple : Bytes) : List (Option Bytes) :=
  (List.range codec.schema.length).map (named tuple (codec.bitmap_of tuple)
    (COLUMN_COUNT_BYTES + bitmap_bytes_for_columns codec.schema.length))

theorem decoded_of_decode {values : List Value} (h : codec.decode tuple = .ok values) :
    codec.schema.length < 2 ^ 32 ∧ List.Forall₂ (Decoded codec.registry) codec.schema values ∧
      values.map part = codec.parts_of tuple := by
  unfold decode at h
  split at h
  · cases h
  · rename_i stored_columns hcount
    split at h
    · cases h
    · rename_i hsame
      simp only at h
      split at h
      · cases h
      · obtain ⟨hall, hparts⟩ := decoded_of_decode_columns h
        refine ⟨?_, hall, ?_⟩
        · rw [← not_not.mp hsame]
          exact (read_u32_le_lt hcount).1
        · rw [hparts, parts_of, List.range_eq_range']
          rfl

theorem is_null_of_decode {values : List Value} (h : codec.decode tuple = .ok values) {k : Nat}
    {value : Value} (hk : values[k]? = some value) :
    value.is_null = is_null_bit_set (codec.bitmap_of tuple) k := by
  obtain ⟨-, -, hparts⟩ := decoded_of_decode h
  have hpart : (codec.parts_of tuple)[k]? = some (part value) := by
    rw [← hparts, List.getElem?_map, hk]
    rfl
  obtain ⟨j, hj, hnamed⟩ := Option.map_eq_some_iff.mp (List.getElem?_map .. ▸ hpart)
  obtain ⟨hlt, rfl⟩ := List.getElem?_eq_some_iff.mp hj
  rw [List.getElem_range] at hnamed
  rw [← isNone_part, ← hnamed, isNone_named]

/-- Nulls are only where the schema allows them. -/
def NullsAllowed (codec : RowCodec) (tuple : Bytes) : Prop :=
  ∀ (k : Nat) (column : ColumnSchema), codec.schema[k]? = some column →
    is_null_bit_set (codec.bitmap_of tuple) k = true → column.nullable = true

/-- Parts that stand one after the other in `bytes`, behind a header, are found
again at their offsets modulo 2^32. -/
def Refound (bytes : Bytes) (header : Nat) : Nat → List (Option Bytes) → Prop
  | _, [] => True
  | before, none :: rest => Refound bytes header before rest
  | before, some x :: rest =>
    (header ≤ (header + before) % 2 ^ 32 ∧
      slice bytes ((header + before) % 2 ^ 32 - header) x.length = x) ∧
    Refound bytes header (before + x.length) rest

/-- The parts of a row, one after the other. -/
def joined (parts : List (Option Bytes)) : Bytes := parts.flatMap fun part => part.getD []

theorem joined_map_part (values : List Value) :
    joined (values.map part) = values.flatMap payload := by
  unfold joined
  rw [List.flatMap_map]
  exact List.flatMap_congr fun value _ => (payload_eq value).symm

/-- Parts that all have an offset below 2^32 are found. -/
theorem refound_of_small {bytes : Bytes} {header before : Nat} (parts : List (Option Bytes))
    (c : Bytes) (hbytes : bytes = c ++ joined parts) (hc : c.length = before)
    (hsmall : header + bytes.length < 2 ^ 32) : Refound bytes header before parts := by
  induction parts generalizing before c with
  | nil => trivial
  | cons p rest ih =>
    cases p with
    | none => exact ih c hbytes hc
    | some x =>
      have hsplit : bytes = (c ++ x) ++ joined rest := by
        rw [hbytes, List.append_assoc]
        rfl
      refine ⟨?_, ih (c ++ x) hsplit (by rw [List.length_append, hc])⟩
      have hlen : before ≤ bytes.length := by
        rw [hbytes, List.length_append]
        omega
      have hoff : (header + before) % 2 ^ 32 = header + before := Nat.mod_eq_of_lt (by omega)
      rw [hoff, Nat.add_sub_cancel_left]
      refine ⟨by omega, ?_⟩
      rw [hsplit, ← hc]
      exact slice_mid _ _ _

theorem reread_iff {c bytes : Bytes} {header before : Nat} {value : Value} (hc : c.length = header)
    (hroom : before ≤ bytes.length) :
    reread (c ++ bytes) header before value = .ok value.stored ↔
      (value.is_null = false → header ≤ (header + before) % 2 ^ 32 ∧
        slice bytes ((header + before) % 2 ^ 32 - header) value.bytes.length = value.bytes) := by
  unfold reread
  cases hn : value.is_null with
  | true => simp
  | false =>
    have hstored : value.stored = value := by simp [Value.stored, hn]
    have hstart : (header + before) % 2 ^ 32 ≤ header + before := Nat.mod_le _ _
    rw [hstored]
    simp only [Bool.false_eq_true, if_false, forall_const, List.length_append]
    generalize (header + before) % 2 ^ 32 = start at hstart
    constructor
    · intro h
      split at h
      · cases h
      · rename_i hinside
        have hbytes := congrArg Value.bytes (Except.ok.inj h)
        simp only at hbytes
        rw [slice_append_right (by omega), hc] at hbytes
        exact ⟨by omega, hbytes⟩
    · rintro ⟨hle, hbytes⟩
      -- the value is as long as its bytes, so it ends inside
      have hlen := congrArg List.length hbytes
      rw [length_slice] at hlen
      rw [if_neg (by omega), slice_append_right (by omega), hc, hbytes]
      cases value
      cases hn
      rfl

theorem refound_cons {bytes : Bytes} {header before : Nat} (value : Value)
    (rest : List (Option Bytes)) :
    Refound bytes header before (part value :: rest) ↔
      (value.is_null = false → header ≤ (header + before) % 2 ^ 32 ∧
        slice bytes ((header + before) % 2 ^ 32 - header) value.bytes.length = value.bytes) ∧
      Refound bytes header (before + (payload value).length) rest := by
  rw [payload_eq]
  unfold part
  cases value.is_null <;> simp [Refound]

theorem rereads_iff {c bytes : Bytes} {header before : Nat} (values : List Value)
    (hc : c.length = header) (hroom : before + (values.flatMap payload).length ≤ bytes.length) :
    rereads (c ++ bytes) header before values = .ok (values.map Value.stored) ↔
      Refound bytes header before (values.map part) := by
  induction values generalizing before with
  | nil => exact ⟨fun _ => trivial, fun _ => rfl⟩
  | cons value rest ih =>
    rw [List.flatMap_cons, List.length_append] at hroom
    have hrest : rereads (c ++ bytes) header (before + (payload value).length) rest =
        .ok (rest.map Value.stored) ↔
          Refound bytes header (before + (payload value).length) (rest.map part) := ih (by omega)
    unfold rereads
    rw [List.map_cons, List.map_cons, refound_cons,
      ← reread_iff hc (Nat.le_of_add_right_le hroom), ← hrest]
    constructor
    · intro h
      split at h
      · cases h
      · rename_i value' hv
        split at h
        · cases h
        · rename_i rest' hr
          obtain ⟨rfl, rfl⟩ := List.cons.inj (Except.ok.inj h)
          exact ⟨hv, hr⟩
    · rintro ⟨hv, hr⟩
      rw [hv, hr]

theorem map_stored {columns : List ColumnSchema} {values : List Value} {registry : TypeRegistry}
    (h : List.Forall₂ (Decoded registry) columns values) : values.map Value.stored = values := by
  induction h with
  | nil => rfl
  | cons hd _ ih => rw [List.map_cons, ih, hd.stored]

/-- Decoded values make a row exactly when the nulls among them are allowed. -/
theorem row_iff_nullsAllowed {values : List Value} (h : codec.decode tuple = .ok values) :
    Row codec.registry codec.schema values ↔ codec.NullsAllowed tuple := by
  obtain ⟨-, hall, -⟩ := decoded_of_decode h
  constructor
  · intro hrow k column hcolumn hbit
    have hlen := List.Forall₂.length_eq hrow
    obtain ⟨hk, rfl⟩ := List.getElem?_eq_some_iff.mp hcolumn
    have hfits := (List.forall₂_iff_get.mp hrow).2 k hk (hlen ▸ hk)
    exact hfits.null_ok ((is_null_of_decode h (List.getElem?_eq_getElem (hlen ▸ hk))).trans hbit)
  · intro hnulls
    refine List.forall₂_iff_get.mpr ⟨hall.length_eq, fun k h1 h2 => ?_⟩
    have hd := (List.forall₂_iff_get.mp hall).2 k h1 h2
    refine ⟨hd.same_type, hd.known, fun hnull => ?_⟩
    refine hnulls k _ (List.getElem?_eq_getElem h1) ?_
    rw [← is_null_of_decode h (List.getElem?_eq_getElem h2)]
    exact hnull

end

/-- Decoding never reads outside of its bytes. What it gives is accepted by the
encoder and decoded to the same values again exactly when the bitmap marks
nullable columns only and none of the bytes that the entries name is lost behind
an offset of 2^32 or more. -/
theorem decoded_values_conform_iff (codec : RowCodec) (tuple : Bytes) :
    Checked.decode codec tuple = some (codec.decode tuple) ∧
      ∀ values, codec.decode tuple = .ok values →
        ((∃ tuple', codec.encode values = .ok tuple' ∧ codec.decode tuple' = .ok values) ↔
          codec.NullsAllowed tuple ∧ Refound (joined (codec.parts_of tuple))
            (header_size codec.schema.length) 0 (codec.parts_of tuple)) := by
  refine ⟨Checked.decode_eq codec tuple, fun values h => ?_⟩
  obtain ⟨hcount, hall, hparts⟩ := decoded_of_decode h
  rw [← hparts, joined_map_part]
  have hlen : codec.schema.length = values.length := hall.length_eq
  have hshort : ∀ v ∈ values, (payload v).length < 2 ^ 32 := by
    intro v hv
    obtain ⟨k, hk, rfl⟩ := List.getElem_of_mem hv
    have hd := (List.forall₂_iff_get.mp hall).2 k (hlen ▸ hk) hk
    have hstored : values[k].stored = values[k] := hd.stored
    unfold payload
    rw [hstored]
    exact hd.short
  -- what decoding makes of the row that the values are encoded to
  have hagain : ∀ hrow : Row codec.registry codec.schema values, ∃ tuple',
      codec.encode values = .ok tuple' ∧ (codec.decode tuple' = .ok values ↔
        Refound (values.flatMap payload) (header_size codec.schema.length) 0
          (values.map part)) := by
    intro hrow
    obtain ⟨bitmap, hrun, hb, hbits⟩ := encode_of_row hrow
    have hdec : codec.decode (encoded bitmap values) =
        rereads (encoded bitmap values) (header_size values.length) 0 values :=
      decode_header hrow (by omega) hshort hb hbits rfl
    have hlength := length_encoded hb
    refine ⟨_, hrun, ?_⟩
    unfold encoded at hdec hlength ⊢
    rw [List.length_append] at hlength
    have hiff : rereads (le.encode 4 values.length ++ bitmap ++
          entries (header_size values.length) 0 values ++ values.flatMap payload)
          (header_size values.length) 0 values = .ok (values.map Value.stored) ↔
        Refound (values.flatMap payload) (header_size values.length) 0 (values.map part) :=
      rereads_iff values (by omega) (by omega)
    rw [hdec, hlen, ← hiff, map_stored hall]
  rw [← row_iff_nullsAllowed h]
  constructor
  · rintro ⟨tuple', henc, hdec⟩
    have hrow := row_of_encode henc
    obtain ⟨tuple'', henc', hiff⟩ := hagain hrow
    cases henc.symm.trans henc'
    exact ⟨hrow, hiff.mp hdec⟩
  · rintro ⟨hrow, hfound⟩
    obtain ⟨tuple', henc, hiff⟩ := hagain hrow
    exact ⟨tuple', henc, hiff.mpr hfound⟩

theorem row_with_null_conforms :
    ∃ tuple', two_columns.encode row_with_null = .ok tuple' ∧
      two_columns.decode tuple' = .ok row_with_null := by
  refine ((decoded_values_conform_iff two_columns tuple_with_null).2 row_with_null
    (by decide)).mpr ⟨?_, refound_of_small _ [] rfl rfl (by decide)⟩
  intro k column hcolumn hbit
  rcases k with _ | _ | k
  · cases hcolumn
    exact absurd hbit (by decide)
  · cases hcolumn
    rfl
  · cases hcolumn

/-- A null in a column that is not nullable. -/
def tuple_with_bad_null : Bytes :=
  [2, 0, 0, 0, 1, 0, 0, 0, 0, 0, 0, 0, 0, 21, 0, 0, 0, 0, 0, 0, 0]

/-- It is decoded, and the encoder refuses the values. -/
theorem bad_null_is_decoded :
    two_columns.decode tuple_with_bad_null =
        .ok [⟨Builtin.int32.oid, [], true⟩, ⟨Builtin.text.oid, [], false⟩] ∧
      two_columns.encode [⟨Builtin.int32.oid, [], true⟩, ⟨Builtin.text.oid, [], false⟩] =
        .error .InvalidArgument := by
  decide

end RowCodec

end edb
