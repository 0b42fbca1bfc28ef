-- The row codec (src/types/row_codec.cpp). A row is stored as its number of
-- columns, a bitmap of its nulls, an offset and a length for each column, and
-- the bytes of the values.
import Edb.BuiltinTypes
import Edb.Slice

open seq

namespace edb

structure Value where
  type_oid : Nat := 0
  bytes : Bytes := []
  is_null : Bool := false
  deriving DecidableEq, Repr

structure ColumnSchema where
  name : Bytes
  type_oid : Nat := 0
  nullable : Bool := false
  deriving DecidableEq, Repr

structure RowCodec where
  registry : TypeRegistry
  schema : List ColumnSchema

namespace RowCodec

def COLUMN_COUNT_BYTES : Nat := 4
def OFFSET_BYTES : Nat := 4
def LENGTH_BYTES : Nat := 4

def append_u32_le (out : Bytes) (value : Nat) : Bytes := out ++ le.encode 4 value

def read_u32_le (bytes : Bytes) (offset : Nat) : Result Nat :=
  if offset + COLUMN_COUNT_BYTES > bytes.length then .error .Corruption
  else .ok (le.decode (slice bytes offset COLUMN_COUNT_BYTES))

def bitmap_bytes_for_columns (column_count : Nat) : Nat := (column_count + 7) / 8

def null_mask (index : Nat) : UInt8 := UInt8.ofNat (2 ^ (index % 8))

def is_null_bit_set (bitmap : Bytes) (index : Nat) : Bool :=
  decide (bitmap.getD (index / 8) 0 &&& null_mask index ≠ 0)

def set_null_bit (bitmap : Bytes) (index : Nat) : Bytes :=
  bitmap.modify (index / 8) fun b => b ||| null_mask index

def lookup_type (codec : RowCodec) (oid : Nat) : Result DataType :=
  match codec.registry.lookup oid with
  | .error _ => .error .TypeNotFound
  | .ok type => .ok type

/-! ## Encode -/

/-- What the loop over the columns has written so far. The source keeps the
bitmap in the row itself, behind the column count. -/
structure Parts where
  bitmap : Bytes
  entries : Bytes := []
  payload : Bytes := []

def encode_column (codec : RowCodec) (header_size index : Nat) (column : ColumnSchema)
    (value : Value) (parts : Parts) : Result Parts :=
  match codec.lookup_type column.type_oid with
  | .error e => .error e
  | .ok type =>
    if value.type_oid ≠ column.type_oid then .error .InvalidArgument
    else if value.is_null then
      if !column.nullable then .error .InvalidArgument
      else .ok { parts with
        bitmap := set_null_bit parts.bitmap index
        entries := append_u32_le (append_u32_le parts.entries 0) 0 }
    else if type.fixed_size.any fun size => value.bytes.length ≠ size then
      .error .InvalidArgument
    else .ok { parts with
      entries := append_u32_le
        (append_u32_le parts.entries (header_size + parts.payload.length)) value.bytes.length
      payload := parts.payload ++ value.bytes }

def encode_columns (codec : RowCodec) (header_size : Nat) :
    List (ColumnSchema × Value) → Nat → Parts → Result Parts
  | [], _, parts => .ok parts
  | (column, value) :: rest, index, parts =>
    match codec.encode_column header_size index column value parts with
    | .error e => .error e
    | .ok parts => codec.encode_columns header_size rest (index + 1) parts

/-- The bytes before the values. -/
def header_size (column_count : Nat) : Nat :=
  COLUMN_COUNT_BYTES + bitmap_bytes_for_columns column_count +
    column_count * (OFFSET_BYTES + LENGTH_BYTES)

def encode (codec : RowCodec) (values : List Value) : Result Bytes :=
  if values.length ≠ codec.schema.length then .error .InvalidArgument
  else
    let column_count := codec.schema.length
    let bitmap := List.replicate (bitmap_bytes_for_columns column_count) 0
    match codec.encode_columns (header_size column_count) (codec.schema.zip values) 0 { bitmap } with
    | .error e => .error e
    | .ok parts => .ok (append_u32_le [] column_count ++ parts.bitmap ++ parts.entries ++ parts.payload)

/-! ## Decode -/

def decode_column (codec : RowCodec) (tuple bitmap : Bytes) (entries_offset payload_offset : Nat)
    (index : Nat) (column : ColumnSchema) : Result Value :=
  match codec.lookup_type column.type_oid with
  | .error e => .error e
  | .ok type =>
    let entry_offset := entries_offset + index * (OFFSET_BYTES + LENGTH_BYTES)
    match read_u32_le tuple entry_offset, read_u32_le tuple (entry_offset + OFFSET_BYTES) with
    | .ok start, .ok count =>
      if is_null_bit_set bitmap index then
        .ok { type_oid := column.type_oid, bytes := [], is_null := true }
      else if start < payload_offset ∨ start + count > tuple.length then .error .Corruption
      else if type.fixed_size.any fun size => count ≠ size then .error .Corruption
      else .ok { type_oid := column.type_oid, bytes := slice tuple start count, is_null := false }
    | _, _ => .error .Corruption

def decode_columns (codec : RowCodec) (tuple bitmap : Bytes) (entries_offset payload_offset : Nat) :
    List ColumnSchema → Nat → Result (List Value)
  | [], _ => .ok []
  | column :: rest, index =>
    match codec.decode_column tuple bitmap entries_offset payload_offset index column with
    | .error e => .error e
    | .ok value =>
      match codec.decode_columns tuple bitmap entries_offset payload_offset rest (index + 1) with
      | .error e => .error e
      | .ok values => .ok (value :: values)

def decode (codec : RowCodec) (tuple : Bytes) : Result (List Value) :=
  match read_u32_le tuple 0 with
  | .error e => .error e
  | .ok stored_columns =>
    if stored_columns ≠ codec.schema.length then .error .Corruption
    else
      let column_count := codec.schema.length
      let bitmap_size := bitmap_bytes_for_columns column_count
      let entries_offset := COLUMN_COUNT_BYTES + bitmap_size
      let payload_offset := entries_offset + column_count * (OFFSET_BYTES + LENGTH_BYTES)
      if tuple.length < payload_offset then .error .Corruption
      else codec.decode_columns tuple (slice tuple COLUMN_COUNT_BYTES bitmap_size) entries_offset
        payload_offset codec.schema 0

end RowCodec

end edb
