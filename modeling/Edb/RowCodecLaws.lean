-- What the row codec does: a row is taken when each value fits its column, the
-- size of the encoding depends on the values only, and decoding it gives the
-- row back.
import Mathlib.Data.List.Forall2
import Mathlib.Data.Nat.Bitwise
import Edb.RowCodec

open seq

namespace edb

/-- A value that a column takes. -/
structure Value.Fits (registry : TypeRegistry) (column : ColumnSchema) (value : Value) : Prop where
  same_type : value.type_oid = column.type_oid
  known : ∃ type, registry.lookup column.type_oid = .ok type ∧
    (value.is_null = false → ∀ size, type.fixed_size = some size → value.bytes.length = size)
  null_ok : value.is_null = true → column.nullable = true

/-- The value as a row holds it: a null has no bytes. -/
def Value.stored (value : Value) : Value :=
  if value.is_null then { value with bytes := [] } else value

namespace RowCodec

/-! ## The bitmap -/

theorem toNat_null_mask (index : Nat) : (null_mask index).toNat = 2 ^ (index % 8) := by
  have hlt : 2 ^ (index % 8) < 256 :=
    Nat.lt_of_le_of_lt (Nat.pow_le_pow_right (by decide) (by omega : index % 8 ≤ 7)) (by decide)
  unfold null_mask
  rw [UInt8.toNat_ofNat']
  exact Nat.mod_eq_of_lt hlt

theorem is_null_bit_set_eq (bitmap : Bytes) (index : Nat) :
    is_null_bit_set bitmap index = (bitmap.getD (index / 8) 0).toNat.testBit (index % 8) := by
  unfold is_null_bit_set
  rw [Bool.eq_iff_iff, decide_eq_true_eq, ne_eq, ← UInt8.toNat_inj, UInt8.toNat_and,
    toNat_null_mask, Nat.and_two_pow]
  cases (bitmap.getD (index / 8) 0).toNat.testBit (index % 8) <;> simp

/-- Setting one bit sets that bit and no other. -/
theorem is_null_bit_set_set {bitmap : Bytes} {index : Nat} (h : index / 8 < bitmap.length)
    (j : Nat) : is_null_bit_set (set_null_bit bitmap index) j =
      (decide (j = index) || is_null_bit_set bitmap j) := by
  simp only [is_null_bit_set_eq, set_null_bit, List.getD_eq_getElem?_getD, List.getElem?_modify]
  by_cases hbyte : index / 8 = j / 8
  · obtain ⟨b, hb⟩ : ∃ b, bitmap[j / 8]? = some b := ⟨_, List.getElem?_eq_getElem (hbyte ▸ h)⟩
    have hsame : decide (j = index) = decide (index % 8 = j % 8) := by
      rw [decide_eq_decide]
      omega
    rw [hb, hsame]
    simp only [hbyte, if_true, Option.map_eq_map, Option.map_some, Option.getD_some,
      UInt8.toNat_or, toNat_null_mask, Nat.testBit_or, Nat.testBit_two_pow]
    rw [Bool.or_comm]
  · have hne : j ≠ index := by rintro rfl; exact hbyte rfl
    simp [hbyte, hne]

theorem is_null_bit_set_zeros (n index : Nat) :
    is_null_bit_set (List.replicate n 0) index = false := by
  rw [is_null_bit_set_eq, List.getD_eq_getElem?_getD, List.getElem?_replicate]
  split <;> simp

@[simp] theorem length_set_null_bit (bitmap : Bytes) (index : Nat) :
    (set_null_bit bitmap index).length = bitmap.length := by
  simp [set_null_bit]

/-! ## Encode -/

/-- The offset and the length of a value, after `before` bytes of values. -/
def entry (header before : Nat) (value : Value) : Bytes :=
  if value.is_null then le.encode 4 0 ++ le.encode 4 0
  else le.encode 4 (header + before) ++ le.encode 4 value.bytes.length

/-- The bytes of a value in the row. -/
def payload (value : Value) : Bytes := value.stored.bytes

theorem payload_of_present {value : Value} (h : value.is_null = false) :
    payload value = value.bytes := by
  simp [payload, Value.stored, h]

def entries (header : Nat) : Nat → List Value → Bytes
  | _, [] => []
  | before, value :: rest =>
    entry header before value ++ entries header (before + (payload value).length) rest

@[simp] theorem length_entry (header before : Nat) (value : Value) :
    (entry header before value).length = 8 := by
  unfold entry
  split <;> simp

@[simp] theorem length_entries (header before : Nat) (values : List Value) :
    (entries header before values).length = 8 * values.length := by
  induction values generalizing before with
  | nil => rfl
  | cons value rest ih =>
    simp only [entries, List.length_append, length_entry, ih, List.length_cons]
    omega

variable {codec : RowCodec} {column : ColumnSchema} {value : Value} {parts : Parts}
  {header index : Nat}

theorem lookup_type_ok {oid : Nat} {type : DataType} (h : codec.registry.lookup oid = .ok type) :
    codec.lookup_type oid = .ok type := by
  unfold lookup_type
  rw [h]

theorem lookup_of_lookup_type {oid : Nat} {type : DataType}
    (h : codec.lookup_type oid = .ok type) : codec.registry.lookup oid = .ok type := by
  unfold lookup_type at h
  split at h
  · cases h
  · rename_i hl
    cases h
    exact hl

/-- A value that fits its column is added to the parts. -/
theorem encode_column_of_fits (h : value.Fits codec.registry column) :
    codec.encode_column header index column value parts = .ok {
      bitmap := if value.is_null then set_null_bit parts.bitmap index else parts.bitmap
      entries := parts.entries ++ entry header parts.payload.length value
      payload := parts.payload ++ payload value } := by
  obtain ⟨htype, ⟨type, hlook, hsize⟩, hnull⟩ := h
  unfold encode_column
  rw [lookup_type_ok hlook]
  simp only [htype, ne_eq, not_true_eq_false, if_false]
  cases hn : value.is_null with
  | true =>
    simp only [hnull hn, entry, payload, Value.stored, hn, append_u32_le, if_true]
    simp
  | false =>
    have hfixed : (type.fixed_size.any fun size => !decide (value.bytes.length = size)) = false := by
      cases hf : type.fixed_size with
      | none => rfl
      | some size => simp [hsize hn size hf]
    simp [hfixed, entry, payload, Value.stored, hn, append_u32_le]

/-- A column takes only a value that fits. -/
theorem fits_of_encode_column {parts' : Parts}
    (h : codec.encode_column header index column value parts = .ok parts') :
    value.Fits codec.registry column := by
  unfold encode_column at h
  split at h
  · cases h
  · rename_i type hlook
    split at h
    · cases h
    · rename_i htype
      split at h
      · rename_i hnull
        split at h
        · cases h
        · rename_i hcol
          refine ⟨by simpa using htype, ⟨type, lookup_of_lookup_type hlook, ?_⟩, ?_⟩
          · rw [hnull]
            exact fun hf => (Bool.noConfusion hf)
          · exact fun _ => by simpa using hcol
      · rename_i hnull
        split at h
        · cases h
        · rename_i hsize
          refine ⟨by simpa using htype, ⟨type, lookup_of_lookup_type hlook, ?_⟩, ?_⟩
          · intro _ size hf
            simpa [hf] using hsize
          · exact fun hn => absurd hn hnull

/-- The loop over columns whose values all fit. -/
theorem encode_columns_of_fits (header : Nat) (pairs : List (ColumnSchema × Value)) (index : Nat) (parts : Parts)
    (hfits : ∀ p ∈ pairs, p.2.Fits codec.registry p.1)
    (hroom : index + pairs.length ≤ 8 * parts.bitmap.length) :
    ∃ bitmap, codec.encode_columns header pairs index parts = .ok {
        bitmap := bitmap
        entries := parts.entries ++ entries header parts.payload.length (pairs.map Prod.snd)
        payload := parts.payload ++ (pairs.map Prod.snd).flatMap payload } ∧
      bitmap.length = parts.bitmap.length ∧
      ∀ j, is_null_bit_set bitmap j = (is_null_bit_set parts.bitmap j ||
        (decide (index ≤ j) && (pairs.map Prod.snd)[j - index]?.any Value.is_null)) := by
  induction pairs generalizing index parts with
  | nil => exact ⟨parts.bitmap, by simp [encode_columns, entries], rfl, by simp⟩
  | cons p rest ih =>
    obtain ⟨column, value⟩ := p
    rw [List.length_cons] at hroom
    unfold encode_columns
    rw [encode_column_of_fits (hfits (column, value) List.mem_cons_self)]
    simp only
    have hlen : (if value.is_null = true then set_null_bit parts.bitmap index
        else parts.bitmap).length = parts.bitmap.length := by
      split <;> simp
    obtain ⟨bitmap, hrun, hb, hbits⟩ := ih (index + 1) {
        bitmap := if value.is_null then set_null_bit parts.bitmap index else parts.bitmap
        entries := parts.entries ++ entry header parts.payload.length value
        payload := parts.payload ++ payload value }
      (fun p hp => hfits p (List.mem_cons_of_mem _ hp)) (by simp only [hlen]; omega)
    refine ⟨bitmap, ?_, hb.trans hlen, fun j => ?_⟩
    · rw [hrun]
      simp [entries, List.flatMap_cons]
    · rw [hbits j]
      rcases Nat.lt_trichotomy j index with hj | rfl | hj
      · have h1 : decide (index + 1 ≤ j) = false := by simp; omega
        have h2 : decide (index ≤ j) = false := by simp; omega
        have h3 : decide (j = index) = false := by simp; omega
        split
        · rw [is_null_bit_set_set (by omega), h1, h2, h3]
          simp
        · rw [h1, h2]
          simp
      · cases hn : value.is_null with
        | true =>
          rw [if_pos rfl, is_null_bit_set_set (by omega)]
          simp [hn]
        | false => simp [hn]
      · obtain ⟨k, rfl⟩ : ∃ k, j = index + 1 + k := ⟨j - (index + 1), by omega⟩
        have h1 : index + 1 + k - (index + 1) = k := by omega
        have h2 : index + 1 + k - index = k + 1 := by omega
        have h3 : decide (index + 1 + k = index) = false := by simp; omega
        have h4 : decide (index + 1 ≤ index + 1 + k) = true := by simp
        have h5 : decide (index ≤ index + 1 + k) = true := by simp; omega
        rw [h1, h2, h4, h5]
        split
        · rw [is_null_bit_set_set (by omega), h3]
          simp
        · simp

theorem fits_of_encode_columns {parts' : Parts} (pairs : List (ColumnSchema × Value)) (index : Nat)
    (parts : Parts) (h : codec.encode_columns header pairs index parts = .ok parts') :
    ∀ p ∈ pairs, p.2.Fits codec.registry p.1 := by
  induction pairs generalizing index parts with
  | nil => simp
  | cons p rest ih =>
    obtain ⟨column, value⟩ := p
    unfold encode_columns at h
    split at h
    · cases h
    · rename_i parts1 h1
      intro q hq
      rcases List.mem_cons.mp hq with rfl | hq
      · exact fits_of_encode_column h1
      · exact ih (index + 1) parts1 h q hq

/-- The row that the values of the columns make. -/
def encoded (bitmap : Bytes) (values : List Value) : Bytes :=
  le.encode 4 values.length ++ bitmap ++ entries (header_size values.length) 0 values ++
    values.flatMap payload

/-- A row is one value for each column, and each fits. -/
def Row (registry : TypeRegistry) (schema : List ColumnSchema) (values : List Value) : Prop :=
  List.Forall₂ (fun column value => value.Fits registry column) schema values

theorem row_iff {registry : TypeRegistry} {schema : List ColumnSchema} {values : List Value} :
    Row registry schema values ↔ schema.length = values.length ∧
      ∀ p ∈ schema.zip values, p.2.Fits registry p.1 := by
  unfold Row
  rw [List.forall₂_iff_zip]
  constructor
  · rintro ⟨hl, h⟩
    exact ⟨hl, fun p hp => h hp⟩
  · rintro ⟨hl, h⟩
    exact ⟨hl, fun hp => h _ hp⟩

theorem encode_of_row {values : List Value} (h : Row codec.registry codec.schema values) :
    ∃ bitmap, codec.encode values = .ok (encoded bitmap values) ∧
      bitmap.length = bitmap_bytes_for_columns values.length ∧
      ∀ j, is_null_bit_set bitmap j = values[j]?.any Value.is_null := by
  obtain ⟨hlen, hfits⟩ := row_iff.mp h
  have hsnd : (codec.schema.zip values).map Prod.snd = values :=
    List.map_snd_zip (Nat.le_of_eq hlen.symm)
  have hzip : (codec.schema.zip values).length = values.length := by
    rw [List.length_zip, hlen, Nat.min_self]
  obtain ⟨bitmap, hrun, hb, hbits⟩ := encode_columns_of_fits
    (header_size codec.schema.length) (codec.schema.zip values) 0
    { bitmap := List.replicate (bitmap_bytes_for_columns codec.schema.length) 0 } hfits (by
      simp only [hzip, List.length_replicate, bitmap_bytes_for_columns, hlen]
      omega)
  refine ⟨bitmap, ?_, ?_, fun j => ?_⟩
  · unfold encode
    rw [if_neg (by simpa using hlen.symm)]
    simp only
    rw [hrun, hsnd]
    simp [encoded, append_u32_le, hlen]
  · rw [hb, List.length_replicate, hlen]
  · rw [hbits j, hsnd, is_null_bit_set_zeros]
    simp

theorem row_of_encode {values : List Value} {tuple : Bytes}
    (h : codec.encode values = .ok tuple) : Row codec.registry codec.schema values := by
  unfold encode at h
  split at h
  · cases h
  · rename_i hlen
    simp only at h
    split at h
    · cases h
    · rename_i parts hp
      exact row_iff.mpr ⟨(not_not.mp hlen).symm, fits_of_encode_columns _ _ _ hp⟩

/-! ## Decode -/

/-- A number that was appended is read at its place, modulo 2^32. -/
theorem read_u32_le_mid (n : Nat) (before after : Bytes) :
    read_u32_le (before ++ le.encode 4 n ++ after) before.length = .ok (n % 2 ^ 32) := by
  have hslice : slice (before ++ le.encode 4 n ++ after) before.length COLUMN_COUNT_BYTES =
      le.encode 4 n := by
    have hmid := slice_mid before (le.encode 4 n) after
    rwa [le.length_encode] at hmid
  unfold read_u32_le
  rw [if_neg (by simp [COLUMN_COUNT_BYTES]), hslice, le.decode_encode, show 256 ^ 4 = 2 ^ 32 from rfl]

/-- What is read for a value whose entry was written after `before` bytes of
values: the bytes of `tuple` at the offset modulo 2^32, if they are there. -/
def reread (tuple : Bytes) (header before : Nat) (value : Value) : Result Value :=
  if value.is_null then .ok value.stored
  else if (header + before) % 2 ^ 32 < header ∨
      (header + before) % 2 ^ 32 + value.bytes.length > tuple.length then .error .Corruption
  else .ok { value with bytes := slice tuple ((header + before) % 2 ^ 32) value.bytes.length }

def rereads (tuple : Bytes) (header : Nat) : Nat → List Value → Result (List Value)
  | _, [] => .ok []
  | before, value :: rest =>
    match reread tuple header before value with
    | .error e => .error e
    | .ok value' =>
      match rereads tuple header (before + (payload value).length) rest with
      | .error e => .error e
      | .ok rest' => .ok (value' :: rest')

variable {tuple bitmap : Bytes} {entries_offset payload_offset : Nat}

/-- The column at `index`, with its entry at its place. -/
theorem decode_column_entry {before : Nat} {a b : Bytes}
    (hfits : value.Fits codec.registry column)
    (htuple : tuple = a ++ entry payload_offset before value ++ b)
    (ha : a.length = entries_offset + index * 8) (hsize : (payload value).length < 2 ^ 32)
    (hbit : is_null_bit_set bitmap index = value.is_null) :
    codec.decode_column tuple bitmap entries_offset payload_offset index column =
      reread tuple payload_offset before value := by
  obtain ⟨htype, ⟨type, hlook, hfixed⟩, -⟩ := hfits
  have hoff : entries_offset + index * (OFFSET_BYTES + LENGTH_BYTES) = a.length := ha.symm
  -- the two numbers of the entry
  have hread : ∀ x y, entry payload_offset before value = le.encode 4 x ++ le.encode 4 y →
      read_u32_le tuple a.length = .ok (x % 2 ^ 32) ∧
        read_u32_le tuple (a.length + OFFSET_BYTES) = .ok (y % 2 ^ 32) := by
    intro x y hentry
    rw [hentry] at htuple
    have h1 : tuple = a ++ le.encode 4 x ++ (le.encode 4 y ++ b) := by
      rw [htuple]
      simp
    have h2 : tuple = (a ++ le.encode 4 x) ++ le.encode 4 y ++ b := by
      rw [htuple]
      simp
    have hnext : a.length + OFFSET_BYTES = (a ++ le.encode 4 x).length := by simp [OFFSET_BYTES]
    refine ⟨?_, ?_⟩
    · rw [h1]
      exact read_u32_le_mid _ _ _
    · rw [hnext, h2]
      exact read_u32_le_mid _ _ _
  unfold decode_column reread
  rw [lookup_type_ok hlook]
  simp only [hoff, hbit]
  cases hn : value.is_null with
  | true =>
    obtain ⟨h1, h2⟩ := hread 0 0 (by rw [entry, hn, if_pos rfl])
    rw [h1, h2]
    simp [Value.stored, hn, htype]
  | false =>
    obtain ⟨h1, h2⟩ := hread (payload_offset + before) value.bytes.length
      (by rw [entry, hn]; simp)
    rw [payload_of_present hn] at hsize
    rw [h1, h2, Nat.mod_eq_of_lt hsize]
    have hany : (type.fixed_size.any fun size => decide (value.bytes.length ≠ size)) = false := by
      cases hf : type.fixed_size with
      | none => rfl
      | some size => simp [hfixed hn size hf]
    simp only [hany, Bool.false_eq_true, if_false, htype]

/-- The loop from `index` on, over the entries that are left. -/
theorem decode_columns_entries (columns : List ColumnSchema) (values : List Value)
    (index before : Nat) (a b : Bytes) (hrow : Row codec.registry columns values)
    (htuple : tuple = a ++ entries payload_offset before values ++ b)
    (ha : a.length = entries_offset + index * 8)
    (hsize : ∀ v ∈ values, (payload v).length < 2 ^ 32)
    (hbits : ∀ k, is_null_bit_set bitmap (index + k) = values[k]?.any Value.is_null) :
    codec.decode_columns tuple bitmap entries_offset payload_offset columns index =
      rereads tuple payload_offset before values := by
  induction hrow generalizing index before a with
  | nil => rfl
  | @cons column value columns values hfits hrest ih =>
    have hentry : tuple = a ++ entry payload_offset before value ++
        (entries payload_offset (before + (payload value).length) values ++ b) := by
      rw [htuple]
      simp [entries]
    have hcol : codec.decode_column tuple bitmap entries_offset payload_offset index column =
        reread tuple payload_offset before value :=
      decode_column_entry hfits hentry ha (hsize value (by simp)) (by simpa using hbits 0)
    have hnext := ih (index + 1) (before + (payload value).length)
      (a ++ entry payload_offset before value) (by rw [htuple]; simp [entries]) (by simp; omega)
      (fun v hv => hsize v (by simp [hv])) (fun k => by
        have hk := hbits (k + 1)
        rw [show index + (k + 1) = index + 1 + k by omega] at hk
        simpa using hk)
    rw [decode_columns, hcol, hnext]
    rfl

/-- Bytes that start with the header of a row are decoded as the row says. -/
theorem decode_header {values : List Value} {rest : Bytes}
    (hrow : Row codec.registry codec.schema values) (hcount : values.length < 2 ^ 32)
    (hsize : ∀ v ∈ values, (payload v).length < 2 ^ 32)
    (hb : bitmap.length = bitmap_bytes_for_columns values.length)
    (hbits : ∀ j, is_null_bit_set bitmap j = values[j]?.any Value.is_null)
    (htuple : tuple = le.encode 4 values.length ++ bitmap ++
      entries (header_size values.length) 0 values ++ rest) :
    codec.decode tuple = rereads tuple (header_size values.length) 0 values := by
  have hlen := (row_iff.mp hrow).1
  have hread : read_u32_le tuple 0 = .ok values.length := by
    rw [htuple, List.append_assoc, List.append_assoc]
    have hmid := read_u32_le_mid values.length [] (bitmap ++
      (entries (header_size values.length) 0 values ++ rest))
    rwa [Nat.mod_eq_of_lt hcount] at hmid
  have hmap : slice tuple COLUMN_COUNT_BYTES (bitmap_bytes_for_columns values.length) = bitmap := by
    have hmid := slice_mid (le.encode 4 values.length) bitmap
      (entries (header_size values.length) 0 values ++ rest)
    rw [le.length_encode, hb] at hmid
    rw [htuple, List.append_assoc _ _ rest]
    exact hmid
  have hheader : COLUMN_COUNT_BYTES + bitmap_bytes_for_columns values.length +
      values.length * (OFFSET_BYTES + LENGTH_BYTES) = header_size values.length := rfl
  have hlong : header_size values.length ≤ tuple.length := by
    rw [htuple]
    simp [hb, header_size, COLUMN_COUNT_BYTES, OFFSET_BYTES, LENGTH_BYTES]
    omega
  unfold decode
  rw [hread]
  simp only [hlen, ne_eq, not_true_eq_false, if_false]
  rw [hmap, hheader, if_neg (by omega)]
  exact decode_columns_entries codec.schema values 0 0 (le.encode 4 values.length ++ bitmap) rest
    hrow htuple (by simp [hb, COLUMN_COUNT_BYTES]) hsize
    (fun k => by rw [Nat.zero_add]; exact hbits k)

theorem length_encoded {values : List Value} {bitmap : Bytes}
    (hb : bitmap.length = bitmap_bytes_for_columns values.length) :
    (encoded bitmap values).length =
      header_size values.length + (values.flatMap payload).length := by
  unfold encoded header_size COLUMN_COUNT_BYTES OFFSET_BYTES LENGTH_BYTES
  simp only [List.length_append, le.length_encode, length_entries, hb]
  omega

theorem le_header_size (n : Nat) : n ≤ header_size n := by
  unfold header_size COLUMN_COUNT_BYTES OFFSET_BYTES LENGTH_BYTES
  omega

/-- Values that all stand at their offsets are read again. -/
theorem rereads_payload {header before : Nat} (values : List Value) (c : Bytes)
    (htuple : tuple = c ++ values.flatMap payload) (hc : c.length = header + before)
    (hsize : tuple.length < 2 ^ 32) :
    rereads tuple header before values = .ok (values.map Value.stored) := by
  induction values generalizing before c with
  | nil => rfl
  | cons value rest ih =>
    have hsplit : tuple = (c ++ payload value) ++ rest.flatMap payload := by
      rw [htuple]
      simp
    have hlen : tuple.length = c.length + (payload value).length +
        (rest.flatMap payload).length := by
      rw [hsplit, List.length_append, List.length_append]
    have hnext : rereads tuple header (before + (payload value).length) rest =
        .ok (rest.map Value.stored) :=
      ih (c ++ payload value) hsplit (by rw [List.length_append, hc]; omega)
    have hvalue : reread tuple header before value = .ok value.stored := by
      unfold reread
      cases hn : value.is_null with
      | true => simp
      | false =>
        rw [payload_of_present hn] at hlen hsplit
        have hslice : slice tuple (header + before) value.bytes.length = value.bytes := by
          rw [hsplit, ← hc]
          exact slice_mid _ _ _
        rw [Nat.mod_eq_of_lt (by omega), if_neg (by simp), if_neg (by omega), hslice]
        cases value
        cases hn
        rfl
    unfold rereads
    rw [hvalue, hnext]
    rfl

theorem length_payload_le {value : Value} {values : List Value} (h : value ∈ values) :
    (payload value).length ≤ (values.flatMap payload).length := by
  induction values with
  | nil => cases h
  | cons v rest ih =>
    rw [List.flatMap_cons, List.length_append]
    rcases List.mem_cons.mp h with rfl | h
    · omega
    · have := ih h
      omega

/-- Decoding an encoded row gives the row. -/
theorem decode_encode {values : List Value} {tuple : Bytes}
    (h : codec.encode values = .ok tuple) (hsize : tuple.length < 2 ^ 32) :
    codec.decode tuple = .ok (values.map Value.stored) := by
  have hrow := row_of_encode h
  obtain ⟨bitmap, hrun, hb, hbits⟩ := encode_of_row hrow
  rw [h] at hrun
  cases hrun
  have hlength := length_encoded hb
  have hcount := le_header_size values.length
  have hshort : ∀ v ∈ values, (payload v).length < 2 ^ 32 := fun v hv => by
    have := length_payload_le hv
    omega
  have hdec : codec.decode (encoded bitmap values) =
      rereads (encoded bitmap values) (header_size values.length) 0 values :=
    decode_header hrow (by omega) hshort hb hbits rfl
  rw [hdec]
  refine rereads_payload values (le.encode 4 values.length ++ bitmap ++
    entries (header_size values.length) 0 values) rfl ?_ hsize
  unfold encoded at hlength
  rw [List.length_append] at hlength
  omega

end RowCodec

end edb
