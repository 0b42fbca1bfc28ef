-- The slotted heap page (src/storage/engine/heap/page.cpp): a header, an
-- array of slots that grows up from the header, and tuples that grow down
-- from the end of the page. A slot of length 0 is a deleted tuple.
import Edb.StorageIO
import Edb.LittleEndian

open seq

namespace edb.heap

def PAGE_HEADER_SIZE : Nat := 28
def SLOT_SIZE : Nat := 4

structure Slot where
  offset : Nat
  len : Nat
  deriving DecidableEq, Repr

def CHECKSUM_OFFSET : Nat := 0
def FLAGS_OFFSET : Nat := 4
def SLOT_COUNT_OFFSET : Nat := 6
def FREE_START_OFFSET : Nat := 8
def FREE_END_OFFSET : Nat := 10
def PAGE_ID_OFFSET : Nat := 12
def MAX_U16 : Nat := 0xFFFF

def fits_u16 (value : Nat) : Bool := decide (value ≤ MAX_U16)

def read_u16 (page : Bytes) (offset : Nat) : Nat := le.decode (slice page offset 2)

def write_u16 (page : Bytes) (offset value : Nat) : Bytes := patch page offset (le.encode 2 value)

def write_u32_zero (page : Bytes) (offset : Nat) : Bytes :=
  patch page offset (List.replicate 4 0)

def write_u64 (page : Bytes) (offset value : Nat) : Bytes := patch page offset (le.encode 8 value)

def slot_offset (slot_idx : Nat) : Nat := PAGE_HEADER_SIZE + slot_idx * SLOT_SIZE

def validate_page_size (page : Bytes) : Result Unit :=
  if page.length < PAGE_HEADER_SIZE ∨ page.length > MAX_U16 then .error .InvalidArgument
  else .ok ()

def slot_count (page : Bytes) : Result Nat := do
  validate_page_size page
  pure (read_u16 page SLOT_COUNT_OFFSET)

def read_slot (page : Bytes) (slot_idx : Nat) : Result Slot := do
  let count ← slot_count page
  if slot_idx ≥ count then .error .InvalidArgument
  else
    let offset := slot_offset slot_idx
    pure { offset := read_u16 page offset, len := read_u16 page (offset + 2) }

def write_slot (page : Bytes) (slot_idx : Nat) (slot : Slot) : Bytes :=
  let offset := slot_offset slot_idx
  write_u16 (write_u16 page offset slot.offset) (offset + 2) slot.len

/-- The page after the call. A call that fails leaves the page alone, here and
in the calls below. -/
def initialize_page (page : Bytes) (page_id : Nat) : Result Bytes := do
  validate_page_size page
  let page := List.replicate page.length 0
  let page := write_u32_zero page CHECKSUM_OFFSET
  let page := write_u16 page FLAGS_OFFSET 0
  let page := write_u16 page SLOT_COUNT_OFFSET 0
  let page := write_u16 page FREE_START_OFFSET PAGE_HEADER_SIZE
  let page := write_u16 page FREE_END_OFFSET page.length
  pure (write_u64 page PAGE_ID_OFFSET page_id)

def free_space (page : Bytes) : Result Nat := do
  validate_page_size page
  let free_start := read_u16 page FREE_START_OFFSET
  let free_end := read_u16 page FREE_END_OFFSET
  if free_end < free_start then .error .Corruption else pure (free_end - free_start)

def can_insert (page : Bytes) (tuple_size : Nat) : Result Bool :=
  if !fits_u16 tuple_size then .ok false
  else do
    let space ← free_space page
    pure (decide (space ≥ tuple_size + SLOT_SIZE))

/-- The slot of the new tuple and the page after the call. -/
def insert_tuple (page tuple : Bytes) : Result (Nat × Bytes) := do
  let can_fit ← can_insert page tuple.length
  if !can_fit then .error .OutOfMemory
  else
    let count := read_u16 page SLOT_COUNT_OFFSET
    let free_end := read_u16 page FREE_END_OFFSET
    let tuple_offset := (free_end - tuple.length) % 2 ^ 16
    let page := patch page tuple_offset tuple
    let page := write_slot page count { offset := tuple_offset, len := tuple.length % 2 ^ 16 }
    let new_count := (count + 1) % 2 ^ 16
    let page := write_u16 page SLOT_COUNT_OFFSET new_count
    let page := write_u16 page FREE_START_OFFSET
      ((PAGE_HEADER_SIZE + new_count * SLOT_SIZE) % 2 ^ 16)
    pure (count, write_u16 page FREE_END_OFFSET tuple_offset)

def delete_tuple (page : Bytes) (slot_idx : Nat) : Result Bytes := do
  let slot ← read_slot page slot_idx
  if slot.len = 0 then .error .NotFound
  else pure (write_slot page slot_idx { offset := 0, len := 0 })

def overwrite_tuple (page : Bytes) (slot_idx : Nat) (tuple : Bytes) : Result Bytes := do
  let slot ← read_slot page slot_idx
  if slot.len = 0 then .error .NotFound
  else if slot.len ≠ tuple.length then .error .InvalidArgument
  else if slot.offset + slot.len > page.length then .error .Corruption
  else pure (patch page slot.offset tuple)

def read_tuple (page : Bytes) (slot_idx : Nat) : Result Bytes := do
  let slot ← read_slot page slot_idx
  if slot.len = 0 then .error .NotFound
  else if slot.offset + slot.len > page.length then .error .Corruption
  else pure (slice page slot.offset slot.len)

def is_live_slot (page : Bytes) (slot_idx : Nat) : Result Bool := do
  let slot ← read_slot page slot_idx
  pure (decide (slot.len ≠ 0))

end edb.heap
