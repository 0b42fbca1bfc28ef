-- The heap engine (src/storage/engine/heap/heap_engine.cpp): tuples in
-- slotted pages, behind a buffer pool. A call runs on the engine and on the
-- file behind its page store.
import Edb.BufferPool
import Edb.HeapPage

namespace edb

structure EngineConfig where
  page_size : Nat := 8192
  buffer_pool_pages : Nat := 1024
  buffer_eviction : EvictionPolicyConfig := {}
  deriving DecidableEq, Repr

structure TupleId where
  page_id : Nat
  slot_idx : Nat
  deriving DecidableEq, Repr

structure Tuple where
  id : TupleId
  data : Bytes
  deriving DecidableEq, Repr

structure ScanHandle where
  value : Nat
  deriving DecidableEq, Repr

/-- `page_store` is null in a closed engine. -/
structure EdbHeapEngine where
  page_store : Option PageStore := none
  config : EngineConfig := {}
  buffer_pool : BufferPool := {}
  opened : Bool := false

/-- An engine and the file behind its page store. -/
structure HeapState where
  engine : EdbHeapEngine := {}
  io : StorageIO := {}

/-- An engine and the scan handle that a call moves. -/
structure ScanState where
  heap : HeapState
  handle : ScanHandle

namespace EdbHeapEngine

def CURSOR_SLOT_BASE : Nat := 65536
def CURSOR_PAGE_MASK : Nat := 0xFFFFFFFF

def on_pool {α : Type} (x : Call Error PoolState α) : Call Error HeapState α :=
  x.zoom (fun s => { pool := s.engine.buffer_pool, io := s.io })
    fun t s => { engine := { s.engine with buffer_pool := t.pool }, io := t.io }

/-- A call on the page store. `check_open` has run before every one of them. -/
def on_page_store {α : Type} (f : PageStore → Call Error StorageIO α) :
    Call Error HeapState α := do
  let s ← .get
  match s.engine.page_store with
  | none => .fail .IoError
  | some store => (f store).zoom HeapState.io fun io s => { s with io }

def check_open : Call Error HeapState Unit := do
  let s ← .get
  if !s.engine.opened || s.engine.page_store.isNone then .fail .IoError else pure ()

/-- `handle.data()`, to read from. -/
def frame_data (handle : FrameHandle) : Call Error HeapState Bytes := do
  let s ← .get
  pure (s.engine.buffer_pool.data handle)

/-- The page behind the handle after a page helper has changed it. -/
def set_frame_data (handle : FrameHandle) (page : Bytes) : Call Error HeapState Unit :=
  on_pool (BufferPool.mutate handle fun _ => page)

def unpin_clean (handle : FrameHandle) : Call Error HeapState Unit :=
  on_pool (BufferPool.unpin handle false)

def close : Call Error HeapState Unit := do
  let s ← .get
  if !s.engine.opened then pure ()
  else
    let status ← (on_pool BufferPool.close).attempt
    .modify fun s => { s with engine := { s.engine with page_store := none, opened := false } }
    .ofExcept status

def insert_into_existing_page (page_id : Nat) (tuple : Bytes) :
    Call Error HeapState (Option TupleId) := do
  let frame ← on_pool (BufferPool.fetch page_id)
  let data ← frame_data frame
  match heap.can_insert data tuple.length with
  | .error e =>
    unpin_clean frame
    .fail e
  | .ok false =>
    on_pool (BufferPool.unpin frame false)
    pure none
  | .ok true =>
    match heap.insert_tuple data tuple with
    | .error e =>
      unpin_clean frame
      .fail e
    | .ok (slot, page) =>
      set_frame_data frame page
      on_pool (BufferPool.unpin frame true)
      pure (some { page_id, slot_idx := slot })

def insert_into_new_page (tuple : Bytes) : Call Error HeapState TupleId := do
  let s ← .get
  -- the difference is a `size_t`
  let page_capacity :=
    (s.engine.config.page_size + (2 ^ 64 - heap.PAGE_HEADER_SIZE)) % 2 ^ 64
  if tuple.length + heap.SLOT_SIZE > page_capacity then .fail .OutOfMemory
  else
    let allocated ← on_page_store PageStore.allocate_page
    let frame ← on_pool (BufferPool.fetch_new allocated)
    let data ← frame_data frame
    match heap.initialize_page data allocated with
    | .error e =>
      unpin_clean frame
      .fail e
    | .ok page =>
      set_frame_data frame page
      match heap.insert_tuple page tuple with
      | .error e =>
        unpin_clean frame
        .fail e
      | .ok (slot, page) =>
        set_frame_data frame page
        on_pool (BufferPool.unpin frame true)
        pure { page_id := allocated, slot_idx := slot }

/-- The loop of `insert_tuple` over the pages from `page_id` on. -/
def insert_loop (tuple : Bytes) : Nat → Nat → Call Error HeapState TupleId
  | 0, _ => insert_into_new_page tuple
  | pages + 1, page_id => do
    match ← insert_into_existing_page page_id tuple with
    | some id => pure id
    | none => insert_loop tuple pages (page_id + 1)

/-- An empty tuple stops the program in an assertion. -/
def insert_tuple (tuple : Bytes) : Call Error HeapState TupleId := do
  check_open
  let count ← on_page_store PageStore.page_count
  insert_loop tuple count 0

def delete_tuple (id : TupleId) : Call Error HeapState Unit := do
  check_open
  let handle ← on_pool (BufferPool.fetch id.page_id)
  let data ← frame_data handle
  match heap.delete_tuple data id.slot_idx with
  | .error e =>
    unpin_clean handle
    .fail e
  | .ok page =>
    set_frame_data handle page
    on_pool (BufferPool.unpin handle true)

def update_tuple (id : TupleId) (tuple : Bytes) : Call Error HeapState TupleId := do
  delete_tuple id
  insert_tuple tuple

/-! ## Scans -/

def encode_cursor (page_id slot_idx : Nat) : Nat :=
  page_id % (CURSOR_PAGE_MASK + 1) * CURSOR_SLOT_BASE + slot_idx

def cursor_page_id (handle : ScanHandle) : Nat :=
  handle.value / CURSOR_SLOT_BASE % (CURSOR_PAGE_MASK + 1)

def cursor_slot_idx (handle : ScanHandle) : Nat := handle.value % CURSOR_SLOT_BASE

def on_heap {α : Type} (x : Call Error HeapState α) : Call Error ScanState α :=
  x.zoom ScanState.heap fun heap s => { s with heap }

def set_cursor (page_id slot_idx : Nat) : Call Error ScanState Unit :=
  .modify fun s => { s with handle := { value := encode_cursor page_id slot_idx } }

def begin_scan : Call Error HeapState ScanHandle := do
  check_open
  pure { value := encode_cursor 0 0 }

def scan_slot (frame : FrameHandle) (page_id slot_idx : Nat) :
    Call Error ScanState (Option Tuple) := do
  let data ← on_heap (frame_data frame)
  match heap.is_live_slot data slot_idx with
  | .error e =>
    on_heap (unpin_clean frame)
    .fail e
  | .ok false => pure none
  | .ok true =>
    match heap.read_tuple data slot_idx with
    | .error e =>
      on_heap (unpin_clean frame)
      .fail e
    | .ok tuple =>
      set_cursor page_id ((slot_idx + 1) % 2 ^ 16)
      on_heap (unpin_clean frame)
      pure (some { id := { page_id, slot_idx }, data := tuple })

/-- The loop of `scan_next` over the slots of a page from `slot_idx` on. -/
def scan_slots (frame : FrameHandle) (page_id : Nat) :
    Nat → Nat → Call Error ScanState (Option Tuple)
  | 0, _ => pure none
  | slots + 1, slot_idx => do
    match ← scan_slot frame page_id slot_idx with
    | some tuple => pure (some tuple)
    | none => scan_slots frame page_id slots (slot_idx + 1)

/-- The loop of `scan_next` over the pages from `page_id` on. -/
def scan_pages : Nat → Nat → Call Error ScanState (Option Tuple)
  | 0, _ => pure none
  | pages + 1, page_id => do
    let frame ← on_heap (on_pool (BufferPool.fetch page_id))
    let data ← on_heap (frame_data frame)
    match heap.slot_count data with
    | .error e =>
      on_heap (unpin_clean frame)
      .fail e
    | .ok slots =>
      let s ← .get
      let slot_idx := if page_id = cursor_page_id s.handle then cursor_slot_idx s.handle else 0
      match ← scan_slots frame page_id (slots - slot_idx) slot_idx with
      | some tuple => pure (some tuple)
      | none =>
        on_heap (unpin_clean frame)
        set_cursor (page_id + 1) 0
        scan_pages pages (page_id + 1)

def scan_next : Call Error ScanState (Option Tuple) := do
  on_heap check_open
  let count ← on_heap (on_page_store PageStore.page_count)
  let s ← .get
  let page_id := cursor_page_id s.handle
  scan_pages (count - page_id) page_id

def end_scan : Call Error ScanState Unit := set_cursor 0 0

/-- Calls of `scan_next` up to `nullopt`, at most `calls` of them. -/
def drain : Nat → Call Error ScanState (List Tuple)
  | 0 => .fail .Diverges
  | calls + 1 => do
    match ← scan_next with
    | none => pure []
    | some tuple => do
      let rest ← drain calls
      pure (tuple :: rest)

/-- A complete scan, from `begin_scan` until `nullopt`. -/
def complete_scan (calls : Nat) : Call Error HeapState (List Tuple) := do
  let handle ← begin_scan
  (drain calls).zoom (fun heap => { heap, handle }) fun t _ => t.heap

end EdbHeapEngine

/-- A page size of 0 stops the program in an assertion. -/
def EdbHeapEngine.open (store : PageStore) (cfg : EngineConfig) : Call Error HeapState Unit := do
  .modify fun s => { s with engine := { s.engine with page_store := some store, config := cfg } }
  let status ← (EdbHeapEngine.on_pool (BufferPool.open store
    { capacity_pages := cfg.buffer_pool_pages, eviction := cfg.buffer_eviction })).attempt
  match status with
  | .error e =>
    .modify fun s => { s with engine := { s.engine with page_store := none } }
    .fail e
  | .ok () => .modify fun s => { s with engine := { s.engine with opened := true } }

end edb
