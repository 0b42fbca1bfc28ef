-- The buffer pool (src/storage/buffer/buffer_pool.cpp): a fixed number of
-- frames that cache pages of one page store. A call runs on the pool and on
-- the file behind its store, since a call may read and write pages.
import Edb.PageStore
import Edb.EvictionPolicy

namespace edb

structure Frame where
  page_id : Nat := 0
  data : Bytes := []
  valid : Bool := false
  dirty : Bool := false
  pin_count : Nat := 0
  deriving DecidableEq, Repr

/-- `pool` says whether the handle still points to its pool. The bytes that it
gives access to are those of frame `index`. -/
structure FrameHandle where
  pool : Bool := false
  index : Nat := 0
  id : Nat := 0
  deriving DecidableEq, Repr

structure BufferPoolConfig where
  capacity_pages : Nat := 1024
  eviction : EvictionPolicyConfig := {}
  deriving DecidableEq, Repr

/-- `store` and `eviction_policy` are pointers in the source, null in a closed
pool. The page store does not change while a pool is open on it. -/
structure BufferPool where
  store : Option PageStore := none
  config : BufferPoolConfig := {}
  page_bytes : Nat := 0
  frames : List Frame := []
  eviction_policy : Option EvictionPolicy := none

/-- A pool and the file behind its page store. -/
structure PoolState where
  pool : BufferPool := {}
  io : StorageIO := {}

namespace BufferPool

/-- A call on the page store. `check_open` has run before every one of them. -/
def on_store {α : Type} (f : PageStore → Call Error StorageIO α) : Call Error PoolState α := do
  let s ← .get
  match s.pool.store with
  | none => .fail .IoError
  | some store => (f store).zoom PoolState.io fun io s => { s with io }

/-- A call on the eviction policy, which is there whenever the store is. -/
def on_policy {α : Type} (x : Call Error EvictionPolicy α) : Call Error PoolState α := fun s =>
  match s.pool.eviction_policy with
  | none => (.error .IoError, s)
  | some policy =>
    match x.run policy with
    | (r, policy') => (r, { s with pool.eviction_policy := some policy' })

def frame_at (pool : BufferPool) (frame_index : Nat) : Frame :=
  pool.frames[frame_index]?.getD {}

def update_frame (frame_index : Nat) (f : Frame → Frame) : Call Error PoolState Unit :=
  .modify fun s =>
    { s with pool.frames := s.pool.frames.set frame_index (f (s.pool.frame_at frame_index)) }

def check_open : Call Error PoolState Unit := do
  let s ← .get
  if s.pool.store.isNone then .fail .IoError else pure ()

/-- `none` stands for `Error::NotFound`, which no caller passes on. -/
def find_frame (pool : BufferPool) (page_id : Nat) : Option Nat :=
  pool.frames.findIdx? fun frame => frame.valid && frame.page_id == page_id

def states (pool : BufferPool) : List EvictionFrameState :=
  pool.frames.map fun frame =>
    { page_id := frame.page_id, valid := frame.valid, pinned := decide (frame.pin_count > 0) }

/-- A frame that holds no page, or else the choice of the policy. -/
def choose_victim : Call Error PoolState Nat := do
  let s ← .get
  match s.pool.frames.findIdx? fun frame => !frame.valid with
  | some frame_index => pure frame_index
  | none => on_policy (EvictionPolicy.choose_victim s.pool.states)

def write_back_if_dirty (frame_index : Nat) : Call Error PoolState Unit := do
  let s ← .get
  let frame := s.pool.frame_at frame_index
  if !frame.valid || !frame.dirty then pure ()
  else
    on_store fun store => store.write_page frame.page_id frame.data
    update_frame frame_index fun frame => { frame with dirty := false }

/-- `store->read_page(page_id, frame.data)`. -/
def read_into_frame (frame_index page_id : Nat) : Call Error PoolState Unit := do
  let s ← .get
  match s.pool.store with
  | none => .fail .IoError
  | some store =>
    (store.read_page page_id).zoom (fun s => (s.io, (s.pool.frame_at frame_index).data))
      fun t s =>
        { pool.store := s.pool.store
          pool.config := s.pool.config
          pool.page_bytes := s.pool.page_bytes
          pool.frames := s.pool.frames.set frame_index
            { s.pool.frame_at frame_index with data := t.2 }
          pool.eviction_policy := s.pool.eviction_policy
          io := t.1 }

def load_page_into_frame (frame_index page_id : Nat) : Call Error PoolState Unit := do
  let s ← .get
  let evicted_page_id := (s.pool.frame_at frame_index).page_id
  let had_valid_page := (s.pool.frame_at frame_index).valid
  write_back_if_dirty frame_index
  read_into_frame frame_index page_id
  if had_valid_page then on_policy (EvictionPolicy.record_evict evicted_page_id frame_index)
  update_frame frame_index fun frame =>
    { frame with page_id, valid := true, dirty := false, pin_count := 1 }
  on_policy (EvictionPolicy.record_load page_id frame_index)

def load_blank_page_into_frame (frame_index page_id : Nat) : Call Error PoolState Unit := do
  let s ← .get
  let evicted_page_id := (s.pool.frame_at frame_index).page_id
  let had_valid_page := (s.pool.frame_at frame_index).valid
  write_back_if_dirty frame_index
  if had_valid_page then on_policy (EvictionPolicy.record_evict evicted_page_id frame_index)
  update_frame frame_index fun frame =>
    { page_id, data := List.replicate frame.data.length 0, valid := true, dirty := true,
      pin_count := 1 }
  on_policy (EvictionPolicy.record_load page_id frame_index)

def make_handle (frame_index : Nat) : Call Error PoolState FrameHandle := do
  let s ← .get
  pure { pool := true, index := frame_index, id := (s.pool.frame_at frame_index).page_id }

def fetch (page_id : Nat) : Call Error PoolState FrameHandle := do
  check_open
  let s ← .get
  match s.pool.find_frame page_id with
  | some cached =>
    update_frame cached fun frame => { frame with pin_count := frame.pin_count + 1 }
    on_policy (EvictionPolicy.record_access page_id cached)
    make_handle cached
  | none =>
    on_policy (EvictionPolicy.record_miss page_id)
    let victim ← choose_victim
    load_page_into_frame victim page_id
    make_handle victim

def fetch_new (page_id : Nat) : Call Error PoolState FrameHandle := do
  check_open
  let s ← .get
  match s.pool.find_frame page_id with
  | some cached =>
    update_frame cached fun frame =>
      { frame with
        pin_count := frame.pin_count + 1
        dirty := true
        data := List.replicate frame.data.length 0 }
    on_policy (EvictionPolicy.record_access page_id cached)
    make_handle cached
  | none =>
    on_policy (EvictionPolicy.record_miss page_id)
    let victim ← choose_victim
    load_blank_page_into_frame victim page_id
    make_handle victim

/-- The caller's handle is released when the call goes through. -/
def unpin (handle : FrameHandle) (dirty : Bool) : Call Error PoolState Unit := do
  check_open
  let s ← .get
  if !handle.pool || decide (handle.index ≥ s.pool.frames.length) then .fail .InvalidArgument
  else
    let frame := s.pool.frame_at handle.index
    if !frame.valid || frame.pin_count == 0 then .fail .InvalidArgument
    else update_frame handle.index fun frame =>
      { frame with dirty := dirty || frame.dirty, pin_count := frame.pin_count - 1 }

def flush (page_id : Nat) : Call Error PoolState Unit := do
  check_open
  let s ← .get
  match s.pool.find_frame page_id with
  | none => pure ()
  | some cached => write_back_if_dirty cached

def flush_all : Call Error PoolState Unit := do
  check_open
  let s ← .get
  Call.each write_back_if_dirty (List.range s.pool.frames.length)
  on_store PageStore.sync

def close : Call Error PoolState Unit := do
  let s ← .get
  if s.pool.store.isSome then flush_all
  .modify fun s => { s with pool := {} }

/-- The bytes behind a handle. -/
def data (pool : BufferPool) (handle : FrameHandle) : Bytes := (pool.frame_at handle.index).data

/-- The owner of a handle changes the bytes behind it. -/
def mutate (handle : FrameHandle) (f : Bytes → Bytes) : Call Error PoolState Unit :=
  update_frame handle.index fun frame => { frame with data := f frame.data }

end BufferPool

/-- Opens the pool with `capacity_pages` empty frames. A capacity of 0 stops the
program in an assertion. -/
def BufferPool.open (page_store : PageStore) (cfg : BufferPoolConfig) :
    Call Error PoolState Unit := do
  .modify fun s =>
    { s with
      pool.store := some page_store
      pool.config := cfg
      pool.page_bytes := page_store.page_size
      pool.eviction_policy := some (make_eviction_policy cfg.eviction) }
  BufferPool.on_policy (EvictionPolicy.reset cfg.capacity_pages)
  .modify fun s =>
    { s with
      pool.frames := List.replicate cfg.capacity_pages
        { data := List.replicate page_store.page_size 0 } }

end edb
