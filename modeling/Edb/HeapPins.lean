-- The pins of the heap engine. Between a fetch and its unpin a call of the
-- engine has some twenty exits, and a handle that goes out of scope does not
-- unpin. On each of them the handle is given back once, whatever the backend
-- refuses and whatever the pages hold, so the pool of an engine is never full.
import Edb.HeapScans
import Edb.PoolVictims

namespace edb

open Call StorageIO EdbHeapEngine

/-! ## The errors of the page helpers -/

namespace heap

/-- A helper never says that the pool is full. -/
def Modest {α : Type} (x : Result α) : Prop := ∀ e, x = .error e → NotFull e

variable {α β : Type} {x : Result α} {f : α → Result β}

theorem modest_ok (a : α) : Modest (.ok a : Result α) := nofun

theorem modest_error {e : Error} (h : NotFull e) : Modest (.error e : Result α) := by
  rintro e' he
  cases he
  exact h

theorem Modest.bind (hx : Modest x) (hf : ∀ a, Modest (f a)) : Modest (x >>= f) := by
  cases x with
  | error e => exact modest_error (hx e rfl)
  | ok a => exact hf a

variable (page : Bytes) (i : Nat)

theorem validate_page_size_modest : Modest (validate_page_size page) := by
  unfold validate_page_size
  split
  · exact modest_error nofun
  · exact modest_ok _

theorem slot_count_modest : Modest (slot_count page) :=
  (validate_page_size_modest page).bind fun _ => modest_ok _

theorem read_slot_modest : Modest (read_slot page i) := by
  refine (slot_count_modest page).bind fun count => ?_
  split
  · exact modest_error nofun
  · exact modest_ok _

theorem is_live_slot_modest : Modest (is_live_slot page i) :=
  (read_slot_modest page i).bind fun _ => modest_ok _

theorem read_tuple_modest : Modest (read_tuple page i) := by
  refine (read_slot_modest page i).bind fun slot => ?_
  split
  · exact modest_error nofun
  · split
    · exact modest_error nofun
    · exact modest_ok _

theorem delete_tuple_modest : Modest (delete_tuple page i) := by
  refine (read_slot_modest page i).bind fun slot => ?_
  split
  · exact modest_error nofun
  · exact modest_ok _

theorem can_insert_modest (size : Nat) : Modest (can_insert page size) := by
  unfold can_insert
  split
  · exact modest_ok _
  · refine Modest.bind ((validate_page_size_modest page).bind fun _ => ?_) fun _ => modest_ok _
    dsimp only
    split
    · exact modest_error nofun
    · exact modest_ok _

theorem insert_tuple_modest (tuple : Bytes) : Modest (insert_tuple page tuple) := by
  refine (can_insert_modest page _).bind fun can_fit => ?_
  split
  · exact modest_error nofun
  · exact modest_ok _

theorem initialize_page_modest (page_id : Nat) : Modest (initialize_page page page_id) :=
  (validate_page_size_modest page).bind fun _ => modest_ok _

end heap

/-! ## The pool under the engine -/

namespace StorageIO

theorem truncate_fails (size : Nat) : (truncate size).FailsWith NotFull := by
  refine failsWith_of_run fun io e he => ?_
  simp only [run, truncate] at he
  split at he <;> cases he
  intro hfull
  cases hfull

theorem sync_fails : sync.FailsWith NotFull := by
  refine failsWith_of_run fun io e he => ?_
  simp only [run, sync] at he
  split at he <;> cases he
  intro hfull
  cases hfull

end StorageIO

theorem PageStore.allocate_page_fails (store : PageStore) :
    store.allocate_page.FailsWith NotFull :=
  (store.check_open_fails).bind fun _ => (store.page_count_fails).bind fun _ =>
    (store.byte_offset_for_page_fails _).bind fun size =>
      (truncate_fails size).bind fun _ => failsWith_pure _

namespace BufferPool

variable {store : PageStore} {n : Nat} {hs : List FrameHandle} {s : PoolState}

/-- No call of an open pool adds or drops a frame. -/
theorem steady_length : Steady fun s => s.pool.frames.length = n where
  still s s' h hst := by
    rw [← h, ← List.length_map Frame.slot, hst.slots, List.length_map]
  update_frame i g := keeps_modify fun s h => by rw [← h]; exact List.length_set
  record_access p i := on_policy_keeps _ fun _ _ h => h
  record_miss p := on_policy_keeps _ fun _ _ h => h
  record_load p i := on_policy_keeps _ fun _ _ h => h
  record_evict p i := on_policy_keeps _ fun _ _ h => h
  choose_victim := choose_victim_keeps fun _ _ h => h

theorem open_length (store : PageStore) (cfg : BufferPoolConfig) (s : PoolState) :
    (BufferPool.open store cfg).wp
      (fun _ s' => s'.pool.frames.length = cfg.capacity_pages) (fun _ _ => True) s := by
  unfold BufferPool.open
  rw [wp_bind]
  refine wp_mono (wp_trivial _ _) (fun _ s1 _ => ?_) fun _ _ _ => trivial
  rw [wp_bind]
  refine wp_mono (wp_trivial _ _) (fun _ s2 _ => ?_) fun _ _ _ => trivial
  rw [wp_modify]
  exact List.length_replicate

/-- A pool with frames and without pins has a victim. -/
theorem not_allPinned_of_free (h : PinsHold store [] s) (hlen : 0 < s.pool.frames.length) :
    ¬ AllPinned s.pool.frames := by
  have hi := List.getElem?_eq_getElem hlen
  exact not_allPinned hi (Or.inr (by rw [h.safe.pinned 0 _ hi]; rfl))

/-- Where no handle is out, a lookup meets no full pool. -/
theorem lookup_finds {p : Nat} {g : Frame → Frame} {load : Nat → Call Error PoolState Unit}
    (h : PinsHold store [] s) (hlen : 0 < s.pool.frames.length)
    (hg : ∀ f, f.valid = true → (g f).slot = (f.page_id, true, f.pin_count + 1))
    (hload : ∀ i, (load i).FailsWith NotFull) :
    (lookup p g load).wp (fun _ _ => True) (fun e _ => NotFull e) s := by
  refine wp_lookup h.opened ?_ fun _ => ?_
  · rintro i f hi hv rfl
    exact wp_mono (wp_pin h hi hv (hg f hv)) (fun _ _ _ => trivial) fun _ _ hf => hf.elim
  · refine wp_mono (wp_miss_full h hload) (fun _ _ _ => trivial) fun e _ he => ?_
    exact fun hfull => not_allPinned_of_free h hlen (he.mp hfull)

theorem fetch_finds (h : PinsHold store [] s) (hlen : 0 < s.pool.frames.length) (p : Nat) :
    (fetch p).wp (fun _ _ => True) (fun e _ => NotFull e) s :=
  lookup_finds h hlen (fun f hv => by simp [Frame.slot, hv]) fun i => load_page_into_frame_fails i p

theorem fetch_new_finds (h : PinsHold store [] s) (hlen : 0 < s.pool.frames.length) (p : Nat) :
    (fetch_new p).wp (fun _ _ => True) (fun e _ => NotFull e) s :=
  lookup_finds h hlen (fun f hv => by simp [Frame.slot, hv])
    fun i => load_blank_page_into_frame_fails i p

theorem flush_all_fails : flush_all.FailsWith NotFull := by
  have hstore : ∀ (x : PageStore → Call Error StorageIO Unit),
      (∀ store, (x store).FailsWith NotFull) → (on_store x).FailsWith NotFull := by
    intro x hx
    refine failsWith_get.bind fun t => ?_
    split
    · exact failsWith_fail nofun
    · exact (hx _).zoom
  have hopen : check_open.FailsWith NotFull := by
    refine failsWith_get.bind fun t => ?_
    split
    · exact failsWith_fail nofun
    · exact failsWith_pure _
  exact hopen.bind fun _ => failsWith_get.bind fun _ =>
    (failsWith_each write_back_if_dirty_fails _).bind fun _ =>
      hstore _ fun store => (store.check_open_fails).bind fun _ => StorageIO.sync_fails

end BufferPool

/-! ## The handles that a call has out -/

/-- The engine has a page store, its pool has frames, and these handles are out. -/
structure Lent (store : PageStore) (handles : List FrameHandle) (s : HeapState) : Prop where
  page_store : s.engine.page_store = some store
  pins : PinsHold store handles ⟨s.engine.buffer_pool, s.io⟩
  frames : 0 < s.engine.buffer_pool.frames.length

/-- The call starts with the handles `before` out. When it returns a value, the
handles `after` are out. When it fails, it has given all of them back. -/
def Lends {σ α : Type} (store : PageStore) (part : σ → HeapState) (before : List FrameHandle)
    (after : α → List FrameHandle) (x : Call Error σ α) : Prop :=
  ∀ s, Lent store before (part s) →
    x.wp (fun a s' => Lent store (after a) (part s'))
      (fun e s' => Lent store [] (part s') ∧ NotFull e) s

section

variable {σ α β : Type} {store : PageStore} {part : σ → HeapState} {before : List FrameHandle}
  {after : α → List FrameHandle} {last : β → List FrameHandle}

theorem lends_pure {a : α} (ha : before = after a) : Lends store part before after (pure a) := by
  subst ha
  exact fun _ h => (wp_pure a).mpr h

theorem lends_fail {e : Error} (h : NotFull e) : Lends store part [] after (fail e) :=
  fun _ hs => (wp_fail e).mpr ⟨hs, h⟩

theorem lends_get : Lends store part before (fun _ => before) get := fun _ h => wp_get.mpr h

theorem lends_modify {g : σ → σ} (hg : ∀ s, part (g s) = part s) :
    Lends store part before (fun _ => before) (modify g) :=
  fun s h => (wp_modify g).mpr (by rw [hg]; exact h)

theorem Lends.bind {x : Call Error σ α} {f : α → Call Error σ β}
    (hx : Lends store part before after x) (hf : ∀ a, Lends store part (after a) last (f a)) :
    Lends store part before last (x >>= f) :=
  fun s h => (wp_bind x f _).mpr (wp_mono (hx s h) (fun a s' h' => hf a s' h') fun _ _ h' => h')

/-- A call that starts and ends without handles. -/
theorem Lends.after_run {x : Call Error σ α} {s : σ} (hx : Lends store part [] (fun _ => []) x)
    (h : Lent store [] (part s)) :
    Lent store [] (part (x.run s).2) ∧ (x.run s).1 ≠ .error .BufferPoolFull := by
  rcases hr : x.run s with ⟨e | a, s'⟩
  · obtain ⟨h', he⟩ := wp_error (hx s h) hr
    exact ⟨h', fun hfull => he (Except.error.inj hfull)⟩
  · have h' := wp_ok (hx s h) hr
    exact ⟨h', nofun⟩

end

namespace EdbHeapEngine

variable {α : Type} {store : PageStore} {hs : List FrameHandle} {handle : FrameHandle}
  {after : α → List FrameHandle}

/-! ## The calls below the engine -/

theorem check_open_lends : Lends store id [] (fun _ => []) check_open := by
  refine lends_get.bind fun s => ?_
  split
  · exact lends_fail nofun
  · exact lends_pure rfl

theorem on_page_store_lends {x : PageStore → Call Error StorageIO α}
    (hx : ∀ store, (x store).FailsWith NotFull) :
    Lends store id [] (fun _ => []) (on_page_store x) := by
  intro s h
  have hstore : s.engine.page_store = some store := h.page_store
  have hio : ∀ io : StorageIO, Lent store [] { s with io } := fun io =>
    ⟨hstore, ⟨h.pins.opened, h.pins.safe, h.pins.tracked⟩, h.frames⟩
  unfold on_page_store
  rw [wp_bind, wp_get, hstore]
  refine (wp_zoom _ _ _).mpr (wp_mono (hx store s.io) (fun _ io _ => hio io) ?_)
  exact fun e io he => ⟨hio io, he⟩

theorem frame_data_lends : Lends store id hs (fun _ => hs) (frame_data handle) :=
  lends_get.bind fun _ => lends_pure rfl

theorem lent_with_pool {hs' : List FrameHandle} {s : HeapState} {t : PoolState}
    (h : Lent store hs s) (hp : PinsHold store hs' t)
    (hlen : t.pool.frames.length = s.engine.buffer_pool.frames.length) :
    Lent store hs' (with_pool s t) :=
  ⟨h.page_store, hp, Nat.lt_of_lt_of_eq h.frames hlen.symm⟩

theorem set_frame_data_lends (page : Bytes) :
    Lends store id hs (fun _ => hs) (set_frame_data handle page) := by
  intro s h
  have hstill := BufferPool.mutate_still handle (fun _ => page) _ (Still.refl
    ⟨s.engine.buffer_pool, s.io⟩)
  have hlent : ∀ t, Still ⟨s.engine.buffer_pool, s.io⟩ t → Lent store hs (with_pool s t) :=
    fun t ht => lent_with_pool h (h.pins.of_still ht)
      (BufferPool.steady_length.still _ _ rfl ht)
  refine wp_on_pool ?_
  unfold BufferPool.mutate BufferPool.update_frame at hstill ⊢
  rw [wp_modify] at hstill ⊢
  exact hlent _ hstill

/-- A fetch lends one handle, and where none is out it finds a frame. -/
theorem lends_of_lookup {x : Call Error PoolState FrameHandle}
    (hpins : ∀ s, PinsHold store [] s →
      x.wp (fun handle s' => PinsHold store [handle] s') (fun _ s' => PinsHold store [] s') s)
    (hlength : ∀ n, x.Keeps fun s => s.pool.frames.length = n)
    (hfinds : ∀ s, PinsHold store [] s → 0 < s.pool.frames.length →
      x.wp (fun _ _ => True) (fun e _ => NotFull e) s) :
    Lends store id [] (fun handle => [handle]) (on_pool x) := by
  intro s h
  refine wp_on_pool (wp_mono (wp_and (wp_and (hpins _ h.pins) (hlength _ _ rfl))
    (hfinds _ h.pins h.frames)) ?_ ?_)
  · rintro handle t ⟨⟨hp, hlen⟩, -⟩
    exact lent_with_pool h hp hlen
  · rintro e t ⟨⟨hp, hlen⟩, he⟩
    exact ⟨lent_with_pool h hp hlen, he⟩

theorem fetch_lends (p : Nat) :
    Lends store id [] (fun handle => [handle]) (on_pool (BufferPool.fetch p)) :=
  lends_of_lookup (fun _ h => BufferPool.fetch_pins h p)
    (fun _ => BufferPool.steady_length.kept.fetch p trivial trivial)
    fun _ h hlen => BufferPool.fetch_finds h hlen p

theorem fetch_new_lends (p : Nat) :
    Lends store id [] (fun handle => [handle]) (on_pool (BufferPool.fetch_new p)) :=
  lends_of_lookup (fun _ h => BufferPool.fetch_new_pins h p)
    (fun _ => BufferPool.steady_length.kept.fetch_new p trivial trivial)
    fun _ h hlen => BufferPool.fetch_new_finds h hlen p

theorem unpin_lends (dirty : Bool) :
    Lends store id [handle] (fun _ => []) (on_pool (BufferPool.unpin handle dirty)) := by
  intro s h
  refine wp_on_pool (wp_mono (wp_and (BufferPool.unpin_pins (a := []) (b := []) dirty h.pins)
    (BufferPool.steady_length.kept.unpin handle dirty trivial _ rfl)) ?_ ?_)
  · rintro _ t ⟨hp, hlen⟩
    exact lent_with_pool h hp hlen
  · exact fun _ _ hf => hf.1.elim

/-- A helper has refused the page: the handle goes back and the call fails. -/
theorem refuse_lends {e : Error} (he : NotFull e) :
    Lends store id [handle] after (do unpin_clean handle; Call.fail e) :=
  (unpin_lends false).bind fun _ => lends_fail he

/-! ## The calls -/

theorem insert_into_existing_page_lends (p : Nat) (t : Bytes) :
    Lends store id [] (fun _ => []) (insert_into_existing_page p t) := by
  refine (fetch_lends p).bind fun frame => frame_data_lends.bind fun data => ?_
  split
  · rename_i e he
    exact refuse_lends (heap.can_insert_modest _ _ e he)
  · exact (unpin_lends false).bind fun _ => lends_pure rfl
  · split
    · rename_i e he
      exact refuse_lends (heap.insert_tuple_modest _ _ e he)
    · exact (set_frame_data_lends _).bind fun _ => (unpin_lends true).bind fun _ => lends_pure rfl

theorem insert_into_new_page_lends (t : Bytes) :
    Lends store id [] (fun _ => []) (insert_into_new_page t) := by
  refine lends_get.bind fun s => ?_
  dsimp only
  split
  · exact lends_fail nofun
  · refine (on_page_store_lends PageStore.allocate_page_fails).bind fun allocated =>
      (fetch_new_lends allocated).bind fun frame => frame_data_lends.bind fun data => ?_
    split
    · rename_i e he
      exact refuse_lends (heap.initialize_page_modest _ _ e he)
    · refine (set_frame_data_lends _).bind fun _ => ?_
      split
      · rename_i e he
        exact refuse_lends (heap.insert_tuple_modest _ _ e he)
      · exact (set_frame_data_lends _).bind fun _ => (unpin_lends true).bind fun _ =>
          lends_pure rfl

theorem insert_loop_lends (t : Bytes) (pages p : Nat) :
    Lends store id [] (fun _ => []) (insert_loop t pages p) := by
  induction pages generalizing p with
  | zero => exact insert_into_new_page_lends t
  | succ pages ih =>
    refine (insert_into_existing_page_lends p t).bind fun r => ?_
    split
    · exact lends_pure rfl
    · exact ih (p + 1)

theorem insert_tuple_lends (t : Bytes) : Lends store id [] (fun _ => []) (insert_tuple t) :=
  check_open_lends.bind fun _ => (on_page_store_lends PageStore.page_count_fails).bind fun count =>
    insert_loop_lends t count 0

theorem delete_tuple_lends (k : TupleId) : Lends store id [] (fun _ => []) (delete_tuple k) := by
  refine check_open_lends.bind fun _ => (fetch_lends k.page_id).bind fun frame =>
    frame_data_lends.bind fun data => ?_
  split
  · rename_i e he
    exact refuse_lends (heap.delete_tuple_modest _ _ e he)
  · exact (set_frame_data_lends _).bind fun _ => unpin_lends true

theorem update_tuple_lends (k : TupleId) (t : Bytes) :
    Lends store id [] (fun _ => []) (update_tuple k t) :=
  (delete_tuple_lends k).bind fun _ => insert_tuple_lends t

theorem begin_scan_lends : Lends store id [] (fun _ => []) begin_scan :=
  check_open_lends.bind fun _ => lends_pure rfl

theorem on_heap_lends {x : Call Error HeapState α} (hx : Lends store id hs after x) :
    Lends store ScanState.heap hs after (on_heap x) :=
  fun s h => wp_on_heap (hx s.heap h)

theorem set_cursor_lends (p i : Nat) :
    Lends store ScanState.heap hs (fun _ => hs) (set_cursor p i) :=
  lends_modify fun _ => rfl

/-- A slot without a tuple leaves the page with the caller. -/
theorem scan_slot_lends (frame : FrameHandle) (p i : Nat) :
    Lends store ScanState.heap [frame] (fun r => if r.isNone then [frame] else [])
      (scan_slot frame p i) := by
  refine (on_heap_lends frame_data_lends).bind fun data => ?_
  split
  · rename_i e he
    exact (on_heap_lends (unpin_lends false)).bind fun _ =>
      lends_fail (heap.is_live_slot_modest _ _ e he)
  · exact lends_pure rfl
  · split
    · rename_i e he
      exact (on_heap_lends (unpin_lends false)).bind fun _ =>
        lends_fail (heap.read_tuple_modest _ _ e he)
    · exact (set_cursor_lends _ _).bind fun _ => (on_heap_lends (unpin_lends false)).bind fun _ =>
        lends_pure rfl

theorem scan_slots_lends (frame : FrameHandle) (p slots i : Nat) :
    Lends store ScanState.heap [frame] (fun r => if r.isNone then [frame] else [])
      (scan_slots frame p slots i) := by
  induction slots generalizing i with
  | zero => exact lends_pure rfl
  | succ slots ih =>
    refine (scan_slot_lends frame p i).bind fun r => ?_
    cases r with
    | none => exact ih (i + 1)
    | some tuple =>
      exact lends_pure rfl

theorem scan_pages_lends (pages p : Nat) :
    Lends store ScanState.heap [] (fun _ => []) (scan_pages pages p) := by
  induction pages generalizing p with
  | zero => exact lends_pure rfl
  | succ pages ih =>
    refine (on_heap_lends (fetch_lends p)).bind fun frame =>
      (on_heap_lends frame_data_lends).bind fun data => ?_
    split
    · rename_i e he
      exact (on_heap_lends (unpin_lends false)).bind fun _ =>
        lends_fail (heap.slot_count_modest _ e he)
    · refine lends_get.bind fun s => ?_
      dsimp only
      refine (scan_slots_lends frame p _ _).bind fun r => ?_
      cases r with
      | some tuple => exact lends_pure rfl
      | none =>
        exact (on_heap_lends (unpin_lends false)).bind fun _ =>
          (set_cursor_lends _ _).bind fun _ => ih (p + 1)

theorem scan_next_lends : Lends store ScanState.heap [] (fun _ => []) scan_next :=
  (on_heap_lends check_open_lends).bind fun _ =>
    (on_heap_lends (on_page_store_lends PageStore.page_count_fails)).bind fun _ =>
      lends_get.bind fun _ => scan_pages_lends _ _

end EdbHeapEngine

/-! ## Runs -/

/-- A call of a client on an engine. A client passes any cursor to a scan. -/
inductive EngineOp where
  | start (store : PageStore) (cfg : EngineConfig)
  | close
  | insert_tuple (tuple : Bytes)
  | delete_tuple (id : TupleId)
  | update_tuple (id : TupleId) (tuple : Bytes)
  | begin_scan
  | scan_next (handle : ScanHandle)
  | end_scan (handle : ScanHandle)
  deriving DecidableEq, Repr

inductive EngineReply where
  | done
  | id (id : TupleId)
  | handle (handle : ScanHandle)
  | next (tuple : Option Tuple) (handle : ScanHandle)
  deriving DecidableEq, Repr

namespace EngineOp

def step : EngineOp → HeapState → Result EngineReply × HeapState
  | .start store cfg, s =>
    let r := (EdbHeapEngine.open store cfg).run s
    (r.1.map fun _ => .done, r.2)
  | .close, s =>
    let r := EdbHeapEngine.close.run s
    (r.1.map fun _ => .done, r.2)
  | .insert_tuple t, s =>
    let r := (EdbHeapEngine.insert_tuple t).run s
    (r.1.map .id, r.2)
  | .delete_tuple id, s =>
    let r := (EdbHeapEngine.delete_tuple id).run s
    (r.1.map fun _ => .done, r.2)
  | .update_tuple id t, s =>
    let r := (EdbHeapEngine.update_tuple id t).run s
    (r.1.map .id, r.2)
  | .begin_scan, s =>
    let r := EdbHeapEngine.begin_scan.run s
    (r.1.map .handle, r.2)
  | .scan_next handle, s =>
    let r := EdbHeapEngine.scan_next.run ⟨s, handle⟩
    (r.1.map fun tuple => .next tuple r.2.handle, r.2.heap)
  | .end_scan handle, s =>
    let r := EdbHeapEngine.end_scan.run ⟨s, handle⟩
    (r.1.map fun _ => .handle r.2.handle, r.2.heap)

/-- A pool is opened with a frame at least. A capacity of 0 stops the program in
an assertion. -/
def Valid : EngineOp → Prop
  | .start _ cfg => 1 ≤ cfg.buffer_pool_pages
  | _ => True

end EngineOp

/-- No frame has a pin, and an engine that is open has lent nothing. -/
structure AtRest (s : HeapState) : Prop where
  unpinned : ∀ f ∈ s.engine.buffer_pool.frames, f.pin_count = 0
  lent : ∀ store, s.engine.page_store = some store → Lent store [] s

namespace AtRest

variable {s : HeapState} {store : PageStore}

theorem unpinned_of_pins {t : PoolState} (h : PinsHold store [] t) :
    ∀ f ∈ t.pool.frames, f.pin_count = 0 := by
  intro f hf
  obtain ⟨i, hi⟩ := List.mem_iff_getElem?.mp hf
  rw [h.safe.pinned i f hi]
  rfl

theorem unpinned_of_still {t t' : PoolState} (h : ∀ f ∈ t.pool.frames, f.pin_count = 0)
    (hst : Still t t') : ∀ f ∈ t'.pool.frames, f.pin_count = 0 := by
  intro f hf
  obtain ⟨i, hi⟩ := List.mem_iff_getElem?.mp hf
  obtain ⟨g, hg, hslot⟩ := slot_get hst.slots hi
  simp only [Frame.slot, Prod.mk.injEq] at hslot
  rw [← hslot.2.2]
  exact h g (List.mem_of_getElem? hg)

theorem of_lent (h : Lent store [] s) : AtRest s :=
  ⟨unpinned_of_pins h.pins, fun store' he => by
    rw [h.page_store] at he
    cases he
    exact h⟩

/-- A call that a closed engine refuses, and that an open one ends without handles. -/
theorem after {σ α : Type} {p : σ → HeapState} {x : Call Error σ α} {t : σ}
    (h : AtRest (p t))
    (hclosed : (p t).engine.page_store = none → x.run t = (.error .IoError, t))
    (hopen : ∀ store, Lends store p [] (fun _ => []) x) :
    AtRest (p (x.run t).2) ∧ (x.run t).1 ≠ .error .BufferPoolFull := by
  rcases hstore : (p t).engine.page_store with _ | store
  · rw [hclosed hstore]
    exact ⟨h, nofun⟩
  · obtain ⟨h', hfull⟩ := (hopen store).after_run (h.lent store hstore)
    exact ⟨of_lent h', hfull⟩

theorem check_open_closed (h : s.engine.page_store = none) :
    check_open.run s = (.error .IoError, s) := by
  unfold check_open
  rw [run_bind_ok _ (run_get s), if_pos (by simp [h])]
  rfl

theorem on_heap_check_open_closed {t : ScanState} (h : t.heap.engine.page_store = none) :
    (on_heap check_open).run t = (.error .IoError, t) := by
  unfold on_heap
  rw [run_zoom, check_open_closed h]

theorem start (store : PageStore) {cfg : EngineConfig} (hcap : 1 ≤ cfg.buffer_pool_pages)
    (s : HeapState) :
    ∃ s', (EdbHeapEngine.open store cfg).run s = (.ok (), s') ∧ AtRest s' := by
  have hw : (EdbHeapEngine.open store cfg).wp (fun _ s' => AtRest s') (fun _ _ => False) s := by
    unfold EdbHeapEngine.open
    rw [wp_bind, wp_modify, wp_bind, wp_attempt]
    refine wp_on_pool ?_
    apply wp_mono (wp_and (BufferPool.open_pins store
      ⟨cfg.buffer_pool_pages, cfg.buffer_eviction⟩ hcap _) (BufferPool.open_length store _ _))
    · rintro _ t ⟨hp, hlen⟩
      exact (wp_modify _).mpr (of_lent ⟨rfl, hp, hlen ▸ hcap⟩)
    · exact fun _ _ hf => hf.1.elim
  obtain ⟨_, s', hrun, hs'⟩ := exists_ok_of_wp hw
  exact ⟨s', hrun, hs'⟩

/-- A close that fails to write leaves the frames as they were. -/
theorem close (h : AtRest s) :
    AtRest (EdbHeapEngine.close.run s).2 ∧
      (EdbHeapEngine.close.run s).1 ≠ .error .BufferPoolFull := by
  have hw : EdbHeapEngine.close.wp (fun _ s' => AtRest s')
      (fun e s' => AtRest s' ∧ NotFull e) s := by
    unfold EdbHeapEngine.close
    rw [wp_bind, wp_get]
    split
    · exact (wp_pure _).mpr h
    · have hpool : BufferPool.close.wp (fun _ t => ∀ f ∈ t.pool.frames, f.pin_count = 0)
          (fun e t => (∀ f ∈ t.pool.frames, f.pin_count = 0) ∧ NotFull e)
          ⟨s.engine.buffer_pool, s.io⟩ := by
        unfold BufferPool.close
        rw [wp_bind, wp_get]
        dsimp only
        split
        · rw [wp_bind]
          have hflush := wp_and (BufferPool.flush_all_still _
            (Still.refl ⟨s.engine.buffer_pool, s.io⟩)) (BufferPool.flush_all_fails _)
          refine wp_mono hflush (fun _ t _ => ?_) fun e t ht => ⟨?_, ht.2⟩
          · exact (wp_modify _).mpr nofun
          · exact unpinned_of_still h.unpinned ht.1
        · exact (wp_modify _).mpr nofun
      rw [wp_bind, wp_attempt]
      refine wp_on_pool (wp_mono hpool ?_ ?_)
      · intro _ t ht
        rw [wp_bind, wp_modify, wp_ofExcept]
        exact ⟨fun _ _ => ⟨ht, nofun⟩, nofun⟩
      · rintro e t ⟨ht, he⟩
        rw [wp_bind, wp_modify, wp_ofExcept]
        refine ⟨nofun, fun e' he' => ?_⟩
        cases he'
        exact ⟨⟨ht, nofun⟩, he⟩
  rcases hr : EdbHeapEngine.close.run s with ⟨e | a, s'⟩
  · obtain ⟨h', he⟩ := wp_error hw hr
    exact ⟨h', fun hfull => he (Except.error.inj hfull)⟩
  · have h' := wp_ok hw hr
    exact ⟨h', nofun⟩

end AtRest

theorem map_ne_full {α β : Type} {r : Result α} (f : α → β) (h : r ≠ .error .BufferPoolFull) :
    r.map f ≠ .error .BufferPoolFull := by
  cases r with
  | error e => exact fun he => h (by cases he; rfl)
  | ok a => nofun

/-- One call, on an engine that is open or closed. -/
theorem EngineOp.step_at_rest (op : EngineOp) (s : HeapState) (h : AtRest s) (hv : op.Valid) :
    (step op s).1 ≠ .error .BufferPoolFull ∧ AtRest (step op s).2 := by
  have hcall : ∀ {α : Type} {x : Call Error HeapState α} (f : α → EngineReply),
      (s.engine.page_store = none → x.run s = (.error .IoError, s)) →
      (∀ store, Lends store id [] (fun _ => []) x) →
      (x.run s).1.map f ≠ .error .BufferPoolFull ∧ AtRest (x.run s).2 := by
    intro α x f hclosed hopen
    obtain ⟨hrest, hfull⟩ := AtRest.after (p := id) h hclosed hopen
    exact ⟨map_ne_full f hfull, hrest⟩
  have hcheck := AtRest.check_open_closed (s := s)
  cases op with
  | start store cfg =>
    obtain ⟨s', hrun, hs'⟩ := AtRest.start store hv s
    simp only [step, hrun]
    exact ⟨nofun, hs'⟩
  | close => exact ⟨map_ne_full _ h.close.2, h.close.1⟩
  | insert_tuple t =>
    exact hcall _ (fun hno => run_bind_error _ (hcheck hno)) fun _ =>
      insert_tuple_lends t
  | delete_tuple id =>
    exact hcall _ (fun hno => run_bind_error _ (hcheck hno)) fun _ =>
      delete_tuple_lends id
  | update_tuple id t =>
    exact hcall _ (fun hno => run_bind_error _ (run_bind_error _ (hcheck hno))) fun _ =>
      update_tuple_lends id t
  | begin_scan =>
    exact hcall _ (fun hno => run_bind_error _ (hcheck hno)) fun _ =>
      begin_scan_lends
  | scan_next handle =>
    obtain ⟨hrest, hfull⟩ := AtRest.after (p := ScanState.heap) (t := ⟨s, handle⟩) h
      (fun hno => run_bind_error _ (AtRest.on_heap_check_open_closed hno)) fun _ =>
        scan_next_lends
    exact ⟨map_ne_full _ hfull, hrest⟩
  | end_scan handle => exact ⟨nofun, h⟩

/-- In every run of calls on an engine, over any file and with calls of the
backend failing at any moment, no pin is left after a call and no call finds
the pool full, with one frame or more. -/
theorem engine_leaves_no_pin (io : StorageIO) (ops : List EngineOp)
    (hops : ∀ op ∈ ops, op.Valid) :
    let r := Run.exec EngineOp.step ops ⟨{}, io⟩
    (∀ f ∈ r.2.engine.buffer_pool.frames, f.pin_count = 0) ∧
      .error .BufferPoolFull ∉ r.1 := by
  have hstart : AtRest ⟨{}, io⟩ := ⟨nofun, nofun⟩
  have hend := Run.keeps_of_forall AtRest
    (fun op s h hv => (EngineOp.step_at_rest op s h hv).2) ops _ hstart hops
  have hout := Run.outputs_of_forall AtRest (fun r : Result EngineReply => r ≠ .error .BufferPoolFull)
    EngineOp.step_at_rest ops _ hstart hops
  exact ⟨hend.unpinned, fun hmem => hout _ hmem rfl⟩

/-- One frame over a file whose page is no heap page. A scan finds the page
corrupt, a write fails when the frame is wanted, a delete finds no tuple and a
read fails. -/
theorem no_pin_of_one_frame :
    let io : StorageIO :=
      ⟨List.replicate 33 255, { read := [.none, .none, .fail 5], write := [.fail 0] }⟩
    let ops : List EngineOp := [.start (PageStore.open 33) ⟨33, 1, {}⟩, .scan_next ⟨0⟩,
      .insert_tuple [1], .scan_next ⟨0⟩, .delete_tuple ⟨0, 0⟩, .delete_tuple ⟨0, 0⟩,
      .scan_next ⟨65536⟩]
    let r := Run.exec EngineOp.step ops ⟨{}, io⟩
    r.1 = [.ok .done, .error .Corruption, .ok (.id ⟨1, 0⟩), .error .IoError, .ok .done,
        .error .NotFound, .error .IoError] ∧
      (∀ f ∈ r.2.engine.buffer_pool.frames, f.pin_count = 0) ∧ .error .BufferPoolFull ∉ r.1 := by
  refine ⟨by decide +kernel, engine_leaves_no_pin _ _ ?_⟩
  simp [EngineOp.Valid]

end edb
