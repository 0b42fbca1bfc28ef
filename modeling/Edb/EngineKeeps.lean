-- What the calls of the engine keep, whatever pages they meet. A pool without
-- dirty frames that is only read writes nothing, and over a file whose pages
-- are all slotted pages, each page that a call writes is one, so the file is a
-- heap at any moment, also when its engine goes away without a close.
import Edb.Table

namespace edb

open Call StorageIO

/-! ## Reads of a backend that never fails -/

namespace StorageIO

theorem file_size_keeps {io : StorageIO} (hio : io.Healthy) : file_size.Keeps (· = io) := by
  rintro s rfl
  exact wp_of_run_ok (file_size_run hio.readsWell.file_size) rfl

theorem read_keeps {io : StorageIO} (hio : io.Healthy) (offset : Nat) :
    (read offset).Keeps fun s => s.1 = io := by
  rintro ⟨⟨bytes, faults⟩, buf⟩ rfl
  have hfaults : faults = {} := hio
  subst hfaults
  exact wp_of_run_ok rfl rfl

end StorageIO

namespace PageStore

variable {store : PageStore} {io : StorageIO}

theorem check_open_keeps {I : StorageIO → Prop} : store.check_open.Keeps I := by
  unfold check_open
  split
  · exact keeps_pure _
  · exact keeps_fail _

theorem page_count_keeps (hio : io.Healthy) : store.page_count.Keeps (· = io) := by
  refine check_open_keeps.bind fun _ => (file_size_keeps hio).bind fun size => ?_
  split
  · exact keeps_fail _
  · exact keeps_pure _

theorem read_page_keeps (hio : io.Healthy) (p : Nat) :
    (store.read_page p).Keeps fun s => s.1 = io := by
  have hvalid : (store.validate_existing_page p).Keeps (· = io) := by
    refine check_open_keeps.bind fun _ => (page_count_keeps hio).bind fun count => ?_
    split
    · exact keeps_fail _
    · exact keeps_pure _
  refine Keeps.bind (hvalid.zoom (fun _ h => h) fun _ _ _ h => h) fun _ => ?_
  refine (keeps_ofExcept _).bind fun offset => ?_
  refine Keeps.bind ((read_keeps hio offset).zoom (fun _ h => h) fun _ _ _ h => h)
    fun count => ?_
  split
  · exact keeps_fail _
  · exact keeps_pure _

end PageStore

namespace BufferPool

/-! ## Pools without dirty frames -/

/-- The pool is open on `store`, no frame is dirty, and the file is `io`. -/
structure Clean (store : PageStore) (io : StorageIO) (t : PoolState) : Prop where
  opened : t.pool.store = some store
  clean : ∀ f ∈ t.pool.frames, f.dirty = false
  file : t.io = io

variable {store : PageStore} {io : StorageIO}

namespace Clean

theorem with_policy (t : PoolState) (policy : EvictionPolicy) (h : Clean store io t) :
    Clean store io { t with pool.eviction_policy := some policy } :=
  ⟨h.opened, h.clean, h.file⟩

theorem update_frame_keeps {i : Nat} {g : Frame → Frame}
    (hg : ∀ f, f.dirty = false → (g f).dirty = false) :
    (update_frame i g).Keeps (Clean store io) := by
  refine keeps_modify fun t h => ⟨h.opened, fun f hf => ?_, h.file⟩
  rcases mem_update hf with hf | ⟨f0, hf0, -, rfl⟩
  · exact h.clean f hf
  · exact hg f0 (h.clean f0 hf0)

/-- There is nothing to write back. -/
theorem write_back_run {t : PoolState} (h : Clean store io t) (i : Nat) :
    (write_back_if_dirty i).run t = (.ok (), t) := by
  have hclean : (t.pool.frame_at i).dirty = false := by
    unfold frame_at
    rcases hf : t.pool.frames[i]? with _ | f
    · rfl
    · exact h.clean f (List.mem_of_getElem? hf)
  unfold write_back_if_dirty
  rw [run_bind_ok _ (run_get t)]
  simp [hclean]

theorem read_into_frame_keeps (hio : io.Healthy) (i p : Nat) :
    (read_into_frame i p).Keeps (Clean store io) := by
  refine keeps_get_bind fun t h => ?_
  rw [h.opened]
  refine ((PageStore.read_page_keeps hio p).zoom (I := Clean store io) (fun t h => h.file) ?_) t h
  intro t r h hr
  refine ⟨h.opened, fun f hf => ?_, hr⟩
  rcases mem_update (g := fun f0 => { f0 with data := r.2 }) hf with hf | ⟨f0, hf0, -, rfl⟩
  · exact h.clean f hf
  · exact h.clean f0 hf0

theorem kept (hio : io.Healthy) : Kept (Clean store io) fun g => ∀ f,
    f.dirty = false → (g f).dirty = false :=
  .of_policy with_policy (fun _ _ hg => update_frame_keeps hg)
    (fun i _ h => wp_of_run_ok (write_back_run h i) h) (read_into_frame_keeps hio)

theorem fetch_keeps (hio : io.Healthy) (p : Nat) : (fetch p).Keeps (Clean store io) :=
  (kept hio).fetch p (fun _ h => h) fun _ _ => rfl

theorem unpin_keeps (hio : io.Healthy) (handle : FrameHandle) :
    (unpin handle false).Keeps (Clean store io) :=
  (kept hio).unpin handle false fun _ h => h

theorem pending_eq {t : PoolState} (h : Clean store io t) : pending t.pool.frames = 0 := by
  refine List.countP_eq_zero.mpr fun f hf => ?_
  simp [is_pending, h.clean f hf]

/-- A close of the pool only syncs the file. -/
theorem close {t : PoolState} (h : Clean store io t) (hio : io.Healthy)
    (hopen : store.io = true) :
    BufferPool.close.wp (fun _ t' => t'.io = io) (fun _ _ => False) t := by
  have hloop : ∀ xs, (each write_back_if_dirty xs).run t = (.ok (), t) := by
    intro xs
    induction xs with
    | nil => rfl
    | cons i rest ih =>
      unfold each
      rw [run_bind_ok _ (write_back_run h i), ih]
  have hsync : io.faults.sync = [] := by
    unfold StorageIO.Healthy at hio
    rw [hio]
  unfold BufferPool.close
  rw [wp_bind, wp_get, h.opened, if_pos (by rfl), wp_bind]
  unfold flush_all
  rw [wp_bind]
  refine wp_check_open h.opened ?_
  rw [wp_bind, wp_get, wp_bind]
  refine wp_of_run_ok (hloop _) (wp_on_store h.opened ?_)
  unfold PageStore.sync PageStore.check_open
  rw [if_pos hopen, wp_bind, wp_pure, h.file]
  apply wp_mono (sync.spec io)
  · rintro _ io' rfl
    rw [hsync]
    refine (wp_modify _).mpr ?_
    show { io with faults.sync := [] } = io
    rw [← hsync]
  · rintro e io' ⟨-, hne, -⟩
    exact hne hsync

end Clean

/-! ## Pools over pages of one kind -/

/-- Every page of the file and of the frames is one of those that `P` allows. -/
structure Sound (P : Bytes → Prop) (store : PageStore) (t : PoolState) : Prop where
  opened : t.pool.store = some store
  laid : store.Laid t.io
  healthy : t.io.Healthy
  sized : ∀ f ∈ t.pool.frames, f.data.length = store.page_size
  frames : ∀ f ∈ t.pool.frames, P f.data
  pages : ∀ p < store.pages t.io, P (store.page t.io p)

namespace Sound

variable {P : Bytes → Prop}

theorem with_policy (t : PoolState) (policy : EvictionPolicy) (h : Sound P store t) :
    Sound P store { t with pool.eviction_policy := some policy } :=
  ⟨h.opened, h.laid, h.healthy, h.sized, h.frames, h.pages⟩

/-- A frame may take the bytes of a page that is allowed. -/
theorem set_frame {t : PoolState} (h : Sound P store t) {i : Nat} {g : Frame → Frame}
    (hg : ∀ f, t.pool.frames[i]? = some f → (g f).data.length = store.page_size ∧ P (g f).data) :
    Sound P store { t with pool.frames := t.pool.frames.set i (g (t.pool.frame_at i)) } := by
  refine ⟨h.opened, h.laid, h.healthy, fun f hf => ?_, fun f hf => ?_, h.pages⟩
  · rcases mem_update hf with hf | ⟨f0, -, hi, rfl⟩
    · exact h.sized f hf
    · exact (hg f0 hi).1
  · rcases mem_update hf with hf | ⟨f0, -, hi, rfl⟩
    · exact h.frames f hf
    · exact (hg f0 hi).2

theorem update_frame_keeps {i : Nat} {g : Frame → Frame}
    (hg : ∀ f, f.data.length = store.page_size → P f.data →
      (g f).data.length = store.page_size ∧ P (g f).data) :
    (update_frame i g).Keeps (Sound P store) :=
  keeps_modify fun _ h => h.set_frame fun f hf =>
    hg f (h.sized f (List.mem_of_getElem? hf)) (h.frames f (List.mem_of_getElem? hf))

theorem with_page {t : PoolState} (h : Sound P store t) {p : Nat} {d : Bytes}
    (hp : p < store.pages t.io) (hlen : d.length = store.page_size) (hd : P d) :
    Sound P store { t with io := store.with_page (PageStore.written t.io) p d } := by
  have hsame : PageStore.written t.io = t.io := by
    obtain ⟨pool, ⟨bytes, faults⟩⟩ := t
    have hh : faults = {} := h.healthy
    subst hh
    rfl
  rw [hsame]
  have hlength : (store.with_page t.io p d).bytes.length = t.io.bytes.length :=
    h.laid.length_with_page hp (by omega)
  refine ⟨h.opened, h.laid.of_length hlength, h.healthy, h.sized, h.frames, fun q hq => ?_⟩
  rw [PageStore.pages_of_length hlength] at hq
  by_cases hqp : q = p
  · subst hqp
    show P (store.page (store.with_page t.io q d) q)
    rw [h.laid.page_with_page_self hp hlen]
    exact hd
  · show P (store.page (store.with_page t.io p d) q)
    rw [h.laid.page_with_page_ne hp (by omega) hqp]
    exact h.pages q hq

theorem with_new_page {t : PoolState} (h : Sound P store t)
    (hz : P (List.replicate store.page_size 0))
    (hroom : (store.pages t.io + 1) * store.page_size < 2 ^ 64) :
    Sound P store { t with io := store.with_new_page t.io } := by
  refine ⟨h.opened, h.laid.with_new_page hroom, h.healthy, h.sized, h.frames, fun p hp => ?_⟩
  rw [h.laid.pages_with_new_page] at hp
  rcases Nat.lt_succ_iff_lt_or_eq.mp hp with hlt | rfl
  · show P (store.page (store.with_new_page t.io) p)
    rw [h.laid.page_with_new_page hlt]
    exact h.pages p hlt
  · show P (store.page (store.with_new_page t.io) _)
    rw [h.laid.page_with_new_page_last]
    exact hz

theorem write_back_if_dirty_keeps (i : Nat) : (write_back_if_dirty i).Keeps (Sound P store) := by
  refine keeps_get_bind fun t h => ?_
  dsimp only
  split
  · exact (wp_pure _).mpr h
  · rename_i hskip
    rcases hf : t.pool.frames[i]? with _ | f
    · simp [frame_at, hf] at hskip
    · have hmem := List.mem_of_getElem? hf
      rw [frame_at_eq hf, wp_bind]
      refine wp_on_store h.opened ?_
      apply wp_mono (PageStore.write_page.spec h.laid h.healthy.readsWell.file_size
        (h.sized f hmem) f.page_id)
      · rintro _ io' ⟨hp, -, rfl⟩
        exact update_frame_keeps (by intro _ h1 h2; exact ⟨h1, h2⟩) _
          (h.with_page hp (h.sized f hmem) (h.frames f hmem))
      · rintro e io' (⟨-, -, rfl⟩ | ⟨-, -, hlets, -⟩)
        · exact h
        · have hok := h.healthy.lets store.page_size 0
          rw [← List.head?_eq_getElem?, hlets] at hok
          cases hok

theorem read_into_frame_keeps (i p : Nat) : (read_into_frame i p).Keeps (Sound P store) := by
  refine keeps_get_bind fun t h => ?_
  rw [h.opened]
  refine (wp_zoom _ _ _).mpr ?_
  rcases hf : t.pool.frames[i]? with _ | f
  · -- no frame is read into, and the file stays as it is
    have hset : ∀ f', t.pool.frames.set i f' = t.pool.frames := fun f' =>
      List.set_eq_of_length_le (List.getElem?_eq_none_iff.mp hf)
    have hkeep : ∀ r : StorageIO × Bytes, r.1 = t.io → Sound P store
        { pool.store := t.pool.store
          pool.config := t.pool.config
          pool.page_bytes := t.pool.page_bytes
          pool.frames := t.pool.frames.set i { t.pool.frame_at i with data := r.2 }
          pool.eviction_policy := t.pool.eviction_policy
          io := r.1 } := by
      rintro r hr
      rw [hset, hr]
      exact h
    exact wp_mono (PageStore.read_page_keeps h.healthy p _ rfl) (fun _ r hr => hkeep r hr)
      fun _ r hr => hkeep r hr
  · have hlen := h.sized f (List.mem_of_getElem? hf)
    have hrun := PageStore.read_page_run h.laid h.healthy.readsWell hlen p
    rw [frame_at_eq hf]
    by_cases hp : p < store.pages t.io
    · rw [if_pos hp] at hrun
      refine wp_of_run_ok hrun ?_
      have hnew := h.set_frame (i := i) (g := fun f => { f with data := store.page t.io p })
        fun _ _ => ⟨h.laid.length_page hp, h.pages p hp⟩
      rw [frame_at_eq hf] at hnew
      exact hnew
    · rw [if_neg hp] at hrun
      refine wp_of_run_error hrun ?_
      have hnew := h.set_frame (i := i) (g := fun f => f) fun f hf =>
        ⟨h.sized f (List.mem_of_getElem? hf), h.frames f (List.mem_of_getElem? hf)⟩
      rw [frame_at_eq hf] at hnew
      exact hnew

theorem kept : Kept (Sound P store) fun g => ∀ f, f.data.length = store.page_size → P f.data →
    (g f).data.length = store.page_size ∧ P (g f).data :=
  .of_policy with_policy (fun _ _ hg => update_frame_keeps hg) write_back_if_dirty_keeps
    read_into_frame_keeps

theorem fetch_keeps (p : Nat) : (fetch p).Keeps (Sound P store) :=
  kept.fetch p (fun _ h1 h2 => ⟨h1, h2⟩) fun _ h1 h2 => ⟨h1, h2⟩

theorem fetch_new_keeps (hz : P (List.replicate store.page_size 0)) (p : Nat) :
    (fetch_new p).Keeps (Sound P store) := by
  have hblank : ∀ d : Bytes, d.length = store.page_size →
      (List.replicate d.length (0 : UInt8)).length = store.page_size ∧
        P (List.replicate d.length 0) := by
    intro d hd
    rw [hd]
    exact ⟨List.length_replicate, hz⟩
  exact kept.fetch_new p (fun f h _ => hblank f.data h) fun f h _ => hblank f.data h

theorem unpin_keeps (handle : FrameHandle) (dirty : Bool) :
    (unpin handle dirty).Keeps (Sound P store) :=
  kept.unpin handle dirty fun _ h1 h2 => ⟨h1, h2⟩

/-- The bytes behind a handle are a page, unless the handle is not one of the
pool. -/
theorem data_of_handle {t : PoolState} (h : Sound P store t) (handle : FrameHandle) :
    (t.pool.data handle).length = store.page_size ∧ P (t.pool.data handle) ∨
      t.pool.data handle = [] := by
  unfold data
  rcases hf : t.pool.frames[handle.index]? with _ | f
  · right
    simp [frame_at, hf]
  · left
    rw [frame_at_eq hf]
    exact ⟨h.sized f (List.mem_of_getElem? hf), h.frames f (List.mem_of_getElem? hf)⟩

/-- The file of a pool that goes away without a close. -/
theorem stored {t : PoolState} (h : Sound P store t) :
    ∃ m, Stored store m t.io ∧ ∀ d ∈ m, P d := by
  refine ⟨(List.range (store.pages t.io)).map (store.page t.io),
    ⟨h.laid, h.healthy.readsWell, by simp, fun p d hd => ?_⟩, fun d hd => ?_⟩
  · rw [List.getElem?_map] at hd
    by_cases hp : p < store.pages t.io
    · rw [List.getElem?_range hp] at hd
      exact Option.some.inj hd
    · rw [List.getElem?_eq_none (by simpa using hp)] at hd
      cases hd
  · obtain ⟨p, hp, rfl⟩ := List.mem_map.mp hd
    exact h.pages p (List.mem_range.mp hp)

end Sound

/-- The frames of a pool that was just opened are pages of zeros. -/
theorem open_frames (store : PageStore) (cfg : BufferPoolConfig) (s : PoolState) :
    (BufferPool.open store cfg).wp
      (fun _ t => t.pool.store = some store ∧ t.io = s.io ∧ ∀ f ∈ t.pool.frames,
        f = { data := List.replicate store.page_size 0 }) (fun _ _ => True) s := by
  unfold BufferPool.open
  rw [wp_bind, wp_modify, wp_bind]
  have hpolicy := on_policy_keeps (I := fun t => t.pool.store = some store ∧ t.io = s.io)
    (EvictionPolicy.reset cfg.capacity_pages) (fun _ _ h => h)
  refine wp_mono (hpolicy _ ?_) ?_ (fun _ _ _ => trivial)
  · exact ⟨rfl, rfl⟩
  rintro _ t ⟨hstore, hio⟩
  exact (wp_modify _).mpr ⟨hstore, hio, fun f hf => List.eq_of_mem_replicate hf⟩

end BufferPool

/-! ## Slotted pages -/

namespace heap

/-- The bytes are a slotted page of `size` bytes. -/
def Page (size : Nat) (d : Bytes) : Prop := d.length = size ∧ ∃ slots, Good d slots

variable {size : Nat} {d d' t : Bytes}

theorem page_zeros (h1 : PAGE_HEADER_SIZE ≤ size) (h2 : size ≤ MAX_U16) :
    Page size (List.replicate size 0) :=
  ⟨by simp, [], (good_zeros h1 h2).1⟩

theorem insert_tuple_nil (t : Bytes) {r : Nat × Bytes} : insert_tuple [] t ≠ .ok r := by
  have hspace : free_space [] = .error .InvalidArgument := rfl
  unfold insert_tuple can_insert
  rw [hspace]
  split
  · exact nofun
  · exact nofun

theorem Page.insert_tuple {slot : Nat} (h : Page size d) (ht : t ≠ [])
    (hrun : heap.insert_tuple d t = .ok (slot, d')) : Page size d' := by
  obtain ⟨hlen, slots, hgood⟩ := h
  by_cases hroom : t.length + SLOT_SIZE ≤ free d
  · obtain ⟨d1, hins, hlen1, hgood1, -⟩ := hgood.insert_tuple_eq ht hroom
    rw [hins] at hrun
    cases hrun
    exact ⟨hlen1.trans hlen, _, hgood1⟩
  · have hno := hgood.can_insert_eq t.length
    rw [decide_eq_false hroom] at hno
    unfold heap.insert_tuple at hrun
    rw [hno] at hrun
    cases hrun

theorem initialize_page_nil (p : Nat) {r : Bytes} : initialize_page [] p ≠ .ok r := nofun

theorem Page.initialize_page {p : Nat} (h1 : PAGE_HEADER_SIZE ≤ size) (h2 : size ≤ MAX_U16)
    (hd : d.length = size) (hrun : heap.initialize_page d p = .ok d') : Page size d' := by
  obtain ⟨d1, hinit, hlen, hgood, -⟩ := initialize_page.spec d p (hd ▸ h1) (hd ▸ h2)
  rw [hinit] at hrun
  cases hrun
  exact ⟨hlen.trans hd, _, hgood⟩

end heap

/-! ## The engine -/

/-- The engine is open on `store`, and its pool over its file meets `I`. -/
structure OnPool (store : PageStore) (I : PoolState → Prop) (s : HeapState) : Prop where
  opened : s.engine.opened = true
  page_store : s.engine.page_store = some store
  pool : I { pool := s.engine.buffer_pool, io := s.io }

namespace EdbHeapEngine

variable {α : Type} {store : PageStore} {I : PoolState → Prop}

theorem on_pool_keeps {x : Call Error PoolState α} (hx : x.Keeps I) :
    (on_pool x).Keeps (OnPool store I) :=
  hx.zoom (fun _ h => h.pool) fun _ _ h ht => ⟨h.opened, h.page_store, ht⟩

theorem check_open_keeps {J : HeapState → Prop} : check_open.Keeps J := by
  refine keeps_get.bind fun s => ?_
  split
  · exact keeps_fail _
  · exact keeps_pure _

theorem frame_data_keeps {J : HeapState → Prop} (handle : FrameHandle) :
    (frame_data handle).Keeps J :=
  keeps_get.bind fun _ => keeps_pure _

/-- What a scan needs of an invariant of the pool. -/
structure Scannable (I : PoolState → Prop) : Prop where
  healthy : ∀ t, I t → t.io.Healthy
  fetch : ∀ p, (BufferPool.fetch p).Keeps I
  unpin : ∀ handle, (BufferPool.unpin handle false).Keeps I

theorem scannable_clean {io : StorageIO} (hio : io.Healthy) :
    Scannable (BufferPool.Clean store io) :=
  ⟨fun _ h => h.file ▸ hio, BufferPool.Clean.fetch_keeps hio,
    BufferPool.Clean.unpin_keeps hio⟩

theorem scannable_sound {P : Bytes → Prop} :
    Scannable (BufferPool.Sound P store) :=
  ⟨fun _ h => h.healthy, BufferPool.Sound.fetch_keeps, fun h => BufferPool.Sound.unpin_keeps h false⟩

theorem page_count_keeps (hI : Scannable I) :
    (on_page_store PageStore.page_count).Keeps (OnPool store I) := by
  refine keeps_get_bind fun s h => ?_
  rw [h.page_store]
  refine (wp_zoom _ _ _).mpr ?_
  have hsame : ∀ io, io = s.io → OnPool store I { s with io } := by
    rintro io rfl
    exact h
  exact wp_mono (PageStore.page_count_keeps (hI.healthy _ h.pool) s.io rfl)
    (fun _ io hio => hsame io hio) fun _ io hio => hsame io hio

/-! ### Scans -/

theorem on_heap_keeps {x : Call Error HeapState α} (hx : x.Keeps (OnPool store I)) :
    (on_heap x).Keeps fun s => OnPool store I s.heap :=
  hx.zoom (fun _ h => h) fun _ _ _ ht => ht

theorem set_cursor_keeps (p i : Nat) : (set_cursor p i).Keeps fun s => OnPool store I s.heap :=
  keeps_modify fun _ h => h

theorem scan_slot_keeps (hI : Scannable I) (frame : FrameHandle) (p i : Nat) :
    (scan_slot frame p i).Keeps fun s => OnPool store I s.heap := by
  have hunpin : (on_heap (unpin_clean frame)).Keeps fun s => OnPool store I s.heap :=
    on_heap_keeps (on_pool_keeps (hI.unpin frame))
  refine (on_heap_keeps (frame_data_keeps frame)).bind fun data => ?_
  split
  · exact hunpin.bind fun _ => keeps_fail _
  · exact keeps_pure _
  · split
    · exact hunpin.bind fun _ => keeps_fail _
    · exact (set_cursor_keeps _ _).bind fun _ => hunpin.bind fun _ => keeps_pure _

theorem scan_slots_keeps (hI : Scannable I) (frame : FrameHandle) (p slots i : Nat) :
    (scan_slots frame p slots i).Keeps fun s => OnPool store I s.heap := by
  induction slots generalizing i with
  | zero => exact keeps_pure _
  | succ slots ih =>
    refine (scan_slot_keeps hI frame p i).bind fun r => ?_
    cases r with
    | some tuple => exact keeps_pure _
    | none => exact ih (i + 1)

theorem scan_pages_keeps (hI : Scannable I) (pages p : Nat) :
    (scan_pages pages p).Keeps fun s => OnPool store I s.heap := by
  induction pages generalizing p with
  | zero => exact keeps_pure _
  | succ pages ih =>
    refine (on_heap_keeps (on_pool_keeps (hI.fetch p))).bind fun frame =>
      (on_heap_keeps (frame_data_keeps frame)).bind fun data => ?_
    have hunpin : (on_heap (unpin_clean frame)).Keeps fun s => OnPool store I s.heap :=
      on_heap_keeps (on_pool_keeps (hI.unpin frame))
    split
    · exact hunpin.bind fun _ => keeps_fail _
    · refine keeps_get.bind fun s => (scan_slots_keeps hI frame p _ _).bind fun r => ?_
      cases r with
      | some tuple => exact keeps_pure _
      | none => exact hunpin.bind fun _ => (set_cursor_keeps _ _).bind fun _ => ih (p + 1)

theorem scan_next_keeps (hI : Scannable I) : scan_next.Keeps fun s => OnPool store I s.heap :=
  (on_heap_keeps check_open_keeps).bind fun _ => (on_heap_keeps (page_count_keeps hI)).bind
    fun _ => keeps_get.bind fun _ => scan_pages_keeps hI _ _

/-! ### Inserts -/

/-- Each page is a slotted page. -/
abbrev Slots (store : PageStore) : PoolState → Prop :=
  BufferPool.Sound (heap.Page store.page_size) store

section

variable {t : Bytes}

theorem unpin_keeps (handle : FrameHandle) (dirty : Bool) :
    (on_pool (BufferPool.unpin handle dirty)).Keeps (OnPool store (Slots store)) :=
  on_pool_keeps (BufferPool.Sound.unpin_keeps handle dirty)

theorem set_frame_data_keeps {d : Bytes} (hd : heap.Page store.page_size d)
    (handle : FrameHandle) : (set_frame_data handle d).Keeps (OnPool store (Slots store)) :=
  on_pool_keeps (BufferPool.Sound.update_frame_keeps fun _ _ _ => ⟨hd.1, hd⟩)

/-- What follows a look at a frame may use that its bytes are a slotted page. -/
theorem frame_data_bind_keeps {handle : FrameHandle} {f : Bytes → Call Error HeapState α}
    (hf : ∀ d, heap.Page store.page_size d ∨ d = [] → (f d).Keeps (OnPool store (Slots store))) :
    (frame_data handle >>= f).Keeps (OnPool store (Slots store)) := by
  intro s h
  unfold frame_data
  rw [wp_bind, wp_bind, wp_get, wp_pure]
  refine hf _ ?_ s h
  exact (h.pool.data_of_handle handle).imp_left fun hd => hd.2

theorem insert_into_existing_page_keeps (ht : t ≠ []) (p : Nat) :
    (insert_into_existing_page p t).Keeps (OnPool store (Slots store)) := by
  refine (on_pool_keeps (BufferPool.Sound.fetch_keeps p)).bind fun frame =>
    frame_data_bind_keeps fun d hd => ?_
  split
  · exact (unpin_keeps _ _).bind fun _ => keeps_fail _
  · exact (unpin_keeps _ _).bind fun _ => keeps_pure _
  · split
    · exact (unpin_keeps _ _).bind fun _ => keeps_fail _
    · rename_i slot page hins
      have hpage : heap.Page store.page_size page := by
        rcases hd with hd | rfl
        · exact hd.insert_tuple ht hins
        · exact absurd hins (heap.insert_tuple_nil t)
      exact (set_frame_data_keeps hpage frame).bind fun _ =>
        (unpin_keeps _ _).bind fun _ => keeps_pure _

theorem allocate_page_keeps (h1 : heap.PAGE_HEADER_SIZE ≤ store.page_size)
    (h2 : store.page_size ≤ heap.MAX_U16) :
    (on_page_store PageStore.allocate_page).Keeps (OnPool store (Slots store)) := by
  refine keeps_get_bind fun s h => ?_
  rw [h.page_store]
  refine (wp_zoom _ _ _).mpr ?_
  have hsound := h.pool
  have hwrap : store.pages s.io + 1 < 2 ^ 64 := by
    have hlen := hsound.laid.length_eq
    have hfits := hsound.laid.fits
    have hhead : 28 ≤ store.page_size := h1
    have hmul := Nat.mul_le_mul_left (store.pages s.io) hhead
    dsimp only at hlen hfits
    omega
  have hrun := PageStore.allocate_page_run hsound.laid hsound.healthy.readsWell hwrap
  by_cases hroom : (store.pages s.io + 1) * store.page_size < 2 ^ 64
  · rw [if_pos hroom] at hrun
    exact wp_of_run_ok hrun
      ⟨h.opened, h.page_store, hsound.with_new_page (heap.page_zeros h1 h2) hroom⟩
  · rw [if_neg hroom] at hrun
    exact wp_of_run_error hrun h

theorem insert_into_new_page_keeps (h1 : heap.PAGE_HEADER_SIZE ≤ store.page_size)
    (h2 : store.page_size ≤ heap.MAX_U16) (ht : t ≠ []) :
    (insert_into_new_page t).Keeps (OnPool store (Slots store)) := by
  refine keeps_get.bind fun s => ?_
  dsimp only
  split
  · exact keeps_fail _
  refine (allocate_page_keeps h1 h2).bind fun allocated =>
    (on_pool_keeps (BufferPool.Sound.fetch_new_keeps (heap.page_zeros h1 h2) allocated)).bind
      fun frame => frame_data_bind_keeps fun d hd => ?_
  split
  · exact (unpin_keeps _ _).bind fun _ => keeps_fail _
  · rename_i page hinit
    have hpage : heap.Page store.page_size page := by
      rcases hd with hd | rfl
      · exact heap.Page.initialize_page h1 h2 hd.1 hinit
      · exact absurd hinit (heap.initialize_page_nil allocated)
    refine (set_frame_data_keeps hpage frame).bind fun _ => ?_
    split
    · exact (unpin_keeps _ _).bind fun _ => keeps_fail _
    · rename_i hins
      exact (set_frame_data_keeps (hpage.insert_tuple ht hins) frame).bind fun _ =>
        (unpin_keeps _ _).bind fun _ => keeps_pure _

theorem insert_tuple_keeps (h1 : heap.PAGE_HEADER_SIZE ≤ store.page_size)
    (h2 : store.page_size ≤ heap.MAX_U16) (ht : t ≠ []) :
    (insert_tuple t).Keeps (OnPool store (Slots store)) := by
  have hloop : ∀ pages p, (insert_loop t pages p).Keeps (OnPool store (Slots store)) := by
    intro pages
    induction pages with
    | zero => exact fun p => insert_into_new_page_keeps h1 h2 ht
    | succ pages ih =>
      intro p
      refine (insert_into_existing_page_keeps ht p).bind fun r => ?_
      cases r with
      | some id => exact keeps_pure _
      | none => exact ih (p + 1)
  exact check_open_keeps.bind fun _ => (page_count_keeps scannable_sound).bind fun count =>
    hloop count 0

end

/-! ### Opening and closing -/

/-- An engine that was just opened has nothing to write. -/
theorem open_clean (store : PageStore) (cfg : EngineConfig) (s : HeapState) :
    (EdbHeapEngine.open store cfg).wp
      (fun _ s' => OnPool store (BufferPool.Clean store s.io) s' ∧
        ∀ f ∈ s'.engine.buffer_pool.frames, f.data = List.replicate store.page_size 0)
      (fun _ _ => True) s := by
  unfold EdbHeapEngine.open
  rw [wp_bind, wp_modify, wp_bind, wp_attempt]
  refine wp_on_pool ?_
  apply wp_mono (BufferPool.open_frames _ _ _)
  · rintro _ t ⟨hstore, hio, hframes⟩
    refine (wp_modify _).mpr ⟨⟨rfl, rfl, hstore, fun f hf => ?_, hio⟩, fun f hf => ?_⟩
    · rw [hframes f hf]
    · rw [hframes f hf]
  · intro e t _
    rw [wp_bind, wp_modify]
    exact (wp_fail _).mpr trivial

/-- A clean engine closes without a write. -/
theorem close_clean {io : StorageIO} {s : HeapState}
    (h : OnPool store (BufferPool.Clean store io) s) (hio : io.Healthy) (hopen : store.io = true) :
    close.wp (fun _ s' => s'.io = io) (fun _ _ => False) s := by
  unfold close
  rw [wp_bind, wp_get, h.opened]
  simp only [Bool.not_true, Bool.false_eq_true, if_false]
  rw [wp_bind, wp_attempt]
  refine wp_on_pool ?_
  apply wp_mono (h.pool.close hio hopen) _ (fun _ _ hf => hf.elim)
  intro _ t ht
  rw [wp_bind, wp_modify, wp_ofExcept]
  exact ⟨fun _ _ => ht, fun e he => (nomatch he)⟩

end EdbHeapEngine

/-! ## Tables -/

namespace Table

open EdbHeapEngine

variable {store : PageStore} {I : PoolState → Prop}

theorem scan_loop_keeps (hI : Scannable I) (codec : RowCodec) (calls : Nat) :
    (scan_loop codec calls).Keeps fun s => OnPool store I s.heap := by
  induction calls with
  | zero => exact keeps_fail _
  | succ calls ih =>
    refine (scan_next_keeps hI).bind fun r => ?_
    cases r with
    | none => exact keeps_pure _
    | some tuple => exact (keeps_ofExcept _).bind fun _ => ih.bind fun _ => keeps_pure _

theorem scan_rows_keeps (hI : Scannable I) (codec : RowCodec) :
    (scan_rows codec).Keeps (OnPool store I) := by
  refine keeps_get.bind fun s => (check_open_keeps.bind fun _ => keeps_pure _).bind fun handle => ?_
  refine Keeps.zoom (J := fun s => OnPool store I s.heap) ?_ (fun _ h => h) fun _ _ _ ht => ht
  exact (scan_loop_keeps hI codec _).bind fun rows =>
    (set_cursor_keeps _ _).bind fun _ => keeps_pure _

theorem scan_keeps (hI : Scannable I) (codec : RowCodec) :
    (scan codec).Keeps (OnPool store I) :=
  (scan_rows_keeps hI codec).bind fun _ => keeps_pure _

theorem insert_keeps (h1 : heap.PAGE_HEADER_SIZE ≤ store.page_size)
    (h2 : store.page_size ≤ heap.MAX_U16) (codec : RowCodec) (values : List Value) :
    (insert codec values).Keeps (OnPool store (Slots store)) := by
  intro s h
  unfold insert
  rw [wp_bind, wp_ofExcept]
  exact ⟨fun tuple henc => insert_tuple_keeps h1 h2 (length_encode_pos henc) s h, fun _ _ => h⟩

end Table

end edb
