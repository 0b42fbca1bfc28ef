-- Where an insert goes and when it fails. With pages of 28 to 65535 bytes the
-- first page with room takes the tuple, or else one new page, and a tuple that
-- is too large for a page changes nothing. Outside of those sizes the file
-- gets its new page before page.cpp looks at the size, so an insert fails and
-- leaves a page of zeros behind, however small the tuple.
import Edb.ScanRuns

namespace edb

open Call EdbHeapEngine

/-! ## What an insert should do -/

namespace EdbHeapEngine

/-- Page `p` has free bytes for a tuple of `k` bytes and its slot. -/
def HasRoom (store : PageStore) (s : HeapState) (k p : Nat) : Prop :=
  ∃ space, heap.free_space (BufferPool.contents store ⟨s.engine.buffer_pool, s.io⟩ p) = .ok space ∧
    k + heap.SLOT_SIZE ≤ space

/-- The tuple went to the first page with room, or to one new page when no page
has room, and the other tuples are as they were. -/
structure Inserted (store : PageStore) (s s' : HeapState) (t : Bytes) (id : TupleId) : Prop where
  page : (id.page_id < store.pages s.io ∧ HasRoom store s t.length id.page_id ∧
      store.pages s'.io = store.pages s.io) ∨
    (id.page_id = store.pages s.io ∧ store.pages s'.io = store.pages s.io + 1)
  first : ∀ q < id.page_id, ¬ HasRoom store s t.length q
  fresh : tuple_at store s id = none
  tuples : ∀ j, tuple_at store s' j = if j = id then some t else tuple_at store s j

/-- The file has as many pages as before, and the tuples are those of before. -/
structure Unchanged (store : PageStore) (s s' : HeapState) : Prop where
  pages : store.pages s'.io = store.pages s.io
  tuples : ∀ j, tuple_at store s' j = tuple_at store s j

/-- An insert succeeds exactly when the tuple fits an empty page, and a failure
changes nothing. -/
def InsertsWell (store : PageStore) (s : HeapState) (t : Bytes) : Prop :=
  let r := (insert_tuple t).run s
  ((∃ id, r.1 = .ok id) ↔ t.length + 32 ≤ store.page_size) ∧
    (∀ id, r.1 = .ok id → Inserted store s r.2 t id) ∧
    (∀ e, r.1 = .error e → Unchanged store s r.2)

/-! ## Heap pages -/

variable {store : PageStore} {n : Nat} {m : List Bytes} {h : Heap} {s : HeapState} {t : Bytes}

theorem has_room_iff (hh : HoldsHeap store n m h s) {p : Nat} {d : Bytes} (hd : m[p]? = some d)
    (k : Nat) : HasRoom store s k p ↔ k + heap.SLOT_SIZE ≤ heap.free d := by
  obtain ⟨slots, -, hgood⟩ := hh.slotted.slots_of hd
  unfold HasRoom
  rw [contents_of_holds hh.ready.pool hd, hgood.free_space_eq]
  simp

theorem pages_eq {s' : HeapState} {m' : List Bytes} {loans : List Loan}
    (hr : Ready store n m' loans s') : store.pages s'.io = m'.length :=
  hr.pool.frames.count.symm

/-- A tuple with room on a page is no larger than a page. -/
theorem fits_of_room (hh : HoldsHeap store n m h s) {p k : Nat} {d : Bytes} (hd : m[p]? = some d)
    (hroom : k + heap.SLOT_SIZE ≤ heap.free d) : k + 32 ≤ store.page_size := by
  obtain ⟨slots, -, hgood⟩ := hh.slotted.slots_of hd
  obtain ⟨-, hgap, hend⟩ := hgood.room hroom
  rw [hh.ready.pool.length_of_page hd] at hend
  rw [heap.slot_offset_eq] at hgap
  omega

theorem inserted_of_placed {s' : HeapState} {m' : List Bytes} {h' : Heap} {id : TupleId}
    (hh : HoldsHeap store n m h s) (hp : Placed store.page_size t m h id m' h')
    (hh' : HoldsHeap store n m' h' s') :
    t.length + 32 ≤ store.page_size ∧ Inserted store s s' t id := by
  have hfresh : tuple_at store s id = none := by
    rw [tuple_at_eq hh]
    rcases hg : h.get id with _ | x
    · rfl
    · exact absurd (Heap.issued_of_get hg) (Heap.not_issued_of_placed hh.slotted hp)
  have htuples : ∀ j, tuple_at store s' j = if j = id then some t else tuple_at store s j := by
    intro j
    rw [tuple_at_eq hh', tuple_at_eq hh]
    exact Heap.get_of_placed hh.slotted hp j
  cases hp with
  | @existing p d d' slots hd hslots hroom hfirst hfree =>
    refine ⟨fits_of_room hh hd hroom, Or.inl ⟨?_, (has_room_iff hh hd _).mpr hroom, ?_⟩, ?_,
      hfresh, htuples⟩
    · rw [pages_eq hh.ready]
      exact (List.getElem?_eq_some_iff.mp hd).1
    · rw [pages_eq hh.ready, pages_eq hh'.ready, List.length_set]
    · intro q hq hroomq
      have hqm : q < m.length := hq.trans (List.getElem?_eq_some_iff.mp hd).1
      have hle := (has_room_iff hh (List.getElem?_eq_getElem hqm) _).mp hroomq
      exact absurd (hfirst q hq _ (List.getElem?_eq_getElem hqm)) (by omega)
  | @new d' hfull hfits hfree =>
    refine ⟨hfits, Or.inr ⟨(pages_eq hh.ready).symm, ?_⟩, ?_, hfresh, htuples⟩
    · rw [pages_eq hh.ready, pages_eq hh'.ready, List.length_append]
      rfl
    · intro q hq hroomq
      have hle := (has_room_iff hh (List.getElem?_eq_getElem hq) _).mp hroomq
      exact absurd (hfull _ (List.getElem_mem hq)) (by omega)

/-- With pages that page.cpp takes, while the file can grow. -/
theorem inserts_well (hh : HoldsHeap store n m h s) (hio : s.io.Healthy) (ht : t ≠ [])
    (hgrow : (store.pages s.io + 1) * store.page_size < 2 ^ 64) : InsertsWell store s t := by
  have hw := insert_tuple.spec hh ht
  unfold InsertsWell
  rcases hr : (insert_tuple t).run s with ⟨e | id, s'⟩
  · obtain ⟨-, hwhy⟩ := wp_error hw hr
    have hsize : store.page_size < t.length + 32 ∧ HoldsHeap store n m h s' := by
      rcases hwhy with ⟨-, hsize, h1⟩ | ⟨-, hover, -⟩ | ⟨-, hne, -⟩
      · exact ⟨hsize, h1⟩
      · rw [pages_eq hh.ready] at hgrow
        omega
      · exact absurd hio.write_eq hne
    refine ⟨iff_of_false nofun (by omega), nofun, fun _ _ => ⟨?_, fun j => ?_⟩⟩
    · rw [pages_eq hh.ready, pages_eq hsize.2.ready]
    · rw [tuple_at_eq hh, tuple_at_eq hsize.2]
  · obtain ⟨-, m', h', hp, hh'⟩ := wp_ok hw hr
    obtain ⟨hfits, hins⟩ := inserted_of_placed hh hp hh'
    refine ⟨iff_of_true ⟨id, rfl⟩ hfits, fun id' he => ?_, nofun⟩
    cases he
    exact hins

end EdbHeapEngine

/-! ## Pages of an odd size -/

/-- An engine open on odd pages, over a backend that does not fail. -/
structure OddReady (store : PageStore) (m : List Bytes) (s : HeapState) : Prop where
  odd : heap.OddSize store.page_size
  ready : ∃ n, Ready store n m [] s
  healthy : s.io.Healthy

namespace OddReady

variable {α : Type} {store : PageStore} {n : Nat} {m : List Bytes} {s : HeapState}

theorem odd_engine (h : OddReady store m s) : OddEngine store [] s := by
  obtain ⟨n, hr⟩ := h.ready
  have hc := hr.pool.frames
  refine ⟨h.odd, hr.opened, hr.page_store, ⟨hr.pool.opened, ⟨hc.distinct, hc.pinned, nofun⟩,
    hr.pool.tracked⟩, hr.pool.opened, fun f hf => ?_⟩
  obtain ⟨i, hi⟩ := List.mem_iff_getElem?.mp hf
  exact hc.sized i f hi

theorem pages_eq (h : OddReady store m s) : store.pages s.io = m.length := by
  obtain ⟨n, hr⟩ := h.ready
  exact EdbHeapEngine.pages_eq hr

variable {handle : FrameHandle} {t : Bytes}

theorem of_ready (h : OddReady store m s) {m' : List Bytes} {s' : HeapState}
    (hr : Ready store n m' [] s') (hafter : s.io.After s'.io) : OddReady store m' s' :=
  ⟨h.odd, ⟨n, hr⟩, hafter.healthy h.healthy⟩

/-- The same with one page of the file lent, which nobody has changed. -/
def Lent (store : PageStore) (m : List Bytes) (handle : FrameHandle) (s : HeapState) : Prop :=
  ∃ n l, l.handle = handle ∧ l.mutated = false ∧ l.page < m.length ∧ Ready store n m [l] s ∧
    s.io.Healthy

/-- A fetch fails only past the end of the file. -/
theorem invariant (hodd : heap.OddSize store.page_size) :
    OddInvariant store (OddReady store m) (Lent store m) fun p => m.length ≤ p where
  odd := hodd
  opened h := h.ready.elim fun _ hr => hr.opened
  page_store h := h.ready.elim fun _ hr => hr.page_store
  page_count h := by
    obtain ⟨n, hr⟩ := h.ready
    exact EdbHeapEngine.wp_page_count hr h
  fetch p h := by
    obtain ⟨n, hr⟩ := h.ready
    apply wp_mono (EdbHeapEngine.fetch.spec hr p)
    · rintro _ s' ⟨l, rfl, hm, rfl, hr', hafter, hp⟩
      exact ⟨n, l, rfl, hm, hp, hr', hafter.healthy h.healthy⟩
    · rintro e s' ⟨hr', hafter, ⟨rfl, hp⟩ | ⟨-, hne⟩⟩
      · exact ⟨hp, h.of_ready hr' hafter⟩
      · exact absurd h.healthy.write_eq hne
  sized := by
    rintro s _ ⟨n, l, rfl, -, hp, hr, -⟩
    exact hr.pool.length_of_page (hr.pool.data_of_loan List.mem_cons_self)
  unpin := by
    rintro s _ ⟨n, l, rfl, hm, -, hr, hio⟩
    apply wp_mono (EdbHeapEngine.unpin_clean.spec hr hm) _ (fun _ _ hf => hf.elim)
    rintro _ s' ⟨hr', heq⟩
    exact ⟨hodd, ⟨n, hr'⟩, heq ▸ hio⟩

/-- The size that the engine thinks a page has for a tuple and its slot. -/
def capacity (size : Nat) : Nat := (size + (2 ^ 64 - heap.PAGE_HEADER_SIZE)) % 2 ^ 64

theorem insert_into_new_page (h : OddReady store m s) (t : Bytes)
    (hgrow : (m.length + 1) * store.page_size < 2 ^ 64) :
    (EdbHeapEngine.insert_into_new_page t).wp (fun _ _ => False)
      (fun e s' => (capacity store.page_size < t.length + heap.SLOT_SIZE ∧ OddReady store m s') ∨
        (t.length + heap.SLOT_SIZE ≤ capacity store.page_size ∧ e = .InvalidArgument ∧
          OddReady store (m ++ [List.replicate store.page_size 0]) s')) s := by
  obtain ⟨n, hr⟩ := h.ready
  have hpos := hr.pool.laid.pos
  have hwrap : m.length + 1 < 2 ^ 64 := Nat.lt_of_le_of_lt (Nat.le_mul_of_pos_right _ hpos) hgrow
  unfold EdbHeapEngine.insert_into_new_page
  rw [wp_bind, wp_get, hr.page_size]
  simp only
  split
  · rename_i hlarge
    exact (wp_fail _).mpr (Or.inl ⟨hlarge, h⟩)
  · rename_i hfits
    rw [wp_bind]
    refine EdbHeapEngine.wp_allocate hr hwrap (fun s1 hr1 hafter1 => ?_)
      (fun hover => absurd hgrow (by omega))
    have h1 := h.of_ready hr1 hafter1
    have I := invariant (m := m ++ [List.replicate store.page_size 0]) h.odd
    have hp : m.length < (m ++ [List.replicate store.page_size 0]).length := by simp
    rw [wp_bind]
    apply wp_mono (EdbHeapEngine.fetch_new.spec hr1 hp)
    · rintro _ s2 ⟨l, hl, hm, rfl, hr2, hafter2⟩
      rw [List.set_append_right _ _ (Nat.le_refl _), Nat.sub_self] at hr2
      have hlent : Lent store (m ++ [List.replicate store.page_size 0]) l.handle s2 :=
        ⟨n, l, rfl, hm, hl ▸ hp, hr2, hafter2.healthy h1.healthy⟩
      rw [wp_bind]
      refine I.wp_frame_data hlent fun d hd => ?_
      rw [heap.initialize_page_odd hd]
      exact wp_mono (I.refuse hlent _) (fun _ _ hf => hf) fun _ _ hs' =>
        Or.inr ⟨Nat.le_of_not_lt hfits, hs'⟩
    · rintro e s2 ⟨-, -, -, hne⟩
      exact absurd h1.healthy.write_eq hne

/-- An insert adds a page when there is none to refuse the tuple, or when the
tuple is passed over by every page. -/
def Grows (size pages k : Nat) : Prop :=
  (pages = 0 ∨ heap.MAX_U16 < k) ∧ k + heap.SLOT_SIZE ≤ capacity size

theorem insert_tuple (h : OddReady store m s) (t : Bytes)
    (hgrow : (m.length + 1) * store.page_size < 2 ^ 64) :
    (EdbHeapEngine.insert_tuple t).wp (fun _ _ => False)
      (fun e s' => (¬ Grows store.page_size m.length t.length ∧ OddReady store m s') ∨
        (Grows store.page_size m.length t.length ∧ e = .InvalidArgument ∧
          OddReady store (m ++ [List.replicate store.page_size 0]) s')) s := by
  obtain ⟨n, hr⟩ := h.ready
  unfold EdbHeapEngine.insert_tuple
  rw [wp_bind]
  refine EdbHeapEngine.wp_check_open hr ?_
  rw [wp_bind]
  refine EdbHeapEngine.wp_page_count hr ?_
  refine (invariant h.odd).insert_loop t m.length 0 h (fun hpast s' h' => ?_)
    fun q hq hstop e s' h' => Or.inl ⟨fun hg => ?_, h'⟩
  · apply wp_mono (h'.insert_into_new_page t hgrow) (fun _ _ hf => hf)
    rintro e s1 (⟨hlarge, h1⟩ | ⟨hfits, rfl, h1⟩)
    · exact Or.inl ⟨fun hg => absurd hg.2 (by omega), h1⟩
    · exact Or.inr ⟨⟨hpast, hfits⟩, rfl, h1⟩
  · have hpast := hg.1
    omega

/-- Over odd pages an insert does what it should exactly when the tuple is too
large for a page and the file does not grow. -/
theorem inserts_well_iff (h : OddReady store m s) (t : Bytes)
    (hgrow : (store.pages s.io + 1) * store.page_size < 2 ^ 64) :
    EdbHeapEngine.InsertsWell store s t ↔
      store.page_size < t.length + 32 ∧ ¬ Grows store.page_size (store.pages s.io) t.length := by
  rw [h.pages_eq] at hgrow ⊢
  have hw := h.insert_tuple t hgrow
  unfold EdbHeapEngine.InsertsWell
  rcases hr : (EdbHeapEngine.insert_tuple t).run s with ⟨e | id, s'⟩
  · have hsize : ((∃ id, (Except.error e : Result TupleId) = .ok id) ↔
        t.length + 32 ≤ store.page_size) ↔ store.page_size < t.length + 32 := by
      simp
    have hsame : EdbHeapEngine.Unchanged store s s' ↔
        ¬ Grows store.page_size m.length t.length := by
      rcases wp_error hw hr with ⟨hno, hs'⟩ | ⟨hgrows, -, hs'⟩
      · refine iff_of_true ⟨?_, fun j => ?_⟩ hno
        · rw [h.pages_eq, hs'.pages_eq]
        · rw [h.odd_engine.tuple_at_eq, hs'.odd_engine.tuple_at_eq]
      · refine iff_of_false (fun hun => ?_) (not_not_intro hgrows)
        have hpages := hun.pages
        rw [h.pages_eq, hs'.pages_eq, List.length_append] at hpages
        simp at hpages
    dsimp only
    rw [hsize, ← hsame]
    constructor
    · rintro ⟨hlarge, -, hun⟩
      exact ⟨hlarge, hun e rfl⟩
    · rintro ⟨hlarge, hun⟩
      exact ⟨hlarge, nofun, fun _ _ => hun⟩
  · exact (wp_ok hw hr).elim

/-! ## Runs over odd pages -/

theorem of_stored {cfg : EngineConfig} (hodd : heap.OddSize store.page_size)
    (hst : BufferPool.Stored store m s.io) (hio : s.io.Healthy) (hcap : 1 ≤ cfg.buffer_pool_pages)
    (hsize : cfg.page_size = store.page_size) :
    ∃ s', (EdbHeapEngine.open store cfg).run s = (.ok (), s') ∧ OddReady store m s' := by
  obtain ⟨⟨⟩, s', hrun, hr, hio'⟩ := exists_ok_of_wp (EdbHeapEngine.open.spec hst hcap hsize)
  exact ⟨s', hrun, hodd, ⟨_, hr⟩, hio' ▸ hio⟩

theorem reopen {cfg : EngineConfig} (h : OddReady store m s) (hcap : 1 ≤ cfg.buffer_pool_pages)
    (hsize : cfg.page_size = store.page_size) :
    OddReady store m (Call.run (do EdbHeapEngine.close; EdbHeapEngine.open store cfg) s).2 := by
  obtain ⟨n, hr⟩ := h.ready
  obtain ⟨⟨⟩, s1, hrun1, hst, hafter⟩ :=
    exists_ok_of_wp (EdbHeapEngine.close_healthy hr h.healthy)
  obtain ⟨s2, hrun2, h2⟩ := of_stored h.odd hst (hafter.healthy h.healthy) hcap hsize
  rw [run_bind_ok _ hrun1, hrun2]
  exact h2

end OddReady

/-- The file can take one page more. -/
def CanGrow (size : Nat) (s : HeapState) : Prop :=
  ((PageStore.open size).pages s.io + 1) * size < 2 ^ 64

theorem HeapOp.step_odd_ready {size : Nat} {s : HeapState} (op : HeapOp) (hv : op.Valid size)
    (hgrow : CanGrow size s) (h : ∃ m, OddReady (PageStore.open size) m s) :
    ∃ m, OddReady (PageStore.open size) m (step (PageStore.open size) op s).2 := by
  obtain ⟨m, h⟩ := h
  have I := OddReady.invariant (m := m) h.odd
  have hfails : ∀ {α : Type} {x : Call Error HeapState α},
      x.wp (fun _ _ => False) (fun _ s' => ∃ m, OddReady (PageStore.open size) m s') s →
      ∃ m, OddReady (PageStore.open size) m (x.run s).2 := by
    intro α x hx
    rcases hr : x.run s with ⟨e | a, s'⟩
    · have h1 := wp_error hx hr
      exact h1
    · exact (wp_ok hx hr).elim
  cases op with
  | insert_tuple t =>
    refine hfails (wp_mono (h.insert_tuple t ?_) (fun _ _ hf => hf) ?_)
    · rw [← h.pages_eq]
      exact hgrow
    · rintro e s' (⟨-, hs'⟩ | ⟨-, -, hs'⟩)
      · exact ⟨_, hs'⟩
      · exact ⟨_, hs'⟩
  | delete_tuple id =>
    exact hfails (wp_mono (I.delete_tuple h id) (fun _ _ hf => hf) fun _ _ hs' => ⟨m, hs'⟩)
  | update_tuple id t =>
    exact hfails (wp_mono (I.update_tuple h id t) (fun _ _ hf => hf) fun _ _ hs' => ⟨m, hs'⟩)
  | scan => exact ⟨m, Keeps.after (I.complete_scan _) h⟩
  | reopen cfg => exact ⟨m, h.reopen hv.1 hv.2⟩

/-! ## Every engine that a client can reach -/

/-- The sizes, files and tuples for which an insert does what it should: page.cpp
takes the size, or the tuple is too large for a page and a page or the engine
itself refuses it before the file grows. -/
def SoundInsert (size pages k : Nat) : Prop :=
  (28 ≤ size ∧ size ≤ 65535) ∨ (65535 < size ∧ size < k + 32) ∨
    (size < 28 ∧ ((0 < pages ∧ k ≤ 65535) ∨ 2 ^ 64 + size < k + 32))

theorem sound_insert_odd {size pages k : Nat} (hodd : heap.OddSize size) (hsize : size < 2 ^ 64) :
    size < k + 32 ∧ ¬ OddReady.Grows size pages k ↔ SoundInsert size pages k := by
  unfold heap.OddSize at hodd
  unfold OddReady.Grows OddReady.capacity SoundInsert
  simp only [heap.PAGE_HEADER_SIZE, heap.MAX_U16, heap.SLOT_SIZE] at hodd ⊢
  rcases hodd with hlt | hgt
  · rw [Nat.mod_eq_of_lt (by omega)]
    omega
  · rw [show size + (2 ^ 64 - 28) = (size - 28) + 2 ^ 64 by omega, Nat.add_mod_right,
      Nat.mod_eq_of_lt (by omega)]
    omega

/-- In every run from an empty file that can take one page more at each step,
with pages of any size, an insert succeeds exactly when the tuple fits, goes to
the first page with room and changes nothing when it fails, exactly when the
size of the pages, the file and the tuple are sound. -/
theorem insert_well_iff_sound (size : Nat) (hsize : 0 < size) (cfg : EngineConfig)
    (hcap : 1 ≤ cfg.buffer_pool_pages) (hcfg : cfg.page_size = size) (ops : List HeapOp)
    (hops : ∀ op ∈ ops, op.Valid size) (t : Bytes) (ht : t ≠ []) :
    ∃ s0, (EdbHeapEngine.open (PageStore.open size) cfg).run {} = (.ok (), s0) ∧
      let s := (Run.exec (HeapOp.step (PageStore.open size)) ops s0).2
      (Run.Allowed (fun _ s => CanGrow size s) (HeapOp.step (PageStore.open size))
          (ops ++ [.insert_tuple t]) s0 →
        (InsertsWell (PageStore.open size) s t ↔
          SoundInsert size ((PageStore.open size).pages s.io) t.length)) := by
  by_cases hodd : heap.OddSize size
  · have hstore : heap.OddSize (PageStore.open size).page_size := hodd
    obtain ⟨s0, hopen, h0⟩ := OddReady.of_stored (s := {}) hstore (stored_empty hsize) rfl hcap hcfg
    refine ⟨s0, hopen, fun hallowed => ?_⟩
    obtain ⟨hrun, hlast, -⟩ := (Run.allowed_append _ _ _ _ _).mp hallowed
    obtain ⟨m, h⟩ := Run.keeps (fun s => ∃ m, OddReady (PageStore.open size) m s)
      (fun op s h hok => HeapOp.step_odd_ready op hok.1 hok.2 h) ops s0 ⟨_, h0⟩
      (Run.allowed_and hrun (Run.allowed_of_forall _ _ fun op hop _ => hops op hop))
    rw [h.inserts_well_iff t hlast]
    refine sound_insert_odd hodd (Nat.lt_of_le_of_lt ?_ hlast)
    exact Nat.le_mul_of_pos_left _ (Nat.succ_pos _)
  · obtain ⟨s0, hopen, h0⟩ := open_reached size hsize hcap hcfg
    refine ⟨s0, hopen, fun hallowed => ?_⟩
    obtain ⟨-, hlast, -⟩ := (Run.allowed_append _ _ _ _ _).mp hallowed
    have hreached := Run.keeps_of_forall (Reached (PageStore.open size))
      (fun op s h hv => HeapOp.step_reached op hv h) ops s0 h0 hops
    rcases hreached with ⟨a, ⟨n, m, h, hh, -, -⟩, hio⟩ | ⟨hno, -⟩
    · refine iff_of_true (inserts_well hh (hio id) ht hlast) (Or.inl ?_)
      simp only [heap.OddSize, heap.PAGE_HEADER_SIZE, heap.MAX_U16] at hodd
      omega
    · exact absurd hno hodd

/-- Pages of 33 bytes and a heap with a deleted tuple. -/
theorem insert_well_after_delete :
    ∃ s0, (EdbHeapEngine.open (PageStore.open 33) ⟨33, 1, {}⟩).run {} = (.ok (), s0) ∧
      InsertsWell (PageStore.open 33)
        (Run.exec (HeapOp.step (PageStore.open 33))
          [.insert_tuple [1], .delete_tuple ⟨0, 0⟩] s0).2 [2] := by
  obtain ⟨s0, hopen, hiff⟩ := insert_well_iff_sound 33 (by decide) ⟨33, 1, {}⟩ (by decide) rfl
    [.insert_tuple [1], .delete_tuple ⟨0, 0⟩] (by simp [HeapOp.Valid]) [2] (by decide)
  have hs0 : s0 = ((EdbHeapEngine.open (PageStore.open 33) ⟨33, 1, {}⟩).run {}).2 := by
    rw [hopen]
  refine ⟨s0, hopen, (hiff ?_).mpr (Or.inl (by decide))⟩
  subst hs0
  simp only [List.cons_append, List.nil_append, Run.Allowed, CanGrow]
  refine ⟨?_, ?_, ?_, trivial⟩ <;> decide

/-- A tuple of one byte on an empty file with odd pages. -/
theorem first_insert_odd {size : Nat} (hodd : heap.OddSize size) (hsize : 0 < size)
    (hgrow : size < 2 ^ 64) (hfits : 5 ≤ OddReady.capacity size) :
    ∃ s0 s1, (EdbHeapEngine.open (PageStore.open size) ⟨size, 1, {}⟩).run {} = (.ok (), s0) ∧
      (insert_tuple [1]).run s0 = (.error .InvalidArgument, s1) ∧
      (PageStore.open size).pages s0.io = 0 ∧ (PageStore.open size).pages s1.io = 1 ∧
      ¬ InsertsWell (PageStore.open size) s0 [1] := by
  have hstore : heap.OddSize (PageStore.open size).page_size := hodd
  have hcap : 1 ≤ (⟨size, 1, {}⟩ : EngineConfig).buffer_pool_pages := Nat.le_refl 1
  obtain ⟨s0, hopen, h0⟩ := OddReady.of_stored (s := {}) hstore (stored_empty hsize) rfl hcap rfl
  have hcan : (0 + 1) * size < 2 ^ 64 := by omega
  have hw := h0.insert_tuple [1] hcan
  rcases hr : (insert_tuple [1]).run s0 with ⟨e | id, s1⟩
  · rcases wp_error hw hr with ⟨hno, -⟩ | ⟨hgrows, rfl, h1⟩
    · exact absurd ⟨Or.inl rfl, hfits⟩ hno
    · refine ⟨s0, s1, hopen, hr, h0.pages_eq, h1.pages_eq, fun hwell => ?_⟩
      rw [h0.inserts_well_iff [1] (by rw [h0.pages_eq]; exact hcan), h0.pages_eq] at hwell
      exact hwell.2 hgrows
  · exact (wp_ok hw hr).elim

/-- With pages of 64 KiB an insert of one byte fails, and with pages of 27 bytes
too. Both leave the file with a page that it did not have. -/
theorem failed_insert_grows_the_file :
    (∃ s0 s1, (EdbHeapEngine.open (PageStore.open 65536) ⟨65536, 1, {}⟩).run {} = (.ok (), s0) ∧
      (insert_tuple [1]).run s0 = (.error .InvalidArgument, s1) ∧
      (PageStore.open 65536).pages s0.io = 0 ∧ (PageStore.open 65536).pages s1.io = 1 ∧
      ¬ InsertsWell (PageStore.open 65536) s0 [1]) ∧
    (∃ s0 s1, (EdbHeapEngine.open (PageStore.open 27) ⟨27, 1, {}⟩).run {} = (.ok (), s0) ∧
      (insert_tuple [1]).run s0 = (.error .InvalidArgument, s1) ∧
      (PageStore.open 27).pages s0.io = 0 ∧ (PageStore.open 27).pages s1.io = 1 ∧
      ¬ InsertsWell (PageStore.open 27) s0 [1]) :=
  ⟨first_insert_odd (Or.inr (by decide)) (by decide) (by decide) (by decide),
    first_insert_odd (Or.inl (by decide)) (by decide) (by decide) (by decide)⟩

end edb
