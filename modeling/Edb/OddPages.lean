-- Page sizes that no heap page has. A page with fewer bytes than its header,
-- or with more bytes than 16 bits can count, is refused by every helper of
-- page.cpp. An engine opened with such a size adds pages of zeros to its file
-- and never holds a tuple.
import Edb.HeapRuns
import Edb.PoolFaults

namespace edb

open Call EdbHeapEngine

namespace heap

/-- No page of this size passes `validate_page_size`. -/
def OddSize (size : Nat) : Prop := size < PAGE_HEADER_SIZE ∨ size > MAX_U16

variable {page : Bytes} (h : OddSize page.length)

include h

theorem validate_odd : validate_page_size page = .error .InvalidArgument := if_pos h

theorem slot_count_odd : slot_count page = .error .InvalidArgument := by
  unfold slot_count
  rw [validate_odd h]
  rfl

theorem read_slot_odd (i : Nat) : read_slot page i = .error .InvalidArgument := by
  unfold read_slot
  rw [slot_count_odd h]
  rfl

theorem is_live_slot_odd (i : Nat) : is_live_slot page i = .error .InvalidArgument := by
  unfold is_live_slot
  rw [read_slot_odd h]
  rfl

theorem delete_tuple_odd (i : Nat) : delete_tuple page i = .error .InvalidArgument := by
  unfold delete_tuple
  rw [read_slot_odd h]
  rfl

theorem initialize_page_odd (p : Nat) : initialize_page page p = .error .InvalidArgument := by
  unfold initialize_page
  rw [validate_odd h]
  rfl

theorem can_insert_odd (size : Nat) :
    can_insert page size = if size ≤ MAX_U16 then .error .InvalidArgument else .ok false := by
  unfold can_insert fits_u16 free_space
  rw [validate_odd h]
  by_cases hs : size ≤ MAX_U16
  · simp only [hs, decide_true, Bool.not_true, Bool.false_eq_true, if_false, if_true]
    rfl
  · simp [hs]

end heap

/-! ## The calls -/

/-- What the calls over odd pages go by, whether the backend fails or not: the
states with no handle out, the states with one, and the pages whose fetch may
fail. -/
structure OddInvariant (store : PageStore) (idle : HeapState → Prop)
    (lent : FrameHandle → HeapState → Prop) (missing : Nat → Prop) : Prop where
  odd : heap.OddSize store.page_size
  opened {s : HeapState} : idle s → s.engine.opened = true
  page_store {s : HeapState} : idle s → s.engine.page_store = some store
  page_count {s : HeapState} : idle s →
    (on_page_store PageStore.page_count).wp (fun _ => idle) (fun _ => idle) s
  fetch {s : HeapState} (p : Nat) : idle s →
    (on_pool (BufferPool.fetch p)).wp lent (fun _ s' => missing p ∧ idle s') s
  sized {s : HeapState} {handle : FrameHandle} : lent handle s →
    (s.engine.buffer_pool.data handle).length = store.page_size
  unpin {s : HeapState} {handle : FrameHandle} : lent handle s →
    (unpin_clean handle).wp (fun _ => idle) (fun _ _ => False) s

namespace OddInvariant

variable {α : Type} {store : PageStore} {idle : HeapState → Prop}
  {lent : FrameHandle → HeapState → Prop} {missing : Nat → Prop} {s : HeapState}
  {handle : FrameHandle} (I : OddInvariant store idle lent missing)

include I

theorem wp_check_open {Q : Unit → HeapState → Prop} {E : Error → HeapState → Prop}
    (h : idle s) (hq : Q () s) : EdbHeapEngine.check_open.wp Q E s := by
  unfold EdbHeapEngine.check_open
  rw [wp_bind, wp_get, I.opened h, I.page_store h]
  exact (wp_pure _).mpr hq

/-- The bytes behind a handle have an odd size. -/
theorem wp_frame_data {Q : Bytes → HeapState → Prop} {E : Error → HeapState → Prop}
    (h : lent handle s) (hq : ∀ d : Bytes, heap.OddSize d.length → Q d s) :
    (EdbHeapEngine.frame_data handle).wp Q E s := by
  unfold EdbHeapEngine.frame_data
  rw [wp_bind, wp_get, wp_pure]
  refine hq _ ?_
  rw [I.sized h]
  exact I.odd

/-- A helper has refused the page: the handle goes back and the call fails. -/
theorem refuse (h : lent handle s) (e : Error) :
    (do EdbHeapEngine.unpin_clean handle; Call.fail e : Call Error HeapState α).wp
      (fun _ _ => False) (fun e' s' => e' = e ∧ idle s') s := by
  rw [wp_bind]
  apply wp_mono (I.unpin h)
  · exact fun _ _ h' => (wp_fail _).mpr ⟨rfl, h'⟩
  · exact fun _ _ hf => hf.elim

theorem insert_into_existing_page (h : idle s) (p : Nat) (t : Bytes) :
    (EdbHeapEngine.insert_into_existing_page p t).wp
      (fun r s' => r = none ∧ heap.MAX_U16 < t.length ∧ idle s')
      (fun _ s' => (t.length ≤ heap.MAX_U16 ∨ missing p) ∧ idle s') s := by
  unfold EdbHeapEngine.insert_into_existing_page
  rw [wp_bind]
  apply wp_mono (I.fetch p h) _ (fun _ _ h1 => ⟨Or.inr h1.1, h1.2⟩)
  intro handle s1 h1
  rw [wp_bind]
  refine I.wp_frame_data h1 fun d hd => ?_
  rw [heap.can_insert_odd hd]
  by_cases hsize : t.length ≤ heap.MAX_U16
  · rw [if_pos hsize]
    exact wp_mono (I.refuse h1 _) (fun _ _ hf => hf.elim) (fun _ _ h2 => ⟨Or.inl hsize, h2.2⟩)
  · rw [if_neg hsize]
    simp only
    rw [wp_bind]
    apply wp_mono (I.unpin h1)
    · exact fun _ _ h2 => (wp_pure _).mpr ⟨rfl, Nat.lt_of_not_le hsize, h2⟩
    · exact fun _ _ hf => hf.elim

/-- Every page passes the tuple over, or one of them refuses it. -/
theorem insert_loop {E : Error → HeapState → Prop} (t : Bytes) (pages p : Nat) (h : idle s)
    (hnew : pages = 0 ∨ heap.MAX_U16 < t.length → ∀ s', idle s' →
      (EdbHeapEngine.insert_into_new_page t).wp (fun _ _ => False) E s')
    (hstop : ∀ q < p + pages, t.length ≤ heap.MAX_U16 ∨ missing q → ∀ e s', idle s' → E e s') :
    (EdbHeapEngine.insert_loop t pages p).wp (fun _ _ => False) E s := by
  induction pages generalizing p s with
  | zero => exact hnew (Or.inl rfl) s h
  | succ pages ih =>
    unfold EdbHeapEngine.insert_loop
    rw [wp_bind]
    apply wp_mono (I.insert_into_existing_page h p t)
    · rintro r s1 ⟨rfl, hlong, h1⟩
      exact ih (p + 1) h1 (fun _ => hnew (Or.inr hlong)) fun q hq => hstop q (by omega)
    · exact fun e s1 h1 => hstop p (by omega) h1.1 e s1 h1.2

theorem delete_tuple (h : idle s) (id : TupleId) :
    (EdbHeapEngine.delete_tuple id).wp (fun _ _ => False) (fun _ => idle) s := by
  unfold EdbHeapEngine.delete_tuple
  rw [wp_bind]
  refine I.wp_check_open h ?_
  rw [wp_bind]
  apply wp_mono (I.fetch id.page_id h) _ (fun _ _ h1 => h1.2)
  intro handle s1 h1
  rw [wp_bind]
  refine I.wp_frame_data h1 fun d hd => ?_
  rw [heap.delete_tuple_odd hd]
  exact wp_mono (I.refuse h1 _) (fun _ _ hf => hf) (fun _ _ h2 => h2.2)

theorem update_tuple (h : idle s) (id : TupleId) (t : Bytes) :
    (EdbHeapEngine.update_tuple id t).wp (fun _ _ => False) (fun _ => idle) s := by
  unfold EdbHeapEngine.update_tuple
  rw [wp_bind]
  exact wp_mono (I.delete_tuple h id) (fun _ _ hf => hf.elim) (fun _ _ h1 => h1)

/-- A scan meets no page that it can read, and its cursor stays. -/
theorem scan_next {s : ScanState} (h : idle s.heap) :
    EdbHeapEngine.scan_next.wp (fun r s' => r = none ∧ idle s'.heap ∧ s'.handle = s.handle)
      (fun _ s' => idle s'.heap ∧ s'.handle = s.handle) s := by
  have hpages : ∀ (k p : Nat) (t : ScanState), idle t.heap →
      (EdbHeapEngine.scan_pages k p).wp
        (fun r s' => r = none ∧ idle s'.heap ∧ s'.handle = t.handle)
        (fun _ s' => idle s'.heap ∧ s'.handle = t.handle) t := by
    intro k p t ht
    cases k with
    | zero => exact (wp_pure _).mpr ⟨rfl, ht, rfl⟩
    | succ k =>
      unfold EdbHeapEngine.scan_pages
      rw [wp_bind]
      refine EdbHeapEngine.wp_on_heap ?_
      apply wp_mono (I.fetch p ht) _ (fun _ _ h1 => ⟨h1.2, rfl⟩)
      intro handle t1 h1
      rw [wp_bind]
      refine EdbHeapEngine.wp_on_heap (I.wp_frame_data h1 fun d hd => ?_)
      rw [heap.slot_count_odd hd]
      simp only
      rw [wp_bind]
      refine EdbHeapEngine.wp_on_heap ?_
      apply wp_mono (I.unpin h1)
      · exact fun _ _ h2 => (wp_fail _).mpr ⟨h2, rfl⟩
      · exact fun _ _ hf => hf.elim
  unfold EdbHeapEngine.scan_next
  rw [wp_bind]
  refine EdbHeapEngine.wp_on_heap (I.wp_check_open h ?_)
  rw [wp_bind]
  refine EdbHeapEngine.wp_on_heap ?_
  apply wp_mono (I.page_count h) _ (fun _ _ h1 => ⟨h1, rfl⟩)
  intro count t h1
  rw [wp_bind, wp_get]
  exact hpages _ _ { s with heap := t } h1

theorem complete_scan (calls : Nat) : (EdbHeapEngine.complete_scan calls).Keeps idle := by
  intro s h
  unfold EdbHeapEngine.complete_scan EdbHeapEngine.begin_scan
  rw [wp_bind, wp_bind]
  refine I.wp_check_open h ?_
  rw [wp_pure, wp_zoom]
  cases calls with
  | zero => exact (wp_fail _).mpr h
  | succ calls =>
    unfold EdbHeapEngine.drain
    rw [wp_bind]
    apply wp_mono (I.scan_next (s := ⟨s, _⟩) h) _ (fun _ _ h1 => h1.1)
    rintro r s1 ⟨rfl, h1, -⟩
    exact (wp_pure _).mpr h1

end OddInvariant

/-! ## Engines whose backend may fail -/

/-- An engine that is open on a store with odd pages, and the handles that are
out. -/
structure OddEngine (store : PageStore) (handles : List FrameHandle) (s : HeapState) : Prop where
  odd : heap.OddSize store.page_size
  opened : s.engine.opened = true
  page_store : s.engine.page_store = some store
  pins : PinsHold store handles ⟨s.engine.buffer_pool, s.io⟩
  sized : Sized store ⟨s.engine.buffer_pool, s.io⟩

namespace EdbHeapEngine

variable {α : Type} {store : PageStore} {s : HeapState} {handle : FrameHandle}
  {hs hs' : List FrameHandle}

theorem odd_with_pool {t : PoolState} (h : OddEngine store hs s) (hp : PinsHold store hs' t)
    (hz : Sized store t) : OddEngine store hs' (with_pool s t) :=
  ⟨h.odd, h.opened, h.page_store, hp, hz⟩

theorem fetch_odd (h : OddEngine store [] s) (p : Nat) :
    (on_pool (BufferPool.fetch p)).wp (fun handle s' => OddEngine store [handle] s')
      (fun _ s' => OddEngine store [] s') s := by
  refine wp_on_pool ?_
  exact wp_mono (wp_and (BufferPool.fetch_pins h.pins p) (BufferPool.fetch_sized p _ h.sized))
    (fun _ _ ht => odd_with_pool h ht.1 ht.2) (fun _ _ ht => odd_with_pool h ht.1 ht.2)

theorem fetch_new_odd (h : OddEngine store [] s) (p : Nat) :
    (on_pool (BufferPool.fetch_new p)).wp (fun handle s' => OddEngine store [handle] s')
      (fun _ s' => OddEngine store [] s') s := by
  refine wp_on_pool ?_
  exact wp_mono (wp_and (BufferPool.fetch_new_pins h.pins p)
    (BufferPool.fetch_new_sized p _ h.sized))
    (fun _ _ ht => odd_with_pool h ht.1 ht.2) (fun _ _ ht => odd_with_pool h ht.1 ht.2)

theorem unpin_odd (h : OddEngine store [handle] s) :
    (unpin_clean handle).wp (fun _ s' => OddEngine store [] s') (fun _ _ => False) s := by
  refine wp_on_pool ?_
  apply wp_mono (wp_and (BufferPool.unpin_pins (a := []) (b := []) false h.pins)
    (BufferPool.unpin_sized handle false _ h.sized))
  · exact fun _ _ ht => odd_with_pool h ht.1 ht.2
  · exact fun _ _ ht => ht.1

theorem on_page_store_odd (h : OddEngine store hs s) (x : PageStore → Call Error StorageIO α) :
    (on_page_store x).wp (fun _ s' => OddEngine store hs s') (fun _ s' => OddEngine store hs s')
      s := by
  unfold on_page_store
  rw [wp_bind, wp_get, h.page_store]
  refine (wp_zoom _ _ _).mpr ?_
  have hio : ∀ io : StorageIO, OddEngine store hs { s with io } := fun io =>
    ⟨h.odd, h.opened, h.page_store, ⟨h.pins.opened, h.pins.safe, h.pins.tracked⟩,
      ⟨h.sized.opened, h.sized.sized⟩⟩
  rcases hr : (x store).run s.io with ⟨e | a, io⟩
  · exact wp_of_run_error hr (hio io)
  · exact wp_of_run_ok hr (hio io)

theorem data_odd (h : OddEngine store [handle] s) :
    (s.engine.buffer_pool.data handle).length = store.page_size := by
  obtain ⟨-, f, hf, -, -⟩ := h.pins.safe.held handle (by simp)
  unfold BufferPool.data
  rw [BufferPool.frame_at_eq hf, h.sized.at hf]

theorem odd_invariant (hodd : heap.OddSize store.page_size) :
    OddInvariant store (OddEngine store []) (fun handle => OddEngine store [handle])
      fun _ => True where
  odd := hodd
  opened h := h.opened
  page_store h := h.page_store
  page_count h := on_page_store_odd h _
  fetch p h := wp_mono (fetch_odd h p) (fun _ _ h1 => h1) fun _ _ h1 => ⟨trivial, h1⟩
  sized := data_odd
  unpin := unpin_odd

theorem insert_into_new_page_odd (h : OddEngine store [] s) (t : Bytes) :
    (insert_into_new_page t).wp (fun _ _ => False) (fun _ s' => OddEngine store [] s') s := by
  have I := odd_invariant h.odd
  unfold insert_into_new_page
  rw [wp_bind, wp_get]
  simp only
  split
  · exact (wp_fail _).mpr h
  · rw [wp_bind]
    apply wp_mono (on_page_store_odd h _) _ (fun _ _ h1 => h1)
    intro allocated s1 h1
    rw [wp_bind]
    apply wp_mono (fetch_new_odd h1 allocated) _ (fun _ _ h2 => h2)
    intro handle s2 h2
    rw [wp_bind]
    refine I.wp_frame_data h2 fun d hd => ?_
    rw [heap.initialize_page_odd hd]
    exact wp_mono (I.refuse h2 _) (fun _ _ hf => hf) (fun _ _ h3 => h3.2)

theorem insert_tuple_odd (h : OddEngine store [] s) (t : Bytes) :
    (insert_tuple t).wp (fun _ _ => False) (fun _ s' => OddEngine store [] s') s := by
  have I := odd_invariant h.odd
  unfold insert_tuple
  rw [wp_bind]
  refine I.wp_check_open h ?_
  rw [wp_bind]
  apply wp_mono (I.page_count h) _ (fun _ _ h1 => h1)
  exact fun count s1 h1 => I.insert_loop t count 0 h1
    (fun _ _ h2 => insert_into_new_page_odd h2 t) (fun _ _ _ _ _ h2 => h2)

theorem open_odd (hodd : heap.OddSize store.page_size) {cfg : EngineConfig}
    (hcap : 0 < cfg.buffer_pool_pages) (s : HeapState) :
    (EdbHeapEngine.open store cfg).wp (fun _ s' => OddEngine store [] s') (fun _ _ => False) s := by
  unfold EdbHeapEngine.open
  rw [wp_bind, wp_modify, wp_bind, wp_attempt]
  refine wp_on_pool ?_
  apply wp_mono (wp_and (BufferPool.open_pins store _ hcap _) (BufferPool.open_sized store _ _))
  · rintro _ t ⟨hp, hz⟩
    exact (wp_modify _).mpr ⟨hodd, rfl, rfl, hp, hz⟩
  · exact fun _ _ hf => hf.1.elim

end EdbHeapEngine

/-! ## Runs -/

/-- The engine is closed, or open on odd pages with no handle out. -/
def Odd (store : PageStore) (s : HeapState) : Prop :=
  s.engine.opened = true → OddEngine store [] s

namespace Odd

variable {store : PageStore} {s : HeapState}

theorem check_closed (ho : s.engine.opened ≠ true) :
    check_open.run s = (.error .IoError, s) := by
  unfold check_open
  rw [run_bind_ok _ (run_get s), if_pos (by simp [ho])]
  rfl

/-- A call that does nothing on a closed engine. -/
theorem after {α : Type} {x : Call Error HeapState α} (h : Odd store s)
    (hclosed : s.engine.opened ≠ true → x.run s = (.error .IoError, s))
    (hopen : OddEngine store [] s → x.wp (fun _ s' => OddEngine store [] s')
      (fun _ s' => OddEngine store [] s') s) : Odd store (x.run s).2 := by
  by_cases ho : s.engine.opened = true
  · intro _
    have hw := hopen (h ho)
    rcases hr : x.run s with ⟨e | a, s'⟩
    · have h1 := wp_error hw hr
      exact h1
    · have h1 := wp_ok hw hr
      exact h1
  · rw [hclosed ho]
    exact fun hno => absurd hno ho

theorem insert_tuple (h : Odd store s) (t : Bytes) :
    Odd store ((insert_tuple t).run s).2 :=
  h.after (fun ho => run_bind_error _ (check_closed ho)) fun ho =>
    wp_mono (insert_tuple_odd ho t) (fun _ _ hf => hf.elim) (fun _ _ h1 => h1)

theorem delete_tuple (h : Odd store s) (id : TupleId) :
    Odd store ((delete_tuple id).run s).2 :=
  h.after (fun ho => run_bind_error _ (check_closed ho)) fun ho =>
    wp_mono ((odd_invariant ho.odd).delete_tuple ho id) (fun _ _ hf => hf.elim) (fun _ _ h1 => h1)

theorem update_tuple (h : Odd store s) (id : TupleId) (t : Bytes) :
    Odd store ((update_tuple id t).run s).2 :=
  h.after (fun ho => run_bind_error _ (run_bind_error _ (check_closed ho))) fun ho =>
    wp_mono ((odd_invariant ho.odd).update_tuple ho id t) (fun _ _ hf => hf.elim) (fun _ _ h1 => h1)

theorem complete_scan (h : Odd store s) (calls : Nat) :
    Odd store ((complete_scan calls).run s).2 :=
  h.after (fun ho => run_bind_error _ (run_bind_error _ (check_closed ho))) fun ho =>
    (odd_invariant ho.odd).complete_scan calls s ho

/-- A close leaves the engine closed, and an open takes any engine. -/
theorem reopen (hodd : heap.OddSize store.page_size) {cfg : EngineConfig}
    (hcap : 0 < cfg.buffer_pool_pages) :
    Odd store (Call.run (do EdbHeapEngine.close; EdbHeapEngine.open store cfg) s).2 := by
  have hclose : EdbHeapEngine.close.wp (fun _ _ => True)
      (fun _ s' => s'.engine.opened = false) s := by
    unfold EdbHeapEngine.close
    rw [wp_bind, wp_get]
    split
    · exact (wp_pure _).mpr trivial
    · rw [wp_bind]
      rcases hr : (on_pool BufferPool.close).attempt.run s with ⟨e | status, s1⟩
      · rw [run_attempt] at hr
        cases hr
      · refine wp_of_run_ok hr ?_
        rw [wp_bind, wp_modify, wp_ofExcept]
        exact ⟨fun _ _ => trivial, fun _ _ => rfl⟩
  rcases hr : EdbHeapEngine.close.run s with ⟨e | a, s1⟩
  · rw [run_bind_error _ hr]
    intro ho
    rw [wp_error hclose hr] at ho
    cases ho
  · rw [run_bind_ok _ hr]
    obtain ⟨_, s2, hrun, h2⟩ := exists_ok_of_wp (open_odd hodd hcap s1)
    rw [hrun]
    exact fun _ => h2

end Odd

/-- Every operation of a client keeps the engine closed or without tuples. -/
theorem HeapOp.step_odd {store : PageStore} {s : HeapState} (hodd : heap.OddSize store.page_size)
    (op : HeapOp) (hv : op.Valid store.page_size) (h : Odd store s) :
    Odd store (HeapOp.step store op s).2 := by
  cases op with
  | insert_tuple t => exact h.insert_tuple t
  | delete_tuple id => exact h.delete_tuple id
  | update_tuple id t => exact h.update_tuple id t
  | scan => exact h.complete_scan _
  | reopen cfg => exact Odd.reopen hodd hv.1

end edb
