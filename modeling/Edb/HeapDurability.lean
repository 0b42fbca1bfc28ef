-- Closing the heap engine over a backend that may fail. A close that fails
-- still marks the engine closed, so a retry says success and writes nothing.
-- What was live survives when the writes of the first close go through.
import Edb.HeapRuns

namespace edb

namespace HeapOp

/-- The operations between an open and the first close. -/
def InSession : HeapOp → Prop
  | .reopen _ => False
  | _ => True

end HeapOp

namespace EdbHeapEngine

variable {store : PageStore} {n : Nat} {m : List Bytes} {h : Heap} {s s' : HeapState}
  {a : TupleMap}

/-- The state after so many calls of `close`. -/
def close_attempts : Nat → HeapState → HeapState
  | 0, s => s
  | k + 1, s => close_attempts k (close.run s).2

/-- After the attempts, once a close says success, a new engine on the bytes of
the file, with a backend that no longer fails, scans the map. -/
def Durable (store : PageStore) (s : HeapState) (a : TupleMap) : Prop :=
  ∀ (attempts : Nat) (s1 : HeapState), close.run (close_attempts attempts s) = (.ok (), s1) →
    ∀ cfg : EngineConfig, 1 ≤ cfg.buffer_pool_pages → cfg.page_size = store.page_size →
      ∃ s2 xs s3,
        (EdbHeapEngine.open store cfg).run { io := { bytes := s1.io.bytes } } = (.ok (), s2) ∧
        (complete_scan (s2.io.bytes.length + 1)).run s2 = (.ok xs, s3) ∧ a.Lists xs

/-- Each page that the first close has to write goes through. A sync may fail. -/
def WritesThrough (store : PageStore) (s : HeapState) : Prop :=
  ∀ j < BufferPool.pending s.engine.buffer_pool.frames,
    Fault.lets store.page_size s.io.faults.write[j]? = true

/-- On a closed engine, every further attempt changes nothing. -/
theorem close_attempts_closed (hc : s.engine.opened = false) (k : Nat) :
    close_attempts k s = s := by
  induction k with
  | zero => rfl
  | succ k ih =>
    unfold close_attempts
    rw [close_run_closed hc]
    exact ih

/-- Whatever the first close says, the engine is closed after it, and the file
holds the pages when its writes went through. -/
theorem first_close (hr : Ready store n m [] s) (hw : WritesThrough store s) :
    (close.run s).2.engine.opened = false ∧ BufferPool.Stored store m (close.run s).2.io := by
  have hspec := close.spec hr
  rcases hrun : close.run s with ⟨e | ⟨⟩, s'⟩
  · obtain ⟨-, hclosed, -, hholds, hwhy⟩ := Call.wp_error hspec hrun
    refine ⟨hclosed, ?_⟩
    rcases hwhy with ⟨j, hj, hlets⟩ | ⟨hnone, -⟩
    · rw [hw j hj] at hlets
      cases hlets
    · exact BufferPool.stored_of_flushed hholds hnone
  · obtain ⟨hclosed, hst, -⟩ := Call.wp_ok hspec hrun
    exact ⟨hclosed, hst⟩

theorem stored_after_attempts (hr : Ready store n m [] s) (hw : WritesThrough store s)
    (attempts : Nat) {s1 : HeapState} (hclose : close.run (close_attempts attempts s) = (.ok (), s1)) :
    BufferPool.Stored store m s1.io := by
  obtain ⟨hclosed, hst⟩ := first_close hr hw
  cases attempts with
  | zero =>
    have hs1 : (close.run s).2 = s1 := by rw [show close.run s = (.ok (), s1) from hclose]
    exact hs1 ▸ hst
  | succ k =>
    -- The attempts after the first find a closed engine.
    unfold close_attempts at hclose
    rw [close_attempts_closed hclosed, close_run_closed hclosed] at hclose
    cases hclose
    exact hst

/-- What the file holds does not depend on the faults to come. -/
theorem stored_of_bytes {io : StorageIO} (hst : BufferPool.Stored store m io) :
    BufferPool.Stored store m { bytes := io.bytes } :=
  ⟨hst.laid.of_length rfl, ⟨rfl, rfl, rfl⟩, hst.count, hst.page⟩

theorem durable (hR : HoldsMap store True s a) (hw : WritesThrough store s)
    (hreach : TupleMap.InReach .scan a) : Durable store s a := by
  obtain ⟨⟨n, m, h, hh, hl, hi⟩, -⟩ := hR
  intro attempts s1 hclose cfg hcap hsize
  have hst := stored_of_bytes (stored_after_attempts hh.ready hw attempts hclose)
  obtain ⟨s2, hrun, h2, hio⟩ := open_holds_heap (s := { io := { bytes := s1.io.bytes } }) hst
    hh.slotted hh.header hh.small hcap hsize
  have hmap : HoldsMap store False s2 a := ⟨⟨_, m, h, h2, hl, hi⟩, fun _ => by rw [hio]; rfl⟩
  obtain ⟨b, hstep, -⟩ := step_scan hmap hreach
  rcases hscan : (complete_scan (s2.io.bytes.length + 1)).run s2 with ⟨e | xs, s3⟩
  · rw [hscan] at hstep
    cases hstep with
    | not_scanned hfail => exact hfail.elim
  · rw [hscan] at hstep
    cases hstep with
    | scanned hlists => exact ⟨s2, xs, s3, hrun, hscan, hlists⟩

end EdbHeapEngine

/-- In every session on a file that holds a heap, with writes and syncs that
fail at any moment, what is live before the first close is what a new engine
scans once a close says success, when the pages that the first close has to
write go through. -/
theorem successful_close_is_durable (size : Nat) (hmin : heap.PAGE_HEADER_SIZE ≤ size)
    (hmax : size ≤ heap.MAX_U16) (file : StorageIO) (m : List Bytes) (h : Heap)
    (hfile : BufferPool.Stored (PageStore.open size) m file) (hslots : Slotted m h)
    (cfg : EngineConfig) (hcap : 1 ≤ cfg.buffer_pool_pages) (hcfg : cfg.page_size = size)
    (ops : List HeapOp) (hops : ∀ op ∈ ops, op.Valid size ∧ op.InSession) :
    ∃ s, (EdbHeapEngine.open (PageStore.open size) cfg).run { io := file } = (.ok (), s) ∧
      Run.Conforms TupleMap.InReach (TupleMap.Step size True)
        (HeapOp.step (PageStore.open size))
        (fun s a => EdbHeapEngine.WritesThrough (PageStore.open size) s →
          TupleMap.InReach .scan a → EdbHeapEngine.Durable (PageStore.open size) s a)
        ops s ⟨h.get, h.Issued⟩ := by
  obtain ⟨s, hrun, hh, -⟩ := EdbHeapEngine.open_holds_heap (s := { io := file }) hfile hslots
    hmin hmax hcap hcfg
  refine ⟨s, hrun, ?_⟩
  apply Run.conforms (fun op => op.Valid size ∧ op.InSession)
    (HoldsMap (PageStore.open size) True) _ (fun _ _ => EdbHeapEngine.durable) ops s _ hops
  · exact holds_map_of_heap hh (fun hno => (hno trivial).elim)
  · rintro op s a ⟨hv, hin⟩ hR hreach
    cases op with
    | insert_tuple t => exact EdbHeapEngine.step_insert hR hv
    | delete_tuple id => exact EdbHeapEngine.step_delete hR id
    | update_tuple id t => exact EdbHeapEngine.step_update hR id hv
    | scan => exact EdbHeapEngine.step_scan hR hreach
    | reopen cfg => exact hin.elim

/-- The backend fails one sync and nothing else. -/
theorem durable_with_failing_sync :
    ∃ s, (EdbHeapEngine.open (PageStore.open 33) ⟨33, 1, {}⟩).run
        { io := { faults := { sync := [.fail 0] } } } = (.ok (), s) ∧
      Run.Conforms TupleMap.InReach (TupleMap.Step 33 True) (HeapOp.step (PageStore.open 33))
        (fun s a => EdbHeapEngine.WritesThrough (PageStore.open 33) s →
          TupleMap.InReach .scan a → EdbHeapEngine.Durable (PageStore.open 33) s a)
        [.insert_tuple [1]] s ⟨Heap.get [], Heap.Issued []⟩ :=
  successful_close_is_durable 33 (by decide) (by decide) { faults := { sync := [.fail 0] } } [] []
    ⟨⟨rfl, by decide, Nat.dvd_zero _, by decide⟩, ⟨rfl, rfl, rfl⟩, by decide, by simp⟩
    ⟨rfl, by simp⟩ ⟨33, 1, {}⟩ (by decide) rfl [.insert_tuple [1]] (by
      intro op hop
      rw [List.mem_singleton] at hop
      subst hop
      exact ⟨List.cons_ne_nil _ _, trivial⟩)

/-- The write of the first close fails, the second close says success, and the
tuple is gone. -/
theorem retried_close_loses_the_tuple :
    let s0 := ((EdbHeapEngine.open (PageStore.open 33) ⟨33, 1, {}⟩).run
      { io := { faults := { write := [.fail 0] } } }).2
    let inserted := (EdbHeapEngine.insert_tuple [1]).run s0
    let first := EdbHeapEngine.close.run inserted.2
    let second := EdbHeapEngine.close.run first.2
    let opened := (EdbHeapEngine.open (PageStore.open 33) ⟨33, 1, {}⟩).run
      { io := { bytes := second.2.io.bytes } }
    inserted.1 = .ok ⟨0, 0⟩ ∧ first.1 = .error .IoError ∧ second.1 = .ok () ∧
      opened.1 = .ok () ∧ ((EdbHeapEngine.complete_scan 34).run opened.2).1 = .ok [] := by
  refine ⟨?_, ?_, ?_, ?_, ?_⟩ <;> rfl

end edb
