-- Scans among the calls of other clients. The cursor of a scan is packed into
-- one integer that each call reads again while pages grow, new pages come and
-- slots turn into tombstones. Whatever happens between two calls, a scan goes
-- forward, gives only what is there, and misses nothing that stays.
import Edb.Cursor
import Edb.OddPages

namespace edb

open Call EdbHeapEngine

/-! ## The tuples of a state -/

namespace EdbHeapEngine

variable {store : PageStore} {n : Nat} {m : List Bytes} {loans : List Loan} {h : Heap}

/-- The tuple with this id, from the bytes of its page at this moment. -/
def tuple_at (store : PageStore) (s : HeapState) (id : TupleId) : Option Bytes :=
  if id.page_id < store.pages s.io then
    let page := BufferPool.contents store ⟨s.engine.buffer_pool, s.io⟩ id.page_id
    match heap.is_live_slot page id.slot_idx, heap.read_tuple page id.slot_idx with
    | .ok true, .ok tuple => some tuple
    | _, _ => none
  else none

/-- The bytes of a page are those of the map of pages. -/
theorem contents_of_holds {s : PoolState} (hs : Holds store n m loans s) {p : Nat} {d : Bytes}
    (hd : m[p]? = some d) : BufferPool.contents store s p = d := by
  rcases hfind : s.pool.find_frame p with _ | i
  · have hp : p < m.length := (List.getElem?_eq_some_iff.mp hd).1
    have hstored := hs.frames.stored p hp (BufferPool.find_frame_none hfind)
    rw [BufferPool.contents_of_not_cached hfind]
    rw [hd] at hstored
    exact (Option.some.inj hstored).symm
  · obtain ⟨f, hi, hv, rfl⟩ := BufferPool.find_frame_some hfind
    rw [BufferPool.contents_of_cached hfind hi]
    have hcached := hs.frames.cached i f hi hv
    rw [hd] at hcached
    exact (Option.some.inj hcached).symm

/-- An engine that holds a heap has the tuples of the heap. -/
theorem tuple_at_eq {s : HeapState} (hh : HoldsHeap store n m h s) (id : TupleId) :
    tuple_at store s id = h.get id := by
  have hcount : m.length = store.pages s.io := hh.ready.pool.frames.count
  unfold tuple_at
  by_cases hp : id.page_id < store.pages s.io
  · rw [if_pos hp]
    obtain ⟨d, hd⟩ : ∃ d, m[id.page_id]? = some d := ⟨_, List.getElem?_eq_getElem (by omega)⟩
    obtain ⟨slots, hslots, hgood⟩ := hh.slotted.slots_of hd
    rw [contents_of_holds hh.ready.pool hd, Heap.get_eq hslots]
    rcases hslot : slots[id.slot_idx]? with _ | x
    · have hnot : ¬ id.slot_idx < slots.length := by
        simpa using List.getElem?_eq_none_iff.mp hslot
      have herror : heap.is_live_slot d id.slot_idx = .error .InvalidArgument := by
        unfold heap.is_live_slot
        rw [hgood.read_slot_eq, if_neg hnot]
        rfl
      simp only [herror]
      rfl
    · simp only [hgood.is_live_slot_eq hslot]
      cases x with
      | none => rfl
      | some t => simp only [Option.isSome_some, hgood.read_tuple_eq hslot]; rfl
  · rw [if_neg hp]
    have hnone : h[id.page_id]? = none :=
      List.getElem?_eq_none (by rw [← hh.slotted.length]; omega)
    unfold Heap.get
    rw [hnone]
    rfl

/-! ## The cursor -/

/-- The place where the next call of a scan starts. -/
def cursor (handle : ScanHandle) : TupleId := ⟨cursor_page_id handle, cursor_slot_idx handle⟩

theorem cursor_encode {p i : Nat} (hp : p < 2 ^ 32) (hi : i < 2 ^ 16) :
    cursor ⟨encode_cursor p i⟩ = ⟨p, i⟩ := by
  unfold cursor
  rw [cursor_page_id_encode hi, cursor_slot_idx_encode hi, Nat.mod_eq_of_lt hp]

theorem on_heap_handle {α : Type} (x : Call Error HeapState α) (handle : ScanHandle) :
    (on_heap x).Keeps fun s => s.handle = handle := by
  intro s hs
  refine (wp_zoom _ _ _).mpr ?_
  rcases hr : x.run s.heap with ⟨e | a, t⟩
  · exact wp_of_run_error hr hs
  · exact wp_of_run_ok hr hs

/-- A slot that gives nothing leaves the cursor alone. -/
theorem scan_slot_handle (frame : FrameHandle) (p i : Nat) (s : ScanState) :
    (scan_slot frame p i).wp (fun r s' => r = none → s'.handle = s.handle) (fun _ _ => True) s := by
  unfold scan_slot
  rw [wp_bind]
  apply wp_mono (on_heap_handle _ s.handle s rfl) _ (fun _ _ _ => trivial)
  intro data s1 hs1
  have hleave : ∀ e : Error, (do on_heap (unpin_clean frame); Call.fail e :
      Call Error ScanState (Option Tuple)).wp (fun r s' => r = none → s'.handle = s.handle)
      (fun _ _ => True) s1 := by
    intro e
    rw [wp_bind]
    exact wp_mono (on_heap_handle _ s.handle s1 hs1) (fun _ _ _ => (wp_fail _).mpr trivial)
      (fun _ _ _ => trivial)
  split
  · exact hleave _
  · exact (wp_pure _).mpr fun _ => hs1
  · split
    · exact hleave _
    · unfold set_cursor
      rw [wp_bind, wp_modify, wp_bind]
      apply wp_mono (on_heap_handle _ _ _ rfl) _ (fun _ _ _ => trivial)
      exact fun _ _ _ => (wp_pure _).mpr nofun

theorem scan_slots_handle (frame : FrameHandle) (p k i : Nat) (s : ScanState) :
    (scan_slots frame p k i).wp (fun r s' => r = none → s'.handle = s.handle)
      (fun _ _ => True) s := by
  induction k generalizing i s with
  | zero => exact (wp_pure _).mpr fun _ => rfl
  | succ k ih =>
    unfold scan_slots
    rw [wp_bind]
    apply wp_mono (scan_slot_handle frame p i s) _ (fun _ _ _ => trivial)
    intro r s1 hr
    cases r with
    | some tuple =>
      refine (wp_pure _).mpr fun hnone => ?_
      cases hnone
    | none =>
      apply wp_mono (ih (i + 1) s1) _ (fun _ _ _ => trivial)
      exact fun r' s2 hr' hnone => (hr' hnone).trans (hr rfl)

/-- Pages that give nothing take the cursor to the page behind them. -/
theorem scan_pages_handle (k p : Nat) (s : ScanState) :
    (scan_pages k p).wp
      (fun r s' => r = none →
        s'.handle = if k = 0 then s.handle else ⟨encode_cursor (p + k) 0⟩)
      (fun _ _ => True) s := by
  induction k generalizing p s with
  | zero => exact (wp_pure _).mpr fun _ => rfl
  | succ k ih =>
    unfold scan_pages
    rw [wp_bind]
    apply wp_mono (on_heap_handle _ s.handle s rfl) _ (fun _ _ _ => trivial)
    intro frame s1 hs1
    rw [wp_bind]
    apply wp_mono (on_heap_handle _ s.handle s1 hs1) _ (fun _ _ _ => trivial)
    intro data s2 hs2
    split
    · rw [wp_bind]
      exact wp_mono (on_heap_handle _ s.handle s2 hs2) (fun _ _ _ => (wp_fail _).mpr trivial)
        (fun _ _ _ => trivial)
    · rw [wp_bind, wp_get, wp_bind]
      apply wp_mono (scan_slots_handle frame p _ _ s2) _ (fun _ _ _ => trivial)
      intro r s3 _
      cases r with
      | some tuple => exact (wp_pure _).mpr nofun
      | none =>
        simp only
        rw [wp_bind]
        apply wp_mono (on_heap_handle (unpin_clean frame) s3.handle s3 rfl) _
          (fun _ _ _ => trivial)
        intro _ s4 _
        unfold set_cursor
        rw [wp_bind, wp_modify]
        apply wp_mono (ih (p + 1) _) _ (fun _ _ _ => trivial)
        intro r s5 hr hnone
        rw [hr hnone, if_neg (Nat.succ_ne_zero k)]
        split
        · rename_i hk
          rw [hk]
        · rw [show p + 1 + k = p + (k + 1) by omega]

end EdbHeapEngine

/-! ## The calls -/

/-- A call of the scan, or a call of another client. -/
inductive ScanOp where
  | scan_next
  | insert_tuple (tuple : Bytes)
  | delete_tuple (id : TupleId)
  | update_tuple (id : TupleId) (tuple : Bytes)
  deriving DecidableEq, Repr

inductive ScanReply where
  | next (r : Result (Option Tuple))
  | id (r : Result TupleId)
  | done (r : Result Unit)

namespace ScanOp

def step : ScanOp → ScanState → ScanReply × ScanState
  | .scan_next, s =>
    let r := EdbHeapEngine.scan_next.run s
    (.next r.1, r.2)
  | .insert_tuple t, s =>
    let r := (EdbHeapEngine.insert_tuple t).run s.heap
    (.id r.1, { s with heap := r.2 })
  | .delete_tuple id, s =>
    let r := (EdbHeapEngine.delete_tuple id).run s.heap
    (.done r.1, { s with heap := r.2 })
  | .update_tuple id t, s =>
    let r := (EdbHeapEngine.update_tuple id t).run s.heap
    (.id r.1, { s with heap := r.2 })

/-- Tuples are not empty. -/
def Valid : ScanOp → Prop
  | .insert_tuple t => t ≠ []
  | .update_tuple _ t => t ≠ []
  | _ => True

end ScanOp

/-- What a reply says of the scan. -/
def ScanReply.event : ScanReply → Cursor.Event TupleId Bytes
  | .next (.ok none) => .ended
  | .next (.ok (some x)) => .item x.id x.data
  | _ => .quiet

/-- The step moves the cursor of the scan as its reply says. -/
def ScanMoves (store : PageStore) (s s' : ScanState) (reply : ScanReply) : Prop :=
  Cursor.Moves TupleId.Before (fun t => tuple_at store t.heap)
    (fun t => cursor t.handle) s s' reply.event

namespace EdbHeapEngine

variable {store : PageStore} {n : Nat} {m : List Bytes} {h : Heap} {s : ScanState}

/-- What is ahead of the cursor is what is not before it. -/
theorem mem_ahead {x : Tuple} : x ∈ ahead h s.handle ↔
    h.get x.id = some x.data ∧ ¬ x.id.Before (cursor s.handle) := by
  unfold ahead
  rw [Heap.mem_rest_from]
  refine and_congr_right fun _ => ?_
  unfold TupleId.Before cursor
  simp only
  omega

/-- A call of the scan that gives nothing has nothing ahead of it. -/
theorem moves_ended {s' : ScanState} (hh : HoldsHeap store n m h s.heap)
    (hpages : store.pages s.heap.io < 2 ^ 32)
    (hrest : ahead h s.handle = [])
    (hhandle : s'.handle = if m.length - cursor_page_id s.handle = 0 then s.handle
      else ⟨encode_cursor (cursor_page_id s.handle + (m.length - cursor_page_id s.handle)) 0⟩) :
    ScanMoves store s s' (.next (.ok none)) := by
  have hcount : m.length = store.pages s.heap.io := hh.ready.pool.frames.count
  simp only [ScanMoves, ScanReply.event, Cursor.Moves]
  constructor
  · intro k hk
    rw [hhandle]
    split
    · exact hk
    · rename_i hlt
      rw [Nat.add_sub_cancel' (by omega), cursor_encode (by omega) (by decide)]
      unfold TupleId.Before cursor at hk
      unfold TupleId.Before
      simp only at hk ⊢
      omega
  · intro k b hb
    by_contra hk
    rw [tuple_at_eq hh] at hb
    have hmem := mem_ahead (s := s) (x := ⟨k, b⟩).mpr ⟨hb, hk⟩
    rw [hrest] at hmem
    cases hmem

/-- A call of the scan gives the first tuple that is ahead of it. -/
theorem moves_item {s' : ScanState} {x : Tuple} (hh : HoldsHeap store n m h s.heap)
    (hpages : store.pages s.heap.io < 2 ^ 32)
    (hstop : StoppedAt h (ahead h s.handle) x s'.handle) :
    ScanMoves store s s' (.next (.ok (some x))) := by
  have hcount : m.length = store.pages s.heap.io := hh.ready.pool.frames.count
  have hlen : m.length = h.length := hh.slotted.length
  have hx : x ∈ ahead h s.handle := by rw [hstop.first]; simp
  obtain ⟨hget, hahead⟩ := mem_ahead.mp hx
  have hpage : x.id.page_id < 2 ^ 32 := by
    have := Heap.page_lt_of_rest hx
    omega
  have hcursor : cursor s'.handle = ⟨x.id.page_id, x.id.slot_idx + 1⟩ := by
    rw [hstop.handle, cursor_encode hpage hstop.slot]
  have hbefore : ∀ j : TupleId, j.Before (cursor s'.handle) ↔ j.Before x.id ∨ j = x.id := by
    intro j
    rw [hcursor]
    obtain ⟨⟨p, i⟩, d⟩ := x
    obtain ⟨q, k⟩ := j
    simp only [TupleId.Before, TupleId.mk.injEq]
    omega
  simp only [ScanMoves, ScanReply.event, Cursor.Moves]
  refine ⟨?_, (hbefore _).mpr (Or.inr rfl), ?_, ?_⟩
  · rw [tuple_at_eq hh]
    exact hget
  · intro j hj
    have hjx : j.Before x.id := by
      unfold TupleId.Before at hj hahead ⊢
      omega
    exact ⟨hjx, (hbefore j).mpr (Or.inl hjx)⟩
  · intro j c hlive hj
    by_contra hno
    push Not at hno
    have hlive : h.get j = some c := (tuple_at_eq hh j).symm.trans hlive
    have hmem := mem_ahead (s := s) (x := ⟨j, c⟩).mpr ⟨hlive, hno.1⟩
    rw [hstop.first, List.mem_cons] at hmem
    rcases hmem with rfl | hmem
    · exact hno.2 rfl
    · -- a later tuple lies behind the cursor of after
      rw [Heap.mem_rest_from] at hmem
      rw [hcursor] at hj
      unfold TupleId.Before at hj
      simp only at hj hmem
      omega

/-- A call that gives nothing takes the cursor to the end, or leaves it there. -/
theorem scan_next_handle (hh : HoldsHeap store n m h s.heap) :
    scan_next.wp (fun r s' => r = none →
      s'.handle = if m.length - cursor_page_id s.handle = 0 then s.handle
        else ⟨encode_cursor (cursor_page_id s.handle + (m.length - cursor_page_id s.handle)) 0⟩)
      (fun _ _ => True) s := by
  unfold scan_next
  rw [wp_bind]
  refine wp_on_heap (wp_check_open hh.ready ?_)
  rw [wp_bind]
  refine wp_on_heap (wp_page_count hh.ready ?_)
  rw [wp_bind, wp_get]
  exact scan_pages_handle _ _ s

theorem scan_next_moves {a : TupleMap} (hR : HoldsMap store False s.heap a)
    (hpages : store.pages s.heap.io < 2 ^ 32) :
    HoldsMap store False (ScanOp.step .scan_next s).2.heap a ∧
      ScanMoves store s (ScanOp.step .scan_next s).2 (ScanOp.step .scan_next s).1 := by
  obtain ⟨⟨n, m, h, hh, hl, hi⟩, hH⟩ := hR
  have hio := hH id
  have hw := wp_and (scan_next.spec hh) (scan_next_handle hh)
  simp only [ScanOp.step]
  rcases hr : scan_next.run s with ⟨e | r, s'⟩
  · obtain ⟨⟨-, -, -, hne⟩, -⟩ := wp_error hw hr
    exact absurd hio.write_eq hne
  · obtain ⟨⟨h1, hafter, hnext⟩, hnone⟩ := wp_ok hw hr
    refine ⟨⟨⟨n, m, h, h1, hl, hi⟩, fun _ => hafter.healthy hio⟩, ?_⟩
    cases r with
    | none => exact moves_ended hh hpages hnext (hnone rfl)
    | some x => exact moves_item hh hpages hnext

end EdbHeapEngine

/-- Each call keeps a heap a heap and moves the cursor as it says. -/
theorem ScanOp.step_moves {store : PageStore} {s : ScanState} (op : ScanOp) (hv : op.Valid)
    (hs : ∃ a, HoldsMap store False s.heap a) (hpages : store.pages s.heap.io < 2 ^ 32) :
    (∃ a, HoldsMap store False (step op s).2.heap a) ∧
      ScanMoves store s (step op s).2 (step op s).1 := by
  obtain ⟨a, ha⟩ := hs
  cases op with
  | scan_next =>
    obtain ⟨h1, h2⟩ := scan_next_moves ha hpages
    exact ⟨⟨a, h1⟩, h2⟩
  | insert_tuple t =>
    obtain ⟨b, -, hb⟩ := step_insert ha hv
    exact ⟨⟨b, hb⟩, rfl⟩
  | delete_tuple id =>
    obtain ⟨b, -, hb⟩ := step_delete ha id
    exact ⟨⟨b, hb⟩, rfl⟩
  | update_tuple id t =>
    obtain ⟨b, -, hb⟩ := step_update ha id hv
    exact ⟨⟨b, hb⟩, rfl⟩

/-- Pages of an odd size hold no tuple. -/
theorem OddEngine.tuple_at_eq {store : PageStore} {hs : List FrameHandle} {s : HeapState}
    (h : OddEngine store hs s) (id : TupleId) : tuple_at store s id = none := by
  unfold tuple_at
  split
  · rename_i hp
    have hlen : (BufferPool.contents store ⟨s.engine.buffer_pool, s.io⟩ id.page_id).length =
        store.page_size := by
      rcases hfind : s.engine.buffer_pool.find_frame id.page_id with _ | i
      · rw [BufferPool.contents_of_not_cached hfind]
        apply seq.length_slice_of_le
        rw [← Nat.succ_mul]
        exact (Nat.mul_le_mul_right _ hp).trans (Nat.div_mul_le_self _ _)
      · obtain ⟨f, hi, -, -⟩ := BufferPool.find_frame_some hfind
        rw [BufferPool.contents_of_cached hfind hi]
        exact h.sized.at hi
    simp only [heap.is_live_slot_odd (hlen.symm ▸ h.odd) id.slot_idx]
  · rfl

/-- Over odd pages no call gives a tuple, and the cursor stays. -/
theorem ScanOp.step_moves_odd {store : PageStore} {s : ScanState} (op : ScanOp)
    (h : OddEngine store [] s.heap) :
    OddEngine store [] (step op s).2.heap ∧ ScanMoves store s (step op s).2 (step op s).1 := by
  have I := odd_invariant h.odd
  have hfails : ∀ {α : Type} {x : Call Error HeapState α}, x.wp (fun _ _ => False)
      (fun _ s' => OddEngine store [] s') s.heap → OddEngine store [] (x.run s.heap).2 := by
    intro α x hx
    rcases hr : x.run s.heap with ⟨e | a, t⟩
    · have h1 := wp_error hx hr
      exact h1
    · exact (wp_ok hx hr).elim
  cases op with
  | scan_next =>
    have hw := I.scan_next h
    simp only [step]
    rcases hr : EdbHeapEngine.scan_next.run s with ⟨e | r, s'⟩
    · obtain ⟨h1, hhandle⟩ := wp_error hw hr
      exact ⟨h1, congrArg cursor hhandle⟩
    · obtain ⟨rfl, h1, hhandle⟩ := wp_ok hw hr
      refine ⟨h1, fun k hk => ?_, fun k b hb => ?_⟩
      · simp only [hhandle]
        exact hk
      · simp only [h.tuple_at_eq] at hb
        cases hb
  | insert_tuple t => exact ⟨hfails (insert_tuple_odd h t), rfl⟩
  | delete_tuple id => exact ⟨hfails (I.delete_tuple h id), rfl⟩
  | update_tuple id t => exact ⟨hfails (I.update_tuple h id t), rfl⟩

/-! ## Every engine that a client can reach -/

/-- The engine holds a heap, or it is closed or open on pages that hold none. -/
def Reached (store : PageStore) (s : HeapState) : Prop :=
  (∃ a, HoldsMap store False s a) ∨ (heap.OddSize store.page_size ∧ Odd store s)

/-- A scan that does not end keeps the heap too. -/
theorem EdbHeapEngine.complete_scan_keeps {store : PageStore} {a : TupleMap} (calls : Nat) :
    (complete_scan calls).Keeps fun s => HoldsMap store False s a := by
  have hdrain : ∀ k, (drain k).Keeps fun s => HoldsMap store False s.heap a := by
    intro k
    induction k with
    | zero => exact keeps_fail _
    | succ k ih =>
      refine Keeps.bind ?_ fun r => ?_
      · rintro s ⟨⟨n, m, h, hh, hl, hi⟩, hH⟩
        apply wp_mono (scan_next.spec hh)
        · rintro r s1 ⟨h1, hafter, -⟩
          exact ⟨⟨n, m, h, h1, hl, hi⟩, fun hno => hafter.healthy (hH hno)⟩
        · rintro e s1 ⟨-, h1, hafter, -⟩
          exact ⟨⟨n, m, h, h1, hl, hi⟩, fun hno => hafter.healthy (hH hno)⟩
      · cases r with
        | none => exact keeps_pure _
        | some tuple => exact ih.bind fun _ => keeps_pure _
  have hcheck : check_open.Keeps fun s => HoldsMap store False s a := by
    refine keeps_get.bind fun s => ?_
    split
    · exact keeps_fail _
    · exact keeps_pure _
  refine (hcheck.bind fun _ => keeps_pure _).bind fun handle => ?_
  exact (hdrain calls).zoom (fun _ h => h) fun _ _ _ h => h

theorem HeapOp.step_reached {size : Nat} {s : HeapState} (op : HeapOp) (hv : op.Valid size)
    (h : Reached (PageStore.open size) s) :
    Reached (PageStore.open size) (step (PageStore.open size) op s).2 := by
  rcases h with ⟨a, ha⟩ | ⟨hodd, h⟩
  · left
    cases op with
    | insert_tuple t =>
      obtain ⟨b, -, hb⟩ := step_insert ha hv
      exact ⟨b, hb⟩
    | delete_tuple id =>
      obtain ⟨b, -, hb⟩ := step_delete ha id
      exact ⟨b, hb⟩
    | update_tuple id t =>
      obtain ⟨b, -, hb⟩ := step_update ha id hv
      exact ⟨b, hb⟩
    | scan => exact ⟨a, (complete_scan_keeps _).after ha⟩
    | reopen cfg =>
      obtain ⟨b, -, hb⟩ := step_reopen ha hv.1 hv.2
      exact ⟨b, hb⟩
  · exact Or.inr ⟨hodd, HeapOp.step_odd hodd op hv h⟩

/-- An engine that is opened on an empty file, with pages of any size. -/
theorem open_reached (size : Nat) (hsize : 0 < size) {cfg : EngineConfig}
    (hcap : 1 ≤ cfg.buffer_pool_pages) (hcfg : cfg.page_size = size) :
    ∃ s, (EdbHeapEngine.open (PageStore.open size) cfg).run {} = (.ok (), s) ∧
      Reached (PageStore.open size) s := by
  by_cases hodd : heap.OddSize size
  · have hodd' : heap.OddSize (PageStore.open size).page_size := hodd
    obtain ⟨_, s, hrun, hs⟩ := exists_ok_of_wp (open_odd hodd' hcap {})
    exact ⟨s, hrun, Or.inr ⟨hodd, fun _ => hs⟩⟩
  · unfold heap.OddSize at hodd
    obtain ⟨s, hrun, hh, hio⟩ := open_holds_heap (s := {}) (h := [])
      (stored_empty hsize) ⟨rfl, by simp⟩ (show heap.PAGE_HEADER_SIZE ≤ size by omega)
      (show size ≤ heap.MAX_U16 by omega) hcap hcfg
    exact ⟨s, hrun, Or.inl ⟨_, holds_map_of_heap hh fun _ => by rw [hio]; rfl⟩⟩

/-- The walk of a scan that starts in an engine that a client can reach. -/
theorem walked_of_reached {size : Nat} {s s1 : HeapState} {handle : ScanHandle}
    (hs : Reached (PageStore.open size) s)
    (hbegin : begin_scan.run s = (.ok handle, s1)) (ops : List ScanOp)
    (hops : ∀ op ∈ ops, op.Valid)
    (hpages : Run.Allowed (fun _ t => (PageStore.open size).pages t.heap.io < 2 ^ 32) ScanOp.step
      ops ⟨s1, handle⟩) :
    Cursor.Walked TupleId.Before (fun t => tuple_at (PageStore.open size) t.heap)
      (fun t => cursor t.handle) ScanOp.step ScanReply.event ops ⟨s1, handle⟩ ∧
    let t := (Run.exec ScanOp.step ops ⟨s1, handle⟩).2
    (PageStore.open size).pages t.heap.io < 2 ^ 32 →
      ScanMoves (PageStore.open size) t (ScanOp.step .scan_next t).2
        (ScanOp.step .scan_next t).1 := by
  have hsame : s1 = s ∧ handle = ⟨encode_cursor 0 0⟩ ∧ s.engine.opened = true := by
    unfold begin_scan at hbegin
    by_cases ho : s.engine.opened = true
    · obtain ⟨_, s2, hcheck, hrest⟩ := exists_of_run_bind hbegin
      have hkeeps : check_open.wp (fun _ s' => s' = s) (fun _ _ => True) s := by
        unfold check_open
        rw [wp_bind, wp_get]
        split
        · exact (wp_fail _).mpr trivial
        · exact (wp_pure _).mpr rfl
      rw [wp_ok hkeeps hcheck, run_pure] at hrest
      obtain ⟨hhandle, hstate⟩ := Prod.mk.injEq .. ▸ hrest
      exact ⟨hstate.symm, (Except.ok.inj hhandle).symm, ho⟩
    · rw [run_bind_error _ (Odd.check_closed ho)] at hbegin
      cases hbegin
  obtain ⟨rfl, rfl, ho⟩ := hsame
  have hstart : ∀ k : TupleId, ¬ k.Before
      (cursor ⟨encode_cursor 0 0⟩) := by
    intro k
    rw [cursor_encode (p := 0) (i := 0) (by decide) (by decide)]
    rintro (hp | ⟨-, hi⟩)
    · exact Nat.not_lt_zero _ hp
    · exact Nat.not_lt_zero _ hi
  have hallowed : Run.Allowed (fun op t => ScanOp.Valid op ∧
      (PageStore.open size).pages t.heap.io < 2 ^ 32) ScanOp.step ops
      ⟨s1, ⟨encode_cursor 0 0⟩⟩ :=
    Run.allowed_and hpages (Run.allowed_of_forall _ _ fun op hop _ => hops op hop)
  rcases hs with hmap | ⟨-, hodd⟩
  · obtain ⟨hJ, hw⟩ := Cursor.walked
      (s := (⟨s1, ⟨encode_cursor 0 0⟩⟩ : ScanState))
      (J := fun t : ScanState => ∃ a, HoldsMap (PageStore.open size) False t.heap a) hstart hmap
      (fun op t ht hok => ScanOp.step_moves op hok.1 ht hok.2) ops hallowed
    exact ⟨hw, fun hlt => (ScanOp.step_moves .scan_next trivial hJ hlt).2⟩
  · obtain ⟨hJ, hw⟩ := Cursor.walked
      (s := (⟨s1, ⟨encode_cursor 0 0⟩⟩ : ScanState))
      (J := fun t : ScanState => OddEngine (PageStore.open size) [] t.heap) hstart (hodd ho)
      (fun op t ht _ => ScanOp.step_moves_odd op ht) ops hallowed
    exact ⟨hw, fun _ => (ScanOp.step_moves_odd .scan_next hJ).2⟩

theorem TupleId.not_before_self (id : TupleId) : ¬ id.Before id := by
  unfold Before
  omega

/-- A scan among the calls of other clients, in any engine that a client can
reach from an empty file, with pages of any size, while the file has fewer
than 2^32 pages: the ids that it gives go up, each tuple that it gives was
there at that moment, and when it ends it has given each tuple that was there
from its beginning exactly once. -/
theorem scan_is_stable (size : Nat) (hsize : 0 < size) (cfg : EngineConfig)
    (hcap : 1 ≤ cfg.buffer_pool_pages) (hcfg : cfg.page_size = size) (earlier : List HeapOp)
    (hearlier : ∀ op ∈ earlier, op.Valid size) (ops : List ScanOp) (hops : ∀ op ∈ ops, op.Valid) :
    let store := PageStore.open size
    ∃ s, (EdbHeapEngine.open store cfg).run {} = (.ok (), s) ∧
      ∀ handle s1,
        begin_scan.run (Run.exec (HeapOp.step store) earlier s).2 =
          (.ok handle, s1) →
        Run.Allowed (fun _ t => store.pages t.heap.io < 2 ^ 32) ScanOp.step ops ⟨s1, handle⟩ →
        let run := fun pre => Run.exec ScanOp.step pre ⟨s1, handle⟩
        let given := fun pre => Cursor.items ScanReply.event (run pre).1
        (given ops).Pairwise (fun x y => x.1.Before y.1) ∧
        ∀ pre post, ops = pre ++ .scan_next :: post →
          (∀ x, (ScanOp.step .scan_next (run pre).2).1 = .next (.ok (some x)) →
            tuple_at store (run pre).2.heap x.id = some x.data) ∧
          ((ScanOp.step .scan_next (run pre).2).1 = .next (.ok none) →
            ∀ id t, Cursor.Throughout ScanOp.step
                (fun u => tuple_at store u.heap id = some t) pre ⟨s1, handle⟩ →
              (given pre).filter (fun x => x.1 = id) = [(id, t)]) := by
  intro store
  obtain ⟨s, hrun, hs⟩ := open_reached size hsize hcap hcfg
  refine ⟨s, hrun, ?_⟩
  intro handle s1 hbegin hpages run given
  have hreached := Run.keeps_of_forall (Reached store)
    (fun op t ht hop => HeapOp.step_reached op hop ht) earlier s hs hearlier
  refine ⟨(walked_of_reached hreached hbegin ops hops hpages).1.sorted, ?_⟩
  rintro pre post rfl
  obtain ⟨hpre, hlt, -⟩ := (Run.allowed_append _ _ pre _ _).mp hpages
  obtain ⟨hw, hmoves⟩ := walked_of_reached hreached hbegin pre
    (fun op hop => hops op (by simp [hop])) hpre
  have hmove : ScanMoves store (run pre).2 (ScanOp.step .scan_next (run pre).2).2
      (ScanOp.step .scan_next (run pre).2).1 := hmoves hlt
  refine ⟨fun x hx => ?_, fun hx id t hlive => ?_⟩
  · rw [hx] at hmove
    exact hmove.1
  · rw [hx] at hmove
    exact Cursor.filter_key TupleId.not_before_self hw.sorted
      (hw.given id t hlive (hmove.2 id t hlive.last))

/-- An engine with pages of 40 bytes and one frame. -/
def small_engine : HeapState := ((EdbHeapEngine.open (PageStore.open 40) ⟨40, 1, {}⟩).run {}).2

/-- A scan to which two tuples come, one of them after the scan has passed. -/
theorem scan_of_a_growing_page :
    (Cursor.items ScanReply.event (Run.exec ScanOp.step
      [.insert_tuple [1], .scan_next, .insert_tuple [2], .scan_next, .scan_next]
      ⟨small_engine, ⟨0⟩⟩).1).Pairwise fun x y => x.1.Before y.1 := by
  obtain ⟨s, hrun, hscan⟩ := scan_is_stable 40 (by decide) ⟨40, 1, {}⟩ (by decide) rfl [] (by simp)
    [.insert_tuple [1], .scan_next, .insert_tuple [2], .scan_next, .scan_next]
    (by simp [ScanOp.Valid])
  have hs : s = small_engine := by
    unfold small_engine
    rw [hrun]
  subst hs
  exact (hscan ⟨0⟩ small_engine rfl ⟨by decide, by decide +kernel, by decide +kernel,
    by decide, by decide +kernel, trivial⟩).1

end edb
