-- How a scan ends. Its cursor packs 32 bits of a page id and a slot into one
-- integer. While the file has fewer than 2^32 pages, a cursor names each of its
-- pages and the place behind the last one, and a scan gives each live tuple
-- once and then nothing, however often it is called.
import Edb.ScanRuns

namespace edb

open Call

namespace EdbHeapEngine

/-- The cursors of a file with this many pages: one for each slot of each page,
and the one that is left behind the last page. -/
def CursorsExact (count : Nat) : Prop :=
  (∀ p < count, ∀ i < 2 ^ 16, cursor_page_id ⟨encode_cursor p i⟩ = p ∧
    cursor_slot_idx ⟨encode_cursor p i⟩ = i) ∧
  count ≤ cursor_page_id ⟨encode_cursor count 0⟩

theorem cursors_exact_iff (count : Nat) : CursorsExact count ↔ count < 2 ^ 32 := by
  constructor
  · rintro ⟨hpages, hlast⟩
    by_contra hbig
    rcases Nat.lt_or_eq_of_le (Nat.le_of_not_lt hbig) with hlt | heq
    · -- the page 2^32 is there, and its cursor names page 0
      obtain ⟨hpage, -⟩ := hpages (2 ^ 32) hlt 0 (by decide)
      rw [cursor_page_id_encode (by decide)] at hpage
      omega
    · rw [cursor_page_id_encode (by decide), ← heq] at hlast
      omega
  · intro hlt
    refine ⟨fun p hp i hi => ⟨?_, cursor_slot_idx_encode hi⟩, ?_⟩
    · rw [cursor_page_id_encode hi, Nat.mod_eq_of_lt (by omega)]
    · rw [cursor_page_id_encode (by decide), Nat.mod_eq_of_lt hlt]

/-- The state after this many calls of `scan_next`. -/
def after_calls (calls : Nat) (s : ScanState) : ScanState :=
  (Run.exec (fun (_ : Unit) t => scan_next.run t) (List.replicate calls ()) s).2

/-- A scan that nobody disturbs gives a tuple on each of its first calls and
nothing on every call after them. -/
def ScanEnds (s : HeapState) : Prop :=
  ∃ handle, begin_scan.run s = (.ok handle, s) ∧
    ∃ n, (∀ k < n, ∃ x, (scan_next.run (after_calls k ⟨s, handle⟩)).1 = .ok (some x)) ∧
      ∀ k, n ≤ k → (scan_next.run (after_calls k ⟨s, handle⟩)).1 = .ok none

theorem after_calls_succ (calls : Nat) (s : ScanState) :
    after_calls (calls + 1) s = (scan_next.run (after_calls calls s)).2 := by
  unfold after_calls
  rw [List.replicate_succ', Run.exec_append]
  rfl

variable {store : PageStore} {n : Nat} {m : List Bytes} {h : Heap}

/-- A call gives the first tuple ahead and leaves the others. -/
theorem scan_next_gives {s : ScanState} (hh : HoldsHeap store n m h s.heap)
    (hio : s.heap.io.Healthy) (hpages : m.length < 2 ^ 32) :
    ∃ s', scan_next.run s = (.ok (ahead h s.handle).head?, s') ∧
      HoldsHeap store n m h s'.heap ∧ s'.heap.io.Healthy ∧
      ahead h s'.handle = (ahead h s.handle).tail := by
  have hw := wp_and (scan_next.spec hh) (scan_next_handle hh)
  rcases hrun : scan_next.run s with ⟨e | r, s'⟩
  · obtain ⟨⟨-, -, -, hne⟩, -⟩ := wp_error hw hrun
    exact absurd hio.write_eq hne
  · obtain ⟨⟨h1, hafter, hnext⟩, hhandle⟩ := wp_ok hw hrun
    have hlen : m.length = h.length := hh.slotted.length
    cases r with
    | none =>
      have hrest : ahead h s.handle = [] := hnext
      refine ⟨s', by rw [hrest]; rfl, h1, hafter.healthy hio, ?_⟩
      rw [hhandle rfl, hrest]
      split
      · exact hrest
      · unfold ahead
        rw [Nat.add_sub_cancel' (by omega), cursor_page_id_encode (by decide),
          Nat.mod_eq_of_lt hpages]
        exact Heap.rest_from_past (by omega)
    | some x =>
      have hx : x.id.page_id < h.length :=
        Heap.page_lt_of_rest (show x ∈ ahead h s.handle by rw [hnext.first]; simp)
      rw [StoppedAt.left_eq hnext (by omega)]
      exact ⟨s', rfl, h1, hafter.healthy hio, rfl⟩

theorem after_calls_ahead {s : ScanState} (hh : HoldsHeap store n m h s.heap)
    (hio : s.heap.io.Healthy) (hpages : m.length < 2 ^ 32) (calls : Nat) :
    HoldsHeap store n m h (after_calls calls s).heap ∧ (after_calls calls s).heap.io.Healthy ∧
      ahead h (after_calls calls s).handle = (ahead h s.handle).drop calls := by
  induction calls with
  | zero => exact ⟨hh, hio, rfl⟩
  | succ calls ih =>
    obtain ⟨h1, hio1, hahead⟩ := ih
    obtain ⟨s', hrun, h2, hio2, hnext⟩ := scan_next_gives h1 hio1 hpages
    rw [after_calls_succ, hrun]
    refine ⟨h2, hio2, ?_⟩
    rw [hnext, hahead, List.tail_drop]

theorem begin_scan_run {s : HeapState} (hh : HoldsHeap store n m h s) :
    begin_scan.run s = (.ok ⟨encode_cursor 0 0⟩, s) := by
  unfold begin_scan check_open
  simp [run_bind, hh.ready.opened, hh.ready.page_store]

theorem scan_ends {s : HeapState} (hh : HoldsHeap store n m h s) (hio : s.io.Healthy)
    (hpages : m.length < 2 ^ 32) : ScanEnds s := by
  refine ⟨_, begin_scan_run hh, h.live.length, ?_⟩
  have hreply : ∀ k, (scan_next.run (after_calls k ⟨s, ⟨encode_cursor 0 0⟩⟩)).1 =
      .ok (h.live.drop k).head? := by
    intro k
    obtain ⟨h1, hio1, hahead⟩ := after_calls_ahead (s := ⟨s, ⟨encode_cursor 0 0⟩⟩) hh hio hpages k
    obtain ⟨s', hrun, -⟩ := scan_next_gives h1 hio1 hpages
    rw [hrun, hahead, ahead_start]
  refine ⟨fun k hk => ⟨h.live[k], ?_⟩, fun k hk => ?_⟩
  · rw [hreply, List.head?_drop, List.getElem?_eq_getElem hk]
  · rw [hreply, List.drop_eq_nil_of_le hk]
    rfl

end EdbHeapEngine

/-- In an engine that holds a heap and whose file does not fail, the cursors are
exact and a scan ends exactly where the file has fewer than 2^32 pages. -/
theorem scan_ends_iff (store : PageStore) (n : Nat) (m : List Bytes) (h : Heap) (s : HeapState)
    (hh : HoldsHeap store n m h s) (hio : s.io.Healthy) :
    (EdbHeapEngine.CursorsExact (store.pages s.io) ∧ EdbHeapEngine.ScanEnds s) ↔
      store.pages s.io < 2 ^ 32 := by
  have hcount : m.length = store.pages s.io := hh.ready.pool.frames.count
  rw [EdbHeapEngine.cursors_exact_iff]
  exact ⟨fun hboth => hboth.1, fun hlt =>
    ⟨hlt, EdbHeapEngine.scan_ends hh hio (by omega)⟩⟩

/-- The engine with one tuple, on one page of 33 bytes. -/
theorem scan_of_one_tuple_ends :
    ∃ s, (EdbHeapEngine.open (PageStore.open 33) ⟨33, 1, {}⟩).run {} = (.ok (), s) ∧
      EdbHeapEngine.ScanEnds (HeapOp.step (PageStore.open 33) (.insert_tuple [1]) s).2 := by
  have hcap : 0 < (⟨33, 1, {}⟩ : EngineConfig).buffer_pool_pages := by decide
  obtain ⟨s, hrun, hh, hio⟩ := EdbHeapEngine.open_holds_heap (s := {}) (h := [])
    (stored_empty (show 0 < 33 by decide)) ⟨rfl, by simp⟩ (by decide) (by decide) hcap rfl
  have h0 : OneOnEach 0 s := ⟨[], hh, by rw [hio]; rfl, by simp⟩
  obtain ⟨m, hh1, hio1, -⟩ := one_on_each_insert 0 s (by decide) h0
  have hcount : m.length = (PageStore.open 33).pages _ := hh1.ready.pool.frames.count
  have hlen : m.length = 1 := hh1.slotted.length
  exact ⟨s, hrun, ((scan_ends_iff _ _ _ _ _ hh1 hio1).mpr (by rw [← hcount, hlen]; decide)).2⟩

/-- With 2^32 pages the cursor behind the last page names page 0. With one page
more, and a tuple on each, no number of calls ends a scan. -/
theorem cursor_behind_the_last_page_wraps :
    EdbHeapEngine.cursor_page_id ⟨EdbHeapEngine.encode_cursor (2 ^ 32) 0⟩ = 0 ∧
      ¬ EdbHeapEngine.CursorsExact (2 ^ 32) ∧
      ∃ s, (EdbHeapEngine.open (PageStore.open 33) ⟨33, 1, {}⟩).run {} = (.ok (), s) ∧
        ∀ calls, ((EdbHeapEngine.complete_scan calls).run
          (Run.exec (HeapOp.step (PageStore.open 33))
            (List.replicate (2 ^ 32 + 1) (.insert_tuple [1])) s).2).1 = .error .Diverges := by
  refine ⟨by decide, ?_, ?_⟩
  · rw [EdbHeapEngine.cursors_exact_iff]
    decide
  · have hcap : 0 < (⟨33, 1, {}⟩ : EngineConfig).buffer_pool_pages := by decide
    obtain ⟨s, hrun, hh, hio⟩ := EdbHeapEngine.open_holds_heap (s := {}) (h := [])
      (stored_empty (show 0 < 33 by decide)) ⟨rfl, by simp⟩ (by decide) (by decide) hcap rfl
    have h0 : OneOnEach 0 s := ⟨[], hh, by rw [hio]; rfl, by simp⟩
    have hend := Run.exec_replicate OneOnEach one_on_each_insert (2 ^ 32 + 1) 0 s (by omega) h0
    exact ⟨s, hrun, scan_of_one_on_each (by omega) hend⟩

end edb
