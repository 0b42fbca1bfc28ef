-- Tables (src/catalog/table.cpp): a heap engine with a row codec over it. An
-- insert encodes a row, and a scan decodes every live tuple.
import Mathlib.Data.Multiset.MapFold
import Edb.HeapRuns
import Edb.RowCodecLaws

namespace edb

open Call

structure TableSchema where
  relation_oid : Nat := 0
  name : Bytes := []
  columns : List ColumnSchema := []
  deriving DecidableEq, Repr

structure TableRow where
  id : TupleId
  values : List Value
  deriving DecidableEq, Repr

namespace Table

def insert (codec : RowCodec) (values : List Value) : Call Error HeapState TupleId := do
  let encoded ← .ofExcept (codec.encode values)
  EdbHeapEngine.insert_tuple encoded

/-- The loop of `scan_rows`, for at most `calls` calls of `scan_next`. -/
def scan_loop (codec : RowCodec) : Nat → Call Error ScanState (List TableRow)
  | 0 => .fail .Diverges
  | calls + 1 => do
    match ← EdbHeapEngine.scan_next with
    | none => pure []
    | some tuple => do
      let values ← .ofExcept (codec.decode tuple.data)
      let rest ← scan_loop codec calls
      pure ({ id := tuple.id, values } :: rest)

/-- A file has fewer tuples than bytes, so a scan that is not over after one
call for each byte, and one more, does not end. -/
def scan_rows (codec : RowCodec) : Call Error HeapState (List TableRow) := do
  let s ← .get
  let handle ← EdbHeapEngine.begin_scan
  let scan : Call Error ScanState (List TableRow) := do
    let rows ← scan_loop codec (s.io.bytes.length + 1)
    EdbHeapEngine.end_scan
    pure rows
  scan.zoom (fun heap => { heap, handle }) fun t _ => t.heap

def scan (codec : RowCodec) : Call Error HeapState (List (List Value)) := do
  let rows ← scan_rows codec
  pure (rows.map TableRow.values)

/-! ## What a heap holds -/

/-- The rows of tuples, up to the first that cannot be decoded. -/
def decode_rows (codec : RowCodec) : List Tuple → Result (List TableRow)
  | [] => .ok []
  | x :: rest => do
    let values ← codec.decode x.data
    let rows ← decode_rows codec rest
    pure ({ id := x.id, values } :: rows)

variable {codec : RowCodec}

theorem decode_rows_cons {x : Tuple} {rest : List Tuple} {values : List Value}
    {rows : List TableRow} (h1 : codec.decode x.data = .ok values)
    (h2 : decode_rows codec rest = .ok rows) :
    decode_rows codec (x :: rest) = .ok ({ id := x.id, values } :: rows) := by
  unfold decode_rows
  rw [h1]
  show (decode_rows codec rest >>= _) = _
  rw [h2]
  rfl

end Table

/-- The bytes of the live tuples, in no order. -/
def Heap.content (h : Heap) : Multiset Bytes := (h.live.map Tuple.data : List Bytes)

namespace Heap

theorem nodup_live (h : Heap) : h.live.Nodup := by
  refine (sorted_live h).imp ?_
  rintro a b hab rfl
  unfold TupleId.Before at hab
  omega

/-- A heap with one more tuple. -/
theorem live_perm_of_get {h h' : Heap} {id : TupleId} {t : Bytes} (hnew : h.get id = none)
    (hget : ∀ j, h'.get j = if j = id then some t else h.get j) :
    h'.live.Perm (⟨id, t⟩ :: h.live) := by
  refine (List.perm_ext_iff_of_nodup (nodup_live h') ?_).mpr fun x => ?_
  · refine List.nodup_cons.mpr ⟨fun hmem => ?_, nodup_live h⟩
    rw [mem_live] at hmem
    simp only [hnew] at hmem
    cases hmem
  · obtain ⟨j, d⟩ := x
    rw [mem_live, hget, List.mem_cons, mem_live]
    simp only
    by_cases hj : j = id
    · subst hj
      simp [hnew, eq_comm]
    · simp [hj]

theorem content_of_get {h h' : Heap} {id : TupleId} {t : Bytes} (hnew : h.get id = none)
    (hget : ∀ j, h'.get j = if j = id then some t else h.get j) :
    h'.content = t ::ₘ h.content := by
  unfold content
  rw [Multiset.coe_eq_coe.mpr ((live_perm_of_get hnew hget).map Tuple.data)]
  rfl

theorem content_of_placed {size : Nat} {t : Bytes} {m m' : List Bytes} {h h' : Heap}
    {id : TupleId} (hs : Slotted m h) (hp : Placed size t m h id m' h') :
    h'.content = t ::ₘ h.content := by
  refine content_of_get ?_ (get_of_placed hs hp)
  rcases hget : h.get id with _ | d
  · rfl
  · exact absurd (issued_of_get hget) (not_issued_of_placed hs hp)

theorem content_of_erase {h : Heap} {id : TupleId} {t : Bytes} (hget : h.get id = some t) :
    h.content = t ::ₘ (h.erase id).content := by
  refine content_of_get (by rw [get_erase, if_pos rfl]) fun j => ?_
  rw [get_erase]
  split
  · rename_i hj
    rw [hj, hget]
  · rfl

end Heap

namespace Table

open EdbHeapEngine

variable {store : PageStore} {n : Nat} {m : List Bytes} {h : Heap} {codec : RowCodec}

/-! ## Scans and inserts -/

/-- The loop gives the rows that are left, or the first error of one. -/
theorem scan_loop.spec (codec : RowCodec) {s : ScanState} (hh : HoldsHeap store n m h s.heap)
    (hio : s.heap.io.Healthy) (calls : Nat) (hreach : InReach (ahead h s.handle))
    (hcalls : (ahead h s.handle).length < calls) :
    (scan_loop codec calls).wp
      (fun r s' => decode_rows codec (ahead h s.handle) = .ok r ∧
        HoldsHeap store n m h s'.heap ∧ s.heap.io.After s'.heap.io)
      (fun e s' => decode_rows codec (ahead h s.handle) = .error e ∧
        HoldsHeap store n m h s'.heap ∧ s.heap.io.After s'.heap.io) s := by
  induction calls generalizing s with
  | zero => omega
  | succ calls ih =>
    unfold scan_loop
    rw [wp_bind]
    apply wp_mono (scan_next.spec hh)
    · rintro (_ | x) s1 ⟨h1, hafter, hnext⟩
      · rw [show ahead h s.handle = [] from hnext]
        exact (wp_pure _).mpr ⟨rfl, h1, hafter⟩
      · obtain ⟨hrest, hreach', hlen⟩ := hnext.within hreach
        rw [hrest]
        simp only
        rw [wp_bind, wp_ofExcept]
        refine ⟨fun values hv => ?_, fun e he => ⟨?_, h1, hafter⟩⟩
        · rw [wp_bind]
          apply wp_mono (ih h1 (hafter.healthy hio) hreach' (by omega))
          · rintro r s2 ⟨hr, h2, hafter2⟩
            exact (wp_pure _).mpr ⟨decode_rows_cons hv hr, h2, hafter.trans hafter2⟩
          · rintro e s2 ⟨he, h2, hafter2⟩
            refine ⟨?_, h2, hafter.trans hafter2⟩
            unfold decode_rows
            rw [hv]
            show (decode_rows codec _ >>= _) = _
            rw [he]
            rfl
        · unfold decode_rows
          rw [he]
          rfl
    · rintro e s1 ⟨-, -, -, hne⟩
      exact absurd hio.write_eq hne

/-- A scan gives the rows of the live tuples, in the order of their ids. -/
theorem scan_rows.spec {s : HeapState} (hh : HoldsHeap store n m h s) (hio : s.io.Healthy)
    (hreach : InReach h.live) (codec : RowCodec) :
    (scan_rows codec).wp
      (fun r s' => decode_rows codec h.live = .ok r ∧ HoldsHeap store n m h s' ∧
        s.io.After s'.io)
      (fun e s' => decode_rows codec h.live = .error e ∧ HoldsHeap store n m h s' ∧
        s.io.After s'.io) s := by
  have hloop := scan_loop.spec codec
    (s := { heap := s, handle := ⟨encode_cursor 0 0⟩ }) hh hio (s.io.bytes.length + 1)
  rw [ahead_start] at hloop
  unfold scan_rows begin_scan
  rw [wp_bind, wp_get, wp_bind, wp_bind]
  refine wp_check_open hh.ready ?_
  rw [wp_pure, wp_zoom, wp_bind]
  apply wp_mono (hloop hreach (Nat.lt_succ_of_le (Heap.length_live_le hh)))
  · rintro r t ⟨hr, h1, hafter⟩
    rw [wp_bind]
    unfold end_scan set_cursor
    rw [wp_modify, wp_pure]
    exact ⟨hr, h1, hafter⟩
  · exact fun e t he => he

theorem length_encode_pos {values : List Value} {tuple : Bytes}
    (h : codec.encode values = .ok tuple) : tuple ≠ [] := by
  obtain ⟨bitmap, hrun, hb, -⟩ := RowCodec.encode_of_row (RowCodec.row_of_encode h)
  rw [h] at hrun
  cases hrun
  intro hnil
  have hlen := RowCodec.length_encoded hb
  rw [hnil] at hlen
  simp only [List.length_nil, RowCodec.header_size, RowCodec.COLUMN_COUNT_BYTES] at hlen
  omega

/-- What an insert of an encoded row does on a backend that never fails. -/
theorem insert.spec {s : HeapState} (hh : HoldsHeap store n m h s) (hio : s.io.Healthy)
    {values : List Value} {tuple : Bytes} (henc : codec.encode values = .ok tuple) :
    (insert codec values).wp
      (fun id s' => s.io.After s'.io ∧ ∃ m' h', Placed store.page_size tuple m h id m' h' ∧
        HoldsHeap store n m' h' s')
      (fun e s' => s.io.After s'.io ∧ HoldsHeap store n m h s' ∧
        ((e = .OutOfMemory ∧
          store.page_size < tuple.length + heap.SLOT_SIZE + heap.PAGE_HEADER_SIZE) ∨
          (e = .Overflow ∧ 2 ^ 64 ≤ (m.length + 1) * store.page_size))) s := by
  unfold insert
  rw [wp_bind, henc, wp_ofExcept]
  refine ⟨fun a ha => ?_, fun e he => (nomatch he)⟩
  cases ha
  apply wp_mono (insert_tuple.spec hh (length_encode_pos henc)) (fun _ _ hq => hq)
  rintro e s' ⟨hafter, ⟨rfl, hsize, h1⟩ | ⟨rfl, hfull, h1⟩ | ⟨-, hne, -⟩⟩
  · exact ⟨hafter, h1, Or.inl ⟨rfl, hsize⟩⟩
  · exact ⟨hafter, h1, Or.inr ⟨rfl, hfull⟩⟩
  · exact absurd hio.write_eq hne

end Table

end edb
