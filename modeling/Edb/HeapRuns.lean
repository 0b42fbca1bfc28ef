-- Runs of the heap engine. Whatever inserts, deletes, updates, scans and
-- reopens a client makes, the engine is a map from tuple ids to bytes that
-- never gives an id twice, as long as a scan can name every page that holds
-- a live tuple.
import Edb.HeapScans
import Edb.Run

namespace edb

open Call EdbHeapEngine

namespace EdbHeapEngine

variable {store : PageStore} {n : Nat} {m : List Bytes} {h : Heap} {s : HeapState}

/-! ## Opening and closing -/

/-- An engine that is opened on a file holds what the file holds, whatever it
was before. -/
theorem open.spec {cfg : EngineConfig} (hst : BufferPool.Stored store m s.io)
    (hcap : 0 < cfg.buffer_pool_pages) (hsize : cfg.page_size = store.page_size) :
    (EdbHeapEngine.open store cfg).wp
      (fun _ s' => Ready store cfg.buffer_pool_pages m [] s' ∧ s'.io = s.io)
      (fun _ _ => False) s := by
  unfold EdbHeapEngine.open
  rw [wp_bind, wp_modify, wp_bind, wp_attempt]
  refine wp_on_pool ?_
  refine wp_mono (BufferPool.open.spec (m := m) hst hcap) ?_ (fun _ _ hf => hf.elim)
  rintro _ t ⟨ht, hio⟩
  exact (wp_modify _).mpr ⟨⟨rfl, rfl, hsize, hcap, ht⟩, hio⟩

/-- A close that returns success has brought the pages to the file. One that
fails has closed the engine all the same, over a pool that still holds them. -/
theorem close.spec (hr : Ready store n m [] s) :
    close.wp
      (fun _ s' => s'.engine.opened = false ∧ BufferPool.Stored store m s'.io ∧
        s.io.After s'.io)
      (fun e s' => e = .IoError ∧ s'.engine.opened = false ∧ s.io.After s'.io ∧
        Holds store n m [] { pool := s'.engine.buffer_pool, io := s'.io } ∧
        ((∃ j < BufferPool.pending s.engine.buffer_pool.frames,
          Fault.lets store.page_size s.io.faults.write[j]? = false) ∨
          (BufferPool.pending s'.engine.buffer_pool.frames = 0 ∧ s.io.faults.sync ≠ []))) s := by
  unfold close
  rw [wp_bind, wp_get, hr.opened]
  simp only [Bool.not_true, Bool.false_eq_true, if_false]
  rw [wp_bind, wp_attempt]
  refine wp_on_pool ?_
  apply wp_mono (BufferPool.close.spec hr.pool)
  · rintro _ t ⟨-, hst, hafter⟩
    rw [wp_bind, wp_modify, wp_ofExcept]
    exact ⟨fun _ _ => ⟨rfl, hst, hafter⟩, fun e he => nomatch he⟩
  · rintro e t ⟨rfl, ht, hafter, hwhy⟩
    rw [wp_bind, wp_modify, wp_ofExcept]
    refine ⟨fun _ ha => (nomatch ha), fun e he => ?_⟩
    cases he
    exact ⟨rfl, rfl, hafter, ht, hwhy⟩

/-- A backend that does not fail lets every close go through. -/
theorem close_healthy (hr : Ready store n m [] s) (hio : s.io.Healthy) :
    close.wp (fun _ s' => BufferPool.Stored store m s'.io ∧ s.io.After s'.io)
      (fun _ _ => False) s := by
  apply wp_mono (close.spec hr)
  · exact fun _ _ hc => hc.2
  · rintro e s' ⟨-, -, -, -, ⟨j, -, hlets⟩ | ⟨-, hsync⟩⟩
    · rw [hio.lets] at hlets
      cases hlets
    · unfold StorageIO.Healthy at hio
      simp [hio] at hsync

/-- A retry on an engine that is closed says success and does nothing. -/
theorem close_run_closed (h : s.engine.opened = false) : close.run s = (.ok (), s) := by
  unfold close
  rw [run_bind_ok _ (run_get s), h]
  rfl

end EdbHeapEngine

/-! ## The operations of a client -/

inductive HeapOp where
  | insert_tuple (tuple : Bytes)
  | delete_tuple (id : TupleId)
  | update_tuple (id : TupleId) (tuple : Bytes)
  | scan
  | reopen (cfg : EngineConfig)
  deriving DecidableEq, Repr

inductive HeapReply where
  | id (r : Result TupleId)
  | tuples (r : Result (List Tuple))
  | done (r : Result Unit)

namespace HeapOp

/-- A scan that has not ended after one call for each byte of the file, and one
more, does not end. -/
def step (store : PageStore) : HeapOp → HeapState → HeapReply × HeapState
  | .insert_tuple t, s =>
    let r := (EdbHeapEngine.insert_tuple t).run s
    (.id r.1, r.2)
  | .delete_tuple id, s =>
    let r := (EdbHeapEngine.delete_tuple id).run s
    (.done r.1, r.2)
  | .update_tuple id t, s =>
    let r := (EdbHeapEngine.update_tuple id t).run s
    (.id r.1, r.2)
  | .scan, s =>
    let r := (EdbHeapEngine.complete_scan (s.io.bytes.length + 1)).run s
    (.tuples r.1, r.2)
  | .reopen cfg, s =>
    let r := Call.run (do EdbHeapEngine.close; EdbHeapEngine.open store cfg) s
    (.done r.1, r.2)

/-- Tuples are not empty, and an engine is reopened with the page size of its
file and at least one frame. -/
def Valid (size : Nat) : HeapOp → Prop
  | .insert_tuple t => t ≠ []
  | .update_tuple _ t => t ≠ []
  | .reopen cfg => 1 ≤ cfg.buffer_pool_pages ∧ cfg.page_size = size
  | _ => True

end HeapOp

/-! ## The map -/

/-- A map from tuple ids to bytes, and the ids that it ever gave. -/
structure TupleMap where
  live : TupleId → Option Bytes
  issued : TupleId → Prop

namespace TupleMap

def empty : TupleMap := ⟨fun _ => none, fun _ => False⟩

def add (a : TupleMap) (id : TupleId) (t : Bytes) : TupleMap :=
  ⟨Function.update a.live id (some t), fun j => j = id ∨ a.issued j⟩

def remove (a : TupleMap) (id : TupleId) : TupleMap :=
  { a with live := Function.update a.live id none }

/-- The list is the map in the order of ids, each tuple once. -/
def Lists (a : TupleMap) (xs : List Tuple) : Prop :=
  (∀ x, x ∈ xs ↔ a.live x.id = some x.data) ∧ xs.Pairwise fun x y => x.id.Before y.id

/-- What the engine may reply and where the map goes. A file of pages of `size`
bytes refuses a tuple that is too large for a page, and a file that is full
refuses any. Where writes may fail, a call may fail with `IoError`. -/
inductive Step (size : Nat) (may_fail : Prop) :
    HeapOp → HeapReply → TupleMap → TupleMap → Prop where
  | inserted {a : TupleMap} {t : Bytes} {id : TupleId} (hnew : ¬ a.issued id) :
      Step size may_fail (.insert_tuple t) (.id (.ok id)) a (a.add id t)
  | not_inserted {a : TupleMap} {t : Bytes} {e : Error}
      (hwhy : (e = .OutOfMemory ∧ size < t.length + 32) ∨ e = .Overflow ∨
        (e = .IoError ∧ may_fail)) :
      Step size may_fail (.insert_tuple t) (.id (.error e)) a a
  | deleted {a : TupleMap} {id : TupleId} {t : Bytes} (hlive : a.live id = some t) :
      Step size may_fail (.delete_tuple id) (.done (.ok ())) a (a.remove id)
  | not_deleted {a : TupleMap} {id : TupleId} {e : Error}
      (hwhy : a.live id = none ∨ (e = .IoError ∧ may_fail)) :
      Step size may_fail (.delete_tuple id) (.done (.error e)) a a
  | updated {a b c : TupleMap} {id : TupleId} {t : Bytes} {r : Result TupleId}
      (hdelete : Step size may_fail (.delete_tuple id) (.done (.ok ())) a b)
      (hinsert : Step size may_fail (.insert_tuple t) (.id r) b c) :
      Step size may_fail (.update_tuple id t) (.id r) a c
  | not_updated {a b : TupleMap} {id : TupleId} {t : Bytes} {e : Error}
      (hdelete : Step size may_fail (.delete_tuple id) (.done (.error e)) a b) :
      Step size may_fail (.update_tuple id t) (.id (.error e)) a b
  | scanned {a : TupleMap} {xs : List Tuple} (hlists : a.Lists xs) :
      Step size may_fail .scan (.tuples (.ok xs)) a a
  | not_scanned {a : TupleMap} (hfail : may_fail) :
      Step size may_fail .scan (.tuples (.error .IoError)) a a
  | reopened {a : TupleMap} {cfg : EngineConfig} :
      Step size may_fail (.reopen cfg) (.done (.ok ())) a a

/-- A scan starts only when every live tuple lies on a page below 2^32. -/
def InReach : HeapOp → TupleMap → Prop
  | .scan, a => ∀ id t, a.live id = some t → id.page_id < 2 ^ 32
  | _, _ => True

end TupleMap

/-- The engine holds the map. -/
structure HoldsMap (store : PageStore) (may_fail : Prop) (s : HeapState) (a : TupleMap) :
    Prop where
  heap : ∃ n m h, HoldsHeap store n m h s ∧ a.live = h.get ∧ a.issued = h.Issued
  healthy : ¬ may_fail → s.io.Healthy

namespace EdbHeapEngine

variable {store : PageStore} {may_fail : Prop} {s : HeapState} {a : TupleMap} {n : Nat}
  {m m' : List Bytes} {h h' : Heap}

/-- After a call, faults are to come only if they were to come before. -/
theorem may_fail_of_ne (hH : ¬ may_fail → s.io.Healthy) (hne : s.io.faults.write ≠ []) :
    may_fail := by
  by_contra hno
  exact hne (hH hno).write_eq

theorem inserted_map {t : Bytes} {id : TupleId} {size : Nat} (hs : Slotted m h)
    (hp : Placed size t m h id m' h') (hl : a.live = h.get) (hi : a.issued = h.Issued) :
    ¬ a.issued id ∧ (a.add id t).live = h'.get ∧ (a.add id t).issued = h'.Issued := by
  refine ⟨hi ▸ Heap.not_issued_of_placed hs hp, ?_, ?_⟩
  · funext j
    rw [Heap.get_of_placed hs hp]
    simp only [TupleMap.add, Function.update_apply, hl]
  · funext j
    rw [eq_iff_iff, Heap.issued_of_placed hs hp]
    simp only [TupleMap.add, hi]

theorem removed_map (id : TupleId) (hl : a.live = h.get) (hi : a.issued = h.Issued) :
    (a.remove id).live = (h.erase id).get ∧ (a.remove id).issued = (h.erase id).Issued := by
  constructor
  · funext j
    rw [Heap.get_erase]
    simp only [TupleMap.remove, Function.update_apply, hl]
  · funext j
    rw [eq_iff_iff, Heap.issued_erase]
    simp only [TupleMap.remove, hi]

/-- A page of zeros at the end holds no tuple. -/
theorem zero_page_map (h : Heap) :
    Heap.get (h ++ [[]]) = h.get ∧ Heap.Issued (h ++ [[]]) = h.Issued := by
  have hcases : ∀ p : Nat, (h ++ [[]])[p]? = h[p]? ∨
      ((h ++ [[]])[p]? = some [] ∧ h[p]? = none) := by
    intro p
    rcases Nat.lt_trichotomy p h.length with hp | rfl | hp
    · exact Or.inl (List.getElem?_append_left hp)
    · exact Or.inr ⟨by simp, by simp⟩
    · left
      rw [List.getElem?_eq_none (by simp; omega), List.getElem?_eq_none (by omega)]
  constructor
  · funext j
    unfold Heap.get
    rcases hcases j.page_id with he | ⟨he, hn⟩
    · rw [he]
    · rw [he, hn]
      rfl
  · funext j
    unfold Heap.Issued
    rcases hcases j.page_id with he | ⟨he, hn⟩
    · rw [he]
    · simp [he, hn]

theorem step_insert {t : Bytes} (hR : HoldsMap store may_fail s a) (ht : t ≠ []) :
    ∃ b, TupleMap.Step store.page_size may_fail (.insert_tuple t)
        (.id ((insert_tuple t).run s).1) a b ∧
      HoldsMap store may_fail ((insert_tuple t).run s).2 b := by
  obtain ⟨⟨n, m, h, hh, hl, hi⟩, hH⟩ := hR
  have hw := insert_tuple.spec hh ht
  rcases hr : (insert_tuple t).run s with ⟨e | id, s'⟩
  · obtain ⟨hafter, hwhy⟩ := wp_error hw hr
    have hH' : ¬ may_fail → s'.io.Healthy := fun hno => hafter.healthy (hH hno)
    rcases hwhy with ⟨rfl, hsize, h1⟩ | ⟨rfl, -, h1⟩ | ⟨rfl, hne, h1 | h1⟩
    · exact ⟨a, .not_inserted (Or.inl ⟨rfl, hsize⟩), ⟨n, m, h, h1, hl, hi⟩, hH'⟩
    · exact ⟨a, .not_inserted (Or.inr (Or.inl rfl)), ⟨n, m, h, h1, hl, hi⟩, hH'⟩
    · exact ⟨a, .not_inserted (Or.inr (Or.inr ⟨rfl, may_fail_of_ne hH hne⟩)),
        ⟨n, m, h, h1, hl, hi⟩, hH'⟩
    · obtain ⟨hz1, hz2⟩ := zero_page_map h
      exact ⟨a, .not_inserted (Or.inr (Or.inr ⟨rfl, may_fail_of_ne hH hne⟩)),
        ⟨n, _, _, h1, hl.trans hz1.symm, hi.trans hz2.symm⟩, hH'⟩
  · obtain ⟨hafter, m', h', hp, h1⟩ := wp_ok hw hr
    obtain ⟨hnew, hl', hi'⟩ := inserted_map hh.slotted hp hl hi
    exact ⟨a.add id t, .inserted hnew, ⟨n, m', h', h1, hl', hi'⟩,
      fun hno => hafter.healthy (hH hno)⟩

theorem step_delete (hR : HoldsMap store may_fail s a) (id : TupleId) :
    ∃ b, TupleMap.Step store.page_size may_fail (.delete_tuple id)
        (.done ((delete_tuple id).run s).1) a b ∧
      HoldsMap store may_fail ((delete_tuple id).run s).2 b := by
  obtain ⟨⟨n, m, h, hh, hl, hi⟩, hH⟩ := hR
  have hw := delete_tuple.spec hh id
  rcases hr : (delete_tuple id).run s with ⟨e | ⟨⟩, s'⟩
  · obtain ⟨hafter, h1, hwhy⟩ := wp_error hw hr
    refine ⟨a, .not_deleted ?_, ⟨n, m, h, h1, hl, hi⟩, fun hno => hafter.healthy (hH hno)⟩
    rcases hwhy with hnone | ⟨rfl, hne⟩
    · exact Or.inl (by rw [hl]; exact hnone)
    · exact Or.inr ⟨rfl, may_fail_of_ne hH hne⟩
  · obtain ⟨hafter, t, m', hget, h1⟩ := wp_ok hw hr
    obtain ⟨hl', hi'⟩ := removed_map id hl hi
    exact ⟨a.remove id, .deleted (t := t) (by rw [hl]; exact hget), ⟨n, m', _, h1, hl', hi'⟩,
      fun hno => hafter.healthy (hH hno)⟩

/-- An update is a delete and then an insert. -/
theorem step_update {t : Bytes} (hR : HoldsMap store may_fail s a) (id : TupleId)
    (ht : t ≠ []) :
    ∃ b, TupleMap.Step store.page_size may_fail (.update_tuple id t)
        (.id ((update_tuple id t).run s).1) a b ∧
      HoldsMap store may_fail ((update_tuple id t).run s).2 b := by
  obtain ⟨b, hdel, hb⟩ := step_delete hR id
  unfold update_tuple
  rcases hr : (delete_tuple id).run s with ⟨e | ⟨⟩, s'⟩
  · rw [hr] at hdel hb
    rw [run_bind_error _ hr]
    exact ⟨b, .not_updated hdel, hb⟩
  · rw [hr] at hdel hb
    obtain ⟨c, hins, hc⟩ := step_insert hb ht
    rw [run_bind_ok _ hr]
    exact ⟨c, .updated hdel hins, hc⟩

theorem lists_live (hl : a.live = h.get) : a.Lists h.live := by
  refine ⟨fun x => ?_, Heap.sorted_live h⟩
  rw [Heap.mem_live, hl]

theorem step_scan (hR : HoldsMap store may_fail s a) (hreach : TupleMap.InReach .scan a) :
    ∃ b, TupleMap.Step store.page_size may_fail .scan
        (.tuples ((complete_scan (s.io.bytes.length + 1)).run s).1) a b ∧
      HoldsMap store may_fail ((complete_scan (s.io.bytes.length + 1)).run s).2 b := by
  obtain ⟨⟨n, m, h, hh, hl, hi⟩, hH⟩ := hR
  have hin : InReach h.live := by
    intro x hx
    exact hreach x.id x.data (by rw [hl]; exact Heap.mem_live.mp hx)
  have hw := complete_scan.spec hh hin (Nat.lt_succ_of_le (Heap.length_live_le hh))
  rcases hr : (complete_scan (s.io.bytes.length + 1)).run s with ⟨e | xs, s'⟩
  · obtain ⟨rfl, h1, hafter, hne⟩ := wp_error hw hr
    exact ⟨a, .not_scanned (may_fail_of_ne hH hne), ⟨n, m, h, h1, hl, hi⟩,
      fun hno => hafter.healthy (hH hno)⟩
  · obtain ⟨rfl, h1, hafter⟩ := wp_ok hw hr
    exact ⟨a, .scanned (lists_live hl), ⟨n, m, h, h1, hl, hi⟩,
      fun hno => hafter.healthy (hH hno)⟩

/-- A new engine on the file holds the map of the file. -/
theorem open_holds_heap {cfg : EngineConfig} (hst : BufferPool.Stored store m s.io)
    (hs : Slotted m h) (hhead : heap.PAGE_HEADER_SIZE ≤ store.page_size)
    (hsmall : store.page_size ≤ heap.MAX_U16) (hcap : 0 < cfg.buffer_pool_pages)
    (hsize : cfg.page_size = store.page_size) :
    ∃ s', (EdbHeapEngine.open store cfg).run s = (.ok (), s') ∧
      HoldsHeap store cfg.buffer_pool_pages m h s' ∧ s'.io = s.io := by
  obtain ⟨⟨⟩, s', hrun, hr, hio⟩ := exists_ok_of_wp (open.spec hst hcap hsize)
  exact ⟨s', hrun, ⟨hr, hs, hhead, hsmall⟩, hio⟩

theorem step_reopen {cfg : EngineConfig} (hR : HoldsMap store False s a)
    (hcap : 1 ≤ cfg.buffer_pool_pages) (hsize : cfg.page_size = store.page_size) :
    ∃ b, TupleMap.Step store.page_size False (.reopen cfg)
        (.done (Call.run (do close; EdbHeapEngine.open store cfg) s).1) a b ∧
      HoldsMap store False (Call.run (do close; EdbHeapEngine.open store cfg) s).2 b := by
  obtain ⟨⟨n, m, h, hh, hl, hi⟩, hH⟩ := hR
  have hio := hH id
  obtain ⟨⟨⟩, s1, hrun1, hst, hafter⟩ := exists_ok_of_wp (close_healthy hh.ready hio)
  obtain ⟨s2, hrun2, h2, hio2⟩ := open_holds_heap hst hh.slotted hh.header hh.small hcap hsize
  rw [run_bind_ok _ hrun1, hrun2]
  exact ⟨a, .reopened, ⟨_, _, _, h2, hl, hi⟩, fun _ => by rw [hio2]; exact hafter.healthy hio⟩

end EdbHeapEngine

/-- An empty file holds no page. -/
theorem stored_empty {size : Nat} (hsize : 0 < size) :
    BufferPool.Stored (PageStore.open size) [] {} :=
  ⟨⟨rfl, hsize, Nat.dvd_zero _, by simp⟩, ⟨rfl, rfl, rfl⟩, by simp [PageStore.pages], by simp⟩

theorem holds_map_of_heap {store : PageStore} {may_fail : Prop} {s : HeapState} {n : Nat}
    {m : List Bytes} {h : Heap} (hh : HoldsHeap store n m h s)
    (hH : ¬ may_fail → s.io.Healthy) : HoldsMap store may_fail s ⟨h.get, h.Issued⟩ :=
  ⟨⟨n, m, h, hh, rfl, rfl⟩, hH⟩

theorem empty_heap_map : (⟨Heap.get [], Heap.Issued []⟩ : TupleMap) = TupleMap.empty := by
  have hget : Heap.get [] = fun _ => none := by
    funext id
    simp [Heap.get]
  have hissued : Heap.Issued [] = fun _ => False := by
    funext id
    simp [Heap.Issued]
  rw [hget, hissued]
  rfl

/-- From an empty file, the engine follows the map through every run, with any
page size from 33 to 65535, any number of frames and any policy. -/
theorem heap_engine_follows_tuple_map (size : Nat) (hmin : 33 ≤ size) (hmax : size ≤ 65535)
    (cfg : EngineConfig) (hcap : 1 ≤ cfg.buffer_pool_pages) (hcfg : cfg.page_size = size)
    (ops : List HeapOp) (hops : ∀ op ∈ ops, op.Valid size) :
    ∃ s, (EdbHeapEngine.open (PageStore.open size) cfg).run {} = (.ok (), s) ∧
      Run.Conforms TupleMap.InReach (TupleMap.Step size False)
        (HeapOp.step (PageStore.open size)) (fun _ _ => True) ops s TupleMap.empty := by
  have hst : BufferPool.Stored (PageStore.open size) [] {} := stored_empty (by omega)
  have hhead : heap.PAGE_HEADER_SIZE ≤ (PageStore.open size).page_size :=
    Nat.le_trans (by decide) hmin
  obtain ⟨s, hrun, hh, hio⟩ := open_holds_heap (s := {}) (h := []) hst
    ⟨rfl, by simp⟩ hhead hmax hcap hcfg
  refine ⟨s, hrun, ?_⟩
  apply Run.conforms (HeapOp.Valid size) (HoldsMap (PageStore.open size) False) _
    (fun _ _ _ => trivial) ops s _ hops
  · rw [← empty_heap_map]
    exact holds_map_of_heap hh (fun _ => by rw [hio]; rfl)
  · intro op s a hv hR hreach
    cases op with
    | insert_tuple t => exact step_insert hR hv
    | delete_tuple id => exact step_delete hR id
    | update_tuple id t => exact step_update hR id hv
    | scan => exact step_scan hR hreach
    | reopen cfg => exact step_reopen hR hv.1 hv.2

/-- The run below inserts, updates, reopens and scans. -/
theorem tuple_map_of_short_run :
    ∃ s, (EdbHeapEngine.open (PageStore.open 33) ⟨33, 1, {}⟩).run {} = (.ok (), s) ∧
      Run.Conforms TupleMap.InReach (TupleMap.Step 33 False) (HeapOp.step (PageStore.open 33))
        (fun _ _ => True) [.insert_tuple [1], .update_tuple ⟨0, 0⟩ [2], .reopen ⟨33, 2, {}⟩, .scan]
        s TupleMap.empty :=
  heap_engine_follows_tuple_map 33 (by decide) (by decide) ⟨33, 1, {}⟩ (by decide) rfl _ (by
    intro op hop
    simp only [List.mem_cons, List.not_mem_nil, or_false] at hop
    rcases hop with rfl | rfl | rfl | rfl
    · exact List.cons_ne_nil _ _
    · exact List.cons_ne_nil _ _
    · exact ⟨by decide, rfl⟩
    · trivial)

/-! ## A file with more pages than a cursor can name -/

/-- With pages of 33 bytes, a tuple of one byte fills a page. -/
def OneOnEach (k : Nat) (s : HeapState) : Prop :=
  ∃ m, HoldsHeap (PageStore.open 33) 1 m (List.replicate k [some [1]]) s ∧ s.io.Healthy ∧
    ∀ e ∈ m, heap.free e < 5

theorem one_on_each_insert (k : Nat) (s : HeapState) (hk : k < 2 ^ 32 + 1) (hs : OneOnEach k s) :
    OneOnEach (k + 1) (HeapOp.step (PageStore.open 33) (.insert_tuple [1]) s).2 := by
  obtain ⟨m, hh, hio, hfull⟩ := hs
  have hlen : m.length = k := by rw [hh.slotted.length, List.length_replicate]
  have hw : (insert_tuple [1]).wp (fun _ s' => OneOnEach (k + 1) s')
      (fun _ _ => False) s := by
    apply wp_mono (insert_tuple.spec hh (List.cons_ne_nil _ _))
    · rintro id s' ⟨hafter, m', h', hp, h1⟩
      cases hp with
      | @existing p d d' slots hd hslots hroom =>
        have hlt := hfull d (List.mem_of_getElem? hd)
        simp only [List.length_singleton, heap.SLOT_SIZE] at hroom
        omega
      | @new d' hfull' hfits hfree =>
        refine ⟨m ++ [d'], ?_, hafter.healthy hio, ?_⟩
        · rw [List.replicate_succ']
          exact h1
        · intro e he
          rcases List.mem_append.mp he with he | he
          · exact hfull e he
          · rw [List.mem_singleton.mp he]
            simp only [List.length_singleton, heap.SLOT_SIZE, heap.PAGE_HEADER_SIZE,
              PageStore.open] at hfree
            omega
    · rintro e s' ⟨-, ⟨-, hsize, -⟩ | ⟨-, hover, -⟩ | ⟨-, hne, -⟩⟩
      · simp [heap.SLOT_SIZE, heap.PAGE_HEADER_SIZE, PageStore.open] at hsize
      · simp only [PageStore.open] at hover
        omega
      · exact hne hio.write_eq
  obtain ⟨id, s', hrun, hs'⟩ := exists_ok_of_wp hw
  simp only [HeapOp.step, hrun]
  exact hs'

/-- The cursor keeps 32 bits of a page id, so a scan of a file with a live tuple
on page 2^32 starts over at page 0 and never ends. -/
theorem scan_of_one_on_each {s : HeapState} {k : Nat} (hk : 2 ^ 32 < k) (hs : OneOnEach k s)
    (calls : Nat) : ((complete_scan calls).run s).1 = .error .Diverges := by
  obtain ⟨m, hh, hio, -⟩ := hs
  have hlive : (⟨⟨2 ^ 32, 0⟩, [1]⟩ : Tuple) ∈ Heap.live (List.replicate k [some [1]]) := by
    have hpage : (List.replicate k [some [1]] : Heap)[2 ^ 32]? = some [some [1]] :=
      List.getElem?_replicate_of_lt hk
    rw [Heap.mem_live, Heap.get_eq hpage]
    rfl
  have hw : (complete_scan calls).wp (fun _ _ => False)
      (fun e _ => e = .Diverges) s := by
    refine wp_complete_scan hh ?_
    exact wp_mono (drain_diverges hh hio hlive (Nat.le_refl _) calls)
      (fun _ _ hf => hf.elim) (fun _ _ he => he.1)
  rcases hr : (complete_scan calls).run s with ⟨e | r, s'⟩
  · rw [wp_error hw hr]
  · exact (wp_ok hw hr).elim

/-- After 2^32 + 1 inserts of one byte into pages of 33 bytes, no number of
calls of `scan_next` ends a scan, so the run does not follow the map. -/
theorem scan_does_not_end_past_the_cursor :
    ∃ s, (EdbHeapEngine.open (PageStore.open 33) ⟨33, 1, {}⟩).run {} = (.ok (), s) ∧
      (∀ calls, ((complete_scan calls).run
        (Run.exec (HeapOp.step (PageStore.open 33))
          (List.replicate (2 ^ 32 + 1) (.insert_tuple [1])) s).2).1 = .error .Diverges) ∧
      ¬ Run.Conforms (fun _ _ => True) (TupleMap.Step 33 False)
        (HeapOp.step (PageStore.open 33)) (fun _ _ => True)
        (List.replicate (2 ^ 32 + 1) (.insert_tuple [1]) ++ [.scan]) s TupleMap.empty := by
  have hcap : 0 < (⟨33, 1, {}⟩ : EngineConfig).buffer_pool_pages := by decide
  obtain ⟨s, hrun, hh, hio⟩ := open_holds_heap (s := {}) (h := [])
    (stored_empty (show 0 < 33 by decide)) ⟨rfl, by simp⟩ (by decide) (by decide) hcap rfl
  have h0 : OneOnEach 0 s := ⟨[], hh, by rw [hio]; rfl, by simp⟩
  have hend := Run.exec_replicate OneOnEach one_on_each_insert (2 ^ 32 + 1) 0 s (by omega) h0
  have hscan := scan_of_one_on_each (by omega) hend
  refine ⟨s, hrun, hscan, fun hc => ?_⟩
  obtain ⟨a, ha⟩ := Run.conforms_append (fun _ _ => trivial) _ _ s _ hc
  obtain ⟨b, hstep, -⟩ := ha trivial
  simp only [HeapOp.step, hscan] at hstep
  cases hstep

end edb
