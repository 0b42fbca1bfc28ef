-- Runs of the clients of a buffer pool. Clients fetch pages, change the
-- bytes behind their handles, give the handles back and flush. The map of
-- pages below does the same with no frames, no policy and no file, and no
-- run can tell the two apart.
import Mathlib.Data.Finset.Card
import Edb.PoolCalls
import Edb.Run

open seq

namespace edb

open Call

/-- What a client does. A handle is named by its place among the handles that
are out, the newest first. -/
inductive PoolOp where
  | fetch (page_id : Nat)
  | fetch_new (page_id : Nat)
  | mutate (handle offset : Nat) (bytes : Bytes)
  | unpin (handle : Nat) (dirty : Bool)
  | flush (page_id : Nat)
  | flush_all
  | allocate_page
  deriving DecidableEq, Repr

/-- What a client gets back. A fetch gives the bytes behind the new handle. -/
inductive PoolReply where
  | data (r : Result Bytes)
  | page (r : Result Nat)
  | done (r : Result Unit)

/-- The pool, its file and the handles that are out. -/
structure PoolClients where
  state : PoolState
  handles : List FrameHandle := []

namespace PoolClients

def lend (x : Call Error PoolState FrameHandle) (c : PoolClients) : PoolReply × PoolClients :=
  match x.run c.state with
  | (.ok handle, s) => (.data (.ok (s.pool.data handle)), ⟨s, handle :: c.handles⟩)
  | (.error e, s) => (.data (.error e), { c with state := s })

def call (x : Call Error PoolState Unit) (c : PoolClients) : PoolReply × PoolClients :=
  match x.run c.state with
  | (r, s) => (.done r, { c with state := s })

def step : PoolOp → PoolClients → PoolReply × PoolClients
  | .fetch p, c => lend (BufferPool.fetch p) c
  | .fetch_new p, c => lend (BufferPool.fetch_new p) c
  | .mutate k offset bytes, c =>
    match c.handles[k]? with
    | none => (.done (.ok ()), c)
    | some handle => call (BufferPool.mutate handle fun data => patch data offset bytes) c
  | .unpin k dirty, c =>
    match c.handles[k]? with
    | none => (.done (.ok ()), c)
    | some handle =>
      match (BufferPool.unpin handle dirty).run c.state with
      | (.ok (), s) => (.done (.ok ()), ⟨s, c.handles.eraseIdx k⟩)
      | (.error e, s) => (.done (.error e), { c with state := s })
  | .flush p, c => call (BufferPool.flush p) c
  | .flush_all, c => call BufferPool.flush_all c
  | .allocate_page, c =>
    match (BufferPool.on_store PageStore.allocate_page).run c.state with
    | (r, s) => (.page r, { c with state := s })

end PoolClients

/-! ## The map -/

/-- A map from page ids to page bytes, with the pages that are lent and whether
their owners have changed them. -/
structure PageMap where
  pages : List Bytes
  lent : List (Nat × Bool) := []
  deriving DecidableEq, Repr

namespace PageMap

/-- At most `n` pages are lent at a time. -/
def HasRoom (n : Nat) (a : PageMap) (p : Nat) : Prop :=
  p ∈ a.lent.map Prod.fst ∨ (a.lent.map Prod.fst).toFinset.card < n

instance (n : Nat) (a : PageMap) (p : Nat) : Decidable (HasRoom n a p) :=
  inferInstanceAs (Decidable (_ ∨ _))

/-- The map of a client that has `n` frames of `size` bytes. -/
def step (n size : Nat) : PoolOp → PageMap → PoolReply × PageMap
  | .fetch p, a =>
    if HasRoom n a p then
      match a.pages[p]? with
      | some data => (.data (.ok data), { a with lent := (p, false) :: a.lent })
      | none => (.data (.error .PageNotFound), a)
    else (.data (.error .BufferPoolFull), a)
  | .fetch_new p, a =>
    let zeros := List.replicate size 0
    if HasRoom n a p then
      (.data (.ok zeros), ⟨a.pages.set p zeros, (p, false) :: a.lent⟩)
    else (.data (.error .BufferPoolFull), a)
  | .mutate k offset bytes, a =>
    match a.lent[k]? with
    | none => (.done (.ok ()), a)
    | some (p, _) =>
      (.done (.ok ()),
        ⟨a.pages.modify p fun data => patch data offset bytes, a.lent.set k (p, true)⟩)
  | .unpin k _, a => (.done (.ok ()), { a with lent := a.lent.eraseIdx k })
  | .flush _, a => (.done (.ok ()), a)
  | .flush_all, a => (.done (.ok ()), a)
  | .allocate_page, a =>
    if (a.pages.length + 1) * size < 2 ^ 64 then
      (.page (.ok a.pages.length), { a with pages := a.pages ++ [List.replicate size 0] })
    else (.page (.error .Overflow), a)

/-- The rules for clients: `fetch_new` is for pages that are allocated, a client
writes inside a page that it holds, and it unpins a page that it has changed
as dirty. The page count stays a `u64`. -/
def Lawful (size : Nat) : PoolOp → PageMap → Prop
  | .fetch_new p, a => p < a.pages.length
  | .mutate k offset bytes, a => k < a.lent.length ∧ offset + bytes.length ≤ size
  | .unpin k dirty, a => ∃ l ∈ a.lent[k]?, l.2 = true → dirty = true
  | .allocate_page, a => a.pages.length + 1 < 2 ^ 64
  | _, _ => True

/-- The pages that an operation may change: a page that it makes new, or the
page behind the handle that it writes through. -/
def changes : PoolOp → PageMap → Option Nat
  | .fetch_new p, _ => some p
  | .mutate k _ _, a => (a.lent[k]?).map Prod.fst
  | _, _ => none

end PageMap

/-! ## The map follows the pool -/

/-- The clients of the pool and the map have the same pages and handles. -/
def PoolClients.Follows (store : PageStore) (n : Nat) (c : PoolClients) (a : PageMap) : Prop :=
  ∃ loans : List Loan, Holds store n a.pages loans c.state ∧ c.state.io.Healthy ∧
    c.handles = loans.map Loan.handle ∧ a.lent = loans.map fun l => (l.page, l.mutated)

variable {store : PageStore} {n : Nat} {m : List Bytes} {loans : List Loan} {s : PoolState}

/-- As many frames as pages are lent. -/
theorem card_lent (h : Holds store n m loans s) :
    (loans.map Loan.index).toFinset.card = (loans.map Loan.page).toFinset.card := by
  have himage : (loans.map Loan.page).toFinset =
      (loans.map Loan.index).toFinset.image fun i => (s.pool.frame_at i).page_id := by
    ext p
    simp only [List.mem_toFinset, List.mem_map, Finset.mem_image]
    constructor
    · rintro ⟨l, hl, rfl⟩
      obtain ⟨f, hf, -, hp⟩ := h.frames.held l hl
      exact ⟨l.index, ⟨l, hl, rfl⟩, by rw [BufferPool.frame_at_eq hf, hp]⟩
    · rintro ⟨_, ⟨l, hl, rfl⟩, rfl⟩
      obtain ⟨f, hf, -, hp⟩ := h.frames.held l hl
      exact ⟨l, hl, by rw [BufferPool.frame_at_eq hf, hp]⟩
  rw [himage, Finset.card_image_of_injOn]
  intro i hi j hj he
  simp only [Finset.mem_coe, List.mem_toFinset, List.mem_map] at hi hj
  obtain ⟨l, hl, rfl⟩ := hi
  obtain ⟨k, hk, rfl⟩ := hj
  obtain ⟨f, hf, hfv, -⟩ := h.frames.held l hl
  obtain ⟨g, hg, hgv, -⟩ := h.frames.held k hk
  simp only [BufferPool.frame_at_eq hf, BufferPool.frame_at_eq hg] at he
  exact h.frames.distinct _ _ f g hf hg hfv hgv he

/-- The pool has room for a page when the map has. -/
theorem room_iff {a : PageMap} (h : Holds store n a.pages loans s)
    (hl : a.lent = loans.map fun l => (l.page, l.mutated)) (p : Nat) :
    BufferPool.Room n loans p ↔ a.HasRoom n p := by
  have hpages : a.lent.map Prod.fst = loans.map Loan.page := by
    rw [hl, List.map_map]
    rfl
  have hsub : (loans.map Loan.index).toFinset ⊆ Finset.range n := by
    intro i hi
    simp only [List.mem_toFinset, List.mem_map] at hi
    obtain ⟨l, hl, rfl⟩ := hi
    obtain ⟨f, hf, -, -⟩ := h.frames.held l hl
    rw [Finset.mem_range, ← h.capacity]
    exact (List.getElem?_eq_some_iff.mp hf).1
  have hfree : (∃ i < n, BufferPool.Free loans i) ↔
      (loans.map Loan.index).toFinset.card < n := by
    constructor
    · rintro ⟨i, hi, hfree⟩
      have hss : (loans.map Loan.index).toFinset ⊂ Finset.range n := by
        refine ⟨hsub, fun hall => ?_⟩
        have := hall (Finset.mem_range.mpr hi)
        simp only [List.mem_toFinset, List.mem_map] at this
        obtain ⟨l, hl, he⟩ := this
        exact hfree l hl he
      simpa using Finset.card_lt_card hss
    · intro hcard
      by_contra hno
      push Not at hno
      have hall : Finset.range n ⊆ (loans.map Loan.index).toFinset := by
        intro i hi
        have := hno i (Finset.mem_range.mp hi)
        unfold BufferPool.Free at this
        push Not at this
        obtain ⟨l, hl, he⟩ := this
        simp only [List.mem_toFinset, List.mem_map]
        exact ⟨l, hl, he⟩
      have := Finset.card_le_card hall
      simp at this
      omega
  unfold BufferPool.Room PageMap.HasRoom
  rw [hfree, card_lent h, hpages]
  simp

namespace PoolClients

variable {c : PoolClients} {a : PageMap}

theorem not_refused (h : s.io.Healthy) :
    Fault.lets store.page_size s.io.faults.write.head? ≠ false := by
  rw [List.head?_eq_getElem?, h.lets]
  simp

theorem follows_fetch (h : c.Follows store n a) (p : Nat) :
    (step (.fetch p) c).1 = (PageMap.step n store.page_size (.fetch p) a).1 ∧
      (step (.fetch p) c).2.Follows store n (PageMap.step n store.page_size (.fetch p) a).2 := by
  obtain ⟨loans, hs, hio, hh, hl⟩ := h
  have hroom := room_iff hs hl p
  have hw := BufferPool.fetch.spec hs p
  simp only [step, PageMap.step, lend]
  rcases hr : (BufferPool.fetch p).run c.state with ⟨r | r, s'⟩
  · obtain ⟨hs', hafter, ⟨rfl, hno⟩ | ⟨⟨rfl, hp⟩ | ⟨rfl, hlets⟩, hyes⟩⟩ := wp_error hw hr
    · rw [if_neg (fun hy => hno (hroom.mpr hy))]
      exact ⟨rfl, loans, hs', hafter.healthy hio, hh, hl⟩
    · rw [if_pos (hroom.mp hyes), List.getElem?_eq_none hp]
      exact ⟨rfl, loans, hs', hafter.healthy hio, hh, hl⟩
    · exact absurd hlets (not_refused hio)
  · obtain ⟨l, rfl, hmut, rfl, hs', hafter, hyes⟩ := wp_ok hw hr
    have hdata := hs'.data_of_loan (l := l) (by simp)
    rw [if_pos (hroom.mp hyes), hdata]
    refine ⟨rfl, l :: loans, hs', hafter.healthy hio, by simp [hh], ?_⟩
    rw [List.map_cons, hmut, ← hl]

theorem follows_fetch_new (h : c.Follows store n a) {p : Nat} (hp : p < a.pages.length) :
    (step (.fetch_new p) c).1 = (PageMap.step n store.page_size (.fetch_new p) a).1 ∧
      (step (.fetch_new p) c).2.Follows store n
        (PageMap.step n store.page_size (.fetch_new p) a).2 := by
  obtain ⟨loans, hs, hio, hh, hl⟩ := h
  have hroom := room_iff hs hl p
  have hw := BufferPool.fetch_new.spec hs hp
  simp only [step, PageMap.step, lend]
  rcases hr : (BufferPool.fetch_new p).run c.state with ⟨r | r, s'⟩
  · obtain ⟨hs', hafter, ⟨rfl, hno⟩ | ⟨⟨rfl, hlets⟩, hyes⟩⟩ := wp_error hw hr
    · rw [if_neg (fun hy => hno (hroom.mpr hy))]
      exact ⟨rfl, loans, hs', hafter.healthy hio, hh, hl⟩
    · exact absurd hlets (not_refused hio)
  · obtain ⟨l, rfl, hmut, rfl, hs', hafter, hyes⟩ := wp_ok hw hr
    have hdata := hs'.data_of_loan (l := l) (by simp)
    rw [List.getElem?_set_self hp] at hdata
    dsimp only
    rw [if_pos (hroom.mp hyes), ← Option.some.inj hdata]
    refine ⟨rfl, l :: loans, hs', hafter.healthy hio, by simp [hh], ?_⟩
    rw [List.map_cons, hmut, ← hl]

/-- The place of a handle among the loans. -/
theorem split_at {k : Nat} {l : Loan} (hl : loans[k]? = some l) :
    loans = loans.take k ++ l :: loans.drop (k + 1) := by
  obtain ⟨hlt, rfl⟩ := List.getElem?_eq_some_iff.mp hl
  rw [List.getElem_cons_drop, List.take_append_drop]

theorem follows_mutate (h : c.Follows store n a) {k offset : Nat} {bytes : Bytes}
    (hk : k < a.lent.length) (hin : offset + bytes.length ≤ store.page_size) :
    (step (.mutate k offset bytes) c).1 =
        (PageMap.step n store.page_size (.mutate k offset bytes) a).1 ∧
      (step (.mutate k offset bytes) c).2.Follows store n
        (PageMap.step n store.page_size (.mutate k offset bytes) a).2 := by
  obtain ⟨loans, hs, hio, hh, hl⟩ := h
  have hk' : k < loans.length := by simpa [hl] using hk
  obtain ⟨l, hget⟩ : ∃ l, loans[k]? = some l := ⟨_, List.getElem?_eq_getElem hk'⟩
  have hsplit := split_at hget
  have hdata := hs.data_of_loan (List.mem_of_getElem? hget)
  have hsize := hs.length_of_page hdata
  have hpatch : (patch (c.state.pool.data l.handle) offset bytes).length = store.page_size := by
    rw [length_patch (by omega), hsize]
  rw [hsplit] at hs
  obtain ⟨_, s', hrun, hs', hio'⟩ := exists_ok_of_wp (BufferPool.mutate.spec
    (g := fun data => patch data offset bytes) hs hpatch)
  have hstep : step (.mutate k offset bytes) c = (.done (.ok ()), { c with state := s' }) := by
    simp only [step, hh, List.getElem?_map, hget, Option.map_some, call, hrun]
  have hmap : PageMap.step n store.page_size (.mutate k offset bytes) a = (.done (.ok ()),
      ⟨a.pages.set l.page (patch (c.state.pool.data l.handle) offset bytes),
        a.lent.set k (l.page, true)⟩) := by
    simp only [PageMap.step, hl, List.getElem?_map, hget, Option.map_some]
    rw [List.modify_eq_set_getElem?, hdata]
    rfl
  rw [hstep, hmap]
  refine ⟨rfl, _, hs', hio' ▸ hio, ?_, ?_⟩
  · rw [hh]
    nth_rewrite 1 [hsplit]
    simp [Loan.handle]
  · rw [hl]
    nth_rewrite 1 [hsplit]
    simp only [List.map_append, List.map_cons]
    rw [List.set_append_right _ _ (by simp)]
    simp [Nat.min_eq_left (Nat.le_of_lt hk')]

theorem follows_unpin (h : c.Follows store n a) {k : Nat} {dirty : Bool} {l : Nat × Bool}
    (hk : a.lent[k]? = some l) (hd : l.2 = true → dirty = true) :
    (step (.unpin k dirty) c).1 = (PageMap.step n store.page_size (.unpin k dirty) a).1 ∧
      (step (.unpin k dirty) c).2.Follows store n
        (PageMap.step n store.page_size (.unpin k dirty) a).2 := by
  obtain ⟨loans, hs, hio, hh, hl⟩ := h
  rw [hl, List.getElem?_map] at hk
  obtain ⟨loan, hget, rfl⟩ := Option.map_eq_some_iff.mp hk
  have hsplit := split_at hget
  rw [hsplit] at hs
  obtain ⟨_, s', hrun, hs', hio'⟩ := exists_ok_of_wp (BufferPool.unpin.spec hs hd)
  have hstep : step (.unpin k dirty) c =
      (.done (.ok ()), ⟨s', c.handles.eraseIdx k⟩) := by
    simp only [step, hh, List.getElem?_map, hget, Option.map_some, hrun]
  rw [hstep]
  refine ⟨rfl, _, hs', hio' ▸ hio, ?_, ?_⟩
  · rw [hh, List.eraseIdx_map, List.eraseIdx_eq_take_drop_succ]
  · show a.lent.eraseIdx k = _
    rw [hl, List.eraseIdx_map, List.eraseIdx_eq_take_drop_succ]

/-- A call that keeps the map, whatever it writes, is a step of the map that
does nothing. -/
theorem follows_call {x : Call Error PoolState Unit} (h : c.Follows store n a)
    (hx : ∀ loans, Holds store n a.pages loans c.state →
      x.wp (fun _ s' => Holds store n a.pages loans s' ∧ c.state.io.After s'.io)
        (fun _ _ => False) c.state) :
    (call x c).1 = .done (.ok ()) ∧ (call x c).2.Follows store n a := by
  obtain ⟨loans, hs, hio, hh, hl⟩ := h
  obtain ⟨_, s', hrun, hs', hafter⟩ := exists_ok_of_wp (hx loans hs)
  have hcall : call x c = (.done (.ok ()), { c with state := s' }) := by
    simp only [call, hrun]
  rw [hcall]
  exact ⟨rfl, loans, hs', hafter.healthy hio, hh, hl⟩

theorem flush_healthy (hs : Holds store n m loans s) (hio : s.io.Healthy) (p : Nat) :
    (BufferPool.flush p).wp (fun _ s' => Holds store n m loans s' ∧ s.io.After s'.io)
      (fun _ _ => False) s := by
  apply wp_mono (BufferPool.flush.spec hs p) (fun _ _ h => h)
  rintro e s' ⟨-, -, -, hlets⟩
  exact not_refused hio hlets

theorem flush_all_healthy (hs : Holds store n m loans s) (hio : s.io.Healthy) :
    BufferPool.flush_all.wp
      (fun _ s' => Holds store n m loans s' ∧ s.io.After s'.io ∧
        BufferPool.pending s'.pool.frames = 0)
      (fun _ _ => False) s := by
  apply wp_mono (BufferPool.flush_all.spec hs) (fun _ _ h => h)
  rintro e s' ⟨-, -, -, ⟨j, -, hlets⟩ | ⟨-, hsync⟩⟩
  · rw [hio.lets] at hlets
    cases hlets
  · unfold StorageIO.Healthy at hio
    simp [hio] at hsync

theorem follows_allocate (h : c.Follows store n a) (hwrap : a.pages.length + 1 < 2 ^ 64) :
    (step .allocate_page c).1 = (PageMap.step n store.page_size .allocate_page a).1 ∧
      (step .allocate_page c).2.Follows store n
        (PageMap.step n store.page_size .allocate_page a).2 := by
  obtain ⟨loans, hs, hio, hh, hl⟩ := h
  have hw := BufferPool.allocate.spec hs hwrap
  simp only [step, PageMap.step]
  rcases hr : (BufferPool.on_store PageStore.allocate_page).run c.state with ⟨r | r, s'⟩
  · obtain ⟨rfl, rfl, hle⟩ := wp_error hw hr
    rw [if_neg (by omega)]
    exact ⟨rfl, loans, hs, hio, hh, hl⟩
  · obtain ⟨rfl, hafter, -, hs', hlt⟩ := wp_ok hw hr
    rw [if_pos hlt]
    exact ⟨rfl, loans, hs', hafter.healthy hio, hh, hl⟩

/-- One operation of a client is one step of the map. -/
theorem follows_step (op : PoolOp) (h : c.Follows store n a)
    (hok : PageMap.Lawful store.page_size op a) :
    (step op c).1 = (PageMap.step n store.page_size op a).1 ∧
      (step op c).2.Follows store n (PageMap.step n store.page_size op a).2 := by
  cases op with
  | fetch p => exact follows_fetch h p
  | fetch_new p => exact follows_fetch_new h hok
  | mutate k offset bytes => exact follows_mutate h hok.1 hok.2
  | unpin k dirty =>
    obtain ⟨l, hl, hd⟩ := hok
    exact follows_unpin h hl hd
  | flush p =>
    exact follows_call h fun _ hs => flush_healthy hs (by obtain ⟨_, _, hio, _⟩ := h; exact hio) p
  | flush_all =>
    refine follows_call h fun _ hs => ?_
    obtain ⟨_, _, hio, _⟩ := h
    exact wp_mono (flush_all_healthy hs hio) (fun _ _ h => ⟨h.1, h.2.1⟩) (fun _ _ h => h)
  | allocate_page => exact follows_allocate h hok

end PoolClients

/-! ## Whole runs -/

/-- The pages of a file, as a list. -/
def PageStore.contents (store : PageStore) (io : StorageIO) : List Bytes :=
  (List.range (store.pages io)).map (store.page io)

theorem stored_contents {io : StorageIO} (h : store.Laid io) (hr : io.ReadsWell) :
    BufferPool.Stored store (store.contents io) io := by
  refine ⟨h, hr, by simp [PageStore.contents], fun p d hd => ?_⟩
  unfold PageStore.contents at hd
  rw [List.getElem?_map] at hd
  obtain ⟨q, hq, rfl⟩ := Option.map_eq_some_iff.mp hd
  obtain ⟨hlt, rfl⟩ := List.getElem?_eq_some_iff.mp hq
  simp

theorem contents_of_stored {io : StorageIO} (h : BufferPool.Stored store m io) :
    store.contents io = m := by
  apply List.ext_getElem?
  intro p
  unfold PageStore.contents
  rw [List.getElem?_map]
  by_cases hp : p < m.length
  · rw [List.getElem?_range (h.count ▸ hp), Option.map_some,
      h.page p _ (List.getElem?_eq_getElem hp), List.getElem?_eq_getElem hp]
  · rw [List.getElem?_eq_none (by simp; rw [← h.count]; omega),
      List.getElem?_eq_none (by omega)]
    rfl

/-- An operation changes the bytes of no page but the one that it is for. -/
theorem PageMap.step_changes {size : Nat} (op : PoolOp) (a : PageMap) {q : Nat}
    (hq : q < a.pages.length) (hne : PageMap.changes op a ≠ some q) :
    (PageMap.step n size op a).2.pages[q]? = a.pages[q]? := by
  cases op with
  | fetch p =>
    simp only [step]
    split
    · split <;> rfl
    · rfl
  | fetch_new p =>
    have hp : p ≠ q := by simpa [changes] using hne
    simp only [step]
    split
    · exact List.getElem?_set_ne hp
    · rfl
  | mutate k offset bytes =>
    simp only [step]
    split
    · rfl
    · rename_i p _ hk
      have hp : p ≠ q := by simpa [changes, hk] using hne
      exact List.getElem?_modify_ne _ _ hp
  | unpin k dirty => rfl
  | flush p => rfl
  | flush_all => rfl
  | allocate_page =>
    simp only [step]
    split
    · exact List.getElem?_append_left hq
    · rfl

/-- Clients of a pool of any capacity and policy over a store that never fails
cannot tell it from the map, and once all handles are back a flush of all
frames brings exactly the map to the file. -/
theorem pool_refines_page_map (store : PageStore) (io : StorageIO) (cfg : BufferPoolConfig)
    (pool : BufferPool) (ops : List PoolOp) (hlaid : store.Laid io) (hio : io.Healthy)
    (hcap : 1 ≤ cfg.capacity_pages)
    (hops : Run.Allowed (PageMap.Lawful store.page_size)
      (PageMap.step cfg.capacity_pages store.page_size) ops ⟨store.contents io, []⟩) :
    ∃ s, (BufferPool.open store cfg).run ⟨pool, io⟩ = (.ok (), s) ∧
      let c := Run.exec PoolClients.step ops ⟨s, []⟩
      let a := Run.exec (PageMap.step cfg.capacity_pages store.page_size) ops
        ⟨store.contents io, []⟩
      c.1 = a.1 ∧ c.2.handles.length = a.2.lent.length ∧
        (c.2.handles = [] → ∃ s', BufferPool.flush_all.run c.2.state = (.ok (), s') ∧
          store.contents s'.io = a.2.pages) ∧
        ∀ op q, q < a.2.pages.length → PageMap.changes op a.2 ≠ some q →
          (PageMap.step cfg.capacity_pages store.page_size op a.2).2.pages[q]? =
            a.2.pages[q]? := by
  obtain ⟨_, s, hopen, hs, hsio⟩ := exists_ok_of_wp
    (BufferPool.open.spec (s := ⟨pool, io⟩) (stored_contents hlaid hio.readsWell) hcap)
  have hstart : PoolClients.Follows store cfg.capacity_pages ⟨s, []⟩ ⟨store.contents io, []⟩ :=
    ⟨[], hs, by rw [hsio]; exact hio, rfl, rfl⟩
  obtain ⟨hout, loans, hlast, hhealthy, hhandles, hlent⟩ := Run.simulates
    (PoolClients.Follows store cfg.capacity_pages)
    (fun op c a h hok => PoolClients.follows_step op h hok) ops _ _ hstart hops
  refine ⟨s, hopen, hout, by rw [hhandles, hlent]; simp, fun hnone => ?_,
    fun op q hq hne => PageMap.step_changes op _ hq hne⟩
  have hloans : loans = [] := by
    rw [hhandles] at hnone
    exact List.map_eq_nil_iff.mp hnone
  subst hloans
  obtain ⟨_, s', hrun, hs', -, hpend⟩ := exists_ok_of_wp
    (PoolClients.flush_all_healthy hlast hhealthy)
  exact ⟨s', hrun, contents_of_stored (BufferPool.stored_of_flushed hs' hpend)⟩

/-- One frame over a file of two pages: the second page takes the frame of the
first, and the change to the first is there when it is fetched again. -/
theorem page_map_of_one_frame :
    ∃ s, (BufferPool.open ⟨true, 2⟩ { capacity_pages := 1 }).run ⟨{}, ⟨[1, 2, 3, 4], {}⟩⟩ =
        (.ok (), s) ∧
      (Run.exec PoolClients.step
        [.fetch 0, .mutate 0 1 [9], .fetch 1, .unpin 0 true, .fetch 1, .unpin 0 false, .fetch 0]
        ⟨s, []⟩).1 =
        [.data (.ok [1, 2]), .done (.ok ()), .data (.error .BufferPoolFull), .done (.ok ()),
          .data (.ok [3, 4]), .done (.ok ()), .data (.ok [1, 9])] := by
  obtain ⟨s, hopen, hout, -⟩ := pool_refines_page_map ⟨true, 2⟩ ⟨[1, 2, 3, 4], {}⟩
    { capacity_pages := 1 } {}
    [.fetch 0, .mutate 0 1 [9], .fetch 1, .unpin 0 true, .fetch 1, .unpin 0 false, .fetch 0]
    ⟨rfl, by decide, by decide, by decide⟩ rfl (by decide)
    ⟨trivial, ⟨by decide, by decide⟩, trivial, ⟨_, rfl, fun _ => rfl⟩, trivial,
      ⟨_, rfl, fun h => by cases h⟩, trivial, trivial⟩
  exact ⟨s, hopen, hout⟩

end edb
