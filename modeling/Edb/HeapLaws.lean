-- The heap engine on the map of pages of its pool. `Ready` says that an
-- engine is open and holds pages, and each call says which page it changes.
-- A call that fails leaves the pages alone, or has added a page of zeros.
import Edb.HeapEngine
import Edb.HeapPageLaws
import Edb.PoolCalls

namespace edb

open Call

/-- The engine is open on `store` and its pool holds the pages `m`. -/
structure Ready (store : PageStore) (n : Nat) (m : List Bytes) (loans : List Loan)
    (s : HeapState) : Prop where
  opened : s.engine.opened = true
  page_store : s.engine.page_store = some store
  page_size : s.engine.config.page_size = store.page_size
  frames : 0 < n
  pool : Holds store n m loans { pool := s.engine.buffer_pool, io := s.io }

namespace EdbHeapEngine

variable {α : Type} {store : PageStore} {n : Nat} {m : List Bytes} {loans : List Loan}
  {s : HeapState} {Q : α → HeapState → Prop} {E : Error → HeapState → Prop}

/-! ## The calls below the engine -/

/-- The state of the engine with another pool and file. -/
def with_pool (s : HeapState) (t : PoolState) : HeapState :=
  { engine := { s.engine with buffer_pool := t.pool }, io := t.io }

theorem Ready.with_pool {m' : List Bytes} {loans' : List Loan} {t : PoolState}
    (h : Ready store n m loans s) (ht : Holds store n m' loans' t) :
    Ready store n m' loans' (with_pool s t) :=
  ⟨h.opened, h.page_store, h.page_size, h.frames, ht⟩

theorem wp_on_pool {x : Call Error PoolState α}
    (hw : x.wp (fun a t => Q a (with_pool s t)) (fun e t => E e (with_pool s t))
      { pool := s.engine.buffer_pool, io := s.io }) : (on_pool x).wp Q E s :=
  (wp_zoom _ _ _).mpr hw

theorem wp_check_open {Q : Unit → HeapState → Prop} (h : Ready store n m loans s)
    (hq : Q () s) : check_open.wp Q E s := by
  unfold check_open
  rw [wp_bind, wp_get, h.opened, h.page_store]
  exact (wp_pure _).mpr hq

theorem wp_page_count {Q : Nat → HeapState → Prop} (h : Ready store n m loans s)
    (hq : Q m.length s) : (on_page_store PageStore.page_count).wp Q E s := by
  unfold on_page_store
  rw [wp_bind, wp_get, h.page_store]
  refine (wp_zoom _ _ _).mpr ?_
  refine wp_of_run_ok (PageStore.page_count_run h.pool.laid h.pool.reads_well.file_size) ?_
  rw [← h.pool.frames.count]
  exact hq

/-- A new page of zeros, while its bytes can be counted. -/
theorem wp_allocate {Q : Nat → HeapState → Prop} (h : Ready store n m loans s)
    (hwrap : m.length + 1 < 2 ^ 64)
    (hq : ∀ s', Ready store n (m ++ [List.replicate store.page_size 0]) loans s' →
      s.io.After s'.io → Q m.length s')
    (he : 2 ^ 64 ≤ (m.length + 1) * store.page_size → E .Overflow s) :
    (on_page_store PageStore.allocate_page).wp Q E s := by
  have hspec := BufferPool.allocate.spec h.pool hwrap
  have hrun : ∀ r t, (BufferPool.on_store PageStore.allocate_page).run
      { pool := s.engine.buffer_pool, io := s.io } = (r, t) → t.pool = s.engine.buffer_pool →
      (on_page_store PageStore.allocate_page).run s = (r, { s with io := t.io }) := by
    intro r t hr ht
    unfold on_page_store
    rw [run_bind_ok _ (run_get s), h.page_store]
    unfold BufferPool.on_store at hr
    rw [run_bind_ok _ (run_get _), h.pool.opened] at hr
    simp only [run_zoom, Prod.mk.injEq] at hr ⊢
    obtain ⟨hr1, hr2⟩ := hr
    rw [← hr1, ← hr2]
    exact ⟨rfl, rfl⟩
  rcases hr : (BufferPool.on_store PageStore.allocate_page).run
      { pool := s.engine.buffer_pool, io := s.io } with ⟨r | p, t⟩
  · obtain ⟨rfl, rfl, hle⟩ := wp_error hspec hr
    exact wp_of_run_error (hrun _ _ hr rfl) (he hle)
  · obtain ⟨rfl, hafter, hpool, hholds, -⟩ := wp_ok hspec hr
    refine wp_of_run_ok (hrun _ _ hr hpool) (hq _ ⟨h.opened, h.page_store, h.page_size,
      h.frames, ?_⟩ hafter)
    obtain ⟨pool, io⟩ := t
    simp only at hpool
    subst hpool
    exact hholds

theorem wp_frame_data {Q : Bytes → HeapState → Prop} {l : Loan} {d : Bytes}
    (h : Ready store n m (l :: loans) s) (hd : m[l.page]? = some d) (hq : Q d s) :
    (frame_data l.handle).wp Q E s := by
  have hdata := h.pool.data_of_loan (l := l) (by simp)
  rw [hd] at hdata
  unfold frame_data
  rw [wp_bind, wp_get, wp_pure]
  rw [Option.some.inj hdata] at hq
  exact hq

/-- With no other handle out, a fetch fails only past the last page or when a
write of the pool fails. -/
theorem fetch.spec (h : Ready store n m [] s) (p : Nat) :
    (on_pool (BufferPool.fetch p)).wp
      (fun handle s' => ∃ l : Loan, l.page = p ∧ l.mutated = false ∧ handle = l.handle ∧
        Ready store n m [l] s' ∧ s.io.After s'.io ∧ p < m.length)
      (fun e s' => Ready store n m [] s' ∧ s.io.After s'.io ∧
        ((e = .PageNotFound ∧ m.length ≤ p) ∨ (e = .IoError ∧ s.io.faults.write ≠ []))) s := by
  have hroom : BufferPool.Room n [] p := Or.inr ⟨0, h.frames, by simp [BufferPool.Free]⟩
  refine wp_on_pool ?_
  apply wp_mono (BufferPool.fetch.spec h.pool p)
  · rintro handle t ⟨l, hp, hm, rfl, ht, hafter, -⟩
    have hlt := BufferPool.lent_page_lt ht (l := l) (by simp)
    exact ⟨l, hp, hm, rfl, Ready.with_pool h ht, hafter, hp ▸ hlt⟩
  · rintro e t ⟨ht, hafter, ⟨-, hno⟩ | ⟨⟨rfl, hp⟩ | ⟨rfl, hlets⟩, -⟩⟩
    · exact absurd hroom hno
    · exact ⟨Ready.with_pool h ht, hafter, Or.inl ⟨rfl, hp⟩⟩
    · refine ⟨Ready.with_pool h ht, hafter, Or.inr ⟨rfl, fun hnil => ?_⟩⟩
      simp [hnil, Fault.lets] at hlets

theorem fetch_new.spec (h : Ready store n m [] s) {p : Nat} (hp : p < m.length) :
    (on_pool (BufferPool.fetch_new p)).wp
      (fun handle s' => ∃ l : Loan, l.page = p ∧ l.mutated = false ∧ handle = l.handle ∧
        Ready store n (m.set p (List.replicate store.page_size 0)) [l] s' ∧ s.io.After s'.io)
      (fun e s' => Ready store n m [] s' ∧ s.io.After s'.io ∧ e = .IoError ∧
        s.io.faults.write ≠ []) s := by
  have hroom : BufferPool.Room n [] p := Or.inr ⟨0, h.frames, by simp [BufferPool.Free]⟩
  refine wp_on_pool ?_
  apply wp_mono (BufferPool.fetch_new.spec h.pool hp)
  · rintro handle t ⟨l, hlp, hm, rfl, ht, hafter, -⟩
    exact ⟨l, hlp, hm, rfl, Ready.with_pool h ht, hafter⟩
  · rintro e t ⟨ht, hafter, ⟨-, hno⟩ | ⟨⟨rfl, hlets⟩, -⟩⟩
    · exact absurd hroom hno
    · refine ⟨Ready.with_pool h ht, hafter, rfl, fun hnil => ?_⟩
      simp [hnil, Fault.lets] at hlets

/-- The page behind a handle gets new bytes. -/
theorem set_frame_data.spec {l : Loan} {d : Bytes} (h : Ready store n m [l] s)
    (hd : d.length = store.page_size) :
    (set_frame_data l.handle d).wp
      (fun _ s' => Ready store n (m.set l.page d) [{ l with mutated := true }] s' ∧ s'.io = s.io)
      (fun _ _ => False) s := by
  unfold set_frame_data
  refine wp_on_pool ?_
  have hspec := BufferPool.mutate.spec (a := []) (b := []) (l := l) (g := fun _ => d) h.pool hd
  apply wp_mono hspec _ (fun _ _ hf => hf)
  rintro _ t ⟨ht, hio⟩
  exact ⟨Ready.with_pool h ht, hio⟩

theorem unpin.spec {l : Loan} {dirty : Bool} (h : Ready store n m [l] s)
    (hd : l.mutated = true → dirty = true) :
    (on_pool (BufferPool.unpin l.handle dirty)).wp
      (fun _ s' => Ready store n m [] s' ∧ s'.io = s.io) (fun _ _ => False) s := by
  refine wp_on_pool ?_
  have hspec := BufferPool.unpin.spec (a := []) (b := []) (l := l) h.pool hd
  apply wp_mono hspec _ (fun _ _ hf => hf)
  rintro _ t ⟨ht, hio⟩
  exact ⟨Ready.with_pool h ht, hio⟩

theorem unpin_clean.spec {l : Loan} (h : Ready store n m [l] s) (hm : l.mutated = false) :
    (unpin_clean l.handle).wp
      (fun _ s' => Ready store n m [] s' ∧ s'.io = s.io) (fun _ _ => False) s :=
  unpin.spec h (by simp [hm])

end EdbHeapEngine

end edb
