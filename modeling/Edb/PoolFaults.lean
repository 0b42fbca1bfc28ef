-- Fetches that fail because the backend failed. A page is read into the
-- buffer of the frame that it is to take, before the frame gives up the page
-- that it holds. A read that fails halfway leaves the frame valid and clean
-- with the bytes of two pages, so it loses nothing only when the frame held
-- no page or the bytes that arrived are the bytes that were there.
import Edb.PoolPins

open seq

namespace edb

open Call StorageIO

/-! ## Calls of the backend under any faults -/

namespace StorageIO

/-- The backend with other faults to come for its reads. -/
def with_reads (reads : List Fault) (io : StorageIO) : StorageIO :=
  { io with faults.read := reads }

variable {reads : List Fault}

theorem file_size_blind : file_size.Blind (with_reads reads) := by
  intro io
  show file_size (with_reads reads io) = ((file_size io).1, with_reads reads (file_size io).2)
  simp only [file_size, with_reads]
  split <;> rfl

theorem write_blind (offset : Nat) (data : Bytes) :
    (write offset data).Blind (with_reads reads) := by
  intro io
  show write offset data (with_reads reads io) =
    ((write offset data io).1, with_reads reads (write offset data io).2)
  simp only [write, with_reads, store]
  split <;> rfl

theorem file_size.any (io : StorageIO) :
    file_size.wp
      (fun size io' => io'.bytes = io.bytes ∧ io'.faults.read = io.faults.read ∧
        size = io.bytes.length)
      (fun _ io' => io'.bytes = io.bytes) io := by
  unfold wp
  obtain ⟨bytes, ⟨rs, ws, ss, ts, zs, cs⟩⟩ := io
  rcases zs with _ | ⟨_ | n | n, rest⟩
  · exact ⟨rfl, rfl, rfl⟩
  · exact ⟨rfl, rfl, rfl⟩
  · exact ⟨rfl, rfl, rfl⟩
  · rfl

/-- A read under a fault fills the front of the buffer. A short one says how
much it has read. -/
theorem read_run_fault {io : StorageIO} (buf : Bytes) (offset : Nat) {k : Nat} {fault : Fault}
    {rest : List Fault} (hfault : fault = .short k ∨ fault = .fail k)
    (hnext : io.faults.read = fault :: rest) :
    ∃ r, (read offset).run (io, buf) =
        (r, (io.with_reads rest, fill buf ((slice io.bytes offset buf.length).take k))) ∧
      ∀ count, r = .ok count → count = ((slice io.bytes offset buf.length).take k).length := by
  have hrun : ∀ r, read offset (io, buf) = r → (read offset).run (io, buf) = r := fun _ h => h
  simp only [read, hnext, List.head?_cons, List.tail_cons] at hrun
  rcases hfault with rfl | rfl
  · exact ⟨_, hrun _ rfl, fun _ h => (Except.ok.inj h).symm⟩
  · exact ⟨_, hrun _ rfl, nofun⟩

/-- Any read is one that stops after some bytes. -/
theorem read_run_any (io : StorageIO) (buf : Bytes) (offset : Nat) :
    ∃ k r, (read offset).run (io, buf) = (r, (io.with_reads io.faults.read.tail,
        fill buf ((slice io.bytes offset buf.length).take k))) ∧
      ∀ count, r = .ok count → count = ((slice io.bytes offset buf.length).take k).length := by
  have hwhole : (slice io.bytes offset buf.length).take buf.length =
      slice io.bytes offset buf.length := List.take_of_length_le (by simp)
  have hrun : ∀ r, read offset (io, buf) = r → (read offset).run (io, buf) = r := fun _ h => h
  simp only [read] at hrun
  rcases hf : io.faults.read.head? with _ | _ | n | n <;> simp only [hf] at hrun
  · refine ⟨buf.length, .ok _, ?_, fun _ h => (Except.ok.inj h).symm⟩
    rw [hwhole]
    exact hrun _ rfl
  · refine ⟨buf.length, .ok _, ?_, fun _ h => (Except.ok.inj h).symm⟩
    rw [hwhole]
    exact hrun _ rfl
  · exact ⟨n, _, hrun _ rfl, fun _ h => (Except.ok.inj h).symm⟩
  · exact ⟨n, _, hrun _ rfl, nofun⟩

end StorageIO

namespace PageStore

variable {store : PageStore} {io io' : StorageIO} {p k : Nat} {buf : Bytes}

theorem check_open_blind (f : StorageIO → StorageIO) : store.check_open.Blind f := by
  unfold check_open
  split
  · exact blind_pure _
  · exact blind_fail _

theorem validate_existing_page_blind (reads : List Fault) (p : Nat) :
    (store.validate_existing_page p).Blind (with_reads reads) := by
  have hcount : store.page_count.Blind (with_reads reads) := by
    refine (check_open_blind _).bind fun _ => StorageIO.file_size_blind.bind fun size => ?_
    split
    · exact blind_fail _
    · exact blind_pure _
  refine (check_open_blind _).bind fun _ => hcount.bind fun count => ?_
  split
  · exact blind_fail _
  · exact blind_pure _

theorem write_page_blind (reads : List Fault) (p : Nat) (buf : Bytes) :
    (store.write_page p buf).Blind (with_reads reads) := by
  refine (validate_existing_page_blind reads p).bind fun _ => (blind_ofExcept _).bind fun offset =>
    (write_blind _ _).bind fun count => ?_
  split
  · exact blind_fail _
  · exact blind_pure _

/-- Whether a page is there is asked of the size of the file alone, and the
page is inside the file when the answer is yes. -/
theorem validate_existing_page.any (io : StorageIO) (p : Nat) :
    (store.validate_existing_page p).wp
      (fun _ io' => io'.bytes = io.bytes ∧ io'.faults.read = io.faults.read ∧
        p * store.page_size + store.page_size ≤ io.bytes.length)
      (fun _ io' => io'.bytes = io.bytes) io := by
  unfold validate_existing_page page_count check_open
  by_cases ho : store.io = true
  · rw [if_pos ho, wp_bind, wp_pure, wp_bind, wp_bind, wp_pure, wp_bind]
    apply wp_mono (file_size.any io) _ (fun _ _ h => h)
    rintro size io' ⟨hbytes, hreads, rfl⟩
    split
    · exact (wp_fail _).mpr hbytes
    · rename_i hmod
      rw [wp_pure]
      split
      · exact (wp_fail _).mpr hbytes
      · rename_i hp
        refine (wp_pure _).mpr ⟨hbytes, hreads, ?_⟩
        rw [← Nat.succ_mul]
        exact (Nat.mul_le_mul_right _ (by omega)).trans (Nat.div_mul_le_self _ store.page_size)
  · rw [if_neg ho, wp_bind]
    exact (wp_fail _).mpr rfl

theorem byte_offset_eq {offset : Nat} (h : store.byte_offset_for_page p = .ok offset) :
    offset = p * store.page_size := by
  unfold byte_offset_for_page at h
  rw [byte_size_for_page_count_eq] at h
  split at h
  · cases h
  · exact (Except.ok.inj h).symm

/-- A page that was read is the page of the file, whatever the faults were. -/
theorem read_page.any (io : StorageIO) (hbuf : buf.length = store.page_size) (p : Nat) :
    (store.read_page p).wp
      (fun _ t => t.1.bytes = io.bytes ∧ t.2.length = store.page_size ∧ t.2 = store.page io p)
      (fun _ t => t.1.bytes = io.bytes ∧ t.2.length = store.page_size) (io, buf) := by
  have htake : buf.take store.page_size = buf := List.take_of_length_le (by omega)
  have hdrop : buf.drop store.page_size = [] := List.drop_eq_nil_of_le (by omega)
  unfold read_page
  rw [wp_bind, beside_buf, wp_zoom]
  apply wp_mono (validate_existing_page.any io p)
  · rintro _ io1 ⟨hbytes, -, -⟩
    rw [wp_bind, wp_ofExcept]
    refine ⟨fun offset hoff => ?_, fun _ _ => ⟨hbytes, hbuf⟩⟩
    rw [byte_offset_eq hoff, wp_bind, wp_zoom]
    dsimp only
    rw [htake, hdrop]
    obtain ⟨k, r, hrun, hcount⟩ := StorageIO.read_run_any io1 buf (p * store.page_size)
    have hpage : slice io1.bytes (p * store.page_size) buf.length = store.page io p := by
      rw [hbytes, hbuf]
      rfl
    rw [hpage] at hrun hcount
    have hle : ((store.page io p).take k).length ≤ store.page_size := by
      rw [← hpage, ← hbuf]
      simp
    have hlen : (fill buf ((store.page io p).take k)).length = store.page_size := by
      rw [length_fill (by omega), hbuf]
    rcases r with e | count
    · refine wp_of_run_error hrun ⟨hbytes, ?_⟩
      rw [List.append_nil, hlen]
    · refine wp_of_run_ok hrun ?_
      have hc := hcount count rfl
      simp only [List.append_nil]
      split
      · exact (wp_fail _).mpr ⟨hbytes, hlen⟩
      · rename_i heq
        refine (wp_pure _).mpr ⟨hbytes, hlen, ?_⟩
        rw [fill_of_length (by omega)]
        apply List.take_of_length_le
        have hmax : (store.page io p).length ≤ store.page_size := by
          rw [← hpage, ← hbuf]
          simp
        rw [List.length_take] at hc
        omega
  · exact fun _ io1 hbytes => ⟨hbytes, hbuf⟩

/-- The read of a page that fails under a fault, and that goes through without
it, leaves the first `k` bytes of the page in the buffer. -/
theorem read_page_fault {fault : Fault} {rest : List Fault} {e : Error}
    {w t : StorageIO × Bytes} (hbuf : buf.length = store.page_size)
    (hfault : fault = .short k ∨ fault = .fail k) (hnext : io.faults.read = fault :: rest)
    (hwell : (store.read_page p).run (io.with_reads (.none :: rest), buf) = (.ok (), w))
    (hfail : (store.read_page p).run (io, buf) = (.error e, t)) :
    t.1.bytes = io.bytes ∧ t.2 = StorageIO.fill buf ((store.page io p).take k) := by
  have htake : buf.take store.page_size = buf := List.take_of_length_le (by omega)
  have hdrop : buf.drop store.page_size = [] := List.drop_eq_nil_of_le (by omega)
  unfold read_page at hwell hfail
  -- up to the read of the bytes both runs do the same
  have hblind : (beside_buf (store.validate_existing_page p)).Blind
      fun t => (t.1.with_reads (.none :: rest), t.2) :=
    (validate_existing_page_blind (.none :: rest) p).zoom (fun _ => rfl) fun _ _ => rfl
  obtain ⟨_, w1, hvalid, hwell1⟩ := exists_of_run_bind hwell
  obtain ⟨⟨io1, buf1⟩, hvalid1, rfl⟩ := hblind.run_ok (s := (io, buf)) hvalid
  rw [run_bind_ok _ hvalid1] at hfail
  have hkept : (beside_buf (store.validate_existing_page p)).wp
      (fun _ t => t.1.bytes = io.bytes ∧ t.1.faults.read = io.faults.read ∧ t.2 = buf)
      (fun _ _ => True) (io, buf) := by
    rw [beside_buf, wp_zoom]
    apply wp_mono (validate_existing_page.any io p) _ (fun _ _ _ => trivial)
    exact fun _ io1 h => ⟨h.1, h.2.1, rfl⟩
  obtain ⟨hbytes, hreads, hsame⟩ := wp_ok hkept hvalid1
  have hsame : buf1 = buf := hsame
  subst hsame
  obtain ⟨offset, w2, hoff, -⟩ := exists_of_run_bind hwell1
  rw [run_ofExcept] at hoff
  obtain ⟨hoff, -⟩ := Prod.mk.injEq .. ▸ hoff
  rw [run_bind_ok _ (by rw [run_ofExcept, hoff])] at hfail
  rw [byte_offset_eq hoff] at hfail
  have hpage : slice io1.bytes (p * store.page_size) buf1.length = store.page io p := by
    rw [hbytes, hbuf]
    rfl
  obtain ⟨r, hrun, -⟩ := StorageIO.read_run_fault buf1 (p * store.page_size) hfault
    (hreads.trans hnext)
  rw [hpage] at hrun
  have hzoom := run_zoom (fun s : StorageIO × Bytes => (s.1, s.2.take store.page_size))
    (fun t s => (t.1, t.2 ++ s.2.drop store.page_size))
    (read (p * store.page_size)) (io1, buf1)
  simp only [htake, hdrop, hrun, List.append_nil] at hzoom
  rcases r with e' | count
  · rw [run_bind_error _ hzoom] at hfail
    cases hfail
    exact ⟨hbytes, rfl⟩
  · rw [run_bind_ok _ hzoom] at hfail
    split at hfail
    · cases hfail
      exact ⟨hbytes, rfl⟩
    · cases hfail

/-- A page that was written is patched into the file, whatever the faults were. -/
theorem write_page.any (io : StorageIO) (hbuf : buf.length = store.page_size) (p : Nat) :
    (store.write_page p buf).wp
      (fun _ io' => io'.bytes = patch io.bytes (p * store.page_size) buf ∧
        io'.faults.read = io.faults.read ∧
        p * store.page_size + store.page_size ≤ io.bytes.length)
      (fun _ _ => True) io := by
  unfold write_page
  rw [wp_bind]
  apply wp_mono (validate_existing_page.any io p) _ (fun _ _ _ => trivial)
  rintro _ io1 ⟨hbytes, hreads, hin⟩
  rw [wp_bind, wp_ofExcept]
  refine ⟨fun offset hoff => ?_, fun _ _ => trivial⟩
  rw [byte_offset_eq hoff, List.take_of_length_le (by omega), wp_bind]
  have hwrite : (write (p * store.page_size) buf).wp
      (fun count io' => count = store.page_size →
        io'.bytes = patch io.bytes (p * store.page_size) buf ∧
          io'.faults.read = io.faults.read)
      (fun _ _ => True) io1 := by
    have hstore : patch (extend io1.bytes (p * store.page_size + buf.length))
        (p * store.page_size) buf = patch io.bytes (p * store.page_size) buf := by
      rw [hbytes, StorageIO.extend_of_le (by omega)]
    unfold wp
    obtain ⟨bytes, ⟨rs, ws, ss, ts, zs, cs⟩⟩ := io1
    rcases ws with _ | ⟨_ | n | n, rest⟩
    · exact fun _ => ⟨hstore, hreads⟩
    · exact fun _ => ⟨hstore, hreads⟩
    · intro hn
      have hall : buf.take n = buf := by
        apply List.take_of_length_le
        rw [List.length_take] at hn
        omega
      refine ⟨?_, hreads⟩
      show patch (extend bytes (p * store.page_size + (buf.take n).length)) _
        (buf.take n) = _
      rw [hall]
      exact hstore
    · trivial
  apply wp_mono hwrite _ (fun _ _ _ => trivial)
  intro count io2 hcount
  split
  · exact (wp_fail _).mpr trivial
  · rename_i hne
    obtain ⟨hb, hr⟩ := hcount (not_not.mp hne)
    exact (wp_pure _).mpr ⟨hb, hr, hin⟩

end PageStore

/-! ## Buffers keep their size -/

/-- The pool is open on `store`, and every buffer has the size of a page. -/
structure Sized (store : PageStore) (s : PoolState) : Prop where
  opened : s.pool.store = some store
  sized : ∀ f ∈ s.pool.frames, f.data.length = store.page_size

/-- The operation writes inside a page. A client has no more than that behind
its handle. -/
def PoolOp.Inside (size : Nat) : PoolOp → Prop
  | .mutate _ offset bytes => offset + bytes.length ≤ size
  | _ => True

variable {store : PageStore} {s s1 : PoolState} {hs : List FrameHandle} {i p q k : Nat} {f : Frame}

theorem Sized.at (h : Sized store s) (hi : s.pool.frames[i]? = some f) :
    f.data.length = store.page_size := h.sized f (List.mem_of_getElem? hi)

namespace BufferPool

theorem update_frame_sized {g : Frame → Frame}
    (hg : ∀ f, f.data.length = store.page_size → (g f).data.length = store.page_size) :
    (update_frame i g).Keeps (Sized store) := by
  refine keeps_modify fun t h => ⟨h.opened, fun f hf => ?_⟩
  rcases mem_update hf with hf | ⟨f0, hf0, -, rfl⟩
  · exact h.sized f hf
  · exact hg f0 (h.sized f0 hf0)

theorem on_policy_sized {α : Type} (x : Call Error EvictionPolicy α) :
    (on_policy x).Keeps (Sized store) := on_policy_keeps x fun _ _ h => ⟨h.opened, h.sized⟩

theorem on_store_sized {α : Type} (x : PageStore → Call Error StorageIO α) :
    (on_store x).Keeps (Sized store) := by
  refine keeps_get_bind fun t h => ?_
  rw [h.opened]
  have hx : (x store).Keeps fun _ => True := fun _ _ => by
    rcases hr : (x store).run _ with ⟨e | a, io⟩
    · exact wp_of_run_error hr trivial
    · exact wp_of_run_ok hr trivial
  exact hx.zoom (fun _ _ => trivial) (fun _ _ h _ => ⟨h.opened, h.sized⟩) t h

theorem write_back_if_dirty_sized (i : Nat) : (write_back_if_dirty i).Keeps (Sized store) := by
  refine keeps_get.bind fun t => ?_
  dsimp only
  split
  · exact keeps_pure _
  · exact (on_store_sized _).bind fun _ => update_frame_sized fun _ h => h

/-- A read into frame `i` gives it the bytes of the page, or leaves as many
bytes as there were. -/
theorem read_into_frame.any (h : Sized store s) (hi : s.pool.frames[i]? = some f) (p : Nat) :
    (read_into_frame i p).wp
      (fun _ t => t.pool = { s.pool with
          frames := s.pool.frames.set i { f with data := store.page s.io p } } ∧
        t.io.bytes = s.io.bytes ∧ (store.page s.io p).length = store.page_size)
      (fun _ t => ∃ d, d.length = store.page_size ∧ t.io.bytes = s.io.bytes ∧
        t.pool = { s.pool with frames := s.pool.frames.set i { f with data := d } }) s := by
  unfold read_into_frame
  rw [wp_bind, wp_get, h.opened]
  simp only
  rw [wp_zoom, frame_at_eq hi]
  apply wp_mono (PageStore.read_page.any s.io (h.at hi) p)
  · rintro _ ⟨io, d⟩ ⟨hbytes, hlen, rfl⟩
    exact ⟨by rw [h.opened], hbytes, hlen⟩
  · rintro e ⟨io, d⟩ ⟨hbytes, hlen⟩
    exact ⟨d, hlen, hbytes, by rw [h.opened]⟩

theorem read_into_frame_sized (i p : Nat) : (read_into_frame i p).Keeps (Sized store) := by
  intro t h
  have hset : ∀ (t' : PoolState) (f : Frame) (d : Bytes), d.length = store.page_size →
      t'.pool = { t.pool with frames := t.pool.frames.set i { f with data := d } } →
      Sized store t' := by
    intro t' f d hd ht'
    refine ⟨by rw [ht']; exact h.opened, fun g hg => ?_⟩
    rw [ht'] at hg
    rcases List.mem_or_eq_of_mem_set hg with hg | rfl
    · exact h.sized g hg
    · exact hd
  rcases hi : t.pool.frames[i]? with _ | f
  · -- there is no such frame, so nothing is stored
    have hnone : ∀ f, t.pool.frames.set i f = t.pool.frames := fun f =>
      List.set_eq_of_length_le (List.getElem?_eq_none_iff.mp hi)
    unfold read_into_frame
    rw [wp_bind, wp_get, h.opened]
    simp only
    rw [wp_zoom]
    rcases hr : (store.read_page p).run (t.io, (t.pool.frame_at i).data) with ⟨e | a, r⟩
    · refine wp_of_run_error hr ⟨by rw [h.opened], fun g hg => ?_⟩
      exact h.sized g (hnone _ ▸ hg)
    · refine wp_of_run_ok hr ⟨by rw [h.opened], fun g hg => ?_⟩
      exact h.sized g (hnone _ ▸ hg)
  · apply wp_mono (read_into_frame.any h hi p)
    · exact fun _ t' ht' => hset t' f _ ht'.2.2 ht'.1
    · rintro _ t' ⟨d, hd, -, ht'⟩
      exact hset t' f d hd ht'

theorem kept_sized : Kept (Sized store) fun g => ∀ f,
    f.data.length = store.page_size → (g f).data.length = store.page_size :=
  .of_policy (fun _ _ h => ⟨h.opened, h.sized⟩) (fun _ _ hg => update_frame_sized hg)
    write_back_if_dirty_sized read_into_frame_sized

theorem fetch_sized (p : Nat) : (fetch p).Keeps (Sized store) :=
  kept_sized.fetch p (fun _ h => h) fun _ h => h

theorem fetch_new_sized (p : Nat) : (fetch_new p).Keeps (Sized store) :=
  kept_sized.fetch_new p (fun _ h => by simpa using h) fun _ h => by simpa using h

theorem unpin_sized (handle : FrameHandle) (dirty : Bool) :
    (unpin handle dirty).Keeps (Sized store) :=
  kept_sized.unpin handle dirty fun _ h => h

theorem flush_sized (p : Nat) : (flush p).Keeps (Sized store) := by
  refine check_open_keeps.bind fun _ => keeps_get.bind fun _ => ?_
  split
  · exact keeps_pure _
  · exact write_back_if_dirty_sized _

theorem flush_all_sized : flush_all.Keeps (Sized store) :=
  check_open_keeps.bind fun _ => keeps_get.bind fun _ =>
    (keeps_each write_back_if_dirty_sized _).bind fun _ => on_store_sized _

theorem open_sized (store : PageStore) (cfg : BufferPoolConfig) (s : PoolState) :
    (BufferPool.open store cfg).wp (fun _ => Sized store) (fun _ _ => True) s := by
  unfold BufferPool.open
  rw [wp_bind, wp_modify, wp_bind]
  refine wp_on_policy rfl ?_
  have hend : ∀ policy : EvictionPolicy, (Call.modify fun s : PoolState => { s with
      pool.frames := List.replicate cfg.capacity_pages
        { data := List.replicate store.page_size 0 } } : Call Error PoolState Unit).wp
      (fun _ => Sized store) (fun _ _ => True)
      { s with
        pool.store := some store
        pool.config := cfg
        pool.page_bytes := store.page_size
        pool.eviction_policy := some policy } := by
    intro policy
    rw [wp_modify]
    refine ⟨rfl, fun f hf => ?_⟩
    rw [List.eq_of_mem_replicate hf]
    simp
  rcases hr : (EvictionPolicy.reset cfg.capacity_pages).run (make_eviction_policy cfg.eviction) with
    ⟨e | a, policy⟩
  · exact wp_of_run_error hr trivial
  · exact wp_of_run_ok hr (hend policy)

end BufferPool

theorem PoolClients.step_sized {c : PoolClients} (op : PoolOp) (hop : op.Inside store.page_size)
    (h : Sized store c.state) : Sized store (step op c).2.state := by
  have hlend : ∀ x : Call Error PoolState FrameHandle, x.Keeps (Sized store) →
      Sized store (lend x c).2.state := by
    intro x hx
    have h' := hx.after h
    unfold lend
    rcases hr : x.run c.state with ⟨e | a, s'⟩ <;> rw [hr] at h' <;> exact h'
  have hcall : ∀ x : Call Error PoolState Unit, x.Keeps (Sized store) →
      Sized store (call x c).2.state := fun x hx => hx.after h
  cases op with
  | fetch p => exact hlend _ (BufferPool.fetch_sized p)
  | fetch_new p => exact hlend _ (BufferPool.fetch_new_sized p)
  | mutate k offset bytes =>
    simp only [step]
    split
    · exact h
    · refine hcall _ (BufferPool.update_frame_sized fun f hf => ?_)
      have hin : offset + bytes.length ≤ store.page_size := hop
      show (patch f.data offset bytes).length = _
      rw [length_patch (by omega), hf]
  | unpin k dirty =>
    simp only [step]
    split
    · exact h
    · rename_i handle _
      have h' := (BufferPool.unpin_sized handle dirty).after h
      rcases hr : (BufferPool.unpin handle dirty).run c.state with ⟨e | a, s'⟩ <;>
        rw [hr] at h' <;> exact h'
  | flush p => exact hcall _ (BufferPool.flush_sized p)
  | flush_all => exact hcall _ BufferPool.flush_all_sized
  | allocate_page => exact (BufferPool.on_store_sized PageStore.allocate_page).after h

/-! ## The bytes that a fetch gives -/

namespace BufferPool

/-- The bytes of page `q`: those of its frame, or else those of the file. -/
def contents (store : PageStore) (s : PoolState) (q : Nat) : Bytes :=
  match s.pool.find_frame q with
  | some i => (s.pool.frame_at i).data
  | none => store.page s.io q

theorem contents_of_cached (hfind : s.pool.find_frame q = some i)
    (hi : s.pool.frames[i]? = some f) : contents store s q = f.data := by
  unfold contents
  rw [hfind]
  exact congrArg Frame.data (frame_at_eq hi)

theorem contents_of_not_cached (hfind : s.pool.find_frame q = none) :
    contents store s q = store.page s.io q := by
  unfold contents
  rw [hfind]

/-- A fetch of `q` from `s`, with some faults to come, gives the bytes `d`. -/
def Gives (s : PoolState) (q : Nat) (d : Bytes) : Prop :=
  ∃ faults handle t, (fetch q).run { s with io.faults := faults } = (.ok handle, t) ∧
    t.pool.data handle = d

/-- No fetch from `s1` gives other bytes than it would have given from `s`. -/
def LosesNothing (s s1 : PoolState) : Prop :=
  ∀ q d d', Gives s q d → Gives s1 q d' → d' = d

/-- The bytes of the file after the frame was written back. -/
def written_back (store : PageStore) (f : Frame) (bytes : Bytes) : Bytes :=
  if is_pending f then patch bytes (f.page_id * store.page_size) f.data else bytes

/-- A write-back that goes through, whatever the faults were. -/
theorem write_back_if_dirty.any (h : Sized store s) (hi : s.pool.frames[i]? = some f) :
    (write_back_if_dirty i).wp
      (fun _ t => t.pool = { s.pool with frames := s.pool.frames.set i (cleaned f) } ∧
        t.io.bytes = written_back store f s.io.bytes ∧ t.io.faults.read = s.io.faults.read ∧
        (is_pending f = true →
          f.page_id * store.page_size + store.page_size ≤ s.io.bytes.length))
      (fun _ _ => True) s := by
  unfold write_back_if_dirty
  rw [wp_bind, wp_get, frame_at_eq hi]
  dsimp only
  by_cases hpend : is_pending f = true
  · have ⟨hv, hd⟩ : f.valid = true ∧ f.dirty = true := by simpa [is_pending] using hpend
    rw [if_neg (by simp [hv, hd]), wp_bind]
    refine wp_on_store h.opened ?_
    apply wp_mono (PageStore.write_page.any s.io (h.at hi) f.page_id) _ (fun _ _ _ => trivial)
    rintro _ io ⟨hbytes, hreads, hin⟩
    refine wp_update_frame hi ⟨by simp [cleaned, hv], ?_, hreads, fun _ => hin⟩
    rw [written_back, if_pos hpend]
    exact hbytes
  · have hskip : (!f.valid || !f.dirty) = true := by
      unfold is_pending at hpend
      cases hfv : f.valid <;> cases hfd : f.dirty <;> simp_all
    have hclean : cleaned f = f := by
      obtain ⟨p, d, valid, dirty, pins⟩ := f
      cases valid <;> cases dirty <;> simp_all [cleaned]
    obtain ⟨hlt, hval⟩ := List.getElem?_eq_some_iff.mp hi
    rw [if_pos hskip, wp_pure, hclean, ← hval, List.set_getElem_self]
    exact ⟨rfl, by rw [hval, written_back, if_neg hpend], rfl, fun h => absurd (hval ▸ h) hpend⟩

/-- A write-back changes the page of its frame only. -/
theorem page_of_written_back {io io' : StorageIO} (hsize : f.data.length = store.page_size)
    (hbytes : io'.bytes = written_back store f io.bytes)
    (hin : is_pending f = true → f.page_id * store.page_size + store.page_size ≤ io.bytes.length)
    (hq : f.valid = true → f.page_id ≠ q) : store.page io' q = store.page io q := by
  unfold PageStore.page
  rw [hbytes, written_back]
  split
  · rename_i hpend
    have hv : f.valid = true := by
      unfold is_pending at hpend
      simp_all
    have := hin hpend
    apply slice_patch_disjoint (by omega)
    rcases PageStore.page_ranges_disjoint store.page_size (hq hv) with hr | hr
    · left; omega
    · right; omega
  · rfl

/-- What the frames say of page `p` before frame `i` is written back and filled
anew, they say after. -/
theorem not_cached_set {frames : List Frame} {d : Bytes} (hi : frames[i]? = some f)
    (hno : ∀ (j : Nat) (g : Frame), frames[j]? = some g → g.valid = true → g.page_id ≠ p) :
    ∀ (j : Nat) (g : Frame), (frames.set i { cleaned f with data := d })[j]? = some g →
      g.valid = true → g.page_id ≠ p := by
  intro j g hg hv
  rcases getElem?_set_cases hg with ⟨rfl, rfl⟩ | ⟨-, hold⟩
  · simp only [cleaned_valid, cleaned_page_id] at hv ⊢
    exact hno j f hi hv
  · exact hno j g hold hv

/-- A load that goes through brings the page of the file. -/
theorem load_page_into_frame.any (h : PinsHold store hs s) (hz : Sized store s)
    (hi : s.pool.frames[i]? = some f)
    (hno : ∀ (j : Nat) (g : Frame), s.pool.frames[j]? = some g → g.valid = true →
      g.page_id ≠ p) :
    (load_page_into_frame i p).wp
      (fun _ t => ∃ g, t.pool.frames[i]? = some g ∧ g.data = store.page s.io p)
      (fun _ _ => True) s := by
  have hlt : i < s.pool.frames.length := (List.getElem?_eq_some_iff.mp hi).1
  unfold load_page_into_frame
  rw [wp_bind, wp_get, frame_at_eq hi, wp_bind]
  apply wp_mono (wp_and (write_back_if_dirty.any hz hi)
    (write_back_if_dirty_sized i s hz)) _ (fun _ _ _ => trivial)
  rintro _ s1 ⟨⟨hpool, hbytes, -, hin⟩, hz1⟩
  have hi1 : s1.pool.frames[i]? = some (cleaned f) := by
    rw [hpool]
    exact List.getElem?_set_self hlt
  rw [wp_bind]
  apply wp_mono (read_into_frame.any hz1 hi1 p) _ (fun _ _ _ => trivial)
  rintro _ s2 ⟨hpool2, -, -⟩
  have hframes : s2.pool.frames =
      s.pool.frames.set i { cleaned f with data := store.page s1.io p } := by
    rw [hpool2, hpool]
    exact List.set_set ..
  have hpage : store.page s1.io p = store.page s.io p :=
    page_of_written_back (hz.at hi) hbytes hin fun hv => hno i f hi hv
  obtain ⟨policy, hpol, ht⟩ := h.tracked
  have hi2 : s2.pool.frames[i]? = some { cleaned f with data := store.page s1.io p } := by
    rw [hframes]
    exact List.getElem?_set_self hlt
  refine wp_retrack (f := { cleaned f with data := store.page s1.io p }) (cleaned_valid f)
    (cleaned_page_id f)
    (show s2.pool.eviction_policy = some policy by rw [hpool2, hpool]; exact hpol) ?_
    hi2 ?_ ⟨rfl, rfl⟩ ?_
  · rw [hframes]
    exact tracks_set_same hi (cleaned_valid f) (cleaned_page_id f) ht
  · rw [hframes]
    exact not_cached_set hi hno
  · intro policy' _
    exact ⟨_, List.getElem?_set_self (List.getElem?_eq_some_iff.mp hi2).1, hpage⟩

/-- A fetch that goes through gives the bytes of its page, whatever the faults
were. -/
theorem fetch_gives (h : PinsHold store hs s) (hz : Sized store s) (q : Nat) :
    (fetch q).wp (fun handle t => t.pool.data handle = contents store s q) (fun _ _ => True)
      s := by
  rw [fetch_eq]
  rcases hfind : s.pool.find_frame q with _ | i
  · refine wp_lookup_miss h.opened hfind ?_
    have hno := find_frame_none hfind
    unfold miss
    rw [wp_bind]
    apply wp_mono (wp_and (record_miss_pins h q)
      (on_policy_sized (EvictionPolicy.record_miss q) s hz)) _ (fun _ _ _ => trivial)
    rintro _ s1 ⟨⟨h1, hf1, hio1⟩, hz1⟩
    rw [wp_bind]
    apply wp_mono (wp_and (choose_victim_pins h1) (kept_sized.choose_victim s1 hz1)) _
      (fun _ _ _ => trivial)
    rintro i s2 ⟨⟨⟨f, hi, -⟩, h2, hf2, hio2⟩, hz2⟩
    rw [wp_bind]
    apply wp_mono (load_page_into_frame.any h2 hz2 (hf2 ▸ hi) (by rw [hf2, hf1]; exact hno)) _
      (fun _ _ _ => trivial)
    rintro _ s3 ⟨g, hg, hdata⟩
    refine wp_make_handle hg ?_
    unfold data
    rw [frame_at_eq hg, hdata, hio2, hio1, contents_of_not_cached hfind]
  · refine wp_lookup_hit h.opened hfind ?_
    obtain ⟨f, hi, hv, rfl⟩ := find_frame_some hfind
    have hlt : i < s.pool.frames.length := (List.getElem?_eq_some_iff.mp hi).1
    unfold hit
    rw [wp_bind]
    refine wp_update_frame hi ?_
    rw [wp_bind]
    obtain ⟨policy, hpol, -⟩ := h.tracked
    refine wp_on_policy hpol ?_
    rcases hr : (EvictionPolicy.record_access f.page_id i).run policy with ⟨e | a, policy'⟩
    · exact wp_of_run_error hr trivial
    · refine wp_of_run_ok hr ?_
      have hset := List.getElem?_set_self (a := { f with pin_count := f.pin_count + 1 }) hlt
      refine wp_make_handle hset ?_
      unfold data
      rw [frame_at_eq hset, contents_of_cached hfind hi]

/-- A fetch of a page that is in a frame goes through. -/
theorem fetch_hit (h : PinsHold store hs s) (hfind : s.pool.find_frame q = some i) :
    ∃ handle t, (fetch q).run s = (.ok handle, t) := by
  obtain ⟨f, hi, hv, rfl⟩ := find_frame_some hfind
  have hw : (fetch f.page_id).wp (fun handle s' => PinsHold store (handle :: hs) s')
      (fun _ _ => False) s :=
    wp_lookup_hit h.opened hfind (wp_pin h hi hv (by simp [Frame.slot, hv]))
  obtain ⟨handle, t, hrun, -⟩ := exists_ok_of_wp hw
  exact ⟨handle, t, hrun⟩

theorem gives_contents (h : PinsHold store hs s) (hz : Sized store s) {d : Bytes}
    (hd : Gives s q d) : d = contents store s q := by
  obtain ⟨faults, handle, t, hrun, rfl⟩ := hd
  have hdata := wp_ok (fetch_gives (s := { s with io.faults := faults })
    ⟨h.opened, h.safe, h.tracked⟩ ⟨hz.opened, hz.sized⟩ q) hrun
  exact hdata

theorem gives_of_cached (h : PinsHold store hs s) (hz : Sized store s)
    (hfind : s.pool.find_frame q = some i) : Gives s q (contents store s q) := by
  obtain ⟨handle, t, hrun⟩ := fetch_hit h hfind
  have hdata := wp_ok (fetch_gives h hz q) hrun
  exact ⟨s.io.faults, handle, t, hrun, hdata⟩

/-! ## A fetch whose read fails -/

/-- The pool with other faults to come for the reads of its file. -/
def with_reads (reads : List Fault) (s : PoolState) : PoolState :=
  { s with io := s.io.with_reads reads }

section

variable {reads : List Fault}

theorem on_policy_blind {α : Type} (x : Call Error EvictionPolicy α) :
    (on_policy x).Blind (with_reads reads) := by
  intro s
  show on_policy x (with_reads reads s) =
    ((on_policy x s).1, with_reads reads (on_policy x s).2)
  rcases hp : s.pool.eviction_policy with _ | policy <;> simp only [on_policy, with_reads, hp]

theorem on_store_blind {α : Type} {x : PageStore → Call Error StorageIO α}
    (hx : ∀ store, (x store).Blind <| StorageIO.with_reads reads) :
    (on_store x).Blind (with_reads reads) := by
  refine blind_get_bind (fun _ => rfl) fun s => ?_
  split
  · exact blind_fail _
  · exact (hx _).zoom (fun _ => rfl) fun _ _ => rfl

theorem choose_victim_blind : choose_victim.Blind (with_reads reads) := by
  refine blind_get_bind (fun _ => rfl) fun s => ?_
  split
  · exact blind_pure _
  · exact on_policy_blind _

theorem write_back_if_dirty_blind (i : Nat) :
    (write_back_if_dirty i).Blind (with_reads reads) := by
  refine blind_get_bind (fun _ => rfl) fun s => ?_
  dsimp only
  split
  · exact blind_pure _
  · exact (on_store_blind fun store => store.write_page_blind reads _ _).bind fun _ =>
      blind_modify fun _ => rfl

end

/-- The frame with other bytes over the front of its own. -/
def overlaid (f : Frame) (got : Bytes) : Frame := { f with data := StorageIO.fill f.data got }

/-- The frame for a page that is not cached: the first one that holds no page, or
else the one that the policy chooses after the miss. -/
def victim (pool : BufferPool) (p : Nat) : Option Nat :=
  (pool.frames.findIdx? fun frame => !frame.valid).or do
    let policy ← pool.eviction_policy
    ((EvictionPolicy.choose_victim pool.states).run
      ((EvictionPolicy.record_miss p).run policy).2).1.toOption

theorem victim_eq {s2 s3 : PoolState}
    (hmiss : (on_policy (EvictionPolicy.record_miss p)).run s = (.ok (), s2))
    (hchoice : choose_victim.run s2 = (.ok i, s3)) : s.pool.victim p = some i := by
  rcases hpol : s.pool.eviction_policy with _ | policy
  · rw [Call.run, on_policy, hpol] at hmiss
    cases hmiss
  · rw [Call.run, on_policy, hpol] at hmiss
    obtain ⟨-, rfl⟩ := Prod.mk.injEq .. ▸ hmiss
    unfold choose_victim at hchoice
    rw [run_bind_ok _ (run_get _)] at hchoice
    unfold victim
    rw [hpol]
    split at hchoice
    · rename_i j hfind
      cases hchoice
      rw [hfind]
      rfl
    · rename_i hfind
      obtain ⟨hr, -⟩ := Prod.mk.injEq .. ▸ hchoice
      rw [hfind]
      exact congrArg Except.toOption hr

/-- What a fetch leaves behind that failed in its read of page `p` into frame
`i`: the frame still has its old page, clean, with the first `k` bytes of page
`p` over it. -/
structure ReadFailed (store : PageStore) (p k i : Nat) (f : Frame)
    (s s1 : PoolState) : Prop where
  frame : s.pool.frames[i]? = some f
  length : (store.page s.io p).length = store.page_size
  inside : is_pending f = true →
    f.page_id * store.page_size + store.page_size ≤ s.io.bytes.length
  bytes : s1.io.bytes = written_back store f s.io.bytes
  frames : s1.pool.frames =
    s.pool.frames.set i (overlaid (cleaned f) ((store.page s.io p).take k))
  store : s1.pool.store = s.pool.store
  tracked : ∃ policy, s1.pool.eviction_policy = some policy ∧
    policy.Tracks (residents s.pool.frames)

theorem read_into_frame_fault {fault : Fault} {rest : List Fault} {w t : PoolState} {e : Error}
    (hz : Sized store s) (hi : s.pool.frames[i]? = some f)
    (hfault : fault = .short k ∨ fault = .fail k) (hnext : s.io.faults.read = fault :: rest)
    (hwell : (read_into_frame i p).run (with_reads (.none :: rest) s) = (.ok (), w))
    (hfail : (read_into_frame i p).run s = (.error e, t)) :
    (store.page s.io p).length = store.page_size ∧ t.io.bytes = s.io.bytes ∧
      t.pool = { s.pool with
        frames := s.pool.frames.set i (overlaid f ((store.page s.io p).take k)) } := by
  have hlen := wp_ok (read_into_frame.any (s := with_reads (.none :: rest) s)
    ⟨hz.opened, hz.sized⟩ hi p) hwell
  have hat : (with_reads (.none :: rest) s).pool.frame_at i = f := frame_at_eq hi
  unfold read_into_frame at hwell hfail
  rw [run_bind_ok _ (run_get _)] at hwell hfail
  rw [hz.opened] at hfail
  rw [show (with_reads (.none :: rest) s).pool.store = some store from hz.opened] at hwell
  simp only at hwell hfail
  rw [run_zoom, hat] at hwell
  rw [run_zoom, frame_at_eq hi] at hfail
  obtain ⟨hr1, -⟩ := Prod.mk.injEq .. ▸ hwell
  obtain ⟨hr2, rfl⟩ := Prod.mk.injEq .. ▸ hfail
  obtain ⟨hbytes, hdata⟩ := PageStore.read_page_fault (hz.at hi) hfault hnext
    (Prod.ext hr1 rfl) (Prod.ext hr2 rfl)
  refine ⟨hlen.2.2, hbytes, ?_⟩
  rw [hdata]
  rfl

/-- A fetch of a page that is in no frame loads it. -/
theorem fetch_of_miss (hopen : s.pool.store = some store) (hfind : s.pool.find_frame p = none) :
    (fetch p).run s = (miss p fun i => load_page_into_frame i p).run s := by
  have hcheck : check_open.run s = (.ok (), s) := by
    unfold check_open
    rw [run_bind_ok _ (run_get _), hopen]
    rfl
  rw [fetch_eq, lookup, run_bind_ok _ hcheck, run_bind_ok _ (run_get _), hfind]

theorem fetch_fault {fault : Fault} {rest : List Fault} {handle : FrameHandle} {t : PoolState}
    {e : Error} (h : PinsHold store hs s) (hz : Sized store s)
    (hfault : fault = .short k ∨ fault = .fail k) (hnext : s.io.faults.read = fault :: rest)
    (hwell : (fetch p).run (with_reads (.none :: rest) s) = (.ok handle, t))
    (hfail : (fetch p).run s = (.error e, s1)) :
    ∃ i f, s.pool.victim p = some i ∧ ReadFailed store p k i f s s1 := by
  -- a fetch of a page that is in a frame does not fail
  have hfind : s.pool.find_frame p = none := by
    rcases hf : s.pool.find_frame p with _ | i
    · rfl
    · obtain ⟨handle', t', hrun⟩ := fetch_hit h hf
      rw [hrun] at hfail
      cases hfail
  have hno := find_frame_none hfind
  rw [fetch_of_miss h.opened hfind, miss] at hfail
  rw [fetch_of_miss (s := with_reads (.none :: rest) s) h.opened hfind, miss] at hwell
  -- up to the read both runs do the same
  obtain ⟨_, w1, hmiss, hwell1⟩ := exists_of_run_bind hwell
  obtain ⟨s2, hmiss2, rfl⟩ := (on_policy_blind _).run_ok hmiss
  rw [run_bind_ok _ hmiss2] at hfail
  obtain ⟨h2, hf2, hio2⟩ := wp_ok (record_miss_pins h p) hmiss2
  have hz2 := wp_ok (on_policy_sized (EvictionPolicy.record_miss p) s hz) hmiss2
  obtain ⟨i, w2, hvictim, hwell2⟩ := exists_of_run_bind hwell1
  obtain ⟨s3, hvictim3, rfl⟩ := choose_victim_blind.run_ok hvictim
  rw [run_bind_ok _ hvictim3] at hfail
  obtain ⟨⟨f, hi2, hfree⟩, h3, hf3, hio3⟩ := wp_ok (choose_victim_pins h2) hvictim3
  have hz3 := wp_ok (kept_sized.choose_victim s2 hz2) hvictim3
  have hframes3 : s3.pool.frames = s.pool.frames := hf3.trans hf2
  have hio : s3.io = s.io := hio3.trans hio2
  have hi : s3.pool.frames[i]? = some f := hf3 ▸ hi2
  have hno3 := hno
  rw [← hframes3] at hno3
  have hlt : i < s3.pool.frames.length := (List.getElem?_eq_some_iff.mp hi).1
  obtain ⟨_, w3, hload, -⟩ := exists_of_run_bind hwell2
  unfold load_page_into_frame at hload
  rw [run_bind_ok _ (run_get _)] at hload
  obtain ⟨_, w4, hback, hload1⟩ := exists_of_run_bind hload
  obtain ⟨s4, hback4, rfl⟩ := (write_back_if_dirty_blind i).run_ok hback
  obtain ⟨hpool4, hbytes4, hreads4, hin⟩ := wp_ok (write_back_if_dirty.any hz3 hi) hback4
  have hz4 := wp_ok (write_back_if_dirty_sized i s3 hz3) hback4
  obtain ⟨_, w5, hread, -⟩ := exists_of_run_bind hload1
  have hi4 : s4.pool.frames[i]? = some (cleaned f) := by
    rw [hpool4]
    exact List.getElem?_set_self hlt
  have hpage : store.page s4.io p = store.page s.io p := by
    rw [← hio]
    exact page_of_written_back (hz3.at hi) hbytes4 hin fun hv => hno3 i f hi hv
  rcases hr : (read_into_frame i p).run s4 with ⟨e' | a, s5⟩
  · -- the read fails, and the fetch with it
    have hfail' : (e' = e) ∧ s5 = s1 := by
      rw [run_bind_error (e := e') (t := s5)] at hfail
      · cases hfail
        exact ⟨rfl, rfl⟩
      · unfold load_page_into_frame
        rw [run_bind_ok _ (run_get _), run_bind_ok _ hback4, run_bind_error _ hr]
    obtain ⟨-, rfl⟩ := hfail'
    obtain ⟨hlen, hbytes5, hpool5⟩ := read_into_frame_fault hz4 hi4 hfault
      (hreads4.trans (hio ▸ hnext)) hread hr
    rw [hpage] at hpool5
    rw [hpage] at hlen
    obtain ⟨policy, hpol, ht⟩ := h3.tracked
    refine ⟨i, f, victim_eq hmiss2 hvictim3, hframes3 ▸ hi, hlen, hio ▸ hin, ?_, ?_, ?_,
      policy, ?_, ?_⟩
    · rw [hbytes5, hbytes4, hio]
    · rw [hpool5, hpool4, ← hframes3]
      exact List.set_set ..
    · rw [hpool5, hpool4, h.opened]
      exact h3.opened
    · rw [hpool5, hpool4]
      exact hpol
    · rwa [hframes3] at ht
  · -- a read that goes through is not the end of a fetch that fails
    exfalso
    have hload4 : (load_page_into_frame i p >>= fun _ => make_handle i).wp (fun _ _ => True)
        (fun _ _ => False) s3 := by
      have hst4 := wp_ok (write_back_if_dirty_still i s3 (Still.refl s3)) hback4
      have hst5 := wp_ok (read_into_frame_still i p s4 hst4) hr
      obtain ⟨g, hi5, hslot⟩ := slot_get hst5.slots.symm hi
      simp only [Frame.slot, Prod.mk.injEq] at hslot
      unfold load_page_into_frame
      rw [wp_bind, wp_bind, wp_get, frame_at_eq hi, wp_bind]
      refine wp_of_run_ok hback4 ?_
      rw [wp_bind]
      refine wp_of_run_ok hr ?_
      apply wp_mono (wp_take (h3.of_still hst5) hi5 hfree (not_cached_of_still hst5 hno3)
        hslot.2.1 hslot.1 rfl)
      · intro _ s6 _
        unfold make_handle
        rw [wp_bind, wp_get, wp_pure]
        trivial
      · exact fun _ _ hf => hf
    exact wp_error hload4 hfail

/-! ## What is lost -/

theorem find_frame_of_slots {pool pool' : BufferPool}
    (h : pool'.frames.map Frame.slot = pool.frames.map Frame.slot) (q : Nat) :
    pool'.find_frame q = pool.find_frame q := by
  have hslots : ∀ b : BufferPool, b.find_frame q =
      (b.frames.map Frame.slot).findIdx? fun k => k.2.1 && k.1 == q := by
    intro b
    rw [List.findIdx?_map]
    rfl
  rw [hslots, h, ← hslots]

/-- The frame that holds a page is the one that is found. -/
theorem find_frame_of_cached (h : PinsHold store hs s) (hi : s.pool.frames[i]? = some f)
    (hv : f.valid = true) : s.pool.find_frame f.page_id = some i := by
  rcases hfind : s.pool.find_frame f.page_id with _ | j
  · exact absurd rfl (find_frame_none hfind i f hi hv)
  · obtain ⟨g, hj, hgv, hp⟩ := find_frame_some hfind
    rw [h.safe.distinct j i g f hj hi hgv hv hp]

/-- A buffer takes bytes over its front and stays as it is only if they are the
bytes that it has there. -/
theorem fill_eq_self_iff {d x : Bytes} (h : x.length = d.length) :
    StorageIO.fill d (x.take k) = d ↔ x.take k = d.take k := by
  have hlen : (x.take k).length = (d.take k).length := by simp [h]
  have hd : d.drop (x.take k).length = d.drop k := by
    rw [List.length_take, h]
    by_cases hk : k ≤ d.length
    · rw [Nat.min_eq_left hk]
    · rw [Nat.min_eq_right (by omega), List.drop_length, List.drop_eq_nil_of_le (by omega)]
  unfold StorageIO.fill
  rw [hd]
  constructor
  · intro he
    nth_rewrite 2 [← List.take_append_drop k d] at he
    exact (List.append_inj he hlen).1
  · intro he
    rw [he, List.take_append_drop]

namespace ReadFailed

variable (hr : ReadFailed store p k i f s s1)

include hr

theorem slots : s1.pool.frames.map Frame.slot = s.pool.frames.map Frame.slot := by
  rw [hr.frames]
  refine map_slot_set hr.frame ?_
  unfold overlaid cleaned
  split <;> rfl

/-- Every page but the one in the frame is as it was. -/
theorem contents_eq (hz : Sized store s) (q : Nat) :
    contents store s1 q = if s.pool.find_frame q = some i then
      StorageIO.fill f.data ((store.page s.io p).take k) else contents store s q := by
  have hfind := find_frame_of_slots hr.slots q
  have hlt : i < s.pool.frames.length := (List.getElem?_eq_some_iff.mp hr.frame).1
  rcases hq : s.pool.find_frame q with _ | j
  · rw [if_neg (by simp), contents_of_not_cached hq, contents_of_not_cached (hfind.trans hq)]
    exact page_of_written_back (hz.at hr.frame) hr.bytes hr.inside
      fun hv => find_frame_none hq _ f hr.frame hv
  · obtain ⟨g, hj, -, -⟩ := find_frame_some hq
    by_cases hji : j = i
    · subst hji
      rw [if_pos rfl]
      have hset : s1.pool.frames[j]? =
          some (overlaid (cleaned f) ((store.page s.io p).take k)) := by
        rw [hr.frames]
        exact List.getElem?_set_self hlt
      rw [contents_of_cached (hfind.trans hq) hset]
      simp only [overlaid, cleaned_data]
    · rw [if_neg (fun he => hji (Option.some.inj he)), contents_of_cached hq hj]
      refine contents_of_cached (hfind.trans hq) ?_
      rw [hr.frames, List.getElem?_set_ne (Ne.symm hji)]
      exact hj

/-- Nothing is lost when the frame held no page, or when the bytes that arrived
are those that it had. -/
theorem loses_nothing_iff (h : PinsHold store hs s) (hz : Sized store s)
    (h1 : PinsHold store hs s1) (hz1 : Sized store s1) :
    LosesNothing s s1 ↔
      f.valid = false ∨ (store.page s.io p).take k = f.data.take k := by
  have hfill := fill_eq_self_iff (k := k) (hr.length.trans (hz.at hr.frame).symm)
  constructor
  · intro hlose
    by_cases hv : f.valid = true
    · refine Or.inr (hfill.mp ?_)
      have hfind := find_frame_of_cached h hr.frame hv
      have hlost := hlose f.page_id _ _ (gives_of_cached h hz hfind)
        (gives_of_cached h1 hz1 ((find_frame_of_slots hr.slots _).trans hfind))
      rwa [hr.contents_eq hz, if_pos hfind, contents_of_cached hfind hr.frame] at hlost
    · exact Or.inl (by simpa using hv)
  · intro hcond q d d' hd hd'
    rw [gives_contents h hz hd, gives_contents h1 hz1 hd', hr.contents_eq hz]
    split
    · rename_i hfind
      obtain ⟨g, hg, hv, -⟩ := find_frame_some hfind
      rw [hr.frame] at hg
      cases hg
      rcases hcond with hno | hsame
      · rw [hno] at hv
        cases hv
      · rw [hfill.mpr hsame, contents_of_cached hfind hr.frame]
    · rfl

end ReadFailed

end BufferPool

/-- The bytes of a frame that holds no page do not matter. -/
theorem Caches.set_invalid {m : List Bytes} {loans : List Loan} {frames : List Frame}
    {io : StorageIO} {f' : Frame} (h : Caches store m loans frames io)
    (hi : frames[i]? = some f) (hv : f.valid = false) (hslot : f'.slot = f.slot)
    (hsize : f'.data.length = store.page_size) : Caches store m loans (frames.set i f') io := by
  simp only [Frame.slot, Prod.mk.injEq] at hslot
  have hold : ∀ (j : Nat) (g : Frame), (frames.set i f')[j]? = some g → g.valid = true →
      frames[j]? = some g := by
    intro j g hg hgv
    rcases getElem?_set_cases hg with ⟨-, rfl⟩ | ⟨-, hg⟩
    · rw [hslot.2.1, hv] at hgv
      cases hgv
    · exact hg
  have hnew : ∀ (j : Nat) (g : Frame), frames[j]? = some g → g.valid = true →
      (frames.set i f')[j]? = some g := by
    intro j g hg hgv
    by_cases hj : i = j
    · subst hj
      rw [hi] at hg
      cases hg
      rw [hv] at hgv
      cases hgv
    · rw [List.getElem?_set_ne hj]
      exact hg
  refine ⟨h.count, ?_, ?_, ?_, ?_, ?_, ?_, ?_⟩
  · intro j g hg
    rcases getElem?_set_cases hg with ⟨-, rfl⟩ | ⟨-, hg⟩
    · exact hsize
    · exact h.sized j g hg
  · intro j k g g' hg hg' hgv hgv' hp
    exact h.distinct j k g g' (hold j g hg hgv) (hold k g' hg' hgv') hgv hgv' hp
  · exact fun j g hg hgv => h.cached j g (hold j g hg hgv) hgv
  · exact fun p hp hno => h.stored p hp fun j g hg hgv => hno j g (hnew j g hg hgv) hgv
  · exact fun j g hg hgv hd hl => h.clean j g (hold j g hg hgv) hgv hd hl
  · intro j g hg
    rcases getElem?_set_cases hg with ⟨rfl, rfl⟩ | ⟨-, hg⟩
    · rw [hslot.2.2]
      exact h.pinned j f hi
    · exact h.pinned j g hg
  · intro l hl
    obtain ⟨g, hg, hgv, hp⟩ := h.held l hl
    exact ⟨g, hnew _ g hg hgv, hgv, hp⟩

/-- A fetch that loses nothing leaves the map of pages as it was. -/
theorem BufferPool.ReadFailed.holds {n : Nat} {m : List Bytes} {loans : List Loan}
    (hr : ReadFailed store p k i f s s1)
    (hcond : f.valid = false ∨ (store.page s.io p).take k = f.data.take k)
    (hh : Holds store n m loans { s with io.faults := {} }) :
    Holds store n m loans { s1 with io.faults := {} } := by
  have hlt : i < s.pool.frames.length := (List.getElem?_eq_some_iff.mp hr.frame).1
  have hsize : f.data.length = store.page_size := hh.frames.sized _ f hr.frame
  have hz : Sized store { s with io.faults := {} } := ⟨hh.opened, fun g hg => by
    obtain ⟨j, hj⟩ := List.mem_iff_getElem?.mp hg
    exact hh.frames.sized j g hj⟩
  -- the write-back of the frame with no faults ends with the same file
  obtain ⟨_, s2, -, ⟨h2, hafter, hpool, -⟩, -, hbytes, -, -⟩ := exists_ok_of_wp
    (wp_mono (wp_and (write_back_if_dirty.spec hh hr.frame)
      (write_back_if_dirty.any hz hr.frame)) (fun _ _ h => h)
      (fun _ _ h => PoolClients.not_refused (s := { s with io.faults := {} })
        rfl h.1.2.2.2.2.2))
  have hio : s2.io = { s1.io with faults := {} } := by
    have hfaults : s2.io.faults = {} := hafter.healthy rfl
    have hsame : s2.io.bytes = s1.io.bytes := hbytes.trans hr.bytes.symm
    show s2.io = ⟨s1.io.bytes, {}⟩
    rw [← hfaults, ← hsame]
  have hframes : s2.pool.frames = s.pool.frames.set i (cleaned f) := by rw [hpool]
  have hi2 : s2.pool.frames[i]? = some (cleaned f) := by
    rw [hframes]
    exact List.getElem?_set_self hlt
  have hset : s1.pool.frames =
      s2.pool.frames.set i (overlaid (cleaned f) ((store.page s.io p).take k)) := by
    rw [hr.frames, hframes, List.set_set]
  have hfill := fill_eq_self_iff (k := k) (hr.length.trans hsize.symm)
  have hcaches : Caches store m loans s1.pool.frames s2.io := by
    rw [hset]
    rcases hcond with hv | hsame
    · refine h2.frames.set_invalid hi2 (by simpa using hv) rfl ?_
      simp only [overlaid, cleaned_data]
      rw [length_fill (by rw [List.length_take, hr.length]; omega), hsize]
    · have hself : overlaid (cleaned f) ((store.page s.io p).take k) = cleaned f := by
        unfold overlaid
        rw [cleaned_data, hfill.mpr hsame, ← cleaned_data f]
      obtain ⟨hlt2, hval⟩ := List.getElem?_eq_some_iff.mp hi2
      rw [hself, ← hval, List.set_getElem_self]
      exact h2.frames
  refine h2.of_parts (hr.store.trans (by rw [hpool])) ?_ (by rw [hio]) ?_ ?_ ?_
  · rw [hset, List.length_set]
  · rw [hio]
    exact StorageIO.After.refl _
  · rw [hio] at hcaches
    exact hcaches
  · obtain ⟨policy, hpol, ht⟩ := hr.tracked
    exact ⟨policy, hpol, residents_of_slots hr.slots ▸ ht⟩

/-- What clients know of a pool that they opened and used: its pins are right
and its buffers have the size of a page. -/
theorem PoolClients.reached {cfg : BufferPoolConfig} {s0 t0 : PoolState} {ops : List PoolOp}
    (hopen : (BufferPool.open store cfg).run s0 = (.ok (), t0)) (hcap : 0 < cfg.capacity_pages)
    (hops : ∀ op ∈ ops, op.Inside store.page_size) :
    let c := (Run.exec PoolClients.step ops ⟨t0, []⟩).2
    PinsHold store c.handles c.state ∧ Sized store c.state := by
  have hpins := wp_ok (BufferPool.open_pins store cfg hcap s0) hopen
  have hsized := wp_ok (BufferPool.open_sized store cfg s0) hopen
  exact Run.keeps_of_forall
    (fun c : PoolClients => PinsHold store c.handles c.state ∧ Sized store c.state)
    (fun op c h hop => ⟨PoolClients.step_pins op h.1, PoolClients.step_sized op hop h.2⟩)
    ops ⟨t0, []⟩ ⟨hpins, hsized⟩ hops

/-- A fetch that fails only because its read failed, or came back short, after
`k` bytes loses nothing if and only if the victim held no page, or held the same
`k` bytes at its front. Then clients of a sound pool get the same replies in
every run from there on. -/
theorem failed_fetch_loses_nothing_iff (store : PageStore) (cfg : BufferPoolConfig)
    (s0 t0 : PoolState) (ops : List PoolOp) (p k : Nat) (fault : Fault) (rest : List Fault)
    (handle : FrameHandle) (t s1 : PoolState) (e : Error)
    (hcap : 0 < cfg.capacity_pages)
    (hopen : (BufferPool.open store cfg).run s0 = (.ok (), t0))
    (hops : ∀ op ∈ ops, op.Inside store.page_size)
    (hfault : fault = .short k ∨ fault = .fail k) :
    let c := (Run.exec PoolClients.step ops ⟨t0, []⟩).2
    c.state.io.faults.read = fault :: rest →
    (BufferPool.fetch p).run { c.state with io.faults.read := .none :: rest } = (.ok handle, t) →
    (BufferPool.fetch p).run c.state = (.error e, s1) →
    ∃ i frame, c.state.pool.victim p = some i ∧ c.state.pool.frames[i]? = some frame ∧
      let unharmed := frame.valid = false ∨ (store.page c.state.io p).take k = frame.data.take k
      (BufferPool.LosesNothing c.state s1 ↔ unharmed) ∧
      (unharmed → ∀ n a later,
        PoolClients.Follows store n ⟨{ c.state with io.faults := {} }, c.handles⟩ a →
        Run.Allowed (PageMap.Lawful store.page_size) (PageMap.step n store.page_size) later a →
        (Run.exec PoolClients.step later ⟨{ s1 with io.faults := {} }, c.handles⟩).1 =
          (Run.exec PoolClients.step later
            ⟨{ c.state with io.faults := {} }, c.handles⟩).1) := by
  intro c hnext hwell hfail
  obtain ⟨hpins, hsized⟩ := PoolClients.reached hopen hcap hops
  obtain ⟨i, f, hvictim, hr⟩ := BufferPool.fetch_fault hpins hsized hfault hnext hwell hfail
  have hpins1 := wp_error (BufferPool.fetch_pins hpins p) hfail
  have hsized1 := wp_error (BufferPool.fetch_sized p c.state hsized) hfail
  refine ⟨i, f, hvictim, hr.frame, hr.loses_nothing_iff hpins hsized hpins1 hsized1, ?_⟩
  rintro hcond n a later ⟨loans, hh, -, hhandles, hlent⟩ hlater
  have hh1 := hr.holds hcond hh
  have hrun := Run.simulates (PoolClients.Follows store n)
    (fun op c a h hok => PoolClients.follows_step op h hok) later
  have hafter := hrun ⟨{ s1 with io.faults := {} }, c.handles⟩ a
    ⟨loans, hh1, rfl, hhandles, hlent⟩ hlater
  have hbefore := hrun ⟨{ c.state with io.faults := {} }, c.handles⟩ a
    ⟨loans, hh, rfl, hhandles, hlent⟩ hlater
  exact hafter.1.trans hbefore.1.symm

/-- A pool of `n` frames over a file of two pages, whose second read fails after
one byte. -/
def faulty_pool (n : Nat) : PoolState :=
  ((BufferPool.open ⟨true, 2⟩ { capacity_pages := n }).run
    ⟨{}, ⟨[1, 2, 3, 4], { read := [.none, .fail 1] }⟩⟩).2

/-- Its clients after a fetch of page 0, with two frames. -/
def faulty_clients : PoolClients := (Run.exec PoolClients.step [.fetch 0] ⟨faulty_pool 2, []⟩).2

/-- With a second frame, the failed fetch of page 1 loses nothing. -/
theorem failed_fetch_into_free_frame :
    ((BufferPool.fetch 1).run faulty_clients.state).1 = .error .IoError ∧
      BufferPool.LosesNothing faulty_clients.state
        ((BufferPool.fetch 1).run faulty_clients.state).2 := by
  have herror : ((BufferPool.fetch 1).run faulty_clients.state).1 = .error .IoError := by rfl
  have hgiven : ((BufferPool.fetch 1).run
      { faulty_clients.state with io.faults.read := [.none] }).1 = .ok ⟨true, 1, 1⟩ := by rfl
  obtain ⟨i, frame, hvictim, hframe, hiff, -⟩ := failed_fetch_loses_nothing_iff ⟨true, 2⟩ { capacity_pages := 2 }
    ⟨{}, ⟨[1, 2, 3, 4], { read := [.none, .fail 1] }⟩⟩ (faulty_pool 2) [.fetch 0] 1 1 (.fail 1) []
    ⟨true, 1, 1⟩ _ _ .IoError (by decide) rfl (by simp [PoolOp.Inside]) (Or.inr rfl) rfl
    (Prod.ext hgiven rfl) (Prod.ext herror rfl)
  have hfree : faulty_clients.state.pool.victim 1 = some 1 := by rfl
  cases hvictim.symm.trans hfree
  cases hframe
  exact ⟨herror, hiff.mpr (Or.inl rfl)⟩

/-- With one frame, the failed fetch of page 1 leaves its first byte over page 0,
and the next fetch of page 0 gives the mixture. -/
theorem failed_fetch_mixes_pages :
    (Run.exec PoolClients.step [.fetch 0, .unpin 0 false, .fetch 1, .fetch 0]
        ⟨faulty_pool 1, []⟩).1 =
      [.data (.ok [1, 2]), .done (.ok ()), .data (.error .IoError), .data (.ok [3, 2])] ∧
    (Run.exec PoolClients.step [.fetch 0, .unpin 0 false, .fetch 0] ⟨faulty_pool 1, []⟩).1 =
      [.data (.ok [1, 2]), .done (.ok ()), .data (.ok [1, 2])] := by
  exact ⟨rfl, rfl⟩

end edb
