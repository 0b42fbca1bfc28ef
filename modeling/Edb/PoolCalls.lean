-- The public calls of the buffer pool, on the map of pages that it holds:
-- fetch and fetch_new lend a handle, unpin takes it back, flush and close
-- bring the map to the file, and open starts from a file.
import Edb.PoolSpecs

namespace edb

open Call StorageIO

variable {store : PageStore} {n : Nat} {m : List Bytes} {loans : List Loan} {s : PoolState}

namespace BufferPool

/-! ## Lending a page -/

/-- There is a frame for page `p`: one that lends it, or one that is free. -/
def Room (n : Nat) (loans : List Loan) (p : Nat) : Prop :=
  (∃ l ∈ loans, l.page = p) ∨ ∃ i < n, Free loans i

/-- A frame that holds page `p` lends it or is free. -/
theorem room_of_cached (h : Holds store n m loans s) {i : Nat} {f : Frame}
    (hi : s.pool.frames[i]? = some f) : Room n loans f.page_id := by
  by_cases hfree : Free loans i
  · exact Or.inr ⟨i, h.capacity ▸ (List.getElem?_eq_some_iff.mp hi).1, hfree⟩
  · unfold Free at hfree
    push Not at hfree
    obtain ⟨l, hl, he⟩ := hfree
    obtain ⟨g, hg, -, hp⟩ := h.frames.held l hl
    rw [he, hi] at hg
    cases hg
    exact Or.inl ⟨l, hl, hp.symm⟩

/-- A page that is lent is in a frame. -/
theorem not_lent_of_not_cached (h : Holds store n m loans s) {p : Nat}
    (hno : ∀ (j : Nat) (g : Frame), s.pool.frames[j]? = some g → g.valid = true →
      g.page_id ≠ p) : ∀ l ∈ loans, l.page ≠ p := by
  intro l hl he
  obtain ⟨f, hf, hv, hp⟩ := h.frames.held l hl
  exact hno _ f hf hv (hp.trans he)

theorem record_miss_keeps (h : Holds store n m loans s) (p : Nat) :
    (on_policy (EvictionPolicy.record_miss p)).wp
      (fun _ s' => Holds store n m loans s' ∧ s'.pool.frames = s.pool.frames ∧ s'.io = s.io)
      (fun _ _ => False) s := by
  obtain ⟨policy, hpol, ht⟩ := h.tracked
  refine wp_on_policy hpol ?_
  apply wp_mono (EvictionPolicy.record_miss.spec p ht)
  · intro _ policy' ht'
    exact ⟨h.of_parts rfl rfl rfl (.refl _) h.frames ⟨policy', rfl, ht'⟩, rfl, rfl⟩
  · exact fun _ _ hf => hf

/-- The handle of the loan that comes in front of the others. -/
theorem wp_handle_of_loan {Q : FrameHandle → PoolState → Prop} {E : Error → PoolState → Prop}
    {l : Loan} (h : Holds store n m (l :: loans) s) (hq : Q l.handle s) :
    (make_handle l.index).wp Q E s := by
  obtain ⟨f, hf, -, hp⟩ := h.frames.held l (by simp)
  refine wp_make_handle hf ?_
  rw [hp]
  exact hq

/-- A hit: frame `i` gets one more handle, and maybe new bytes that are marked
dirty. -/
theorem wp_hit {Q : FrameHandle → PoolState → Prop} {E : Error → PoolState → Prop}
    (h : Holds store n m loans s) {i : Nat} {f : Frame} {g : Frame → Frame}
    (hi : s.pool.frames[i]? = some f) (hv : f.valid = true)
    (hpage : (g f).valid = true ∧ (g f).page_id = f.page_id ∧ (g f).pin_count = f.pin_count + 1)
    (hsize : (g f).data.length = f.data.length)
    (hdirty : (g f).dirty = false → f.dirty = false ∧ (g f).data = f.data)
    (hq : ∀ s', Holds store n (m.set f.page_id (g f).data) (⟨i, f.page_id, false⟩ :: loans) s' →
      s'.io = s.io → Q { pool := true, index := i, id := f.page_id } s') :
    (hit f.page_id g i).wp Q E s := by
  have hres : (residents s.pool.frames)[i]? = some (some f.page_id) := by
    rw [residents_get hi, if_pos hv]
  have hc : Caches store (m.set f.page_id (g f).data) (⟨i, f.page_id, false⟩ :: loans)
      (s.pool.frames.set i (g f)) s.io := by
    refine h.frames.refresh _ _ hi hv hpage.1 hpage.2.1 hsize ?_ ?_ ?_ (by simp)
    · intro hd hl
      obtain ⟨hfd, hdata⟩ := hdirty hd
      rw [hpage.2.1, hdata]
      exact h.frames.clean i f hi hv hfd (fun l hm => hl l (List.mem_cons_of_mem _ hm))
    · rw [List.countP_cons_of_pos (by simp), hpage.2.2, h.frames.pinned i f hi]
    · intro l hl he
      rcases List.mem_cons.mp hl with rfl | hl
      · rfl
      · obtain ⟨k, hk, -, hp⟩ := h.frames.held l hl
        rw [he, hi] at hk
        cases hk
        exact hp.symm
  unfold hit
  rw [wp_bind]
  refine wp_update_frame hi ?_
  rw [wp_bind]
  obtain ⟨policy, hpol, ht⟩ := h.tracked
  refine wp_on_policy hpol ?_
  apply wp_mono (EvictionPolicy.record_access.spec ht hres) _ (fun _ _ hf => hf.elim)
  intro _ policy' ht'
  have h' : Holds store n (m.set f.page_id (g f).data) (⟨i, f.page_id, false⟩ :: loans) { s with
      pool.frames := s.pool.frames.set i (g f)
      pool.eviction_policy := some policy' } :=
    h.of_parts rfl (by simp) rfl (.refl _) hc
      ⟨policy', rfl, tracks_set_same hi (hpage.1.trans hv.symm) hpage.2.1 ht'⟩
  exact wp_handle_of_loan h' (hq _ h' rfl)

/-- A miss: a free frame takes the page by `load`, or all frames are lent. -/
theorem wp_miss {load : Nat → Call Error PoolState Unit} {m' : List Bytes} {p : Nat}
    {R : Error → Prop} (h : Holds store n m loans s)
    (hno : ∀ (j : Nat) (g : Frame), s.pool.frames[j]? = some g → g.valid = true →
      g.page_id ≠ p)
    (hload : ∀ (i : Nat) (f : Frame) (t : PoolState), t.pool.frames[i]? = some f →
      Free loans i → Holds store n m loans t → t.pool.frames = s.pool.frames → t.io = s.io →
      (load i).wp
        (fun _ t' => Holds store n m' (⟨i, p, false⟩ :: loans) t' ∧ t.io.After t'.io)
        (fun e t' => Holds store n m loans t' ∧ t.io.After t'.io ∧ R e) t) :
    (miss p load).wp
      (fun handle s' => ∃ l : Loan, l.page = p ∧ l.mutated = false ∧ handle = l.handle ∧
        Holds store n m' (l :: loans) s' ∧ s.io.After s'.io ∧ Room n loans p)
      (fun e s' => Holds store n m loans s' ∧ s.io.After s'.io ∧
        ((e = .BufferPoolFull ∧ ¬ Room n loans p) ∨ (R e ∧ Room n loans p))) s := by
  have hlent := not_lent_of_not_cached h hno
  unfold miss
  rw [wp_bind]
  apply wp_mono (record_miss_keeps h p) _ (fun _ _ hf => hf.elim)
  rintro _ s1 ⟨h1, hf1, hio1⟩
  rw [wp_bind]
  apply wp_mono (choose_victim.spec h1)
  · rintro i s2 ⟨hin, hfree, h2, hf2, hio2⟩
    rw [hf1] at hf2
    rw [hio1] at hio2
    obtain ⟨f, hi⟩ := exists_frame (h2.capacity.symm ▸ hin)
    have hroom : Room n loans p := Or.inr ⟨i, hin, hfree⟩
    rw [wp_bind]
    apply wp_mono (hload i f s2 hi hfree h2 hf2 hio2)
    · rintro _ s3 ⟨h3, hio⟩
      refine wp_handle_of_loan h3 ?_
      exact ⟨_, rfl, rfl, rfl, h3, hio2 ▸ hio, hroom⟩
    · rintro e s3 ⟨h3, hio, hr⟩
      exact ⟨h3, hio2 ▸ hio, Or.inr ⟨hr, hroom⟩⟩
  · rintro e s2 ⟨rfl, hfull, h2, hf2, hio2⟩
    refine ⟨h2, ?_, Or.inl ⟨rfl, ?_⟩⟩
    · rw [hio2, hio1]
      exact StorageIO.After.refl _
    · rintro (⟨l, hl, he⟩ | ⟨i, hi, hfree⟩)
      · exact hlent l hl he
      · exact hfull i hi hfree

/-- `fetch` lends the page, or says why it cannot. -/
theorem fetch.spec (h : Holds store n m loans s) (p : Nat) :
    (fetch p).wp
      (fun handle s' => ∃ l : Loan, l.page = p ∧ l.mutated = false ∧ handle = l.handle ∧
        Holds store n m (l :: loans) s' ∧ s.io.After s'.io ∧ Room n loans p)
      (fun e s' => Holds store n m loans s' ∧ s.io.After s'.io ∧
        ((e = .BufferPoolFull ∧ ¬ Room n loans p) ∨
          (((e = .PageNotFound ∧ m.length ≤ p) ∨
            (e = .IoError ∧ Fault.lets store.page_size s.io.faults.write.head? = false)) ∧
            Room n loans p))) s := by
  rw [fetch_eq]
  refine wp_lookup h.opened ?_ fun hno => ?_
  · rintro i f hi hv rfl
    refine wp_hit h hi hv ⟨hv, rfl, rfl⟩ rfl (fun hd => ⟨hd, rfl⟩) ?_
    intro s' h' hio
    rw [set_same (h.frames.cached i f hi hv)] at h'
    exact ⟨_, rfl, rfl, rfl, h', hio ▸ StorageIO.After.refl _, room_of_cached h hi⟩
  · apply wp_miss h hno
    intro i f t hi hfree ht hf hio
    apply wp_mono (load_page_into_frame.spec ht hi hfree (hf ▸ hno))
    · rintro _ t' ⟨ht', hio', -⟩
      exact ⟨ht', hio'⟩
    · rintro e t' ⟨ht', hio', hr⟩
      exact ⟨ht', hio', hio ▸ hr⟩

/-- `fetch_new` lends the page with all of its bytes zero. -/
theorem fetch_new.spec (h : Holds store n m loans s) {p : Nat} (hp : p < m.length) :
    (fetch_new p).wp
      (fun handle s' => ∃ l : Loan, l.page = p ∧ l.mutated = false ∧ handle = l.handle ∧
        Holds store n (m.set p (List.replicate store.page_size 0)) (l :: loans) s' ∧
        s.io.After s'.io ∧ Room n loans p)
      (fun e s' => Holds store n m loans s' ∧ s.io.After s'.io ∧
        ((e = .BufferPoolFull ∧ ¬ Room n loans p) ∨
          ((e = .IoError ∧ Fault.lets store.page_size s.io.faults.write.head? = false) ∧
            Room n loans p))) s := by
  rw [fetch_new_eq]
  refine wp_lookup h.opened ?_ fun hno => ?_
  · rintro i f hi hv rfl
    refine wp_hit h hi hv ⟨hv, rfl, rfl⟩ (by simp) (by simp) ?_
    intro s' h' hio
    rw [h.frames.sized i f hi] at h'
    exact ⟨_, rfl, rfl, rfl, h', hio ▸ StorageIO.After.refl _, room_of_cached h hi⟩
  · apply wp_miss h hno
    intro i f t hi hfree ht hf hio
    apply wp_mono (load_blank_page_into_frame.spec ht hi hfree (hf ▸ hno) hp)
    · exact fun _ _ ht' => ht'
    · rintro e t' ⟨ht', hio', hr⟩
      exact ⟨ht', hio', hio ▸ hr⟩

/-- What `fetch` lends is a page of the map. -/
theorem lent_page_lt {l : Loan} (h : Holds store n m loans s) (hl : l ∈ loans) :
    l.page < m.length := by
  obtain ⟨f, hf, hv, hp⟩ := h.frames.held l hl
  exact hp ▸ h.frames.page_lt hf hv

/-! ## Using a handle -/

/-- Frame of a loan, and the other loans of the same frame. -/
theorem loan_frame {l : Loan} (h : Holds store n m loans s) (hl : l ∈ loans) :
    ∃ f, s.pool.frames[l.index]? = some f ∧ f.valid = true ∧ f.page_id = l.page ∧
      ∀ k ∈ loans, k.index = l.index → k.page = f.page_id := by
  obtain ⟨f, hf, hv, hp⟩ := h.frames.held l hl
  refine ⟨f, hf, hv, hp, fun k hk he => ?_⟩
  obtain ⟨g, hg, -, hgp⟩ := h.frames.held k hk
  rw [he, hf] at hg
  cases hg
  exact hgp.symm

/-- An owner changes the bytes of its page. -/
theorem mutate.spec {a b : List Loan} {l : Loan} {g : Bytes → Bytes}
    (h : Holds store n m (a ++ l :: b) s)
    (hg : (g (s.pool.data l.handle)).length = store.page_size) :
    (mutate l.handle g).wp
      (fun _ s' => Holds store n (m.set l.page (g (s.pool.data l.handle)))
        (a ++ { l with mutated := true } :: b) s' ∧ s'.io = s.io)
      (fun _ _ => False) s := by
  obtain ⟨f, hi, hv, hp, hsame⟩ := loan_frame h (l := l) (by simp)
  have hdata : s.pool.data l.handle = f.data := by
    unfold BufferPool.data Loan.handle
    rw [frame_at_eq hi]
  unfold mutate
  refine wp_update_frame hi ⟨?_, rfl⟩
  obtain ⟨policy, hpol, ht⟩ := h.tracked
  refine h.of_parts rfl (by simp) rfl (.refl _) ?_
    ⟨policy, hpol, tracks_set_same hi rfl rfl ht⟩
  have hc := h.frames.refresh (i := l.index) { f with data := g f.data }
    (a ++ { l with mutated := true } :: b) hi hv hv rfl
    (by rw [h.frames.sized _ f hi, ← hg, hdata]) ?_ ?_ ?_ ?_
  · have hm : m.set l.page (g (s.pool.data l.handle)) = m.set f.page_id (g f.data) := by
      rw [hdata, hp]
    rw [hm]
    exact hc
  · intro _ hl
    -- the frame has an owner that changed it
    have := hl { l with mutated := true } (by simp) rfl
    simp at this
  · show f.pin_count = _
    rw [h.frames.pinned _ f hi]
    simp [List.countP_append]
  · intro k hk he
    rcases List.mem_append.mp hk with hk | hk
    · exact hsame k (by simp [hk]) he
    · rcases List.mem_cons.mp hk with rfl | hk
      · exact hp.symm
      · exact hsame k (by simp [hk]) he
  · simp [List.filter_append]

/-- An owner gives its handle back, and says so when it has changed the page. -/
theorem unpin.spec {a b : List Loan} {l : Loan} {dirty : Bool}
    (h : Holds store n m (a ++ l :: b) s) (hd : l.mutated = true → dirty = true) :
    (unpin l.handle dirty).wp (fun _ s' => Holds store n m (a ++ b) s' ∧ s'.io = s.io)
      (fun _ _ => False) s := by
  obtain ⟨f, hi, hv, hp, hsame⟩ := loan_frame h (l := l) (by simp)
  have hlt : l.index < s.pool.frames.length := (List.getElem?_eq_some_iff.mp hi).1
  have hpins : f.pin_count = (a ++ b).countP (·.index == l.index) + 1 := by
    rw [h.frames.pinned _ f hi]
    simp [List.countP_append, Nat.add_assoc]
  unfold unpin
  rw [wp_bind]
  refine wp_check_open h.opened ?_
  rw [wp_bind, wp_get]
  have hin : ¬ ((!l.handle.pool || decide (l.handle.index ≥ s.pool.frames.length)) = true) := by
    have : ¬ s.pool.frames.length ≤ l.index := by omega
    simp [Loan.handle, this]
  rw [if_neg hin]
  have hframe : s.pool.frame_at l.handle.index = f := frame_at_eq hi
  rw [hframe]
  dsimp only
  rw [if_neg (by simp [hv, hpins])]
  refine wp_update_frame hi ⟨?_, rfl⟩
  obtain ⟨policy, hpol, ht⟩ := h.tracked
  refine h.of_parts rfl (by simp) rfl (.refl _) ?_
    ⟨policy, hpol, tracks_set_same hi rfl rfl ht⟩
  have hc := h.frames.refresh
    { f with dirty := dirty || f.dirty, pin_count := f.pin_count - 1 } (a ++ b) hi hv hv rfl rfl
    ?_ ?_ ?_ ?_
  · rwa [set_same (h.frames.cached _ f hi hv)] at hc
  · intro hfd hl
    have ⟨hd', hfd'⟩ : dirty = false ∧ f.dirty = false := by simpa using hfd
    apply h.frames.clean _ f hi hv hfd'
    intro k hk he
    rcases List.mem_append.mp hk with hk | hk
    · exact hl k (by simp [hk]) he
    · rcases List.mem_cons.mp hk with rfl | hk
      · cases hm : k.mutated
        · rfl
        · rw [hd hm] at hd'
          cases hd'
      · exact hl k (by simp [hk]) he
  · show f.pin_count - 1 = _
    omega
  · intro k hk he
    exact hsame k (by rcases List.mem_append.mp hk with hk | hk <;> simp [hk]) he
  · simp [List.filter_append]

/-! ## Bringing the map to the file -/

theorem flush.spec (h : Holds store n m loans s) (p : Nat) :
    (flush p).wp (fun _ s' => Holds store n m loans s' ∧ s.io.After s'.io)
      (fun e s' => Holds store n m loans s' ∧ s.io.After s'.io ∧ e = .IoError ∧
        Fault.lets store.page_size s.io.faults.write.head? = false) s := by
  unfold flush
  rw [wp_bind]
  refine wp_check_open h.opened ?_
  rw [wp_bind, wp_get]
  split
  · exact (wp_pure _).mpr ⟨h, StorageIO.After.refl _⟩
  · rename_i i hfind
    obtain ⟨f, hi, -, -⟩ := find_frame_some hfind
    apply wp_mono (write_back_if_dirty.spec h hi)
    · rintro _ s' ⟨h', hio, -⟩
      exact ⟨h', hio⟩
    · rintro e s' ⟨h', hio, -, rfl, -, hlets⟩
      exact ⟨h', hio, rfl, hlets⟩

/-- The writes that a flush of all frames makes. -/
def pending (frames : List Frame) : Nat := frames.countP is_pending

/-- The loop of `flush_all` after its first `k` frames. -/
structure Flushed (store : PageStore) (n : Nat) (m : List Bytes) (loans : List Loan)
    (s : PoolState) (k : Nat) (t : PoolState) : Prop where
  holds : Holds store n m loans t
  after : s.io.After t.io
  frames : t.pool.frames = (s.pool.frames.take k).map cleaned ++ s.pool.frames.drop k
  writes : t.io.faults.write = s.io.faults.write.drop (pending (s.pool.frames.take k))

theorem flushed_step {k : Nat} {t : PoolState} (h : Flushed store n m loans s k t)
    (hk : k < s.pool.frames.length) :
    (write_back_if_dirty k).wp (fun _ => Flushed store n m loans s (k + 1))
      (fun e t' => e = .IoError ∧ Holds store n m loans t' ∧ s.io.After t'.io ∧
        ∃ j < pending s.pool.frames,
          Fault.lets store.page_size s.io.faults.write[j]? = false) t := by
  obtain ⟨f, hf⟩ := exists_frame hk
  have hlen : ((s.pool.frames.take k).map cleaned).length = k := by simp; omega
  have hdrop : s.pool.frames.drop k = f :: s.pool.frames.drop (k + 1) := by
    rw [List.drop_eq_getElem_cons hk]
    rw [List.getElem?_eq_getElem hk] at hf
    rw [Option.some.inj hf]
  have htake : s.pool.frames.take (k + 1) = s.pool.frames.take k ++ [f] := by
    rw [List.take_add_one, hf]
    rfl
  have hi : t.pool.frames[k]? = some f := by
    rw [h.frames, List.getElem?_append_right (by omega), hlen, Nat.sub_self, hdrop]
    rfl
  have hcount : pending (s.pool.frames.take (k + 1)) =
      pending (s.pool.frames.take k) + if is_pending f then 1 else 0 := by
    rw [htake]
    simp [pending, List.countP_append, List.countP_cons]
  apply wp_mono (write_back_if_dirty.spec h.holds hi)
  · rintro _ t' ⟨h', hio, hpool, hw⟩
    refine ⟨h', h.after.trans hio, ?_, ?_⟩
    · rw [hpool]
      show t.pool.frames.set k (cleaned f) = _
      rw [h.frames, List.set_append_right _ _ (by omega), hlen, Nat.sub_self, hdrop, htake]
      simp
    · rw [hw, h.writes, List.drop_drop, hcount]
  · rintro e t' ⟨h', hio, -, rfl, hpend, hlets⟩
    refine ⟨rfl, h', h.after.trans hio, pending (s.pool.frames.take k), ?_, ?_⟩
    · have hle : pending (s.pool.frames.take (k + 1)) ≤ pending s.pool.frames :=
        (List.take_sublist _ _).countP_le
      rw [hcount, if_pos hpend] at hle
      omega
    · rwa [h.writes, List.head?_drop] at hlets

theorem flush_frames.spec (h : Holds store n m loans s) :
    (Call.each write_back_if_dirty (List.range s.pool.frames.length)).wp
      (fun _ => Flushed store n m loans s s.pool.frames.length)
      (fun e t' => e = .IoError ∧ Holds store n m loans t' ∧ s.io.After t'.io ∧
        ∃ j < pending s.pool.frames,
          Fault.lets store.page_size s.io.faults.write[j]? = false) s := by
  have hstart : Flushed store n m loans s 0 s :=
    ⟨h, StorageIO.After.refl _, by simp, by simp [pending]⟩
  have hloop := wp_each write_back_if_dirty
    (fun (done : List Nat) t => Flushed store n m loans s done.length t)
    (E := fun e t' => e = .IoError ∧ Holds store n m loans t' ∧ s.io.After t'.io ∧
        ∃ j < pending s.pool.frames,
          Fault.lets store.page_size s.io.faults.write[j]? = false)
    (List.range s.pool.frames.length) [] (s := s) hstart
  simp only [List.nil_append, List.length_range, List.length_append, List.length_singleton]
    at hloop
  apply hloop
  intro k before after t he ht
  have hk : before.length = k := by
    have hget : (List.range s.pool.frames.length)[before.length]? = some k := by
      rw [he]; simp
    rw [List.getElem?_range (by
      have := congrArg List.length he
      simp at this
      omega)] at hget
    exact Option.some.inj hget
  have hlt : k < s.pool.frames.length := by
    have := congrArg List.length he
    simp at this
    omega
  rw [hk] at ht ⊢
  exact flushed_step ht hlt

/-- A flush of all frames leaves none to write back, or it fails at a write, or
all writes are done and the sync failed. -/
theorem flush_all.spec (h : Holds store n m loans s) :
    flush_all.wp
      (fun _ s' => Holds store n m loans s' ∧ s.io.After s'.io ∧ pending s'.pool.frames = 0)
      (fun e s' => e = .IoError ∧ Holds store n m loans s' ∧ s.io.After s'.io ∧
        ((∃ j < pending s.pool.frames,
          Fault.lets store.page_size s.io.faults.write[j]? = false) ∨
          (pending s'.pool.frames = 0 ∧ s.io.faults.sync ≠ []))) s := by
  unfold flush_all
  rw [wp_bind]
  refine wp_check_open h.opened ?_
  rw [wp_bind, wp_get, wp_bind]
  apply wp_mono (flush_frames.spec h)
  · intro _ t ht
    have hnone : pending t.pool.frames = 0 := by
      rw [ht.frames]
      simp only [List.take_length, List.drop_length, List.append_nil, pending, List.countP_map]
      rw [List.countP_eq_zero]
      intro f _
      simp only [Function.comp_apply, is_pending, cleaned_valid, Bool.and_eq_true, not_and]
      intro hv
      simp [cleaned_dirty f hv]
    refine wp_on_store ht.holds.opened ?_
    unfold PageStore.sync PageStore.check_open
    rw [if_pos ht.holds.laid.is_open, wp_bind, wp_pure]
    have hkeep : Holds store n m loans
        { t with io.faults.sync := t.io.faults.sync.tail } := by
      refine ht.holds.of_parts rfl rfl rfl ⟨0, 1, by simp⟩ ?_ ht.holds.tracked
      obtain ⟨h1, h2, h3, h4, h5, h6, h7, h8⟩ := ht.holds.frames
      exact ⟨h1, h2, h3, h4, h5, h6, h7, h8⟩
    have hafter : s.io.After { t.io with faults.sync := t.io.faults.sync.tail } :=
      ht.after.trans ⟨0, 1, by simp⟩
    apply wp_mono (sync.spec t.io)
    · rintro _ io' rfl
      exact ⟨hkeep, hafter, hnone⟩
    · rintro e io' ⟨rfl, hne, rfl⟩
      refine ⟨rfl, hkeep, hafter, Or.inr ⟨hnone, ?_⟩⟩
      intro hs
      obtain ⟨_, k, hk⟩ := ht.after
      rw [hk, hs] at hne
      simp at hne
  · rintro e t ⟨rfl, ht, hio, hj⟩
    exact ⟨rfl, ht, hio, Or.inl hj⟩

/-! ## Opening and closing -/

/-- The file holds the pages `m`. -/
structure Stored (store : PageStore) (m : List Bytes) (io : StorageIO) : Prop where
  laid : store.Laid io
  reads_well : io.ReadsWell
  count : m.length = store.pages io
  page : ∀ (p : Nat) (d : Bytes), m[p]? = some d → store.page io p = d

/-- With no frame left to write back and no handle out, the file holds the map. -/
theorem stored_of_flushed (h : Holds store n m [] s) (hnone : pending s.pool.frames = 0) :
    Stored store m s.io := by
  refine ⟨h.laid, h.reads_well, h.frames.count, fun p d hd => ?_⟩
  by_cases hc : ∀ (i : Nat) (f : Frame), s.pool.frames[i]? = some f → f.valid = true →
      f.page_id ≠ p
  · have hp : p < m.length := (List.getElem?_eq_some_iff.mp hd).1
    rw [h.frames.stored p hp hc] at hd
    exact Option.some.inj hd
  · push Not at hc
    obtain ⟨i, f, hf, hv, rfl⟩ := hc
    rw [h.frames.cached i f hf hv] at hd
    have hclean : f.dirty = false := by
      have := List.countP_eq_zero.mp hnone f (List.mem_of_getElem? hf)
      simpa [is_pending, hv] using this
    rw [← Option.some.inj hd]
    exact h.frames.clean i f hf hv hclean (by simp)

/-- A pool that closes has brought the map to the file. One that does not close
still holds the map. -/
theorem close.spec (h : Holds store n m [] s) :
    close.wp
      (fun _ s' => s'.pool.store = none ∧ Stored store m s'.io ∧ s.io.After s'.io)
      (fun e s' => e = .IoError ∧ Holds store n m [] s' ∧ s.io.After s'.io ∧
        ((∃ j < pending s.pool.frames,
          Fault.lets store.page_size s.io.faults.write[j]? = false) ∨
          (pending s'.pool.frames = 0 ∧ s.io.faults.sync ≠ []))) s := by
  unfold close
  rw [wp_bind, wp_get, h.opened]
  rw [if_pos (by rfl), wp_bind]
  apply wp_mono (flush_all.spec h)
  · rintro _ t ⟨ht, hio, hnone⟩
    have hst := stored_of_flushed ht hnone
    exact (wp_modify _).mpr ⟨rfl, hst, hio⟩
  · exact fun _ _ he => he

/-- A pool that is opened on a file holds the pages of the file. -/
theorem open.spec {cfg : BufferPoolConfig} (h : Stored store m s.io)
    (hcap : 0 < cfg.capacity_pages) :
    (BufferPool.open store cfg).wp
      (fun _ s' => Holds store cfg.capacity_pages m [] s' ∧ s'.io = s.io)
      (fun _ _ => False) s := by
  unfold BufferPool.open
  rw [wp_bind, wp_modify, wp_bind]
  refine wp_on_policy rfl ?_
  apply wp_mono (EvictionPolicy.reset.spec cfg.eviction hcap) _ (fun _ _ hf => hf)
  intro _ policy ht
  rw [wp_modify]
  have hframe : ∀ (i : Nat) (f : Frame), (List.replicate cfg.capacity_pages
      ({ data := List.replicate store.page_size 0 } : Frame))[i]? = some f →
      f = { data := List.replicate store.page_size 0 } := by
    intro i f hf
    exact List.eq_of_mem_replicate (List.mem_of_getElem? hf)
  refine ⟨⟨rfl, h.laid, h.reads_well, by simp, ⟨h.count, ?_, ?_, ?_, ?_, ?_, ?_, by simp⟩,
    policy, rfl, ?_⟩, rfl⟩
  · intro i f hf
    rw [hframe i f hf]
    simp
  · intro i j f g hf _ hv
    rw [hframe i f hf] at hv
    cases hv
  · intro i f hf hv
    rw [hframe i f hf] at hv
    cases hv
  · intro p hp _
    rw [h.page p _ (List.getElem?_eq_getElem hp)]
    exact List.getElem?_eq_getElem hp
  · intro i f hf hv
    rw [hframe i f hf] at hv
    cases hv
  · intro i f hf
    rw [hframe i f hf]
    rfl
  · simpa [residents] using ht

/-! ## A new page -/

/-- A page that the store adds while the pool is open is one more page of zeros. -/
theorem allocate.spec (h : Holds store n m loans s) (hwrap : m.length + 1 < 2 ^ 64) :
    (on_store PageStore.allocate_page).wp
      (fun p s' => p = m.length ∧ s.io.After s'.io ∧ s'.pool = s.pool ∧
        Holds store n (m ++ [List.replicate store.page_size 0]) loans s' ∧
        (m.length + 1) * store.page_size < 2 ^ 64)
      (fun e s' => e = .Overflow ∧ s' = s ∧ 2 ^ 64 ≤ (m.length + 1) * store.page_size) s := by
  have hcount := h.frames.count
  refine wp_on_store h.opened ?_
  have hrun := PageStore.allocate_page_run h.laid h.reads_well (hcount ▸ hwrap)
  rw [← hcount] at hrun
  by_cases hroom : (m.length + 1) * store.page_size < 2 ^ 64
  · rw [if_pos hroom] at hrun
    refine wp_of_run_ok hrun ⟨rfl, ⟨0, 0, rfl⟩, rfl, ?_, hroom⟩
    have hpages := h.laid.pages_with_new_page
    have hlast := h.laid.page_with_new_page_last
    rw [← hcount] at hpages hlast
    have hold : ∀ p < m.length, store.page (store.with_new_page s.io) p = store.page s.io p :=
      fun p hp => h.laid.page_with_new_page (hcount ▸ hp)
    refine ⟨h.opened, h.laid.with_new_page (hcount ▸ hroom), ?_, h.capacity,
      ⟨?_, h.frames.sized, h.frames.distinct, ?_, ?_, ?_, h.frames.pinned, h.frames.held⟩,
      h.tracked⟩
    · exact ⟨h.reads_well.read, h.reads_well.file_size, h.reads_well.truncate⟩
    · rw [hpages]
      simp
    · intro i f hf hv
      rw [List.getElem?_append_left (h.frames.page_lt hf hv)]
      exact h.frames.cached i f hf hv
    · intro p hp hno
      by_cases hlt : p < m.length
      · rw [List.getElem?_append_left hlt, h.frames.stored p hlt hno]
        rw [hold p hlt]
      · have hpm : p = m.length := by simp at hp; omega
        rw [hpm, hlast]
        simp
    · intro i f hf hv hd hl
      rw [hold _ (h.frames.page_lt hf hv)]
      exact h.frames.clean i f hf hv hd hl
  · rw [if_neg hroom] at hrun
    exact wp_of_run_error hrun ⟨rfl, rfl, by omega⟩

end BufferPool

end edb
