-- The calls of the buffer pool, one spec for each. A call either does its
-- work on the map of pages or fails and leaves the map as it was, and a
-- write that fails on the way loses nothing.
import Edb.PoolLaws

namespace edb

open Call

variable {store : PageStore} {n : Nat} {m : List Bytes} {loans : List Loan} {s : PoolState}

/-! ## One frame at a time -/

namespace Caches

variable {frames : List Frame} {io : StorageIO} {i : Nat} {f : Frame}

theorem page_lt (h : Caches store m loans frames io) (hi : frames[i]? = some f)
    (hv : f.valid = true) : f.page_id < m.length :=
  (List.getElem?_eq_some_iff.mp (h.cached i f hi hv)).1

/-- Frame `i` keeps its page and may change its bytes, its flags and its pins. -/
theorem refresh (h : Caches store m loans frames io) (f' : Frame) (loans' : List Loan)
    (hi : frames[i]? = some f)
    (hv : f.valid = true) (hv' : f'.valid = true) (hp : f'.page_id = f.page_id)
    (hsize : f'.data.length = f.data.length)
    (hclean : f'.dirty = false → (∀ l ∈ loans', l.index = i → l.mutated = false) →
      store.page io f'.page_id = f'.data)
    (hpin : f'.pin_count = loans'.countP (·.index == i))
    (hheld : ∀ l ∈ loans', l.index = i → l.page = f.page_id)
    (hrest : loans'.filter (·.index != i) = loans.filter (·.index != i)) :
    Caches store (m.set f.page_id f'.data) loans' (frames.set i f') io := by
  apply h.set hi (hsize.trans (h.sized i f hi)) hv'
  · intro j g hj hg hgv he
    exact hj (h.distinct j i g f hg hi hgv hv (he.trans hp))
  · rw [hp]
    exact List.getElem?_set_self (h.page_lt hi hv)
  · intro q hq
    rw [hp] at hq
    exact List.getElem?_set_ne (Ne.symm hq)
  · exact List.length_set
  · intro _ hne
    exact absurd hp.symm hne
  · exact hclean
  · exact hpin
  · intro l hl he
    rw [hp]
    exact hheld l hl he
  · exact hrest

/-- Frame `i`, which nobody holds, takes page `p`. -/
theorem load {p : Nat} (h : Caches store m loans frames io) (f' : Frame)
    (hi : frames[i]? = some f)
    (hfree : ∀ l ∈ loans, l.index ≠ i) (hclean : f.valid = true → f.dirty = false)
    (hno : ∀ (j : Nat) (g : Frame), frames[j]? = some g → g.valid = true → g.page_id ≠ p)
    (hp : p < m.length) (hf : f'.page_id = p ∧ f'.valid = true ∧ f'.pin_count = 1)
    (hsize : f'.data.length = store.page_size)
    (hdirty : f'.dirty = false → store.page io p = f'.data) :
    Caches store (m.set p f'.data) (⟨i, p, false⟩ :: loans) (frames.set i f') io := by
  obtain ⟨rfl, hv, hpin⟩ := hf
  apply h.set hi hsize hv
  · exact fun j g _ hg hgv => hno j g hg hgv
  · exact List.getElem?_set_self hp
  · exact fun q hq => List.getElem?_set_ne (Ne.symm hq)
  · exact List.length_set
  · intro hfv _
    exact h.clean i f hi hfv (hclean hfv) (fun l hl he => absurd he (hfree l hl))
  · exact fun hd _ => hdirty hd
  · have hzero : loans.countP (·.index == i) = 0 := by
      rw [List.countP_eq_zero]
      intro l hl
      simp [hfree l hl]
    simp [hpin, hzero]
  · intro l hl he
    rcases List.mem_cons.mp hl with rfl | hl
    · rfl
    · exact absurd he (hfree l hl)
  · simp

end Caches

theorem set_same {p : Nat} {d : Bytes} (h : m[p]? = some d) : m.set p d = m := by
  obtain ⟨hlt, rfl⟩ := List.getElem?_eq_some_iff.mp h
  exact List.set_getElem_self hlt

/-! ## Handles that are out -/

namespace Holds

/-- The bytes behind a handle are the bytes of its page. -/
theorem data_of_loan (h : Holds store n m loans s) {l : Loan} (hl : l ∈ loans) :
    m[l.page]? = some (s.pool.data l.handle) := by
  obtain ⟨f, hf, hv, hp⟩ := h.frames.held l hl
  unfold BufferPool.data Loan.handle
  rw [BufferPool.frame_at_eq hf, ← hp]
  exact h.frames.cached _ f hf hv

theorem length_of_page (h : Holds store n m loans s) {p : Nat} {d : Bytes}
    (hd : m[p]? = some d) : d.length = store.page_size := by
  have hp : p < m.length := (List.getElem?_eq_some_iff.mp hd).1
  by_cases hc : ∀ (i : Nat) (f : Frame), s.pool.frames[i]? = some f → f.valid = true →
      f.page_id ≠ p
  · rw [h.frames.stored p hp hc] at hd
    cases hd
    exact h.laid.length_page (h.frames.count ▸ hp)
  · push Not at hc
    obtain ⟨i, f, hf, hv, rfl⟩ := hc
    rw [h.frames.cached i f hf hv] at hd
    cases hd
    exact h.frames.sized i f hf

/-- The state after a change of frames, file and policy. -/
theorem of_parts {m' : List Bytes} {loans' : List Loan} {s' : PoolState}
    (h : Holds store n m loans s) (hs : s'.pool.store = s.pool.store)
    (hn : s'.pool.frames.length = s.pool.frames.length)
    (hlen : s'.io.bytes.length = s.io.bytes.length) (hio : s.io.After s'.io)
    (hc : Caches store m' loans' s'.pool.frames s'.io)
    (ht : ∃ policy, s'.pool.eviction_policy = some policy ∧ policy.Tracks (residents s'.pool.frames)) :
    Holds store n m' loans' s' :=
  ⟨hs.trans h.opened, h.laid.of_length hlen, hio.readsWell h.reads_well, hn.trans h.capacity,
    hc, ht⟩

end Holds

namespace BufferPool

/-! ## Writing back -/

/-- Whether a write-back of the frame writes to the file. -/
def is_pending (f : Frame) : Bool := f.valid && f.dirty

/-- A frame after it was written back. -/
def cleaned (f : Frame) : Frame := if f.valid then { f with dirty := false } else f

@[simp] theorem cleaned_valid (f : Frame) : (cleaned f).valid = f.valid := by
  unfold cleaned; split <;> rfl

@[simp] theorem cleaned_page_id (f : Frame) : (cleaned f).page_id = f.page_id := by
  unfold cleaned; split <;> rfl

@[simp] theorem cleaned_data (f : Frame) : (cleaned f).data = f.data := by
  unfold cleaned; split <;> rfl

theorem cleaned_dirty (f : Frame) (hv : f.valid = true) : (cleaned f).dirty = false := by
  simp [cleaned, hv]

theorem write_back_if_dirty.spec (h : Holds store n m loans s) {i : Nat} {f : Frame}
    (hi : s.pool.frames[i]? = some f) :
    (write_back_if_dirty i).wp
      (fun _ s' => Holds store n m loans s' ∧ s.io.After s'.io ∧
        s'.pool = { s.pool with frames := s.pool.frames.set i (cleaned f) } ∧
        s'.io.faults.write = s.io.faults.write.drop (if is_pending f then 1 else 0))
      (fun e s' => Holds store n m loans s' ∧ s.io.After s'.io ∧ s'.pool = s.pool ∧
        e = .IoError ∧ is_pending f = true ∧
        Fault.lets store.page_size s.io.faults.write.head? = false) s := by
  unfold write_back_if_dirty
  rw [wp_bind, wp_get, frame_at_eq hi]
  dsimp only
  by_cases hpend : is_pending f = true
  · have ⟨hv, hd⟩ : f.valid = true ∧ f.dirty = true := by simpa [is_pending] using hpend
    have hp : f.page_id < store.pages s.io := h.frames.count ▸ h.frames.page_lt hi hv
    have hsize := h.frames.sized i f hi
    rw [if_neg (by simp [hv, hd]), wp_bind]
    -- any part of the page that reaches the file leaves the map as it was
    have hwrite : ∀ part : Bytes, part.length ≤ store.page_size →
        Holds store n m loans
          { s with io := store.with_page (PageStore.written s.io) f.page_id part } := by
      intro part hpart
      refine h.of_parts rfl rfl (h.laid.length_with_page hp hpart)
        PageStore.after_with_page ?_ h.tracked
      exact h.frames.written hi hv hd (h.laid.length_with_page hp hpart)
        (fun q hq => h.laid.page_with_page_ne hp hpart hq)
    refine wp_on_store h.opened ?_
    apply wp_mono (PageStore.write_page.spec h.laid h.reads_well.file_size hsize f.page_id)
    · rintro _ io' ⟨-, -, rfl⟩
      have h1 := hwrite f.data (by omega)
      refine wp_update_frame hi ?_
      refine ⟨?_, PageStore.after_with_page, ?_, ?_⟩
      · refine h1.of_parts rfl (by simp) rfl (.refl _) ?_ ?_
        · have hc := h1.frames.refresh { f with dirty := false } loans hi hv hv rfl rfl
            (fun _ _ => h.laid.page_with_page_self hp hsize) (h1.frames.pinned i f hi)
            (fun l hl he => by
              obtain ⟨g, hg, -, hgp⟩ := h1.frames.held l hl
              rw [he, hi] at hg
              cases hg
              exact hgp.symm) rfl
          rwa [set_same (h1.frames.cached i f hi hv)] at hc
        · obtain ⟨policy, hpol, ht⟩ := h1.tracked
          exact ⟨policy, hpol, tracks_set_same hi rfl rfl ht⟩
      · simp [cleaned, hv]
      · simp [hpend, PageStore.with_page, PageStore.written]
    · rintro e io' (⟨-, hle, -⟩ | ⟨rfl, -, hlets, part, hpart, rfl⟩)
      · omega
      · exact ⟨hwrite part hpart, PageStore.after_with_page, rfl, rfl, hpend, hlets⟩
  · have hskip : (!f.valid || !f.dirty) = true := by
      unfold is_pending at hpend
      cases hfv : f.valid <;> cases hfd : f.dirty <;> simp_all
    have hsame : s.pool.frames.set i (cleaned f) = s.pool.frames := by
      have hclean : cleaned f = f := by
        obtain ⟨p, d, valid, dirty, pins⟩ := f
        cases valid <;> cases dirty <;> simp_all [cleaned]
      obtain ⟨hlt, hval⟩ := List.getElem?_eq_some_iff.mp hi
      rw [hclean, ← hval, List.set_getElem_self hlt]
    rw [if_pos hskip, wp_pure]
    refine ⟨h, StorageIO.After.refl _, by rw [hsame], ?_⟩
    simp [hpend]

/-! ## Loading a page -/

/-- A frame is free when no handle to it is out. -/
def Free (loans : List Loan) (i : Nat) : Prop := ∀ l ∈ loans, l.index ≠ i

theorem choose_victim.spec (h : Holds store n m loans s) :
    choose_victim.wp
      (fun i s' => i < n ∧ Free loans i ∧ Holds store n m loans s' ∧
        s'.pool.frames = s.pool.frames ∧ s'.io = s.io)
      (fun e s' => e = .BufferPoolFull ∧ (∀ i < n, ¬ Free loans i) ∧ Holds store n m loans s' ∧
        s'.pool.frames = s.pool.frames ∧ s'.io = s.io) s := by
  have hpin : ∀ (i : Nat) (f : Frame), s.pool.frames[i]? = some f →
      (f.pin_count = 0 ↔ Free loans i) := fun i f hi => h.frames.unpinned_iff hi
  unfold choose_victim
  rw [wp_bind, wp_get]
  split
  · rename_i i hfind
    obtain ⟨hlt, hinv, -⟩ := List.findIdx?_eq_some_iff_getElem.mp hfind
    refine (wp_pure _).mpr ⟨h.capacity ▸ hlt, ?_, h, rfl, rfl⟩
    -- a handle would hold a valid frame
    intro l hl he
    obtain ⟨f, hf, hv, -⟩ := h.frames.held l hl
    rw [he, List.getElem?_eq_getElem hlt] at hf
    cases hf
    simp [hv] at hinv
  · rename_i hfind
    rw [List.findIdx?_eq_none_iff] at hfind
    obtain ⟨policy, hpol, ht⟩ := h.tracked
    refine wp_on_policy hpol ?_
    have hev : ∀ (i : Nat) (f : Frame), s.pool.frames[i]? = some f →
        (is_evictable s.pool.states i = true ↔ Free loans i) := by
      intro i f hf
      have hv := hfind f (List.mem_of_getElem? hf)
      rw [← hpin i f hf]
      unfold is_evictable states
      rw [List.getElem?_map, hf]
      simp at hv ⊢
      simp [hv]
    have hkeep : ∀ policy' : EvictionPolicy, policy'.Tracks (residents s.pool.frames) →
        Holds store n m loans { s with pool.eviction_policy := some policy' } :=
      fun policy' ht' => h.of_parts rfl rfl rfl (.refl _) h.frames ⟨policy', rfl, ht'⟩
    apply wp_mono (EvictionPolicy.choose_victim.spec ht (shows_states s.pool))
    · rintro i policy' ⟨hi, ht'⟩
      have hlt : i < s.pool.frames.length := by
        have := is_evictable_lt hi
        simpa [states] using this
      obtain ⟨f, hf⟩ := exists_frame hlt
      exact ⟨h.capacity ▸ hlt, (hev i f hf).mp hi, hkeep policy' ht', rfl, rfl⟩
    · rintro e policy' ⟨rfl, ht', hnone⟩
      refine ⟨rfl, ?_, hkeep policy' ht', rfl, rfl⟩
      intro i hi hfree
      obtain ⟨f, hf⟩ := exists_frame (h.capacity.symm ▸ hi)
      have := (hev i f hf).mpr hfree
      simp [hnone i] at this

/-- The end of both loads: the policy hears that the old page of frame `i`, if
any, is gone and that page `p` is there. -/
theorem wp_retrack {Q : Unit → PoolState → Prop} {E : Error → PoolState → Prop} {i p old : Nat}
    {had : Bool} {f : Frame} {g : Frame → Frame} {policy : EvictionPolicy}
    (hhad : f.valid = had) (hold : f.page_id = old) (hpol : s.pool.eviction_policy = some policy)
    (ht : policy.Tracks (residents s.pool.frames)) (hi : s.pool.frames[i]? = some f)
    (hno : ∀ (j : Nat) (k : Frame), s.pool.frames[j]? = some k → k.valid = true → k.page_id ≠ p)
    (hg : (g f).valid = true ∧ (g f).page_id = p)
    (hq : ∀ policy', policy'.Tracks (residents (s.pool.frames.set i (g f))) →
      Q () { s with
        pool.frames := s.pool.frames.set i (g f)
        pool.eviction_policy := some policy' }) :
    (do
      if had then on_policy (EvictionPolicy.record_evict old i)
      update_frame i g
      on_policy (EvictionPolicy.record_load p i) : Call Error PoolState Unit).wp Q E s := by
  subst hhad hold
  have hres := residents_get hi
  have hlt : i < (residents s.pool.frames).length := (List.getElem?_eq_some_iff.mp hres).1
  have hp : ∀ r : Option Nat, r ≠ some p → some p ∉ (residents s.pool.frames).set i r := by
    intro r hr hmem
    rcases List.mem_or_eq_of_mem_set hmem with hmem | he
    · obtain ⟨k, hk, he⟩ := List.mem_map.mp hmem
      obtain ⟨j, hj⟩ := List.mem_iff_getElem?.mp hk
      by_cases hv : k.valid = true
      · rw [if_pos hv] at he
        exact hno j k hj hv (Option.some.inj he)
      · rw [if_neg hv] at he
        cases he
    · exact hr he.symm
  -- the load, from a state where frame `i` holds no page for the policy
  have hload : ∀ policy1 : EvictionPolicy,
      policy1.Tracks ((residents s.pool.frames).set i none) →
      (do
        update_frame i g
        on_policy (EvictionPolicy.record_load p i) : Call Error PoolState Unit).wp Q E
        { s with pool.eviction_policy := some policy1 } := by
    intro policy1 ht1
    rw [wp_bind]
    refine wp_update_frame hi ?_
    refine wp_on_policy rfl ?_
    have hspec := EvictionPolicy.record_load.spec (p := p) (i := i) ht1
      (List.getElem?_set_self hlt) (hp none (by simp))
    apply wp_mono hspec
    · intro _ policy2 ht2
      apply hq policy2
      rw [residents_set, hg.1, if_pos rfl, hg.2]
      rwa [List.set_set] at ht2
    · exact fun _ _ hf => hf.elim
  by_cases hv : f.valid = true
  · rw [if_pos hv, wp_bind]
    refine wp_on_policy hpol ?_
    rw [if_pos hv] at hres
    apply wp_mono (EvictionPolicy.record_evict.spec ht hres)
    · intro _ policy1 ht1
      exact hload policy1 ht1
    · exact fun _ _ hf => hf.elim
  · rw [if_neg hv] at hres ⊢
    have hsame : (residents s.pool.frames).set i none = residents s.pool.frames := by
      obtain ⟨_, hval⟩ := List.getElem?_eq_some_iff.mp hres
      rw [← hval, List.set_getElem_self hlt]
    have := hload policy (hsame.symm ▸ ht)
    rwa [← hpol] at this

theorem read_into_frame_run (h : Holds store n m loans s) {i p : Nat} {f : Frame}
    (hi : s.pool.frames[i]? = some f) :
    (read_into_frame i p).run s =
      if p < m.length then
        (.ok (), { s with
          pool.frames := s.pool.frames.set i { f with data := store.page s.io p } })
      else (.error .PageNotFound, s) := by
  have hread := PageStore.read_page_run h.laid h.reads_well (h.frames.sized i f hi) p
  have hself : s.pool.frames.set i f = s.pool.frames := by
    obtain ⟨hlt, hval⟩ := List.getElem?_eq_some_iff.mp hi
    rw [← hval, List.set_getElem_self hlt]
  unfold read_into_frame
  rw [run_bind_ok _ (run_get s), h.opened]
  simp only
  rw [run_zoom, frame_at_eq hi, hread, h.frames.count]
  split
  · rfl
  · rw [hself]

/-- A page that no frame held before a write-back is in no frame after it. -/
theorem not_cached_cleaned {frames : List Frame} {i p : Nat} {f : Frame}
    (hi : frames[i]? = some f)
    (hno : ∀ (j : Nat) (g : Frame), frames[j]? = some g → g.valid = true → g.page_id ≠ p) :
    ∀ (j : Nat) (g : Frame), (frames.set i (cleaned f))[j]? = some g → g.valid = true →
      g.page_id ≠ p := by
  have hlt : i < frames.length := (List.getElem?_eq_some_iff.mp hi).1
  intro j g hg hv
  by_cases hj : i = j
  · subst hj
    rw [List.getElem?_set_self hlt] at hg
    cases hg
    rw [cleaned_valid] at hv
    rw [cleaned_page_id]
    exact hno i f hi hv
  · rw [List.getElem?_set_ne hj] at hg
    exact hno j g hg hv

/-- The page was loaded into frame `i`, or the write-back of the frame failed,
or there is no such page. -/
theorem load_page_into_frame.spec (h : Holds store n m loans s) {i p : Nat} {f : Frame}
    (hi : s.pool.frames[i]? = some f) (hfree : Free loans i)
    (hno : ∀ (j : Nat) (g : Frame), s.pool.frames[j]? = some g → g.valid = true →
      g.page_id ≠ p) :
    (load_page_into_frame i p).wp
      (fun _ s' => Holds store n m (⟨i, p, false⟩ :: loans) s' ∧ s.io.After s'.io ∧ p < m.length)
      (fun e s' => Holds store n m loans s' ∧ s.io.After s'.io ∧
        ((e = .PageNotFound ∧ m.length ≤ p) ∨
          (e = .IoError ∧ Fault.lets store.page_size s.io.faults.write.head? = false))) s := by
  have hlt : i < s.pool.frames.length := (List.getElem?_eq_some_iff.mp hi).1
  unfold load_page_into_frame
  rw [wp_bind, wp_get, frame_at_eq hi]
  rw [wp_bind]
  apply wp_mono (write_back_if_dirty.spec h hi)
  · rintro _ s1 ⟨h1, hio, hpool, -⟩
    have hf1 : s1.pool.frames = s.pool.frames.set i (cleaned f) := by rw [hpool]
    have hi1 : s1.pool.frames[i]? = some (cleaned f) := by
      rw [hf1]; exact List.getElem?_set_self hlt
    have hno1 := not_cached_cleaned hi hno
    rw [← hf1] at hno1
    have hread := read_into_frame_run (p := p) h1 hi1
    rw [wp_bind]
    by_cases hp : p < m.length
    · rw [if_pos hp] at hread
      refine wp_of_run_ok hread ?_
      obtain ⟨policy, hpol, ht⟩ := h1.tracked
      have hstored := h1.frames.stored p hp hno1
      have hlt1 : i < s1.pool.frames.length := (List.getElem?_eq_some_iff.mp hi1).1
      refine wp_retrack (f := { cleaned f with data := store.page s1.io p }) (cleaned_valid f)
        (cleaned_page_id f) hpol (tracks_set_same hi1 rfl rfl ht)
        (List.getElem?_set_self hlt1) ?_ ⟨rfl, rfl⟩ ?_
      · intro j g hg hv
        by_cases hj : i = j
        · subst hj
          rw [List.getElem?_set_self hlt1] at hg
          cases hg
          exact hno1 i (cleaned f) hi1 hv
        · rw [List.getElem?_set_ne hj] at hg
          exact hno1 j g hg hv
      · intro policy' ht'
        refine ⟨h1.of_parts rfl (by simp) rfl (.refl _) ?_ ⟨policy', rfl, ht'⟩,
          hio, hp⟩
        have hc := h1.frames.load (p := p)
          ⟨p, store.page s1.io p, true, false, 1⟩ hi1 hfree
          (fun hv => cleaned_dirty f (by simpa using hv)) hno1 hp ⟨rfl, rfl, rfl⟩
          (h1.length_of_page hstored) (fun _ => rfl)
        rw [set_same hstored] at hc
        show Caches store m _ (List.set (List.set _ i _) i _) _
        rw [List.set_set]
        exact hc
    · rw [if_neg hp] at hread
      refine wp_of_run_error hread ?_
      exact ⟨h1, hio, Or.inl ⟨rfl, by omega⟩⟩
  · rintro e s1 ⟨h1, hio, -, rfl, -, hlets⟩
    exact ⟨h1, hio, Or.inr ⟨rfl, hlets⟩⟩

theorem load_blank_page_into_frame.spec (h : Holds store n m loans s) {i p : Nat} {f : Frame}
    (hi : s.pool.frames[i]? = some f) (hfree : Free loans i)
    (hno : ∀ (j : Nat) (g : Frame), s.pool.frames[j]? = some g → g.valid = true →
      g.page_id ≠ p) (hp : p < m.length) :
    (load_blank_page_into_frame i p).wp
      (fun _ s' => Holds store n (m.set p (List.replicate store.page_size 0))
        (⟨i, p, false⟩ :: loans) s' ∧ s.io.After s'.io)
      (fun e s' => Holds store n m loans s' ∧ s.io.After s'.io ∧
        e = .IoError ∧ Fault.lets store.page_size s.io.faults.write.head? = false) s := by
  have hlt : i < s.pool.frames.length := (List.getElem?_eq_some_iff.mp hi).1
  unfold load_blank_page_into_frame
  rw [wp_bind, wp_get, frame_at_eq hi]
  rw [wp_bind]
  apply wp_mono (write_back_if_dirty.spec h hi)
  · rintro _ s1 ⟨h1, hio, hpool, -⟩
    have hf1 : s1.pool.frames = s.pool.frames.set i (cleaned f) := by rw [hpool]
    have hi1 : s1.pool.frames[i]? = some (cleaned f) := by
      rw [hf1]; exact List.getElem?_set_self hlt
    have hno1 := not_cached_cleaned hi hno
    rw [← hf1] at hno1
    obtain ⟨policy, hpol, ht⟩ := h1.tracked
    refine wp_retrack (cleaned_valid f) (cleaned_page_id f) hpol ht hi1 hno1 ⟨rfl, rfl⟩ ?_
    intro policy' ht'
    refine ⟨h1.of_parts rfl (by simp) rfl (.refl _) ?_ ⟨policy', rfl, ht'⟩, hio⟩
    have hsize := h1.frames.sized i _ hi1
    have hc := h1.frames.load ⟨p, List.replicate (cleaned f).data.length 0, true, true, 1⟩
      hi1 hfree (fun hv => cleaned_dirty f (by simpa using hv)) hno1 hp ⟨rfl, rfl, rfl⟩
      (by simpa using hsize) (by simp)
    rw [hsize] at hc
    rw [hsize]
    exact hc
  · rintro e s1 ⟨h1, hio, -, rfl, -, hlets⟩
    exact ⟨h1, hio, rfl, hlets⟩

end BufferPool

end edb
