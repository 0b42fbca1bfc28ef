-- The victims of the pool. A page that is not cached finds a frame unless all
-- frames are pinned, whatever the policy and whatever failed before. With ARC
-- the four lists and both maps fit the frames after every operation. A ghost
-- that is asked for again goes to T2, unless the pool drops it first: between
-- the miss and the load the victim becomes a ghost, and that may push the
-- page itself off its list.
import Edb.PoolPins

namespace edb

open Call StorageIO

/-! ## The errors below the pool -/

/-- Any error but that the pool is full. -/
def NotFull (e : Error) : Prop := e ≠ .BufferPoolFull

namespace StorageIO

theorem file_size_fails : file_size.FailsWith NotFull := by
  refine failsWith_of_run fun io e he => ?_
  simp only [run, file_size] at he
  split at he <;> cases he
  nofun

theorem write_fails (offset : Nat) (data : Bytes) : (write offset data).FailsWith NotFull := by
  refine failsWith_of_run fun io e he => ?_
  simp only [run, write] at he
  split at he <;> cases he
  nofun

theorem read_fails (offset : Nat) : (read offset).FailsWith NotFull := by
  refine failsWith_of_run fun io e he => ?_
  simp only [run, read] at he
  split at he <;> cases he
  nofun

end StorageIO

namespace PageStore

variable (store : PageStore) (p : Nat)

theorem check_open_fails : store.check_open.FailsWith NotFull := by
  unfold check_open
  split
  · exact failsWith_pure _
  · exact failsWith_fail nofun

theorem page_count_fails : store.page_count.FailsWith NotFull := by
  refine (store.check_open_fails).bind fun _ => StorageIO.file_size_fails.bind fun size => ?_
  split
  · exact failsWith_fail nofun
  · exact failsWith_pure _

theorem validate_existing_page_fails : (store.validate_existing_page p).FailsWith NotFull := by
  refine (store.check_open_fails).bind fun _ => (store.page_count_fails).bind fun count => ?_
  split
  · exact failsWith_fail nofun
  · exact failsWith_pure _

theorem byte_offset_for_page_fails {σ : Type} :
    (ofExcept (store.byte_offset_for_page p) : Call Error σ Nat).FailsWith NotFull := by
  refine failsWith_ofExcept fun e he => ?_
  unfold byte_offset_for_page byte_size_for_page_count at he
  split at he <;> cases he
  nofun

theorem write_page_fails (buf : Bytes) : (store.write_page p buf).FailsWith NotFull := by
  refine (store.validate_existing_page_fails p).bind fun _ =>
    (store.byte_offset_for_page_fails p).bind fun _ =>
      (write_fails _ _).bind fun count => ?_
  split
  · exact failsWith_fail nofun
  · exact failsWith_pure _

theorem read_page_fails : (store.read_page p).FailsWith NotFull := by
  refine (FailsWith.zoom (store.validate_existing_page_fails p)).bind fun _ =>
    (store.byte_offset_for_page_fails p).bind fun _ =>
      (FailsWith.zoom (read_fails _)).bind fun count => ?_
  split
  · exact failsWith_fail nofun
  · exact failsWith_pure _

end PageStore

/-! ## Full pools -/

/-- Every frame holds a page and has a pin. -/
def AllPinned (frames : List Frame) : Prop := ∀ f ∈ frames, f.valid = true ∧ 0 < f.pin_count

namespace BufferPool

variable {store : PageStore} {hs : List FrameHandle} {s : PoolState} {p : Nat}

theorem write_back_if_dirty_fails (i : Nat) : (write_back_if_dirty i).FailsWith NotFull := by
  refine failsWith_get.bind fun t => ?_
  dsimp only
  split
  · exact failsWith_pure _
  · refine FailsWith.bind (failsWith_get.bind fun t' => ?_) fun _ => failsWith_modify _
    split
    · exact failsWith_fail nofun
    · exact (PageStore.write_page_fails _ _ _).zoom

theorem read_into_frame_fails (i p : Nat) : (read_into_frame i p).FailsWith NotFull := by
  refine failsWith_get.bind fun t => ?_
  split
  · exact failsWith_fail nofun
  · exact (PageStore.read_page_fails _ _).zoom

theorem on_policy_fails {x : Call Error ClockSweepPolicy Unit} {y : Call Error LruKPolicy Unit}
    {z : Call Error ArcPolicy Unit} (hx : x.FailsWith NotFull) (hy : y.FailsWith NotFull)
    (hz : z.FailsWith NotFull) :
    (on_policy (EvictionPolicy.dispatch x y z)).FailsWith NotFull := by
  intro t
  rcases hp : t.pool.eviction_policy with _ | policy
  · refine wp_of_run_error (e := .IoError) (t := t) ?_ nofun
    show on_policy _ t = _
    unfold on_policy
    rw [hp]
  · exact wp_on_policy hp (EvictionPolicy.wp_dispatch (fun c _ => hx c) (fun l _ => hy l)
      fun a _ => hz a)

/-- The clock refuses a frame that is not there. The other policies refuse nothing. -/
theorem set_referenced_fails (i : Nat) (b : Bool) :
    (ClockSweepPolicy.set_referenced i b).FailsWith NotFull := by
  refine failsWith_get.bind fun c => ?_
  split
  · exact failsWith_fail nofun
  · exact failsWith_modify _

theorem record_evict_fails (p i : Nat) :
    (on_policy (EvictionPolicy.record_evict p i)).FailsWith NotFull :=
  on_policy_fails (set_referenced_fails i false) (failsWith_pure _) (failsWith_modify _)

theorem record_load_fails (p i : Nat) :
    (on_policy (EvictionPolicy.record_load p i)).FailsWith NotFull :=
  on_policy_fails (set_referenced_fails i true) (failsWith_modify _) (failsWith_modify _)

theorem retrack_fails {had : Bool} {old : Nat} (i p : Nat) (g : Frame → Frame) :
    (do
      if had then on_policy (EvictionPolicy.record_evict old i)
      update_frame i g
      on_policy (EvictionPolicy.record_load p i) : Call Error PoolState Unit).FailsWith NotFull := by
  cases had with
  | true =>
    exact (record_evict_fails old i).bind fun _ =>
      FailsWith.bind (failsWith_modify _) fun _ => record_load_fails p i
  | false =>
    exact FailsWith.bind (failsWith_modify _) fun _ => record_load_fails p i

theorem load_page_into_frame_fails (i p : Nat) : (load_page_into_frame i p).FailsWith NotFull :=
  failsWith_get.bind fun _ => (write_back_if_dirty_fails i).bind fun _ =>
    (read_into_frame_fails i p).bind fun _ => retrack_fails i p _

theorem load_blank_page_into_frame_fails (i p : Nat) :
    (load_blank_page_into_frame i p).FailsWith NotFull :=
  failsWith_get.bind fun _ => (write_back_if_dirty_fails i).bind fun _ => retrack_fails i p _

theorem make_handle_fails (i : Nat) : (make_handle i).FailsWith NotFull :=
  failsWith_get.bind fun _ => failsWith_pure _

/-- The victim holds no page or has no pin, and there is none only when all
frames are pinned. -/
theorem choose_victim_free (h : PinsHold store hs s) :
    choose_victim.wp
      (fun i _ => ∃ f, s.pool.frames[i]? = some f ∧ (f.valid = false ∨ f.pin_count = 0))
      (fun e _ => e = .BufferPoolFull ∧ AllPinned s.pool.frames) s := by
  unfold choose_victim
  rw [wp_bind, wp_get]
  split
  · rename_i i hfind
    obtain ⟨hlt, hinv, -⟩ := List.findIdx?_eq_some_iff_getElem.mp hfind
    exact (wp_pure _).mpr ⟨_, List.getElem?_eq_getElem hlt, Or.inl (by simpa using hinv)⟩
  · rename_i hfind
    obtain ⟨policy, hpol, ht⟩ := h.tracked
    refine wp_on_policy hpol ?_
    have hstate : ∀ i f, s.pool.frames[i]? = some f →
        is_evictable s.pool.states i = (f.valid && decide (f.pin_count = 0)) := by
      intro i f hf
      unfold is_evictable states
      rw [List.getElem?_map, hf]
      simp [Nat.pos_iff_ne_zero]
    apply wp_mono (EvictionPolicy.choose_victim.spec ht (shows_states s.pool))
    · rintro i policy' ⟨hi, -⟩
      have hlt : i < s.pool.frames.length := by simpa [states] using is_evictable_lt hi
      obtain ⟨f, hf⟩ := exists_frame hlt
      rw [hstate i f hf] at hi
      exact ⟨f, hf, Or.inr (by simpa using (Bool.and_eq_true_iff.mp hi).2)⟩
    · rintro e policy' ⟨rfl, -, hnone⟩
      refine ⟨rfl, fun f hf => ?_⟩
      obtain ⟨i, hi⟩ := List.mem_iff_getElem?.mp hf
      have hno := hnone i
      have hvalid : f.valid = true := by simpa using List.findIdx?_eq_none_iff.mp hfind f hf
      rw [hstate i f hi, hvalid, Bool.true_and, decide_eq_false_iff_not] at hno
      exact ⟨hvalid, Nat.pos_of_ne_zero hno⟩

theorem not_allPinned {frames : List Frame} {i : Nat} {f : Frame} (hi : frames[i]? = some f)
    (hf : f.valid = false ∨ f.pin_count = 0) : ¬ AllPinned frames := by
  intro hall
  obtain ⟨hv, hpin⟩ := hall f (List.mem_of_getElem? hi)
  rcases hf with hf | hf
  · rw [hf] at hv
    cases hv
  · omega

/-- A miss finds the pool full exactly when all frames are pinned. -/
theorem wp_miss_full {load : Nat → Call Error PoolState Unit} (h : PinsHold store hs s)
    (hload : ∀ i, (load i).FailsWith NotFull) :
    (miss p load).wp (fun _ _ => ¬ AllPinned s.pool.frames)
      (fun e _ => e = .BufferPoolFull ↔ AllPinned s.pool.frames) s := by
  unfold miss
  rw [wp_bind]
  apply wp_mono (record_miss_pins h p) _ (fun _ _ hf => hf.elim)
  rintro _ s1 ⟨h1, hf1, -⟩
  rw [wp_bind]
  apply wp_mono (choose_victim_free h1)
  · rintro i s2 ⟨f, hi, hfree⟩
    have hno := not_allPinned (hf1 ▸ hi) hfree
    refine wp_mono (((hload i).bind fun _ => make_handle_fails i) s2) (fun _ _ _ => hno) ?_
    exact fun e _ hne => iff_of_false hne hno
  · rintro e s2 ⟨rfl, hall⟩
    exact iff_of_true rfl (hf1 ▸ hall)

theorem fetch_full (h : PinsHold store hs s) (hfind : s.pool.find_frame p = none) :
    (fetch p).wp (fun _ _ => ¬ AllPinned s.pool.frames)
      (fun e _ => e = .BufferPoolFull ↔ AllPinned s.pool.frames) s :=
  wp_lookup_miss h.opened hfind (wp_miss_full h fun i => load_page_into_frame_fails i p)

theorem fetch_new_full (h : PinsHold store hs s) (hfind : s.pool.find_frame p = none) :
    (fetch_new p).wp (fun _ _ => ¬ AllPinned s.pool.frames)
      (fun e _ => e = .BufferPoolFull ↔ AllPinned s.pool.frames) s :=
  wp_lookup_miss h.opened hfind (wp_miss_full h fun i => load_blank_page_into_frame_fails i p)

theorem full_iff {x : Call Error PoolState FrameHandle} {A : Prop}
    (hw : x.wp (fun _ _ => ¬ A) (fun e _ => e = .BufferPoolFull ↔ A) s) :
    (x.run s).1 = .error .BufferPoolFull ↔ A := by
  rcases hr : x.run s with ⟨e | handle, s'⟩
  · have he := wp_error hw hr
    rw [Except.error.injEq]
    exact he
  · exact iff_of_false nofun (wp_ok hw hr)

end BufferPool

/-- In every run of the clients of a pool, with any policy and with any calls of
the backend failing, a page that is not cached meets a full pool exactly when
every frame holds a page and has a pin. Otherwise the victim is a frame that
holds no page or has no pin, before the miss is recorded and after. -/
theorem full_only_when_pinned (store : PageStore) (cfg : BufferPoolConfig)
    (hcap : 0 < cfg.capacity_pages) (s : PoolState) (ops : List PoolOp) :
    ∃ t, (BufferPool.open store cfg).run s = (.ok (), t) ∧
      let c := (Run.exec PoolClients.step ops ⟨t, []⟩).2
      ∀ p, c.state.pool.find_frame p = none →
        (((BufferPool.fetch p).run c.state).1 = .error .BufferPoolFull ↔
          AllPinned c.state.pool.frames) ∧
        (((BufferPool.fetch_new p).run c.state).1 = .error .BufferPoolFull ↔
          AllPinned c.state.pool.frames) ∧
        (¬ AllPinned c.state.pool.frames →
          ∀ u ∈ [c.state, ((BufferPool.on_policy (EvictionPolicy.record_miss p)).run c.state).2],
            ∃ i f, (BufferPool.choose_victim.run u).1 = .ok i ∧
              c.state.pool.frames[i]? = some f ∧ (f.valid = false ∨ f.pin_count = 0)) := by
  obtain ⟨t, hopen, hrun⟩ := PoolClients.pins_after store cfg hcap s ops
  refine ⟨t, hopen, fun p hfind => ⟨BufferPool.full_iff (BufferPool.fetch_full hrun hfind),
    BufferPool.full_iff (BufferPool.fetch_new_full hrun hfind), fun hno u hu => ?_⟩⟩
  generalize (Run.exec PoolClients.step ops ⟨t, []⟩).2 = c at *
  obtain ⟨hpins, hframes⟩ : PinsHold store c.handles u ∧ u.pool.frames = c.state.pool.frames := by
    simp only [List.mem_cons, List.not_mem_nil, or_false] at hu
    rcases hu with rfl | rfl
    · exact ⟨hrun, rfl⟩
    · obtain ⟨_, s1, hmiss, h1, hf1, -⟩ :=
        exists_ok_of_wp (BufferPool.record_miss_pins hrun p)
      rw [hmiss]
      exact ⟨h1, hf1⟩
  have hw := BufferPool.choose_victim_free hpins
  rcases hr : BufferPool.choose_victim.run u with ⟨e | i, u'⟩
  · obtain ⟨-, hall⟩ := wp_error hw hr
    exact absurd (hframes ▸ hall) hno
  · obtain ⟨f, hf, hfree⟩ := wp_ok hw hr
    exact ⟨i, f, rfl, hframes ▸ hf, hfree⟩

/-- One frame and ARC. The read of page 1 fails halfway, and the pool is full
while page 0 is lent. -/
theorem full_pool_of_one_frame :
    ∃ t, (BufferPool.open ⟨true, 2⟩ ⟨1, ⟨.Arc, 2⟩⟩).run
        ⟨{}, ⟨[1, 2, 3, 4], { read := [.none, .fail 1] }⟩⟩ = (.ok (), t) ∧
      let c := (Run.exec PoolClients.step
        [.fetch 0, .unpin 0 false, .fetch 1, .fetch 0] ⟨t, []⟩).2
      ((BufferPool.fetch 1).run c.state).1 = .error .BufferPoolFull := by
  obtain ⟨t, hopen, hfull⟩ := full_only_when_pinned ⟨true, 2⟩ ⟨1, ⟨.Arc, 2⟩⟩ (by decide)
    ⟨{}, ⟨[1, 2, 3, 4], { read := [.none, .fail 1] }⟩⟩
    [.fetch 0, .unpin 0 false, .fetch 1, .fetch 0]
  refine ⟨t, hopen, ?_⟩
  have ht : t = ((BufferPool.open ⟨true, 2⟩ ⟨1, ⟨.Arc, 2⟩⟩).run
      ⟨{}, ⟨[1, 2, 3, 4], { read := [.none, .fail 1] }⟩⟩).2 := by
    rw [hopen]
  refine ((hfull 1 ?_).1).mpr ?_
  · rw [ht]
    decide
  · rw [ht]
    unfold AllPinned
    decide

/-! ## The sizes of the lists of ARC -/

namespace ArcPolicy

variable {a : ArcPolicy} {n p q i : Nat}

/-- The ghosts fit the capacity, and so does the target. -/
structure Bounded (a : ArcPolicy) (n : Nat) : Prop where
  capacity : a.capacity = n
  ghosts : a.b1.length + a.b2.length ≤ n
  target : a.target_recent ≤ n

theorem while_loop_done {cond : ArcPolicy → Bool} {body : ArcPolicy → ArcPolicy} (fuel : Nat)
    (h : cond a = false) : while_loop cond body fuel a = a := by
  cases fuel with
  | zero => rfl
  | succ fuel => rw [while_loop, if_neg (by simp [h])]

theorem while_loop_once {cond : ArcPolicy → Bool} {body : ArcPolicy → ArcPolicy} {fuel : Nat}
    (hfuel : 0 < fuel) (h : cond a = true) (hdone : cond (body a) = false) :
    while_loop cond body fuel a = body a := by
  obtain ⟨fuel, rfl⟩ := Nat.exists_eq_succ_of_ne_zero hfuel.ne'
  rw [while_loop, if_pos h, while_loop_done fuel hdone]

theorem remove_lru_b1_eq (h : 0 < a.b1.length) :
    ∃ last, a.b1.getLast? = some last ∧ remove_lru_b1 a =
      { a with b1 := a.b1.dropLast, locations := Function.update a.locations last none } := by
  rcases hl : a.b1.getLast? with _ | last
  · rw [List.getLast?_eq_none_iff] at hl
    simp [hl] at h
  · exact ⟨last, rfl, by unfold remove_lru_b1; rw [hl]⟩

theorem remove_lru_b2_eq (h : 0 < a.b2.length) :
    ∃ last, a.b2.getLast? = some last ∧ remove_lru_b2 a =
      { a with b2 := a.b2.dropLast, locations := Function.update a.locations last none } := by
  rcases hl : a.b2.getLast? with _ | last
  · rw [List.getLast?_eq_none_iff] at hl
    simp [hl] at h
  · exact ⟨last, rfl, by unfold remove_lru_b2; rw [hl]⟩

/-- The three loops, one after the other. -/
theorem prune_ghosts_eq {a1 a2 a3 : ArcPolicy}
    (h1 : while_loop (fun a => a.b1.length > a.capacity) remove_lru_b1 a.b1.length a = a1)
    (h2 : while_loop (fun a => a.b2.length > a.capacity) remove_lru_b2 a1.b2.length a1 = a2)
    (h3 : while_loop (fun a => a.b1.length + a.b2.length > a.capacity)
      (fun a => if a.b1.length ≥ a.b2.length then remove_lru_b1 a else remove_lru_b2 a)
      (a2.b1.length + a2.b2.length) a2 = a3) : prune_ghosts a = a3 := by
  subst h1 h2 h3
  rfl

theorem prune_ghosts_of_le (h : a.b1.length + a.b2.length ≤ a.capacity) : prune_ghosts a = a :=
  prune_ghosts_eq (while_loop_done _ (by simp; omega)) (while_loop_done _ (by simp; omega))
    (while_loop_done _ (by simp; omega))

/-- With one ghost too many, the oldest of the longer list goes. -/
theorem prune_ghosts_of_over (h : a.b1.length + a.b2.length = a.capacity + 1) :
    prune_ghosts a = if a.b1.length ≥ a.b2.length then remove_lru_b1 a else remove_lru_b2 a := by
  by_cases h1 : a.b1.length > a.capacity
  · -- all ghosts are on B1, and the first loop drops one
    obtain ⟨last, -, heq⟩ := remove_lru_b1_eq (a := a) (by omega)
    have hlen : (remove_lru_b1 a).b1.length = a.b1.length - 1 := by rw [heq]; simp
    have hb2 : (remove_lru_b1 a).b2 = a.b2 := by rw [heq]
    have hcap : (remove_lru_b1 a).capacity = a.capacity := by rw [heq]
    rw [if_pos (by omega)]
    refine prune_ghosts_eq (while_loop_once (by omega) (by simpa using h1)
      (by simp [hlen, hcap]; omega)) (while_loop_done _ (by simp [hb2, hcap]; omega))
      (while_loop_done _ (by simp [hlen, hb2, hcap]; omega))
  · by_cases h2 : a.b2.length > a.capacity
    · obtain ⟨last, -, heq⟩ := remove_lru_b2_eq (a := a) (by omega)
      have hlen : (remove_lru_b2 a).b2.length = a.b2.length - 1 := by rw [heq]; simp
      have hb1 : (remove_lru_b2 a).b1 = a.b1 := by rw [heq]
      have hcap : (remove_lru_b2 a).capacity = a.capacity := by rw [heq]
      rw [if_neg (by omega)]
      refine prune_ghosts_eq (while_loop_done _ (by simpa using h1)) (while_loop_once (by omega)
        (by simpa using h2) (by simp [hlen, hcap]; omega))
        (while_loop_done _ (by simp [hlen, hb1, hcap]; omega))
    · refine prune_ghosts_eq (while_loop_done _ (by simpa using h1))
        (while_loop_done _ (by simpa using h2)) (while_loop_once (by omega) (by simp; omega) ?_)
      by_cases hge : a.b1.length ≥ a.b2.length
      · obtain ⟨last, -, heq⟩ := remove_lru_b1_eq (a := a) (by omega)
        rw [if_pos hge, heq]
        simp
        omega
      · obtain ⟨last, -, heq⟩ := remove_lru_b2_eq (a := a) (by omega)
        rw [if_neg hge, heq]
        simp
        omega

/-- Pruning takes one ghost too many off, and leaves the rest. -/
theorem prune_ghosts_bounded (hc : a.capacity = n) (hg : a.b1.length + a.b2.length ≤ n + 1)
    (ht : a.target_recent ≤ n) : (prune_ghosts a).Bounded n := by
  rcases Nat.lt_or_ge n (a.b1.length + a.b2.length) with hover | hle
  · rw [prune_ghosts_of_over (by omega)]
    split
    · obtain ⟨last, -, heq⟩ := remove_lru_b1_eq (a := a) (by omega)
      rw [heq]
      exact ⟨hc, by simp; omega, ht⟩
    · obtain ⟨last, -, heq⟩ := remove_lru_b2_eq (a := a) (by omega)
      rw [heq]
      exact ⟨hc, by simp; omega, ht⟩
  · rw [prune_ghosts_of_le (by omega)]
    exact ⟨hc, hle, ht⟩

theorem length_push_front_unique (l : List Nat) (p : Nat) :
    (push_front_unique l p).length ≤ l.length + 1 := by
  unfold push_front_unique erase_page
  rw [List.length_cons]
  exact Nat.succ_le_succ (List.length_erase_le)

theorem record_access_bounded (p i : Nat) : (record_access p i).Keeps (Bounded · n) := by
  refine keeps_modify fun a h => ?_
  dsimp only
  split <;> exact ⟨h.capacity, h.ghosts, h.target⟩

theorem record_miss_bounded (p : Nat) : (record_miss p).Keeps (Bounded · n) := by
  refine keeps_modify fun a h => ?_
  dsimp only
  split
  · exact ⟨h.capacity, h.ghosts, by rw [h.capacity]; exact Nat.min_le_left _ _⟩
  · refine ⟨h.capacity, h.ghosts, ?_⟩
    have := h.target
    dsimp only
    split <;> omega
  · exact ⟨h.capacity, h.ghosts, h.target⟩

theorem record_load_bounded (p i : Nat) : (record_load p i).Keeps (Bounded · n) := by
  refine keeps_modify fun a h => ?_
  have h1 : (erase_page a.b1 p).length ≤ a.b1.length := List.length_erase_le
  have h2 : (erase_page a.b2 p).length ≤ a.b2.length := List.length_erase_le
  have := h.ghosts
  dsimp only
  split <;> exact prune_ghosts_bounded h.capacity (by dsimp only; omega) h.target

theorem record_evict_bounded (p i : Nat) : (record_evict p i).Keeps (Bounded · n) := by
  refine keeps_modify fun a h => ?_
  have h1 := length_push_front_unique a.b1 p
  have h2 := length_push_front_unique a.b2 p
  have := h.ghosts
  dsimp only
  split
  · exact ⟨h.capacity, h.ghosts, h.target⟩
  · exact prune_ghosts_bounded h.capacity (by dsimp only; omega) h.target
  · exact prune_ghosts_bounded h.capacity (by dsimp only; omega) h.target
  · exact prune_ghosts_bounded h.capacity (by dsimp only; omega) h.target

theorem choose_victim_bounded (frames : List EvictionFrameState) :
    (choose_victim frames).Keeps (Bounded · n) := by
  refine keeps_get.bind fun a => ?_
  dsimp only
  split
  · exact keeps_pure _
  · split
    · exact keeps_pure _
    · split
      · exact keeps_pure _
      · exact keeps_fail _

end ArcPolicy

/-- The pool has `n` frames and ARC, and the sizes of ARC are in bounds. -/
structure ArcAt (n : Nat) (s : PoolState) : Prop where
  frames : s.pool.frames.length = n
  arc : ∃ a, s.pool.eviction_policy = some (.arc a) ∧ a.Bounded n

theorem ArcAt.of_still {n : Nat} {s s' : PoolState} (h : ArcAt n s) (hst : Still s s') :
    ArcAt n s' := by
  obtain ⟨a, ha, hb⟩ := h.arc
  refine ⟨?_, a, hst.policy.trans ha, hb⟩
  rw [← h.frames, ← List.length_map Frame.slot, hst.slots, List.length_map]

namespace BufferPool

variable {n : Nat}

theorem on_policy_arc {α : Type} {x : Call Error ClockSweepPolicy α} {y : Call Error LruKPolicy α}
    {z : Call Error ArcPolicy α} (hz : z.Keeps (ArcPolicy.Bounded · n)) :
    (on_policy (EvictionPolicy.dispatch x y z)).Keeps (ArcAt n) := by
  intro s h
  obtain ⟨a, ha, hb⟩ := h.arc
  refine wp_on_policy ha (EvictionPolicy.wp_dispatch nofun nofun ?_)
  intro a' heq
  cases heq
  exact wp_mono (hz a hb) (fun _ a' hb' => ⟨h.frames, a', rfl, hb'⟩)
    fun _ a' hb' => ⟨h.frames, a', rfl, hb'⟩

/-- ARC and its sizes are kept by every call of the pool. -/
theorem steady_arc : Steady (ArcAt n) where
  still _ _ h hst := h.of_still hst
  update_frame i g := keeps_modify fun s h => ⟨by rw [← h.frames]; exact List.length_set, h.arc⟩
  record_access p i := on_policy_arc (ArcPolicy.record_access_bounded p i)
  record_miss p := on_policy_arc (ArcPolicy.record_miss_bounded p)
  record_load p i := on_policy_arc (ArcPolicy.record_load_bounded p i)
  record_evict p i := on_policy_arc (ArcPolicy.record_evict_bounded p i)
  choose_victim := by
    refine keeps_get.bind fun s => ?_
    split
    · exact keeps_pure _
    · exact on_policy_arc (ArcPolicy.choose_victim_bounded _)

theorem open_arc (store : PageStore) (cfg : BufferPoolConfig) (hkind : cfg.eviction.kind = .Arc)
    (s : PoolState) :
    (BufferPool.open store cfg).wp (fun _ s' => ArcAt cfg.capacity_pages s') (fun _ _ => False)
      s := by
  unfold BufferPool.open
  rw [wp_bind, wp_modify, wp_bind]
  have hmake : make_eviction_policy cfg.eviction = .arc {} := by
    unfold make_eviction_policy
    rw [hkind]
  refine wp_on_policy (congrArg some hmake) ?_
  refine EvictionPolicy.wp_dispatch nofun nofun ?_
  rintro a -
  unfold ArcPolicy.reset
  rw [wp_modify, wp_modify]
  exact ⟨List.length_replicate, _, rfl, rfl, Nat.zero_le _, Nat.zero_le _⟩

end BufferPool

theorem PoolClients.step_arc {n : Nat} (op : PoolOp) (c : PoolClients) (h : ArcAt n c.state) :
    ArcAt n (step op c).2.state := by
  have hlend : ∀ x : Call Error PoolState FrameHandle, x.Keeps (ArcAt n) →
      ArcAt n (lend x c).2.state := by
    intro x hx
    have hafter := hx.after h
    unfold lend
    rcases hr : x.run c.state with ⟨e | handle, s'⟩ <;> rw [hr] at hafter <;> exact hafter
  cases op with
  | fetch p => exact hlend _ (BufferPool.steady_arc.kept.fetch p trivial trivial)
  | fetch_new p => exact hlend _ (BufferPool.steady_arc.kept.fetch_new p trivial trivial)
  | mutate k offset bytes =>
    simp only [step]
    split
    · exact h
    · rename_i handle _
      exact (BufferPool.steady_arc.of_still fun _ =>
        BufferPool.mutate_still handle fun data => seq.patch data offset bytes).after h
  | unpin k dirty =>
    simp only [step]
    split
    · exact h
    · rename_i handle hk
      have hafter := (BufferPool.steady_arc.kept.unpin handle dirty trivial).after h
      split
      · rename_i hr
        rw [hr] at hafter
        exact hafter
      · rename_i hr
        rw [hr] at hafter
        exact hafter
  | flush p => exact (BufferPool.steady_arc.of_still fun _ => BufferPool.flush_still p).after h
  | flush_all => exact (BufferPool.steady_arc.of_still fun _ => BufferPool.flush_all_still).after h
  | allocate_page =>
    exact (BufferPool.steady_arc.of_still fun _ =>
      BufferPool.on_store_still PageStore.allocate_page).after h

/-- What ARC knows fits the frames: the four lists have no page twice, alone or
together, and the maps say where each page is. -/
structure ArcPolicy.Fits (a : ArcPolicy) (frames : List Frame) (c : Nat) : Prop where
  nodup : a.t1.Nodup ∧ a.t2.Nodup ∧ a.b1.Nodup ∧ a.b2.Nodup
  disjoint : a.t1.Disjoint a.t2 ∧ a.t1.Disjoint a.b1 ∧ a.t1.Disjoint a.b2 ∧
    a.t2.Disjoint a.b1 ∧ a.t2.Disjoint a.b2 ∧ a.b1.Disjoint a.b2
  located : ∀ p, (a.locations p = some .T1 ↔ p ∈ a.t1) ∧ (a.locations p = some .T2 ↔ p ∈ a.t2) ∧
    (a.locations p = some .B1 ↔ p ∈ a.b1) ∧ (a.locations p = some .B2 ↔ p ∈ a.b2)
  resident : ∀ p, p ∈ a.t1 ∨ p ∈ a.t2 ↔ ∃ f ∈ frames, f.valid = true ∧ f.page_id = p
  frame : ∀ p i, a.resident_frames p = some i ↔
    ∃ f, frames[i]? = some f ∧ f.valid = true ∧ f.page_id = p
  cached_le : a.t1.length + a.t2.length ≤ c
  ghosts_le : a.b1.length + a.b2.length ≤ c
  target_le : a.target_recent ≤ c

theorem residents_eq_some {frames : List Frame} {i p : Nat} :
    (residents frames)[i]? = some (some p) ↔
      ∃ f, frames[i]? = some f ∧ f.valid = true ∧ f.page_id = p := by
  unfold residents
  rw [List.getElem?_map, Option.map_eq_some_iff]
  constructor
  · rintro ⟨f, hf, hp⟩
    split at hp
    · exact ⟨f, hf, by assumption, Option.some.inj hp⟩
    · cases hp
  · rintro ⟨f, hf, hv, rfl⟩
    exact ⟨f, hf, by rw [if_pos hv]⟩

theorem mem_residents {frames : List Frame} {p : Nat} :
    some p ∈ residents frames ↔ ∃ f ∈ frames, f.valid = true ∧ f.page_id = p := by
  rw [List.mem_iff_getElem?]
  simp only [residents_eq_some]
  constructor
  · rintro ⟨i, f, hf, hp⟩
    exact ⟨f, List.mem_of_getElem? hf, hp⟩
  · rintro ⟨f, hf, hp⟩
    obtain ⟨i, hi⟩ := List.mem_iff_getElem?.mp hf
    exact ⟨i, f, hi, hp⟩

namespace ArcPolicy

variable {a : ArcPolicy}

theorem Listed.disjoint (h : a.Listed) : a.t1.Disjoint a.t2 ∧ a.t1.Disjoint a.b1 ∧
    a.t1.Disjoint a.b2 ∧ a.t2.Disjoint a.b1 ∧ a.t2.Disjoint a.b2 ∧ a.b1.Disjoint a.b2 := by
  refine ⟨?_, ?_, ?_, ?_, ?_, ?_⟩ <;> intro p h1 h2 <;>
    simp only [h.t1, h.t2, h.b1, h.b2] at h1 h2 <;> rw [h1] at h2 <;> cases h2

theorem Tracks.fits {frames : List Frame} {c : Nat} (h : a.Tracks (residents frames))
    (hb : a.Bounded c) (hlen : frames.length = c) : a.Fits frames c := by
  have hl := h.listed
  have hres : ∀ p, p ∈ a.t1 ∨ p ∈ a.t2 ↔ ∃ f ∈ frames, f.valid = true ∧ f.page_id = p := by
    intro p
    rw [hl.t1, hl.t2, ← h.resident, mem_residents]
  refine ⟨⟨hl.nodup_t1, hl.nodup_t2, hl.nodup_b1, hl.nodup_b2⟩, hl.disjoint,
    fun p => ⟨(hl.t1 p).symm, (hl.t2 p).symm, (hl.b1 p).symm, (hl.b2 p).symm⟩, hres,
    fun p i => (h.frame p i).trans residents_eq_some, ?_, hb.ghosts, hb.target⟩
  -- the pages of T1 and T2 are distinct and each is in a frame of its own
  have hnodup : (a.t1 ++ a.t2).Nodup :=
    List.nodup_append'.mpr ⟨hl.nodup_t1, hl.nodup_t2, hl.disjoint.1⟩
  have hsub : a.t1 ++ a.t2 ⊆ frames.map Frame.page_id := by
    intro p hp
    obtain ⟨f, hf, -, rfl⟩ := (hres p).mp (List.mem_append.mp hp)
    exact List.mem_map_of_mem hf
  have hle := (hnodup.subperm hsub).length_le
  rwa [List.length_append, List.length_map, hlen] at hle

end ArcPolicy

theorem PoolClients.arc_after (store : PageStore) (cfg : BufferPoolConfig)
    (hcap : 0 < cfg.capacity_pages) (hkind : cfg.eviction.kind = .Arc) (s : PoolState)
    (ops : List PoolOp) :
    ∃ t, (BufferPool.open store cfg).run s = (.ok (), t) ∧
      let c := (Run.exec step ops ⟨t, []⟩).2
      PinsHold store c.handles c.state ∧ ArcAt cfg.capacity_pages c.state := by
  obtain ⟨t, hopen, hpins⟩ := pins_after store cfg hcap s ops
  have harc := wp_ok (BufferPool.open_arc store cfg hkind s) hopen
  exact ⟨t, hopen, hpins, Run.keeps_of_forall
    (fun c : PoolClients => ArcAt cfg.capacity_pages c.state)
    (fun op c h (_ : True) => step_arc op c h) ops ⟨t, []⟩ harc fun _ _ => trivial⟩

/-- In every run of the clients of a pool with ARC, failed loads included, the
lists and maps of ARC fit the frames after each operation. -/
theorem arc_fits_the_frames (store : PageStore) (cfg : BufferPoolConfig)
    (hcap : 0 < cfg.capacity_pages) (hkind : cfg.eviction.kind = .Arc) (s : PoolState)
    (ops : List PoolOp) :
    ∃ t, (BufferPool.open store cfg).run s = (.ok (), t) ∧
      let c := (Run.exec PoolClients.step ops ⟨t, []⟩).2
      ∃ a, c.state.pool.eviction_policy = some (.arc a) ∧
        a.Fits c.state.pool.frames cfg.capacity_pages := by
  obtain ⟨t, hopen, hpins, harc⟩ := PoolClients.arc_after store cfg hcap hkind s ops
  obtain ⟨a, ha, hb⟩ := harc.arc
  obtain ⟨policy, hpol, htracks⟩ := hpins.tracked
  rw [ha] at hpol
  cases hpol
  exact ⟨t, hopen, a, ha, htracks.fits hb harc.frames⟩

/-- One frame: the read of page 1 fails halfway, then it goes through. -/
theorem arc_of_one_frame :
    ∃ t, (BufferPool.open ⟨true, 2⟩ ⟨1, ⟨.Arc, 2⟩⟩).run
        ⟨{}, ⟨[1, 2, 3, 4], { read := [.none, .fail 1] }⟩⟩ = (.ok (), t) ∧
      let c := (Run.exec PoolClients.step
        [.fetch 0, .unpin 0 false, .fetch 1, .fetch 1] ⟨t, []⟩).2
      ∃ a, c.state.pool.eviction_policy = some (.arc a) ∧ a.Fits c.state.pool.frames 1 :=
  arc_fits_the_frames ⟨true, 2⟩ ⟨1, ⟨.Arc, 2⟩⟩ (by decide) rfl
    ⟨{}, ⟨[1, 2, 3, 4], { read := [.none, .fail 1] }⟩⟩
    [.fetch 0, .unpin 0 false, .fetch 1, .fetch 1]

/-! ## Ghost hits -/

namespace ArcPolicy

/-- The target after a miss of ghost `p`. -/
def target_after (a : ArcPolicy) (p : Nat) : Nat :=
  if p ∈ a.b1 then min a.capacity (a.target_recent + max 1 (a.b2.length / max 1 a.b1.length))
  else a.target_recent - max 1 (a.b1.length / max 1 a.b2.length)

/-- ARC looks at T1 first. -/
def PrefersRecent (a : ArcPolicy) (p : Nat) : Prop :=
  a.target_after p < a.t1.length ∨ (p ∈ a.b2 ∧ a.t1.length = a.target_after p)

/-- The frame that makes room for ghost `p` comes from T1: ARC looks there first
and finds a frame without a pin, or T2 has none. -/
def EvictsRecent (frames : List Frame) (a : ArcPolicy) (p : Nat) : Prop :=
  (a.PrefersRecent p ∧ ∃ f ∈ frames, f.page_id ∈ a.t1 ∧ f.pin_count = 0) ∨
    ∀ f ∈ frames, f.page_id ∈ a.t2 → f.pin_count ≠ 0

/-- The oldest ghost of the list that is the longer one with the new ghost on it. -/
def Oldest (a : ArcPolicy) (b1_length b2_length p : Nat) : Prop :=
  if b1_length ≥ b2_length then a.b1.getLast? = some p else a.b2.getLast? = some p

/-- A frame is free, or there is room for one ghost more, or else `p` is not the
ghost that has to go. -/
def Survives (frames : List Frame) (a : ArcPolicy) (p : Nat) : Prop :=
  (∃ f ∈ frames, f.valid = false) ∨ a.b1.length + a.b2.length < a.capacity ∨
    (EvictsRecent frames a p → ¬ a.Oldest (a.b1.length + 1) a.b2.length p) ∧
      (¬ EvictsRecent frames a p → ¬ a.Oldest a.b1.length (a.b2.length + 1) p)

/-- Page `p` is the most recently used of T2, and no ghost. -/
def Promoted (a : ArcPolicy) (p : Nat) : Prop := a.t2.head? = some p ∧ p ∉ a.b1 ∧ p ∉ a.b2

/-- The policy after a miss, an eviction and a load. -/
def missed (a : ArcPolicy) (p : Nat) : ArcPolicy := ((record_miss p).run a).2

def evicted (a : ArcPolicy) (q i : Nat) : ArcPolicy := ((record_evict q i).run a).2

def loaded (a : ArcPolicy) (p i : Nat) : ArcPolicy := ((record_load p i).run a).2

variable {a : ArcPolicy} {n p q i : Nat} {rs : Residents}

/-- A load promotes what is still a ghost, and only that. -/
theorem loaded_promoted (h : a.Listed) (hb : a.Bounded n) (i : Nat)
    (hp : p ∉ a.t1 ∧ p ∉ a.t2) :
    (a.loaded p i).Promoted p ↔ (p ∈ a.b1 ∨ p ∈ a.b2) := by
  have hg := hb.ghosts
  have hc := hb.capacity
  have h1 : (erase_page a.b1 p).length ≤ a.b1.length := List.length_erase_le
  have h2 : (erase_page a.b2 p).length ≤ a.b2.length := List.length_erase_le
  have hloc : (a.loaded p i) = ((record_load p i).run a).2 := rfl
  rw [hloc]
  unfold record_load
  rw [run_modify]
  dsimp only
  rcases hl : a.locations p with _ | _ | _ | _ | _
  all_goals dsimp only
  · rw [prune_ghosts_of_le (by dsimp only; omega)]
    have hno := h.not_mem hl
    refine iff_of_false ?_ ?_
    · rintro ⟨hhead, -⟩
      exact hp.2 (List.mem_of_head? hhead)
    · simp [hno.2.2.1, hno.2.2.2]
  · exact absurd ((h.t1 p).mpr hl) hp.1
  · exact absurd ((h.t2 p).mpr hl) hp.2
  · rw [prune_ghosts_of_le (by dsimp only; omega)]
    refine iff_of_true ⟨rfl, ?_, ?_⟩ (Or.inl ((h.b1 p).mpr hl))
    · exact fun hm => ((mem_erase_page h.nodup_b1 p p).mp hm).1 rfl
    · exact (h.not_mem hl).2.2.2 (by simp)
  · rw [prune_ghosts_of_le (by dsimp only; omega)]
    refine iff_of_true ⟨rfl, ?_, ?_⟩ (Or.inr ((h.b2 p).mpr hl))
    · exact (h.not_mem hl).2.2.1 (by simp)
    · exact fun hm => ((mem_erase_page h.nodup_b2 p p).mp hm).1 rfl

/-- Pruning one ghost too many loses the oldest of the longer list. -/
theorem mem_prune_ghosts (h1 : a.b1.Nodup) (h2 : a.b2.Nodup) (hd : a.b1.Disjoint a.b2)
    (hover : a.b1.length + a.b2.length = a.capacity + 1) :
    (p ∈ (prune_ghosts a).b1 ∨ p ∈ (prune_ghosts a).b2) ↔
      (p ∈ a.b1 ∨ p ∈ a.b2) ∧ ¬ a.Oldest a.b1.length a.b2.length p := by
  rw [prune_ghosts_of_over hover]
  unfold Oldest
  split
  · obtain ⟨last, hlast, heq⟩ := remove_lru_b1_eq (a := a) (by omega)
    have hmem := List.mem_of_getLast? hlast
    rw [heq, hlast, Option.some.injEq]
    dsimp only
    rw [mem_dropLast h1 hlast]
    constructor
    · rintro (⟨hne, hp⟩ | hp)
      · exact ⟨Or.inl hp, fun he => hne he.symm⟩
      · exact ⟨Or.inr hp, fun he => hd hmem (he ▸ hp)⟩
    · rintro ⟨hp | hp, hne⟩
      · exact Or.inl ⟨fun he => hne he.symm, hp⟩
      · exact Or.inr hp
  · obtain ⟨last, hlast, heq⟩ := remove_lru_b2_eq (a := a) (by omega)
    have hmem := List.mem_of_getLast? hlast
    rw [heq, hlast, Option.some.injEq]
    dsimp only
    rw [mem_dropLast h2 hlast]
    constructor
    · rintro (hp | ⟨hne, hp⟩)
      · exact ⟨Or.inl hp, fun he => hd (he ▸ hp) hmem⟩
      · exact ⟨Or.inr hp, fun he => hne he.symm⟩
    · rintro ⟨hp | hp, hne⟩
      · exact Or.inl hp
      · exact Or.inr ⟨fun he => hne he.symm, hp⟩

theorem getLast?_cons_eq_some {l : List Nat} (hne : p ≠ q) :
    (q :: l).getLast? = some p ↔ l.getLast? = some p := by
  rw [List.getLast?_cons]
  rcases l.getLast? with _ | last
  · simp [Ne.symm hne]
  · simp

/-- A ghost is lost to an eviction when the ghosts fill the capacity and it is
the oldest of the longer list, with the page that is evicted counted in. -/
theorem mem_evicted (h : a.Listed) (hb : a.Bounded n) (i : Nat)
    (hq : a.locations q = some .T1 ∨ a.locations q = some .T2) (hp : p ∈ a.b1 ∨ p ∈ a.b2) :
    (p ∈ (a.evicted q i).b1 ∨ p ∈ (a.evicted q i).b2) ↔
      (a.b1.length + a.b2.length < a.capacity ∨
        (q ∈ a.t1 → ¬ a.Oldest (a.b1.length + 1) a.b2.length p) ∧
          (q ∉ a.t1 → ¬ a.Oldest a.b1.length (a.b2.length + 1) p)) := by
  have hg := hb.ghosts
  have hc := hb.capacity
  have hd := h.disjoint
  have hnot : q ∉ a.b1 ∧ q ∉ a.b2 := by
    rcases hq with hq | hq <;> exact ⟨(h.not_mem hq).2.2.1 (by simp), (h.not_mem hq).2.2.2 (by simp)⟩
  have hne : p ≠ q := by
    rintro rfl
    exact hp.elim hnot.1 hnot.2
  have hpush : ∀ l : List Nat, q ∉ l → push_front_unique l q = q :: l := by
    intro l hl
    unfold push_front_unique erase_page
    rw [List.erase_of_not_mem hl]
  have hrun : a.evicted q i = ((record_evict q i).run a).2 := rfl
  rw [hrun]
  unfold record_evict
  rw [run_modify]
  dsimp only
  rcases hq with hq | hq
  · have hin : q ∈ a.t1 := (h.t1 q).mpr hq
    rw [hq]
    dsimp only
    rw [hpush a.b1 hnot.1]
    by_cases hroom : a.b1.length + a.b2.length < a.capacity
    · rw [prune_ghosts_of_le (by simp only [List.length_cons]; omega)]
      exact iff_of_true (by simpa [hne] using hp) (Or.inl hroom)
    · refine (mem_prune_ghosts (List.nodup_cons.mpr ⟨hnot.1, h.nodup_b1⟩) ?_ ?_ ?_).trans ?_
      · exact h.nodup_b2
      · exact List.disjoint_cons_left.mpr ⟨hnot.2, hd.2.2.2.2.2⟩
      · simp only [List.length_cons]
        omega
      simp only [Oldest, List.length_cons, getLast?_cons_eq_some hne, hroom, hin, not_true,
        false_or, forall_true_left, IsEmpty.forall_iff, and_true, and_iff_right_iff_imp]
      exact fun _ => by simpa [hne] using hp
  · have hout : q ∉ a.t1 := (h.not_mem hq).1 (by simp)
    rw [hq]
    dsimp only
    rw [hpush a.b2 hnot.2]
    by_cases hroom : a.b1.length + a.b2.length < a.capacity
    · rw [prune_ghosts_of_le (by simp only [List.length_cons]; omega)]
      refine iff_of_true ?_ (Or.inl hroom)
      rcases hp with hp | hp
      · exact Or.inl hp
      · exact Or.inr (List.mem_cons_of_mem _ hp)
    · refine (mem_prune_ghosts ?_ (List.nodup_cons.mpr ⟨hnot.2, h.nodup_b2⟩) ?_ ?_).trans ?_
      · exact h.nodup_b1
      · exact List.disjoint_cons_right.mpr ⟨hnot.1, hd.2.2.2.2.2⟩
      · simp only [List.length_cons]
        omega
      simp only [Oldest, List.length_cons, getLast?_cons_eq_some hne, hroom, hout, not_false_eq_true,
        false_or, forall_true_left, IsEmpty.forall_iff, true_and, and_iff_right_iff_imp]
      intro _
      rcases hp with hp | hp
      · exact Or.inl hp
      · exact Or.inr (List.mem_cons_of_mem _ hp)

/-- A miss changes the target only. -/
theorem missed_eq (h : a.Listed) (hp : p ∈ a.b1 ∨ p ∈ a.b2) :
    a.missed p = { a with
      target_recent := a.target_after p
      pending_b2_hit := decide (p ∈ a.b2) } := by
  have hrun : a.missed p = ((record_miss p).run a).2 := rfl
  rw [hrun]
  unfold record_miss target_after
  rw [run_modify]
  dsimp only
  rcases hp with hp | hp
  · have hout : p ∉ a.b2 := fun h2 => h.disjoint.2.2.2.2.2 hp h2
    rw [(h.b1 p).mp hp, if_pos hp]
    simp [hout]
  · have hout : p ∉ a.b1 := fun h1 => h.disjoint.2.2.2.2.2 h1 hp
    rw [(h.b2 p).mp hp, if_neg hout]
    simp only [hp, decide_true]
    congr 1
    split <;> omega

theorem Tracks.missed (h : a.Tracks rs) (p : Nat) : (a.missed p).Tracks rs := by
  obtain ⟨_, a', hrun, ht⟩ := exists_ok_of_wp (record_miss.spec p h)
  have heq : a.missed p = a' := by
    unfold ArcPolicy.missed
    rw [hrun]
  exact heq ▸ ht

theorem Tracks.evicted (h : a.Tracks rs) (hi : rs[i]? = some (some q)) :
    (a.evicted q i).Tracks (rs.set i none) := by
  obtain ⟨_, a', hrun, ht⟩ := exists_ok_of_wp (record_evict.spec h hi)
  have heq : a.evicted q i = a' := by
    unfold ArcPolicy.evicted
    rw [hrun]
  exact heq ▸ ht

/-- A page that is in no frame is on T1 or T2 of no policy that tracks the frames. -/
theorem Tracks.not_mem (h : a.Tracks rs) (hp : some p ∉ rs) : p ∉ a.t1 ∧ p ∉ a.t2 := by
  rw [h.resident, not_or, ← h.listed.t1, ← h.listed.t2] at hp
  exact hp

theorem Tracks.ghost_not_resident (h : a.Tracks rs) (hp : p ∈ a.b1 ∨ p ∈ a.b2) :
    some p ∉ rs := by
  rw [h.resident]
  rcases hp with hp | hp
  · rw [(h.listed.b1 p).mp hp]
    simp
  · rw [(h.listed.b2 p).mp hp]
    simp

/-- With a free frame nothing is evicted, and the ghost is promoted. -/
theorem promoted_of_free (h : a.Tracks rs) (hb : a.Bounded n) (hp : p ∈ a.b1 ∨ p ∈ a.b2)
    (i : Nat) : ((a.missed p).loaded p i).Promoted p := by
  have hm := h.missed p
  refine (loaded_promoted hm.listed ((record_miss_bounded p).after hb) i
    (hm.not_mem (h.ghost_not_resident hp))).mpr ?_
  rw [missed_eq h.listed hp]
  exact hp

/-- Where a page is evicted, the ghost is promoted exactly when it survives. -/
theorem promoted_of_evict {frames : List Frame} {f : Frame} (h : a.Tracks (residents frames))
    (hb : a.Bounded n) (hp : p ∈ a.b1 ∨ p ∈ a.b2) (hvalid : ∀ f ∈ frames, f.valid = true)
    (hf : frames[i]? = some f) (hrecent : f.page_id ∈ a.t1 ↔ EvictsRecent frames a p) :
    (((a.missed p).evicted f.page_id i).loaded p i).Promoted p ↔ a.Survives frames p := by
  have hm := h.missed p
  have hmb : (a.missed p).Bounded n := (record_miss_bounded p).after hb
  have hat : (residents frames)[i]? = some (some f.page_id) :=
    residents_eq_some.mpr ⟨f, hf, hvalid f (List.mem_of_getElem? hf), rfl⟩
  have hout : some p ∉ (residents frames).set i none := by
    intro hmem
    rcases List.mem_or_eq_of_mem_set hmem with hmem | heq
    · exact h.ghost_not_resident hp hmem
    · cases heq
  have hev := hm.evicted hat
  have hq := (hm.resident f.page_id).mp (List.mem_of_getElem? hat)
  have hnone : ¬ ∃ f ∈ frames, f.valid = false := by
    rintro ⟨g, hg, hgv⟩
    rw [hvalid g hg] at hgv
    cases hgv
  rw [loaded_promoted hev.listed ((record_evict_bounded _ i).after hmb) i (hev.not_mem hout),
    mem_evicted hm.listed hmb i hq (by rw [missed_eq h.listed hp]; exact hp)]
  unfold Survives
  rw [or_iff_right hnone, ← hrecent, missed_eq h.listed hp]
  exact Iff.rfl

/-- The page that a search through a list finds. -/
theorem page_of_choose_from {frames : List EvictionFrameState} {pages : List Nat}
    (h : a.choose_from frames pages = some i) :
    ∃ q ∈ pages, a.resident_frames q = some i ∧ is_evictable frames i = true := by
  induction pages with
  | nil => simp [choose_from] at h
  | cons q rest ih =>
    have hrest : a.choose_from frames rest = some i →
        ∃ r ∈ q :: rest, a.resident_frames r = some i ∧ is_evictable frames i = true := by
      intro hr
      obtain ⟨r, hmem, hr⟩ := ih hr
      exact ⟨r, List.mem_cons_of_mem _ hmem, hr⟩
    unfold choose_from at h
    split at h
    · exact hrest h
    · rename_i j hj
      split at h
      · cases h
        exact ⟨q, List.mem_cons_self, hj, by assumption⟩
      · exact hrest h

/-- Of a pool whose frames all hold pages, the victim comes from T1 exactly when
`EvictsRecent` says so. -/
theorem victim_recent_iff {pool : BufferPool} (h : a.Tracks (residents pool.frames))
    (hvalid : ∀ f ∈ pool.frames, f.valid = true) (hp : p ∈ a.b1 ∨ p ∈ a.b2) :
    (choose_victim pool.states).wp
      (fun i _ => ∀ f, pool.frames[i]? = some f →
        (f.page_id ∈ a.t1 ↔ EvictsRecent pool.frames a p)) (fun _ _ => True) (a.missed p) := by
  have hev : ∀ i f, pool.frames[i]? = some f →
      (is_evictable pool.states i = true ↔ f.pin_count = 0) := by
    intro i f hf
    unfold is_evictable BufferPool.states
    rw [List.getElem?_map, hf]
    simp [hvalid f (List.mem_of_getElem? hf)]
  have hframe : ∀ q i, a.resident_frames q = some i ↔
      ∃ f, pool.frames[i]? = some f ∧ f.valid = true ∧ f.page_id = q :=
    fun q i => (h.frame q i).trans residents_eq_some
  -- a search names an unpinned frame of its list, or there is none
  have hfound : ∀ pages i, (a.missed p).choose_from_lru pages pool.states = some i →
      ∀ f, pool.frames[i]? = some f → f.page_id ∈ pages ∧ f.pin_count = 0 := by
    intro pages i hi f hf
    obtain ⟨q, hq, hres, hevict⟩ := page_of_choose_from hi
    rw [missed_eq h.listed hp] at hres
    obtain ⟨f', hf', -, rfl⟩ := (hframe q i).mp hres
    rw [hf] at hf'
    cases hf'
    exact ⟨List.mem_reverse.mp hq, (hev i f hf).mp hevict⟩
  have hmissing : ∀ pages, (a.missed p).choose_from_lru pages pool.states = none →
      ∀ f ∈ pool.frames, f.page_id ∈ pages → f.pin_count ≠ 0 := by
    intro pages hnone f hf hpage hzero
    obtain ⟨i, hi⟩ := List.mem_iff_getElem?.mp hf
    have hres := (hframe f.page_id i).mpr ⟨f, hi, hvalid f hf, rfl⟩
    have hno := choose_from_none hnone f.page_id (List.mem_reverse.mpr hpage) i
      (by rw [missed_eq h.listed hp]; exact hres)
    rw [(hev i f hi).mpr hzero] at hno
    cases hno
  have hdisj := h.listed.disjoint.1
  have hcond : ((a.missed p).t1.length > (a.missed p).target_recent ∨
      ((a.missed p).pending_b2_hit = true ∧
        (a.missed p).t1.length = (a.missed p).target_recent)) ↔ a.PrefersRecent p := by
    rw [missed_eq h.listed hp]
    simp [PrefersRecent]
  have ht1 : (a.missed p).t1 = a.t1 := by rw [missed_eq h.listed hp]
  have ht2 : (a.missed p).t2 = a.t2 := by rw [missed_eq h.listed hp]
  unfold choose_victim
  rw [wp_bind, wp_get]
  dsimp only
  rw [ht1] at hcond
  simp only [ht1, ht2]
  by_cases hpref : a.PrefersRecent p
  · rw [if_pos (hcond.mpr hpref)]
    split
    · rename_i i hi
      refine (wp_pure _).mpr fun f hf => ?_
      obtain ⟨hmem, hzero⟩ := hfound _ i hi f hf
      exact iff_of_true hmem (Or.inl ⟨hpref, f, List.mem_of_getElem? hf, hmem, hzero⟩)
    · rename_i hnone
      split
      · rename_i i hi
        refine (wp_pure _).mpr fun f hf => ?_
        obtain ⟨hmem, hzero⟩ := hfound _ i hi f hf
        refine iff_of_false (fun h1 => hdisj h1 hmem) ?_
        rintro (⟨-, g, hg, hg1, hgz⟩ | hall)
        · exact hmissing _ hnone g hg hg1 hgz
        · exact hall f (List.mem_of_getElem? hf) hmem hzero
      · exact (wp_fail _).mpr trivial
  · rw [if_neg (fun hc => hpref (hcond.mp hc))]
    dsimp only
    split
    · rename_i i hi
      refine (wp_pure _).mpr fun f hf => ?_
      obtain ⟨hmem, hzero⟩ := hfound _ i hi f hf
      refine iff_of_false (fun h1 => hdisj h1 hmem) ?_
      rintro (⟨hyes, -⟩ | hall)
      · exact hpref hyes
      · exact hall f (List.mem_of_getElem? hf) hmem hzero
    · rename_i hnone
      split
      · rename_i i hi
        refine (wp_pure _).mpr fun f hf => ?_
        exact iff_of_true (hfound _ i hi f hf).1 (Or.inr (hmissing _ hnone))
      · exact (wp_fail _).mpr trivial

end ArcPolicy

namespace BufferPool

variable {store : PageStore} {hs : List FrameHandle} {s : PoolState} {p n : Nat} {a : ArcPolicy}

/-- The policy after the load of page `p` into frame `i`, which held `f`. -/
def reloaded (a : ArcPolicy) (f : Frame) (i p : Nat) : ArcPolicy :=
  if f.valid then (a.evicted f.page_id i).loaded p i else a.loaded p i

theorem wp_on_arc {z : Call Error ArcPolicy Unit} {x : Call Error ClockSweepPolicy Unit}
    {y : Call Error LruKPolicy Unit} {g : ArcPolicy → ArcPolicy} {Q : Unit → PoolState → Prop}
    {E : Error → PoolState → Prop} (hz : z = .modify g)
    (ha : s.pool.eviction_policy = some (.arc a))
    (hq : Q () { s with pool.eviction_policy := some (.arc (g a)) }) :
    (on_policy (EvictionPolicy.dispatch x y z)).wp Q E s := by
  refine wp_on_policy ha (EvictionPolicy.wp_dispatch nofun nofun ?_)
  intro a' heq
  cases heq
  rw [hz, wp_modify]
  exact hq

/-- Whatever moves no page before the end of a load, ARC is told of the eviction
and of the load. -/
theorem load_reloads {x : Call Error PoolState Unit} {g : Frame → Frame} {i : Nat} {f : Frame}
    (hx : x.Keeps (Still s)) (ha : s.pool.eviction_policy = some (.arc a)) :
    (do
      x
      if f.valid then on_policy (EvictionPolicy.record_evict f.page_id i)
      update_frame i g
      on_policy (EvictionPolicy.record_load p i) : Call Error PoolState Unit).wp
      (fun _ s' => s'.pool.eviction_policy = some (.arc (reloaded a f i p)))
      (fun _ _ => True) s := by
  rw [wp_bind]
  refine wp_mono (hx s (Still.refl s)) (fun _ s1 hst => ?_) (fun _ _ _ => trivial)
  have ha1 := hst.policy.trans ha
  unfold reloaded
  cases f.valid with
  | true =>
    rw [if_pos rfl, if_pos rfl, wp_bind]
    refine wp_on_arc rfl ha1 ?_
    rw [wp_bind]
    unfold update_frame
    rw [wp_modify]
    exact wp_on_arc rfl rfl rfl
  | false =>
    rw [if_neg (by simp), if_neg (by simp), wp_bind]
    unfold update_frame
    rw [wp_modify]
    exact wp_on_arc rfl ha1 rfl

theorem load_page_into_frame_reloads {i : Nat} {f : Frame} (hi : s.pool.frames[i]? = some f)
    (ha : s.pool.eviction_policy = some (.arc a)) :
    (load_page_into_frame i p).wp
      (fun _ s' => s'.pool.eviction_policy = some (.arc (reloaded a f i p)))
      (fun _ _ => True) s := by
  have hw := load_reloads (x := do write_back_if_dirty i; read_into_frame i p) (f := f)
    (g := fun frame => { frame with page_id := p, valid := true, dirty := false, pin_count := 1 })
    (p := p) (i := i)
    ((write_back_if_dirty_still i).bind fun _ => read_into_frame_still i p) ha
  rw [wp_bind, wp_bind] at hw
  unfold load_page_into_frame
  rw [wp_bind, wp_get, frame_at_eq hi, wp_bind]
  refine wp_mono hw (fun _ s1 hs1 => ?_) (fun _ _ he => he)
  rw [wp_bind]
  exact hs1

theorem load_blank_page_into_frame_reloads {i : Nat} {f : Frame}
    (hi : s.pool.frames[i]? = some f) (ha : s.pool.eviction_policy = some (.arc a)) :
    (load_blank_page_into_frame i p).wp
      (fun _ s' => s'.pool.eviction_policy = some (.arc (reloaded a f i p)))
      (fun _ _ => True) s := by
  unfold load_blank_page_into_frame
  rw [wp_bind, wp_get, frame_at_eq hi]
  exact load_reloads (write_back_if_dirty_still i) ha

theorem make_handle_same (i : Nat) :
    (make_handle i).wp (fun _ s' => s' = s) (fun _ _ => False) s := by
  unfold make_handle
  rw [wp_bind, wp_get, wp_pure]

/-- After a miss of a ghost that goes through, the ghost is promoted exactly when
it survives. -/
theorem wp_miss_promotes {load : Nat → Call Error PoolState Unit} (h : PinsHold store hs s)
    (ha : s.pool.eviction_policy = some (.arc a)) (hb : a.Bounded n)
    (hp : p ∈ a.b1 ∨ p ∈ a.b2)
    (hload : ∀ i f (t : PoolState) b, t.pool.frames[i]? = some f →
      t.pool.eviction_policy = some (.arc b) →
      (load i).wp (fun _ t' => t'.pool.eviction_policy = some (.arc (reloaded b f i p)))
        (fun _ _ => True) t) :
    (miss p load).wp
      (fun _ s' => ∃ a', s'.pool.eviction_policy = some (.arc a') ∧
        (a'.Promoted p ↔ a.Survives s.pool.frames p)) (fun _ _ => True) s := by
  obtain ⟨policy, hpol, htracks⟩ := h.tracked
  rw [ha] at hpol
  cases hpol
  -- the rest of the call, once the frame is known
  have hrest : ∀ i f (t : PoolState), t.pool.frames[i]? = some f →
      t.pool.eviction_policy = some (.arc (a.missed p)) →
      ((reloaded (a.missed p) f i p).Promoted p ↔ a.Survives s.pool.frames p) →
      (do
        load i
        make_handle i : Call Error PoolState FrameHandle).wp
        (fun _ s' => ∃ a', s'.pool.eviction_policy = some (.arc a') ∧
          (a'.Promoted p ↔ a.Survives s.pool.frames p)) (fun _ _ => True) t := by
    intro i f t hi ht hiff
    rw [wp_bind]
    refine wp_mono (hload i f t _ hi ht) (fun _ t' ht' => ?_) (fun _ _ _ => trivial)
    refine wp_mono (make_handle_same i) (fun _ t'' he => ?_) (fun _ _ hf => hf.elim)
    rw [he]
    exact ⟨_, ht', hiff⟩
  unfold miss
  rw [wp_bind]
  refine wp_on_arc rfl ha ?_
  rw [wp_bind]
  unfold choose_victim
  rw [wp_bind, wp_get]
  dsimp only
  split
  · -- a frame is free, and no page is evicted
    rename_i i hfind
    obtain ⟨hlt, hinv, -⟩ := List.findIdx?_eq_some_iff_getElem.mp hfind
    have hfree : s.pool.frames[i].valid = false := by simpa using hinv
    refine (wp_pure _).mpr (hrest i _ _ (List.getElem?_eq_getElem hlt) rfl ?_)
    refine iff_of_true ?_ (Or.inl ⟨_, List.getElem_mem hlt, hfree⟩)
    unfold reloaded
    rw [if_neg (by simp [hfree])]
    exact ArcPolicy.promoted_of_free htracks hb hp i
  · rename_i hfind
    have hvalid : ∀ f ∈ s.pool.frames, f.valid = true := by
      intro f hf
      simpa using List.findIdx?_eq_none_iff.mp hfind f hf
    refine wp_on_policy rfl (EvictionPolicy.wp_dispatch nofun nofun ?_)
    intro b hbeq
    obtain rfl : a.missed p = b := by
      cases hbeq
      rfl
    refine wp_mono (wp_and (ArcPolicy.victim_recent_iff htracks hvalid hp)
      (ArcPolicy.choose_victim.spec (htracks.missed p) (shows_states s.pool))) ?_ (fun _ _ _ => trivial)
    rintro i b ⟨hrecent, hev, rfl⟩
    have hlt : i < s.pool.frames.length := by simpa [states] using is_evictable_lt hev
    obtain ⟨f, hf⟩ := exists_frame hlt
    refine hrest i f _ hf rfl ?_
    unfold reloaded
    rw [if_pos (hvalid f (List.mem_of_getElem? hf))]
    exact ArcPolicy.promoted_of_evict htracks hb hp hvalid hf (hrecent f hf)

theorem find_frame_ghost (h : PinsHold store hs s) (ha : s.pool.eviction_policy = some (.arc a))
    (hp : p ∈ a.b1 ∨ p ∈ a.b2) : s.pool.find_frame p = none := by
  obtain ⟨policy, hpol, htracks⟩ := h.tracked
  rw [ha] at hpol
  cases hpol
  rcases hfind : s.pool.find_frame p with _ | i
  · rfl
  · obtain ⟨f, hf, hv, hid⟩ := find_frame_some hfind
    exact absurd (mem_residents.mpr ⟨f, List.mem_of_getElem? hf, hv, hid⟩)
      (htracks.ghost_not_resident hp)

theorem fetch_promotes (h : PinsHold store hs s) (ha : s.pool.eviction_policy = some (.arc a))
    (hb : a.Bounded n) (hp : p ∈ a.b1 ∨ p ∈ a.b2) :
    (fetch p).wp (fun _ s' => ∃ a', s'.pool.eviction_policy = some (.arc a') ∧
      (a'.Promoted p ↔ a.Survives s.pool.frames p)) (fun _ _ => True) s :=
  wp_lookup_miss h.opened (find_frame_ghost h ha hp)
    (wp_miss_promotes h ha hb hp fun _ _ _ _ => load_page_into_frame_reloads)

theorem fetch_new_promotes (h : PinsHold store hs s) (ha : s.pool.eviction_policy = some (.arc a))
    (hb : a.Bounded n) (hp : p ∈ a.b1 ∨ p ∈ a.b2) :
    (fetch_new p).wp (fun _ s' => ∃ a', s'.pool.eviction_policy = some (.arc a') ∧
      (a'.Promoted p ↔ a.Survives s.pool.frames p)) (fun _ _ => True) s :=
  wp_lookup_miss h.opened (find_frame_ghost h ha hp)
    (wp_miss_promotes h ha hb hp fun _ _ _ _ => load_blank_page_into_frame_reloads)

end BufferPool

/-- In every run of the clients of a pool with ARC, a ghost that is fetched goes
to the front of T2 exactly when it survives the eviction that makes room for it:
a frame is free, or the ghosts do not fill the capacity, or the ghost is not the
oldest of the list that pruning shortens. -/
theorem ghost_promoted_iff_it_survives (store : PageStore) (cfg : BufferPoolConfig)
    (hcap : 0 < cfg.capacity_pages) (hkind : cfg.eviction.kind = .Arc) (s : PoolState)
    (ops : List PoolOp) :
    ∃ t, (BufferPool.open store cfg).run s = (.ok (), t) ∧
      let c := (Run.exec PoolClients.step ops ⟨t, []⟩).2
      ∃ a, c.state.pool.eviction_policy = some (.arc a) ∧
        ∀ p, p ∈ a.b1 ∨ p ∈ a.b2 → ∀ x ∈ [BufferPool.fetch p, BufferPool.fetch_new p],
          ∀ handle s', x.run c.state = (.ok handle, s') →
            ∃ a', s'.pool.eviction_policy = some (.arc a') ∧
              (a'.Promoted p ↔ a.Survives c.state.pool.frames p) := by
  obtain ⟨t, hopen, hpins, harc⟩ := PoolClients.arc_after store cfg hcap hkind s ops
  obtain ⟨a, ha, hb⟩ := harc.arc
  refine ⟨t, hopen, a, ha, fun p hp x hx handle s' hr => ?_⟩
  simp only [List.mem_cons, List.not_mem_nil, or_false] at hx
  rcases hx with rfl | rfl
  · exact wp_ok (BufferPool.fetch_promotes hpins ha hb hp) hr
  · exact wp_ok (BufferPool.fetch_new_promotes hpins ha hb hp) hr

/-- The capacity and the four lists of ARC. -/
def arc_lists (s : PoolState) : Option (Nat × List Nat × List Nat × List Nat × List Nat) :=
  match s.pool.eviction_policy with
  | some (.arc a) => some (a.capacity, a.t1, a.t2, a.b1, a.b2)
  | _ => none

theorem arc_lists_eq {s : PoolState} {a : ArcPolicy}
    (h : s.pool.eviction_policy = some (.arc a)) :
    arc_lists s = some (a.capacity, a.t1, a.t2, a.b1, a.b2) := by
  unfold arc_lists
  rw [h]

/-- A pool with ARC over a file of four pages of two bytes. -/
def arc_pool (capacity : Nat) : PoolState :=
  ((BufferPool.open ⟨true, 2⟩ ⟨capacity, ⟨.Arc, 2⟩⟩).run
    ⟨{}, ⟨[1, 2, 3, 4, 5, 6, 7, 8], {}⟩⟩).2

/-- Two frames: page 0 leaves for page 2, and comes back from B1 to T2. -/
theorem ghost_of_two_frames :
    ∃ t, (BufferPool.open ⟨true, 2⟩ ⟨2, ⟨.Arc, 2⟩⟩).run
        ⟨{}, ⟨[1, 2, 3, 4, 5, 6, 7, 8], {}⟩⟩ = (.ok (), t) ∧
      let c := (Run.exec PoolClients.step
        [.fetch 0, .unpin 0 false, .fetch 1, .unpin 0 false, .fetch 2, .unpin 0 false] ⟨t, []⟩).2
      ∃ a, c.state.pool.eviction_policy = some (.arc a) ∧ 0 ∈ a.b1 ∧
        ∃ handle s' a', (BufferPool.fetch 0).run c.state = (.ok handle, s') ∧
          s'.pool.eviction_policy = some (.arc a') ∧ a'.Promoted 0 := by
  obtain ⟨t, hopen, a, ha, hghost⟩ := ghost_promoted_iff_it_survives ⟨true, 2⟩ ⟨2, ⟨.Arc, 2⟩⟩
    (by decide) rfl ⟨{}, ⟨[1, 2, 3, 4, 5, 6, 7, 8], {}⟩⟩
    [.fetch 0, .unpin 0 false, .fetch 1, .unpin 0 false, .fetch 2, .unpin 0 false]
  have ht : t = arc_pool 2 := by
    unfold arc_pool
    rw [hopen]
  refine ⟨t, hopen, a, ha, ?_⟩
  have hlists := arc_lists_eq ha
  subst ht
  have hvalue : arc_lists (Run.exec PoolClients.step
      [.fetch 0, .unpin 0 false, .fetch 1, .unpin 0 false, .fetch 2, .unpin 0 false]
      ⟨arc_pool 2, []⟩).2.state = some (2, [2, 1], [], [0], []) := by
    decide
  rw [hvalue] at hlists
  simp only [Option.some.injEq, Prod.mk.injEq] at hlists
  obtain ⟨hcap, -, -, hb1, hb2⟩ := hlists
  have hmem : 0 ∈ a.b1 := by simp [← hb1]
  have hok : ((BufferPool.fetch 0).run (Run.exec PoolClients.step
      [.fetch 0, .unpin 0 false, .fetch 1, .unpin 0 false, .fetch 2, .unpin 0 false]
      ⟨arc_pool 2, []⟩).2.state).1 = .ok ⟨true, 1, 0⟩ := by
    decide
  obtain ⟨a', ha', hiff⟩ := hghost 0 (Or.inl hmem) _ List.mem_cons_self _ _ (run_eq_of_fst hok)
  have hroom : a.b1.length + a.b2.length < a.capacity := by
    rw [← hb1, ← hb2, ← hcap]
    decide
  exact ⟨hmem, _, _, a', run_eq_of_fst hok, ha', hiff.mpr (Or.inr (Or.inl hroom))⟩

/-- One frame, from which page 0 left for page 1. -/
def one_ghost : PoolClients :=
  (Run.exec PoolClients.step [.fetch 0, .unpin 0 false, .fetch 1, .unpin 0 false]
    ⟨arc_pool 1, []⟩).2

/-- Page 0 is a ghost of B1. When it is fetched again it comes back to T1, since
page 1 took its place on B1 before. -/
theorem ghost_of_one_frame_is_lost :
    arc_lists one_ghost.state = some (1, [1], [], [0], []) ∧
      ((BufferPool.fetch 0).run one_ghost.state).1 = .ok ⟨true, 0, 0⟩ ∧
      arc_lists ((BufferPool.fetch 0).run one_ghost.state).2 = some (1, [0], [], [1], []) := by
  refine ⟨?_, ?_, ?_⟩ <;> decide

end edb
