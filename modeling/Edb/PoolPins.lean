-- The pins of the buffer pool (docs/plan/phase2.md): in every run of the
-- clients, with calls of the backend that fail at any moment, the pins of a
-- frame are the handles to it that are out, and a page that is lent stays in
-- its frame.
import Edb.PoolRuns

namespace edb

open Call

/-! ## The invariant -/

/-- No page is in two frames, the pins of a frame are the handles to it, and a
handle is for the page in its frame. -/
structure PinSafe (frames : List Frame) (handles : List FrameHandle) : Prop where
  distinct : ∀ (i j : Nat) (f g : Frame), frames[i]? = some f → frames[j]? = some g →
    f.valid = true → g.valid = true → f.page_id = g.page_id → i = j
  pinned : ∀ (i : Nat) (f : Frame), frames[i]? = some f →
    f.pin_count = handles.countP (·.index == i)
  held : ∀ h ∈ handles, h.pool = true ∧
    ∃ f, frames[h.index]? = some f ∧ f.valid = true ∧ f.page_id = h.id

/-- What a frame says of its page, without the bytes and the dirty flag. -/
def Frame.slot (f : Frame) : Nat × Bool × Nat := (f.page_id, f.valid, f.pin_count)

variable {store : PageStore} {frames frames' : List Frame} {hs hs' : List FrameHandle}
  {s s' : PoolState} {i p : Nat} {f f' : Frame}

theorem slot_get (he : frames'.map Frame.slot = frames.map Frame.slot)
    (hi : frames'[i]? = some f') : ∃ f, frames[i]? = some f ∧ f.slot = f'.slot := by
  have hget : (frames'.map Frame.slot)[i]? = some f'.slot := by rw [List.getElem?_map, hi]; rfl
  rw [he, List.getElem?_map] at hget
  exact Option.map_eq_some_iff.mp hget

theorem map_slot_set (hi : frames[i]? = some f) (hf : f'.slot = f.slot) :
    (frames.set i f').map Frame.slot = frames.map Frame.slot := by
  obtain ⟨hlt, rfl⟩ := List.getElem?_eq_some_iff.mp hi
  rw [List.map_set, hf, ← List.map_set, List.set_getElem_self]

theorem residents_of_slots (he : frames'.map Frame.slot = frames.map Frame.slot) :
    residents frames' = residents frames := by
  have hres : ∀ fs : List Frame, residents fs =
      (fs.map Frame.slot).map fun k => if k.2.1 then some k.1 else none := by
    intro fs
    rw [List.map_map]
    rfl
  rw [hres, he, ← hres]

namespace PinSafe

/-- The invariant speaks of slots only. -/
theorem of_slots (h : PinSafe frames hs) (he : frames'.map Frame.slot = frames.map Frame.slot) :
    PinSafe frames' hs := by
  refine ⟨fun i j f g hi hj hf hg hp => ?_, fun i f hi => ?_, fun k hk => ?_⟩
  · obtain ⟨f0, hi0, hf0⟩ := slot_get he hi
    obtain ⟨g0, hj0, hg0⟩ := slot_get he hj
    simp only [Frame.slot, Prod.mk.injEq] at hf0 hg0
    exact h.distinct i j f0 g0 hi0 hj0 (hf0.2.1.trans hf) (hg0.2.1.trans hg)
      (hf0.1.trans (hp.trans hg0.1.symm))
  · obtain ⟨f0, hi0, hf0⟩ := slot_get he hi
    simp only [Frame.slot, Prod.mk.injEq] at hf0
    rw [← hf0.2.2]
    exact h.pinned i f0 hi0
  · obtain ⟨hpool, f, hf, hv, hp⟩ := h.held k hk
    obtain ⟨g, hg, hslot⟩ := slot_get he.symm hf
    simp only [Frame.slot, Prod.mk.injEq] at hslot
    exact ⟨hpool, g, hg, hslot.2.1.trans hv, hslot.1.trans hp⟩

/-- The handles to a frame are for its page. -/
theorem id_eq (h : PinSafe frames hs) (hi : frames[i]? = some f) {k : FrameHandle} (hk : k ∈ hs)
    (he : k.index = i) : k.pool = true ∧ k.id = f.page_id := by
  obtain ⟨hpool, g, hg, -, hid⟩ := h.held k hk
  rw [he, hi] at hg
  cases hg
  exact ⟨hpool, hid.symm⟩

/-- A frame that holds no page, or that has no pins, has no handles. -/
theorem free (h : PinSafe frames hs) (hi : frames[i]? = some f)
    (hf : f.valid = false ∨ f.pin_count = 0) : ∀ k ∈ hs, k.index ≠ i := by
  intro k hk he
  rcases hf with hv | hzero
  · obtain ⟨-, g, hg, hgv, -⟩ := h.held k hk
    rw [he, hi] at hg
    cases hg
    rw [hv] at hgv
    cases hgv
  · rw [h.pinned i f hi, List.countP_eq_zero] at hzero
    exact hzero k hk (by simp [he])

/-- Frame `i` holds a page that no other frame holds, with these handles. -/
theorem set (h : PinSafe frames hs) (hvalid : f'.valid = true)
    (hfree : ∀ (j : Nat) (g : Frame), j ≠ i → frames[j]? = some g → g.valid = true →
      g.page_id ≠ f'.page_id)
    (hlt : i < frames.length) (hpin : f'.pin_count = hs'.countP (·.index == i))
    (hheld : ∀ k ∈ hs', k.index = i → k.pool = true ∧ k.id = f'.page_id)
    (hrest : hs'.filter (·.index != i) = hs.filter (·.index != i)) :
    PinSafe (frames.set i f') hs' := by
  refine ⟨fun j k g g' hg hg' hv hv' hp => ?_, fun j g hg => ?_, fun k hk => ?_⟩
  · rcases getElem?_set_cases hg with ⟨rfl, rfl⟩ | ⟨hj, hold⟩ <;>
      rcases getElem?_set_cases hg' with ⟨rfl, rfl⟩ | ⟨hk, hold'⟩
    · rfl
    · exact absurd hp.symm (hfree k g' hk hold' hv')
    · exact absurd hp (hfree j g hj hold hv)
    · exact h.distinct j k g g' hold hold' hv hv' hp
  · rcases getElem?_set_cases hg with ⟨rfl, rfl⟩ | ⟨hj, hold⟩
    · exact hpin
    · rw [countP_of_rest hrest hj]
      exact h.pinned j g hold
  · by_cases hki : k.index = i
    · obtain ⟨hpool, hid⟩ := hheld k hk hki
      exact ⟨hpool, f', by rw [hki]; exact List.getElem?_set_self hlt, hvalid, hid.symm⟩
    · obtain ⟨hpool, g, hg, hrestg⟩ := h.held k ((mem_of_rest hrest hki).mp hk)
      exact ⟨hpool, g, by rw [List.getElem?_set_ne (Ne.symm hki)]; exact hg, hrestg⟩

/-- Frame `i` keeps its page and takes the pins of its handles. -/
theorem repin (h : PinSafe frames hs) (hi : frames[i]? = some f) (hv : f.valid = true)
    (hslot : f'.slot = (f.page_id, true, hs'.countP (·.index == i)))
    (hheld : ∀ k ∈ hs', k.index = i → k.pool = true ∧ k.id = f.page_id)
    (hrest : hs'.filter (·.index != i) = hs.filter (·.index != i)) :
    PinSafe (frames.set i f') hs' := by
  simp only [Frame.slot, Prod.mk.injEq] at hslot
  obtain ⟨hp, hv', hpin⟩ := hslot
  refine h.set hv' ?_ (List.getElem?_eq_some_iff.mp hi).1 hpin ?_ hrest
  · intro j g hj hg hgv he
    exact hj (h.distinct j i g f hg hi hgv hv (he.trans hp))
  · intro k hk he
    rw [hp]
    exact hheld k hk he

end PinSafe

/-- The pool is open, its pins are right, and its policy knows its frames. -/
structure PinsHold (store : PageStore) (handles : List FrameHandle) (s : PoolState) : Prop where
  opened : s.pool.store = some store
  safe : PinSafe s.pool.frames handles
  tracked : ∃ policy, s.pool.eviction_policy = some policy ∧
    policy.Tracks (residents s.pool.frames)

/-- A state with the store, the policy and the slots of `s`. Bytes, dirty flags
and the file are free. -/
structure Still (s s' : PoolState) : Prop where
  store : s'.pool.store = s.pool.store
  policy : s'.pool.eviction_policy = s.pool.eviction_policy
  slots : s'.pool.frames.map Frame.slot = s.pool.frames.map Frame.slot

theorem Still.refl (s : PoolState) : Still s s := ⟨rfl, rfl, rfl⟩

theorem PinsHold.of_still (h : PinsHold store hs s) (hst : Still s s') : PinsHold store hs s' := by
  obtain ⟨policy, hpol, ht⟩ := h.tracked
  exact ⟨hst.store.trans h.opened, h.safe.of_slots hst.slots, policy, hst.policy.trans hpol,
    residents_of_slots hst.slots ▸ ht⟩

namespace BufferPool

/-! ## The calls that move no page -/

theorem on_store_still {α : Type} (x : PageStore → Call Error StorageIO α) :
    (on_store x).Keeps (Still s) := by
  refine keeps_get_bind fun t ht => ?_
  split
  · exact (wp_fail _).mpr ht
  · rw [wp_zoom]
    rename_i store _
    rcases hr : (x store).run t.io with ⟨e | a, io⟩
    · exact wp_of_run_error hr ⟨ht.store, ht.policy, ht.slots⟩
    · exact wp_of_run_ok hr ⟨ht.store, ht.policy, ht.slots⟩

/-- A frame that is updated to one with the same slot. -/
theorem slots_update {pool : BufferPool} {g : Frame → Frame} (hg : ∀ f, (g f).slot = f.slot) :
    (pool.frames.set i (g (pool.frame_at i))).map Frame.slot = pool.frames.map Frame.slot := by
  rcases hi : pool.frames[i]? with _ | f
  · rw [List.set_eq_of_length_le (List.getElem?_eq_none_iff.mp hi)]
  · rw [frame_at_eq hi]
    exact map_slot_set hi (hg f)

theorem update_frame_still {g : Frame → Frame} (hg : ∀ f, (g f).slot = f.slot) :
    (update_frame i g).Keeps (Still s) :=
  keeps_modify fun _ ht => ⟨ht.store, ht.policy, (slots_update hg).trans ht.slots⟩

theorem write_back_if_dirty_still (i : Nat) : (write_back_if_dirty i).Keeps (Still s) := by
  refine keeps_get.bind fun t => ?_
  dsimp only
  split
  · exact keeps_pure _
  · exact (on_store_still _).bind fun _ => update_frame_still fun _ => rfl

theorem read_into_frame_still (i p : Nat) : (read_into_frame i p).Keeps (Still s) := by
  refine keeps_get_bind fun t ht => ?_
  split
  · exact (wp_fail _).mpr ht
  · rename_i store _
    rw [wp_zoom]
    have hput : ∀ d : Bytes,
        (t.pool.frames.set i { t.pool.frame_at i with data := d }).map Frame.slot =
          s.pool.frames.map Frame.slot := fun d =>
      (slots_update (g := fun f => { f with data := d }) fun _ => rfl).trans ht.slots
    rcases hr : (store.read_page p).run (t.io, (t.pool.frame_at i).data) with ⟨e | a, io, d⟩
    · exact wp_of_run_error hr ⟨ht.store, ht.policy, hput d⟩
    · exact wp_of_run_ok hr ⟨ht.store, ht.policy, hput d⟩

theorem mutate_still (handle : FrameHandle) (g : Bytes → Bytes) :
    (mutate handle g).Keeps (Still s) := update_frame_still fun _ => rfl

theorem flush_still (p : Nat) : (flush p).Keeps (Still s) := by
  refine check_open_keeps.bind fun _ => keeps_get.bind fun t => ?_
  split
  · exact keeps_pure _
  · exact write_back_if_dirty_still _

theorem flush_all_still : flush_all.Keeps (Still s) :=
  check_open_keeps.bind fun _ => keeps_get.bind fun _ =>
    (keeps_each write_back_if_dirty_still _).bind fun _ => on_store_still _

/-! ## What survives every call -/

/-- An invariant of the frames and the policy that does not depend on bytes or on
dirty flags. -/
structure Steady (I : PoolState → Prop) : Prop where
  still : ∀ s s', I s → Still s s' → I s'
  update_frame : ∀ i g, (BufferPool.update_frame i g).Keeps I
  record_access : ∀ p i, (on_policy (EvictionPolicy.record_access p i)).Keeps I
  record_miss : ∀ p, (on_policy (EvictionPolicy.record_miss p)).Keeps I
  record_load : ∀ p i, (on_policy (EvictionPolicy.record_load p i)).Keeps I
  record_evict : ∀ p i, (on_policy (EvictionPolicy.record_evict p i)).Keeps I
  choose_victim : BufferPool.choose_victim.Keeps I

namespace Steady

variable {I : PoolState → Prop} (hI : Steady I)

include hI

theorem of_still {α : Type} {x : Call Error PoolState α} (hx : ∀ s, x.Keeps (Still s)) :
    x.Keeps I :=
  fun s h => wp_mono (hx s s (Still.refl s)) (fun _ s' hst => hI.still s s' h hst)
    fun _ s' hst => hI.still s s' h hst

theorem kept : Kept I fun _ => True where
  update_frame i g _ := hI.update_frame i g
  write_back_if_dirty i := hI.of_still fun _ => write_back_if_dirty_still i
  read_into_frame i p := hI.of_still fun _ => read_into_frame_still i p
  record_access := hI.record_access
  record_miss := hI.record_miss
  record_load := hI.record_load
  record_evict := hI.record_evict
  choose_victim := hI.choose_victim

end Steady

/-! ## Lending -/

/-- A hit: the frame takes one more pin. -/
theorem wp_pin {g : Frame → Frame} (h : PinsHold store hs s) (hi : s.pool.frames[i]? = some f)
    (hv : f.valid = true) (hg : (g f).slot = (f.page_id, true, f.pin_count + 1)) :
    (hit f.page_id g i).wp
      (fun handle s' => PinsHold store (handle :: hs) s') (fun _ _ => False) s := by
  have hlt : i < s.pool.frames.length := (List.getElem?_eq_some_iff.mp hi).1
  have hslot := hg
  simp only [Frame.slot, Prod.mk.injEq] at hslot
  have hres : (residents s.pool.frames)[i]? = some (some f.page_id) := by
    rw [residents_get hi, if_pos hv]
  have hsafe : PinSafe (s.pool.frames.set i (g f)) (⟨true, i, f.page_id⟩ :: hs) := by
    refine h.safe.repin hi hv ?_ ?_ (by simp)
    · rw [hg, List.countP_cons_of_pos (by simp), h.safe.pinned i f hi]
    · intro k hk he
      rcases List.mem_cons.mp hk with rfl | hk
      · exact ⟨rfl, rfl⟩
      · exact h.safe.id_eq hi hk he
  unfold hit
  rw [wp_bind]
  refine wp_update_frame hi ?_
  rw [wp_bind]
  obtain ⟨policy, hpol, ht⟩ := h.tracked
  refine wp_on_policy hpol ?_
  apply wp_mono (EvictionPolicy.record_access.spec ht hres) _ (fun _ _ hf => hf.elim)
  intro _ policy' ht'
  refine wp_make_handle (f := g f) (List.getElem?_set_self hlt) ?_
  rw [hslot.1]
  exact ⟨h.opened, hsafe, policy', rfl, tracks_set_same hi (hslot.2.1.trans hv.symm) hslot.1 ht'⟩

theorem record_miss_pins (h : PinsHold store hs s) (p : Nat) :
    (on_policy (EvictionPolicy.record_miss p)).wp
      (fun _ s' => PinsHold store hs s' ∧ s'.pool.frames = s.pool.frames ∧ s'.io = s.io)
      (fun _ _ => False) s := by
  obtain ⟨policy, hpol, ht⟩ := h.tracked
  refine wp_on_policy hpol ?_
  apply wp_mono (EvictionPolicy.record_miss.spec p ht)
  · intro _ policy' ht'
    exact ⟨⟨h.opened, h.safe, policy', rfl, ht'⟩, rfl, rfl⟩
  · exact fun _ _ hf => hf

/-- The victim is a frame to which no handle is out. -/
theorem choose_victim_pins (h : PinsHold store hs s) :
    choose_victim.wp
      (fun i s' => (∃ f, s.pool.frames[i]? = some f ∧ ∀ k ∈ hs, k.index ≠ i) ∧
        PinsHold store hs s' ∧ s'.pool.frames = s.pool.frames ∧ s'.io = s.io)
      (fun _ s' => PinsHold store hs s' ∧ s'.pool.frames = s.pool.frames ∧ s'.io = s.io) s := by
  unfold choose_victim
  rw [wp_bind, wp_get]
  split
  · rename_i i hfind
    obtain ⟨hlt, hinv, -⟩ := List.findIdx?_eq_some_iff_getElem.mp hfind
    refine (wp_pure _).mpr ⟨⟨_, List.getElem?_eq_getElem hlt, ?_⟩, h, rfl, rfl⟩
    exact h.safe.free (List.getElem?_eq_getElem hlt) (Or.inl (by simpa using hinv))
  · obtain ⟨policy, hpol, ht⟩ := h.tracked
    refine wp_on_policy hpol ?_
    apply wp_mono (EvictionPolicy.choose_victim.spec ht (shows_states s.pool))
    · rintro i policy' ⟨hi, ht'⟩
      refine ⟨?_, ⟨h.opened, h.safe, policy', rfl, ht'⟩, rfl, rfl⟩
      have hlt : i < s.pool.frames.length := by simpa [states] using is_evictable_lt hi
      obtain ⟨f, hf⟩ := exists_frame hlt
      refine ⟨f, hf, h.safe.free hf (Or.inr ?_)⟩
      unfold is_evictable states at hi
      rw [List.getElem?_map, hf] at hi
      simp at hi
      exact hi.2
    · rintro e policy' ⟨-, ht', -⟩
      exact ⟨⟨h.opened, h.safe, policy', rfl, ht'⟩, rfl, rfl⟩

/-- The end of both loads: frame `i`, to which no handle is out, takes page `p`
with one pin. -/
theorem wp_take {g : Frame → Frame} {had : Bool} {old : Nat} (h : PinsHold store hs s)
    (hi : s.pool.frames[i]? = some f) (hfree : ∀ k ∈ hs, k.index ≠ i)
    (hno : ∀ (j : Nat) (k : Frame), s.pool.frames[j]? = some k → k.valid = true → k.page_id ≠ p)
    (hhad : f.valid = had) (hold : f.page_id = old) (hg : (g f).slot = (p, true, 1)) :
    (do
      if had then on_policy (EvictionPolicy.record_evict old i)
      update_frame i g
      on_policy (EvictionPolicy.record_load p i) : Call Error PoolState Unit).wp
      (fun _ s' => PinsHold store (⟨true, i, p⟩ :: hs) s') (fun _ _ => False) s := by
  simp only [Frame.slot, Prod.mk.injEq] at hg
  obtain ⟨hp, hv, hpin⟩ := hg
  obtain ⟨policy, hpol, ht⟩ := h.tracked
  refine wp_retrack hhad hold hpol ht hi hno ⟨hv, hp⟩ fun policy' ht' =>
    ⟨h.opened, ?_, policy', rfl, ht'⟩
  refine h.safe.set hv ?_ (List.getElem?_eq_some_iff.mp hi).1 ?_ ?_ (by simp)
  · intro j k _ hk hkv
    rw [hp]
    exact hno j k hk hkv
  · have hzero : hs.countP (·.index == i) = 0 := by
      rw [List.countP_eq_zero]
      intro k hk
      simp [hfree k hk]
    simp [hpin, hzero]
  · intro k hk he
    rcases List.mem_cons.mp hk with rfl | hk
    · exact ⟨rfl, hp.symm⟩
    · exact absurd he (hfree k hk)

/-- A page that no frame holds is in no frame of a state with the same slots. -/
theorem not_cached_of_still (hst : Still s s')
    (hno : ∀ (j : Nat) (k : Frame), s.pool.frames[j]? = some k → k.valid = true → k.page_id ≠ p) :
    ∀ (j : Nat) (k : Frame), s'.pool.frames[j]? = some k → k.valid = true → k.page_id ≠ p := by
  intro j k hk hv
  obtain ⟨k0, hk0, hslot⟩ := slot_get hst.slots hk
  simp only [Frame.slot, Prod.mk.injEq] at hslot
  rw [← hslot.1]
  exact hno j k0 hk0 (hslot.2.1.trans hv)

section

variable (h : PinsHold store hs s) (hi : s.pool.frames[i]? = some f)
  (hfree : ∀ k ∈ hs, k.index ≠ i)
  (hno : ∀ (j : Nat) (k : Frame), s.pool.frames[j]? = some k → k.valid = true → k.page_id ≠ p)

include h hi hfree hno

/-- Whatever moves no page before the end of a load, a load lends the page or
leaves the pins as they were. -/
theorem wp_load {x : Call Error PoolState Unit} {g : Frame → Frame} (hx : x.Keeps (Still s))
    (hg : ∀ k, (g k).slot = (p, true, 1)) :
    (do
      x
      if f.valid then on_policy (EvictionPolicy.record_evict f.page_id i)
      update_frame i g
      on_policy (EvictionPolicy.record_load p i) : Call Error PoolState Unit).wp
      (fun _ s' => PinsHold store (⟨true, i, p⟩ :: hs) s') (fun _ s' => PinsHold store hs s')
      s := by
  rw [wp_bind]
  apply wp_mono (hx s (Still.refl s))
  · intro _ s1 hst
    obtain ⟨f1, hi1, hslot⟩ := slot_get hst.slots.symm hi
    simp only [Frame.slot, Prod.mk.injEq] at hslot
    apply wp_mono (wp_take (h.of_still hst) hi1 hfree (not_cached_of_still hst hno) hslot.2.1
      hslot.1 (hg f1)) (fun _ _ hq => hq)
    exact fun _ _ hf => hf.elim
  · exact fun _ s1 hst => h.of_still hst

theorem load_page_into_frame_pins :
    (load_page_into_frame i p).wp (fun _ s' => PinsHold store (⟨true, i, p⟩ :: hs) s')
      (fun _ s' => PinsHold store hs s') s := by
  have hw := wp_load (x := do write_back_if_dirty i; read_into_frame i p)
    (g := fun frame => { frame with page_id := p, valid := true, dirty := false, pin_count := 1 })
    h hi hfree hno
    ((write_back_if_dirty_still i).bind fun _ => read_into_frame_still i p) fun _ => rfl
  rw [wp_bind, wp_bind] at hw
  unfold load_page_into_frame
  rw [wp_bind, wp_get, frame_at_eq hi, wp_bind]
  apply wp_mono hw _ (fun _ _ he => he)
  intro _ s1 hs1
  rw [wp_bind]
  exact hs1

theorem load_blank_page_into_frame_pins :
    (load_blank_page_into_frame i p).wp (fun _ s' => PinsHold store (⟨true, i, p⟩ :: hs) s')
      (fun _ s' => PinsHold store hs s') s := by
  have hw := wp_load
    (g := fun frame => ⟨p, List.replicate frame.data.length 0, true, true, 1⟩)
    h hi hfree hno (write_back_if_dirty_still i) fun _ => rfl
  unfold load_blank_page_into_frame
  rw [wp_bind, wp_get, frame_at_eq hi]
  exact hw

end

/-- A miss: the page goes into a frame to which no handle is out. -/
theorem wp_miss_pins {load : Nat → Call Error PoolState Unit} (h : PinsHold store hs s)
    (hload : ∀ (i : Nat) (f : Frame) (t : PoolState), PinsHold store hs t →
      t.pool.frames[i]? = some f → (∀ k ∈ hs, k.index ≠ i) →
      t.pool.frames = s.pool.frames →
      (load i).wp (fun _ t' => PinsHold store (⟨true, i, p⟩ :: hs) t')
        (fun _ t' => PinsHold store hs t') t) :
    (miss p load).wp (fun handle s' => PinsHold store (handle :: hs) s')
      (fun _ s' => PinsHold store hs s') s := by
  unfold miss
  rw [wp_bind]
  apply wp_mono (record_miss_pins h p) _ (fun _ _ hf => hf.elim)
  rintro _ s1 ⟨h1, hf1, -⟩
  rw [wp_bind]
  apply wp_mono (choose_victim_pins h1)
  · rintro i s2 ⟨⟨f, hi, hfree⟩, h2, hf2, -⟩
    rw [wp_bind]
    apply wp_mono (hload i f s2 h2 (hf2 ▸ hi) hfree (hf2.trans hf1)) _ (fun _ _ he => he)
    intro _ s3 h3
    obtain ⟨-, k, hk, -, hid⟩ := h3.safe.held ⟨true, i, p⟩ (by simp)
    refine wp_make_handle hk ?_
    rw [hid]
    exact h3
  · exact fun _ s2 h2 => h2.1

/-- A lookup gives a handle and counts it, or leaves the pins as they were. -/
theorem lookup_pins {g : Frame → Frame} {load : Nat → Call Error PoolState Unit}
    (h : PinsHold store hs s)
    (hg : ∀ f, f.valid = true → (g f).slot = (f.page_id, true, f.pin_count + 1))
    (hload : ∀ (i : Nat) (f : Frame) (t : PoolState), PinsHold store hs t →
      t.pool.frames[i]? = some f → (∀ k ∈ hs, k.index ≠ i) →
      (∀ (j : Nat) (f : Frame), t.pool.frames[j]? = some f → f.valid = true → f.page_id ≠ p) →
      (load i).wp (fun _ t' => PinsHold store (⟨true, i, p⟩ :: hs) t')
        (fun _ t' => PinsHold store hs t') t) :
    (lookup p g load).wp (fun handle s' => PinsHold store (handle :: hs) s')
      (fun _ s' => PinsHold store hs s') s := by
  refine wp_lookup h.opened ?_ fun hno => ?_
  · rintro i f hi hv rfl
    exact wp_mono (wp_pin h hi hv (hg f hv)) (fun _ _ hq => hq) fun _ _ hf => hf.elim
  · exact wp_miss_pins h fun i f t ht hi hfree hf => hload i f t ht hi hfree (hf ▸ hno)

theorem fetch_pins (h : PinsHold store hs s) (p : Nat) :
    (fetch p).wp (fun handle s' => PinsHold store (handle :: hs) s')
      (fun _ s' => PinsHold store hs s') s :=
  lookup_pins h (fun f hv => by simp [Frame.slot, hv]) fun _ _ _ => load_page_into_frame_pins

theorem fetch_new_pins (h : PinsHold store hs s) (p : Nat) :
    (fetch_new p).wp (fun handle s' => PinsHold store (handle :: hs) s')
      (fun _ s' => PinsHold store hs s') s :=
  lookup_pins h (fun f hv => by simp [Frame.slot, hv])
    fun _ _ _ => load_blank_page_into_frame_pins

/-- `unpin` takes back a handle that is out, and never refuses one. -/
theorem unpin_pins {a b : List FrameHandle} {handle : FrameHandle} (dirty : Bool)
    (h : PinsHold store (a ++ handle :: b) s) :
    (unpin handle dirty).wp (fun _ s' => PinsHold store (a ++ b) s') (fun _ _ => False) s := by
  obtain ⟨hpool, f, hi, hv, hid⟩ := h.safe.held handle (by simp)
  have hlt : handle.index < s.pool.frames.length := (List.getElem?_eq_some_iff.mp hi).1
  have hpins : f.pin_count = (a ++ b).countP (·.index == handle.index) + 1 := by
    rw [h.safe.pinned _ f hi]
    simp [List.countP_append, Nat.add_assoc]
  unfold unpin
  rw [wp_bind]
  refine wp_check_open h.opened ?_
  rw [wp_bind, wp_get]
  have hin : ¬ ((!handle.pool || decide (handle.index ≥ s.pool.frames.length)) = true) := by
    have : ¬ s.pool.frames.length ≤ handle.index := by omega
    simp [hpool, this]
  rw [if_neg hin, frame_at_eq hi]
  dsimp only
  rw [if_neg (by simp [hv, hpins])]
  refine wp_update_frame hi ⟨h.opened, ?_, ?_⟩
  · refine h.safe.repin hi hv ?_ ?_ (by simp [List.filter_append])
    · simp only [Frame.slot, hv, hpins, Nat.add_sub_cancel]
    · intro k hk he
      exact h.safe.id_eq hi (by rcases List.mem_append.mp hk with hk | hk <;> simp [hk]) he
  · obtain ⟨policy, hpol, ht⟩ := h.tracked
    exact ⟨policy, hpol, tracks_set_same hi rfl rfl ht⟩

/-- `open` starts with frames that hold no page and have no pins. -/
theorem open_pins (store : PageStore) (cfg : BufferPoolConfig) (hcap : 0 < cfg.capacity_pages)
    (s : PoolState) :
    (BufferPool.open store cfg).wp (fun _ s' => PinsHold store [] s') (fun _ _ => False) s := by
  unfold BufferPool.open
  rw [wp_bind, wp_modify, wp_bind]
  refine wp_on_policy rfl ?_
  apply wp_mono (EvictionPolicy.reset.spec cfg.eviction hcap) _ (fun _ _ hf => hf)
  intro _ policy ht
  rw [wp_modify]
  have hblank : ∀ (i : Nat) (f : Frame),
      (List.replicate cfg.capacity_pages
        ({ data := List.replicate store.page_size 0 } : Frame))[i]? = some f →
      f.valid = false ∧ f.pin_count = 0 := by
    intro i f hf
    rw [List.eq_of_mem_replicate (List.mem_of_getElem? hf)]
    exact ⟨rfl, rfl⟩
  refine ⟨rfl, ⟨fun i j f g hi _ hv => ?_, fun i f hi => (hblank i f hi).2, nofun⟩, policy, rfl, ?_⟩
  · rw [(hblank i f hi).1] at hv
    cases hv
  · simpa [residents] using ht

end BufferPool

/-! ## Runs -/

namespace PoolClients

variable {c : PoolClients}

theorem lend_pins {x : Call Error PoolState FrameHandle}
    (hx : x.wp (fun handle s' => PinsHold store (handle :: c.handles) s')
      (fun _ s' => PinsHold store c.handles s') c.state) :
    PinsHold store (lend x c).2.handles (lend x c).2.state := by
  unfold lend
  rcases hr : x.run c.state with ⟨e | handle, s'⟩
  · have h := wp_error hx hr
    exact h
  · have h := wp_ok hx hr
    exact h

theorem call_pins {x : Call Error PoolState Unit} (h : PinsHold store c.handles c.state)
    (hx : x.Keeps (Still c.state)) : PinsHold store (call x c).2.handles (call x c).2.state :=
  h.of_still (hx.after (Still.refl _))

/-- One operation keeps the pins right. -/
theorem step_pins (op : PoolOp) (h : PinsHold store c.handles c.state) :
    PinsHold store (step op c).2.handles (step op c).2.state := by
  cases op with
  | fetch p => exact lend_pins (BufferPool.fetch_pins h p)
  | fetch_new p => exact lend_pins (BufferPool.fetch_new_pins h p)
  | mutate k offset bytes =>
    simp only [step]
    split
    · exact h
    · exact call_pins h (BufferPool.mutate_still _ _)
  | unpin k dirty =>
    simp only [step]
    split
    · exact h
    · rename_i handle hk
      obtain ⟨hlt, rfl⟩ := List.getElem?_eq_some_iff.mp hk
      have hsplit : c.handles.take k ++ c.handles[k] :: c.handles.drop (k + 1) = c.handles := by
        rw [List.getElem_cons_drop, List.take_append_drop]
      rw [← hsplit] at h
      obtain ⟨_, s', hrun, hs'⟩ := exists_ok_of_wp (BufferPool.unpin_pins dirty h)
      rw [hrun]
      show PinsHold store (c.handles.eraseIdx k) s'
      rw [List.eraseIdx_eq_take_drop_succ]
      exact hs'
  | flush p => exact call_pins h (BufferPool.flush_still p)
  | flush_all => exact call_pins h BufferPool.flush_all_still
  | allocate_page =>
    exact h.of_still ((BufferPool.on_store_still PageStore.allocate_page).after (Still.refl _))

/-- A handle stays out until its owner gives it back. -/
theorem step_keeps_handle (op : PoolOp) {k : Nat} {handle : FrameHandle}
    (hk : c.handles[k]? = some handle) (hop : ∀ dirty, op ≠ .unpin k dirty) :
    handle ∈ (step op c).2.handles := by
  have hmem : handle ∈ c.handles := List.mem_of_getElem? hk
  have hlend : ∀ x, handle ∈ (lend x c).2.handles := by
    intro x
    unfold lend
    split
    · exact List.mem_cons_of_mem _ hmem
    · exact hmem
  cases op with
  | fetch p => exact hlend _
  | fetch_new p => exact hlend _
  | mutate j offset bytes =>
    simp only [step]
    split <;> exact hmem
  | unpin j dirty =>
    have hj : j ≠ k := fun he => hop dirty (he ▸ rfl)
    simp only [step]
    split
    · exact hmem
    · split
      · exact List.mem_eraseIdx_iff_getElem?.mpr ⟨k, Ne.symm hj, hk⟩
      · exact hmem
  | flush p => exact hmem
  | flush_all => exact hmem
  | allocate_page => exact hmem

theorem pins_after (store : PageStore) (cfg : BufferPoolConfig) (hcap : 0 < cfg.capacity_pages)
    (s : PoolState) (ops : List PoolOp) :
    ∃ t, (BufferPool.open store cfg).run s = (.ok (), t) ∧
      let c := (Run.exec step ops ⟨t, []⟩).2
      PinsHold store c.handles c.state := by
  obtain ⟨_, t, hopen, ht⟩ := exists_ok_of_wp (BufferPool.open_pins store cfg hcap s)
  exact ⟨t, hopen, Run.keeps_of_forall (fun c : PoolClients => PinsHold store c.handles c.state)
    (fun op c h (_ : True) => step_pins op h) ops ⟨t, []⟩ ht fun _ _ => trivial⟩

end PoolClients

/-- In every run of the clients of a pool with any policy, over any file and
with any calls of the backend failing, the pins are right. No operation but
the unpin of a handle takes the page of the handle out of its frame. -/
theorem pins_are_safe (store : PageStore) (cfg : BufferPoolConfig)
    (hcap : 0 < cfg.capacity_pages) (s : PoolState) (ops : List PoolOp) :
    ∃ t, (BufferPool.open store cfg).run s = (.ok (), t) ∧
      let c := (Run.exec PoolClients.step ops ⟨t, []⟩).2
      PinSafe c.state.pool.frames c.handles ∧
        ∀ op k handle, c.handles[k]? = some handle → (∀ dirty, op ≠ .unpin k dirty) →
          let frame := (PoolClients.step op c).2.state.pool.frame_at handle.index
          frame.valid = true ∧ frame.page_id = handle.id := by
  obtain ⟨t, hopen, hrun⟩ := PoolClients.pins_after store cfg hcap s ops
  refine ⟨t, hopen, hrun.safe, fun op k handle hk hop => ?_⟩
  have hmem := PoolClients.step_keeps_handle op hk hop
  obtain ⟨-, f, hf, hv, hid⟩ := (PoolClients.step_pins op hrun).safe.held handle hmem
  intro frame
  have hframe : frame = f := BufferPool.frame_at_eq hf
  exact ⟨hframe ▸ hv, hframe ▸ hid⟩

/-- One frame over a file of two pages. The read of page 1 fails halfway, and
the pool is full when page 1 is asked for again. -/
theorem pins_of_one_frame :
    0 < ({ capacity_pages := 1 } : BufferPoolConfig).capacity_pages ∧
      ∃ t, (BufferPool.open ⟨true, 2⟩ { capacity_pages := 1 }).run
          ⟨{}, ⟨[1, 2, 3, 4], { read := [.none, .fail 1] }⟩⟩ = (.ok (), t) ∧
        let c := (Run.exec PoolClients.step
          [.fetch 0, .unpin 0 false, .fetch 1, .fetch 0, .fetch 0, .fetch 1] ⟨t, []⟩).2
        PinSafe c.state.pool.frames c.handles := by
  obtain ⟨t, hopen, hsafe, -⟩ := pins_are_safe ⟨true, 2⟩ { capacity_pages := 1 } (by decide)
    ⟨{}, ⟨[1, 2, 3, 4], { read := [.none, .fail 1] }⟩⟩
    [.fetch 0, .unpin 0 false, .fetch 1, .fetch 0, .fetch 0, .fetch 1]
  exact ⟨by decide, t, hopen, hsafe⟩

end edb
