-- The buffer pool over its page store is a map from page ids to page bytes.
-- A page that a frame holds has the bytes of the frame, and every other page
-- has the bytes of the file. `Holds` says so of a state, for a map and for
-- the handles that are out, and each call of the pool keeps it.
import Edb.BufferPool
import Edb.ArcLaws

namespace edb

open Call

/-! ## Lists with a key -/

section

variable {α : Type} {key : α → Nat} {xs ys : List α} {i : Nat}

/-- The place that was set, or a place of before. -/
theorem getElem?_set_cases {j : Nat} {x y : α} (h : (xs.set i x)[j]? = some y) :
    (j = i ∧ y = x) ∨ (j ≠ i ∧ xs[j]? = some y) := by
  by_cases hj : j = i
  · subst hj
    rw [List.getElem?_set] at h
    split at h
    · split at h
      · exact Or.inl ⟨rfl, (Option.some.inj h).symm⟩
      · cases h
    · contradiction
  · rw [List.getElem?_set_ne (Ne.symm hj)] at h
    exact Or.inr ⟨hj, h⟩

theorem mem_of_rest (hrest : ys.filter (key · != i) = xs.filter (key · != i)) {x : α}
    (hx : key x ≠ i) : x ∈ ys ↔ x ∈ xs := by
  have hmem : x ∈ ys.filter (key · != i) ↔ x ∈ xs.filter (key · != i) := by rw [hrest]
  simpa [List.mem_filter, hx] using hmem

theorem countP_of_rest (hrest : ys.filter (key · != i) = xs.filter (key · != i)) {j : Nat}
    (hj : j ≠ i) : ys.countP (key · == j) = xs.countP (key · == j) := by
  have hcount : ∀ zs : List α,
      (zs.filter (key · != i)).countP (key · == j) = zs.countP (key · == j) := by
    intro zs
    rw [List.countP_filter]
    apply List.countP_congr
    intro z _
    simp only [Bool.and_eq_true, beq_iff_eq, bne_iff_ne]
    constructor
    · exact fun h => h.1
    · exact fun h => ⟨h, by omega⟩
  rw [← hcount ys, hrest, hcount xs]

end

/-- A handle that its owner has not given back, and whether its owner has
changed the bytes behind it. -/
structure Loan where
  index : Nat
  page : Nat
  mutated : Bool := false
  deriving DecidableEq, Repr

def Loan.handle (l : Loan) : FrameHandle := { pool := true, index := l.index, id := l.page }

/-- The frames over the file hold the pages `m`, with these loans out. A clean
frame has the bytes of the file, unless an owner has changed them. -/
structure Caches (store : PageStore) (m : List Bytes) (loans : List Loan) (frames : List Frame)
    (io : StorageIO) : Prop where
  count : m.length = store.pages io
  sized : ∀ (i : Nat) (f : Frame), frames[i]? = some f → f.data.length = store.page_size
  distinct : ∀ (i j : Nat) (f g : Frame), frames[i]? = some f → frames[j]? = some g → f.valid = true →
    g.valid = true → f.page_id = g.page_id → i = j
  cached : ∀ (i : Nat) (f : Frame), frames[i]? = some f → f.valid = true → m[f.page_id]? = some f.data
  stored : ∀ p, p < m.length →
    (∀ (i : Nat) (f : Frame), frames[i]? = some f → f.valid = true → f.page_id ≠ p) →
    m[p]? = some (store.page io p)
  clean : ∀ (i : Nat) (f : Frame), frames[i]? = some f → f.valid = true → f.dirty = false →
    (∀ l ∈ loans, l.index = i → l.mutated = false) → store.page io f.page_id = f.data
  pinned : ∀ (i : Nat) (f : Frame), frames[i]? = some f → f.pin_count = loans.countP (·.index == i)
  held : ∀ l ∈ loans, ∃ f, frames[l.index]? = some f ∧ f.valid = true ∧ f.page_id = l.page

namespace Caches

variable {store : PageStore} {m m' : List Bytes} {loans loans' : List Loan}
  {frames : List Frame} {io io' : StorageIO} {i : Nat} {f f' : Frame}

/-- Frame `i` takes new contents: the page that it held before must be on the
file, and the new page must be in no other frame. -/
theorem set (h : Caches store m loans frames io) (hi : frames[i]? = some f)
    (hsize : f'.data.length = store.page_size) (hvalid : f'.valid = true)
    (hfree : ∀ (j : Nat) (g : Frame), j ≠ i → frames[j]? = some g → g.valid = true → g.page_id ≠ f'.page_id)
    (hself : m'[f'.page_id]? = some f'.data)
    (hother : ∀ q, q ≠ f'.page_id → m'[q]? = m[q]?) (hlen : m'.length = m.length)
    (hevict : f.valid = true → f.page_id ≠ f'.page_id → store.page io f.page_id = f.data)
    (hclean : f'.dirty = false → (∀ l ∈ loans', l.index = i → l.mutated = false) →
      store.page io f'.page_id = f'.data)
    (hpin : f'.pin_count = loans'.countP (·.index == i))
    (hheld : ∀ l ∈ loans', l.index = i → l.page = f'.page_id)
    (hrest : loans'.filter (·.index != i) = loans.filter (·.index != i)) :
    Caches store m' loans' (frames.set i f') io := by
  have hlt : i < frames.length := (List.getElem?_eq_some_iff.mp hi).1
  have hnew : (frames.set i f')[i]? = some f' := List.getElem?_set_self hlt
  refine ⟨hlen.trans h.count, ?_, ?_, ?_, ?_, ?_, ?_, ?_⟩
  · intro j g hg
    rcases getElem?_set_cases hg with ⟨-, rfl⟩ | ⟨-, hg⟩
    · exact hsize
    · exact h.sized j g hg
  · intro j k g g' hg hg' hv hv' hp
    rcases getElem?_set_cases hg with ⟨rfl, rfl⟩ | ⟨hj, hold⟩ <;>
      rcases getElem?_set_cases hg' with ⟨rfl, rfl⟩ | ⟨hk, hold'⟩
    · rfl
    · exact absurd hp.symm (hfree k g' hk hold' hv')
    · exact absurd hp (hfree j g hj hold hv)
    · exact h.distinct j k g g' hold hold' hv hv' hp
  · intro j g hg hv
    rcases getElem?_set_cases hg with ⟨-, rfl⟩ | ⟨hj, hg⟩
    · exact hself
    · rw [hother _ (hfree j g hj hg hv)]
      exact h.cached j g hg hv
  · intro p hp hno
    have hne : p ≠ f'.page_id := fun he => hno i f' hnew hvalid he.symm
    rw [hother p hne]
    by_cases hold : f.valid = true ∧ f.page_id = p
    · obtain ⟨hv, rfl⟩ := hold
      rw [h.cached i f hi hv, hevict hv hne]
    · apply h.stored p (hlen ▸ hp)
      intro j g hg hv
      by_cases hj : j = i
      · subst hj
        rw [hi] at hg
        cases hg
        exact fun he => hold ⟨hv, he⟩
      · exact hno j g (by rw [List.getElem?_set_ne (Ne.symm hj)]; exact hg) hv
  · intro j g hg hv hd hl
    rcases getElem?_set_cases hg with ⟨rfl, rfl⟩ | ⟨hj, hg⟩
    · exact hclean hd hl
    · apply h.clean j g hg hv hd
      intro l hmem hlj
      exact hl l ((mem_of_rest hrest (by omega)).mpr hmem) hlj
  · intro j g hg
    rcases getElem?_set_cases hg with ⟨rfl, rfl⟩ | ⟨hj, hg⟩
    · exact hpin
    · rw [countP_of_rest hrest hj]
      exact h.pinned j g hg
  · intro l hl
    by_cases hli : l.index = i
    · exact ⟨f', by rw [hli]; exact hnew, hvalid, (hheld l hl hli).symm⟩
    · obtain ⟨g, hg, hrestg⟩ := h.held l ((mem_of_rest hrest hli).mp hl)
      exact ⟨g, by rw [List.getElem?_set_ne (Ne.symm hli)]; exact hg, hrestg⟩

/-- A write to the page of a dirty frame, whole or in part, changes no page of
the map. -/
theorem written (h : Caches store m loans frames io) (hi : frames[i]? = some f)
    (hv : f.valid = true) (hd : f.dirty = true)
    (hlen : io'.bytes.length = io.bytes.length)
    (hpage : ∀ q, q ≠ f.page_id → store.page io' q = store.page io q) :
    Caches store m loans frames io' := by
  refine ⟨h.count.trans (PageStore.pages_of_length hlen).symm, h.sized, h.distinct, h.cached,
    ?_, ?_, h.pinned, h.held⟩
  · intro p hp hno
    rw [hpage p (fun he => hno i f hi hv he.symm)]
    exact h.stored p hp hno
  · intro j g hg hgv hgd hl
    by_cases hp : g.page_id = f.page_id
    · have hji := h.distinct j i g f hg hi hgv hv hp
      subst hji
      rw [hi] at hg
      cases hg
      simp [hd] at hgd
    · rw [hpage _ hp]
      exact h.clean j g hg hgv hgd hl

/-- A frame that nobody holds is not pinned, and the other way around. -/
theorem unpinned_iff (h : Caches store m loans frames io) (hi : frames[i]? = some f) :
    f.pin_count = 0 ↔ ∀ l ∈ loans, l.index ≠ i := by
  rw [h.pinned i f hi, List.countP_eq_zero]
  simp

end Caches

/-- The pages in the frames, as the policies are told of them. -/
def residents (frames : List Frame) : Residents :=
  frames.map fun frame => if frame.valid then some frame.page_id else none

/-- The pool is open on `store` with `n` frames, and it holds the pages `m`. -/
structure Holds (store : PageStore) (n : Nat) (m : List Bytes) (loans : List Loan)
    (s : PoolState) : Prop where
  opened : s.pool.store = some store
  laid : store.Laid s.io
  reads_well : s.io.ReadsWell
  capacity : s.pool.frames.length = n
  frames : Caches store m loans s.pool.frames s.io
  tracked : ∃ policy, s.pool.eviction_policy = some policy ∧ policy.Tracks (residents s.pool.frames)

namespace BufferPool

variable {α : Type} {store : PageStore} {n : Nat} {m : List Bytes} {loans : List Loan}
  {s : PoolState} {Q : α → PoolState → Prop} {E : Error → PoolState → Prop}

/-! ## The rules of the small calls -/

theorem frame_at_eq {pool : BufferPool} {i : Nat} {f : Frame} (h : pool.frames[i]? = some f) :
    pool.frame_at i = f := by
  unfold frame_at
  rw [h]
  rfl

theorem exists_frame {pool : BufferPool} {i : Nat} (h : i < pool.frames.length) :
    ∃ f, pool.frames[i]? = some f := ⟨_, List.getElem?_eq_getElem h⟩

theorem wp_check_open {Q : Unit → PoolState → Prop} (h : s.pool.store = some store)
    (hq : Q () s) : check_open.wp Q E s := by
  unfold check_open
  rw [wp_bind, wp_get, h]
  exact (wp_pure _).mpr hq

theorem wp_on_store {f : PageStore → Call Error StorageIO α} (h : s.pool.store = some store)
    (hw : (f store).wp (fun a io => Q a { s with io }) (fun e io => E e { s with io }) s.io) :
    (on_store f).wp Q E s := by
  unfold on_store
  rw [wp_bind, wp_get, h]
  exact (wp_zoom _ _ _).mpr hw

theorem wp_on_policy {x : Call Error EvictionPolicy α} {policy : EvictionPolicy}
    (h : s.pool.eviction_policy = some policy)
    (hw : x.wp (fun a p => Q a { s with pool.eviction_policy := some p })
      (fun e p => E e { s with pool.eviction_policy := some p }) policy) :
    (on_policy x).wp Q E s := by
  have hrun : (on_policy x).run s =
      ((x.run policy).1, { s with pool.eviction_policy := some (x.run policy).2 }) := by
    show on_policy x s = _
    unfold on_policy
    rw [h]
  unfold Call.wp at hw ⊢
  rw [hrun]
  rcases hr : x.run policy with ⟨r, p⟩
  rw [hr] at hw
  cases r <;> exact hw

theorem wp_update_frame {Q : Unit → PoolState → Prop} {i : Nat} {g : Frame → Frame} {f : Frame}
    (h : s.pool.frames[i]? = some f)
    (hq : Q () { s with pool.frames := s.pool.frames.set i (g f) }) :
    (update_frame i g).wp Q E s := by
  unfold update_frame
  rw [wp_modify, frame_at_eq h]
  exact hq

theorem wp_make_handle {Q : FrameHandle → PoolState → Prop} {i : Nat} {f : Frame}
    (h : s.pool.frames[i]? = some f)
    (hq : Q { pool := true, index := i, id := f.page_id } s) : (make_handle i).wp Q E s := by
  unfold make_handle
  rw [wp_bind, wp_get, frame_at_eq h, wp_pure]
  exact hq

theorem find_frame_some {pool : BufferPool} {p i : Nat} (h : pool.find_frame p = some i) :
    ∃ f, pool.frames[i]? = some f ∧ f.valid = true ∧ f.page_id = p := by
  unfold find_frame at h
  obtain ⟨hlt, hf, -⟩ := List.findIdx?_eq_some_iff_getElem.mp h
  simp only [Bool.and_eq_true, beq_iff_eq] at hf
  exact ⟨_, List.getElem?_eq_getElem hlt, hf.1, hf.2⟩

theorem find_frame_none {pool : BufferPool} {p : Nat} (h : pool.find_frame p = none) :
    ∀ (i : Nat) (f : Frame), pool.frames[i]? = some f → f.valid = true → f.page_id ≠ p := by
  unfold find_frame at h
  rw [List.findIdx?_eq_none_iff] at h
  intro i f hf hv hp
  have := h f (List.mem_of_getElem? hf)
  simp [hv, hp] at this

theorem shows_states (pool : BufferPool) : Shows pool.states (residents pool.frames) := by
  unfold Shows states residents
  rw [List.map_map]
  rfl

theorem residents_get {frames : List Frame} {i : Nat} {f : Frame} (h : frames[i]? = some f) :
    (residents frames)[i]? = some (if f.valid then some f.page_id else none) := by
  unfold residents
  rw [List.getElem?_map, h]
  rfl

theorem residents_set (frames : List Frame) (i : Nat) (f : Frame) :
    residents (frames.set i f) =
      (residents frames).set i (if f.valid then some f.page_id else none) := by
  unfold residents
  rw [List.map_set]

/-- A frame that keeps its page does not change what the policy sees. -/
theorem tracks_set_same {policy : EvictionPolicy} {frames : List Frame} {i : Nat} {f f' : Frame}
    (h : frames[i]? = some f) (hv : f'.valid = f.valid) (hp : f'.page_id = f.page_id)
    (ht : policy.Tracks (residents frames)) : policy.Tracks (residents (frames.set i f')) := by
  obtain ⟨hlt, hval⟩ := List.getElem?_eq_some_iff.mp (residents_get h)
  rwa [residents_set, hv, hp, ← hval, List.set_getElem_self hlt]

/-! ## What the small calls keep -/

/-- A frame of after is one of before, or the one that was updated. -/
theorem mem_update {pool : BufferPool} {i : Nat} {g : Frame → Frame} {f : Frame}
    (h : f ∈ pool.frames.set i (g (pool.frame_at i))) :
    f ∈ pool.frames ∨ ∃ f0 ∈ pool.frames, pool.frames[i]? = some f0 ∧ f = g f0 := by
  rcases hf : pool.frames[i]? with _ | f0
  · rw [List.set_eq_of_length_le (List.getElem?_eq_none_iff.mp hf)] at h
    exact Or.inl h
  · rw [frame_at_eq hf] at h
    rcases List.mem_or_eq_of_mem_set h with h | h
    · exact Or.inl h
    · exact Or.inr ⟨f0, List.mem_of_getElem? hf, rfl, h⟩

theorem on_policy_keeps {I : PoolState → Prop} (x : Call Error EvictionPolicy α)
    (hI : ∀ t policy, I t → I { t with pool.eviction_policy := some policy }) :
    (on_policy x).Keeps I := by
  intro t ht
  rcases hp : t.pool.eviction_policy with _ | policy
  · refine wp_of_run_error (e := Error.IoError) (t := t) ?_ ht
    show on_policy x t = _
    unfold on_policy
    rw [hp]
  · refine wp_on_policy hp ?_
    rcases hr : x.run policy with ⟨e | a, p⟩
    · exact wp_of_run_error hr (hI t p ht)
    · exact wp_of_run_ok hr (hI t p ht)

theorem check_open_keeps {I : PoolState → Prop} : check_open.Keeps I := by
  refine keeps_get.bind fun s => ?_
  split
  · exact keeps_fail _
  · exact keeps_pure _

theorem make_handle_keeps {I : PoolState → Prop} (i : Nat) : (make_handle i).Keeps I :=
  keeps_get.bind fun _ => keeps_pure _

theorem choose_victim_keeps {I : PoolState → Prop}
    (hI : ∀ t policy, I t → I { t with pool.eviction_policy := some policy }) :
    choose_victim.Keeps I := by
  refine keeps_get.bind fun s => ?_
  split
  · exact keeps_pure _
  · exact on_policy_keeps _ hI

/-! ## What `fetch` and `fetch_new` share -/

/-- The page is in frame `i`, which is changed by `g`. -/
def hit (page_id : Nat) (g : Frame → Frame) (i : Nat) : Call Error PoolState FrameHandle := do
  update_frame i g
  on_policy (EvictionPolicy.record_access page_id i)
  make_handle i

/-- The page is in no frame, and a victim takes it by `load`. -/
def miss (page_id : Nat) (load : Nat → Call Error PoolState Unit) :
    Call Error PoolState FrameHandle := do
  on_policy (EvictionPolicy.record_miss page_id)
  let victim ← choose_victim
  load victim
  make_handle victim

def lookup (page_id : Nat) (g : Frame → Frame) (load : Nat → Call Error PoolState Unit) :
    Call Error PoolState FrameHandle := do
  check_open
  let s ← .get
  match s.pool.find_frame page_id with
  | some cached => hit page_id g cached
  | none => miss page_id load

theorem fetch_eq (p : Nat) : fetch p =
    lookup p (fun frame => { frame with pin_count := frame.pin_count + 1 })
      fun i => load_page_into_frame i p := rfl

theorem fetch_new_eq (p : Nat) : fetch_new p =
    lookup p (fun frame => { frame with
      pin_count := frame.pin_count + 1
      dirty := true
      data := List.replicate frame.data.length 0 })
      fun i => load_blank_page_into_frame i p := rfl

section

variable {p : Nat} {g : Frame → Frame} {load : Nat → Call Error PoolState Unit}
  {Q : FrameHandle → PoolState → Prop}

theorem wp_lookup_hit (hopen : s.pool.store = some store) {i : Nat}
    (hfind : s.pool.find_frame p = some i) (hhit : (hit p g i).wp Q E s) :
    (lookup p g load).wp Q E s := by
  unfold lookup
  rw [wp_bind]
  refine wp_check_open hopen ?_
  rw [wp_bind, wp_get, hfind]
  exact hhit

theorem wp_lookup_miss (hopen : s.pool.store = some store) (hfind : s.pool.find_frame p = none)
    (hmiss : (miss p load).wp Q E s) : (lookup p g load).wp Q E s := by
  unfold lookup
  rw [wp_bind]
  refine wp_check_open hopen ?_
  rw [wp_bind, wp_get, hfind]
  exact hmiss

theorem wp_lookup (hopen : s.pool.store = some store)
    (hhit : ∀ i f, s.pool.frames[i]? = some f → f.valid = true → f.page_id = p →
      (hit p g i).wp Q E s)
    (hmiss : (∀ (j : Nat) (f : Frame), s.pool.frames[j]? = some f → f.valid = true →
      f.page_id ≠ p) → (miss p load).wp Q E s) : (lookup p g load).wp Q E s := by
  rcases hfind : s.pool.find_frame p with _ | i
  · exact wp_lookup_miss hopen hfind (hmiss (find_frame_none hfind))
  · obtain ⟨f, hi, hv, hp⟩ := find_frame_some hfind
    exact wp_lookup_hit hopen hfind (hhit i f hi hv hp)

end

/-! ## What the calls keep -/

/-- The steps that the calls of the pool are made of keep `I`, where a frame is
changed as `good` allows. -/
structure Kept (I : PoolState → Prop) (good : (Frame → Frame) → Prop) : Prop where
  update_frame (i : Nat) {g : Frame → Frame} : good g → (BufferPool.update_frame i g).Keeps I
  write_back_if_dirty (i : Nat) : (BufferPool.write_back_if_dirty i).Keeps I
  read_into_frame (i p : Nat) : (BufferPool.read_into_frame i p).Keeps I
  record_access (p i : Nat) : (on_policy (EvictionPolicy.record_access p i)).Keeps I
  record_miss (p : Nat) : (on_policy (EvictionPolicy.record_miss p)).Keeps I
  record_load (p i : Nat) : (on_policy (EvictionPolicy.record_load p i)).Keeps I
  record_evict (p i : Nat) : (on_policy (EvictionPolicy.record_evict p i)).Keeps I
  choose_victim : BufferPool.choose_victim.Keeps I

namespace Kept

variable {I : PoolState → Prop} {good : (Frame → Frame) → Prop}

/-- An invariant that does not look at the policy. -/
theorem of_policy (hI : ∀ t policy, I t → I { t with pool.eviction_policy := some policy })
    (hupdate : ∀ i {g}, good g → (BufferPool.update_frame i g).Keeps I)
    (hback : ∀ i, (BufferPool.write_back_if_dirty i).Keeps I)
    (hread : ∀ i p, (BufferPool.read_into_frame i p).Keeps I) : Kept I good :=
  ⟨hupdate, hback, hread, fun _ _ => on_policy_keeps _ hI, fun _ => on_policy_keeps _ hI,
    fun _ _ => on_policy_keeps _ hI, fun _ _ => on_policy_keeps _ hI, choose_victim_keeps hI⟩

variable (hI : Kept I good)

include hI

/-- The end of both loads. -/
theorem retrack {had : Bool} {old : Nat} (i p : Nat) {g : Frame → Frame} (hg : good g) :
    (do
      if had then on_policy (EvictionPolicy.record_evict old i)
      BufferPool.update_frame i g
      on_policy (EvictionPolicy.record_load p i) : Call Error PoolState Unit).Keeps I := by
  have hload : (do
      BufferPool.update_frame i g
      on_policy (EvictionPolicy.record_load p i) : Call Error PoolState Unit).Keeps I :=
    (hI.update_frame i hg).bind fun _ => hI.record_load p i
  cases had with
  | true => exact (hI.record_evict old i).bind fun _ => hload
  | false => exact hload

theorem lookup (page_id : Nat) {g : Frame → Frame} (hg : good g)
    {load : Nat → Call Error PoolState Unit} (hload : ∀ i, (load i).Keeps I) :
    (lookup page_id g load).Keeps I := by
  refine check_open_keeps.bind fun _ => keeps_get.bind fun s => ?_
  split
  · exact (hI.update_frame _ hg).bind fun _ => (hI.record_access _ _).bind fun _ =>
      make_handle_keeps _
  · exact (hI.record_miss _).bind fun _ => hI.choose_victim.bind fun i =>
      (hload i).bind fun _ => make_handle_keeps _

theorem fetch (p : Nat) (hpin : good fun frame => { frame with pin_count := frame.pin_count + 1 })
    (htake : good fun frame =>
      { frame with page_id := p, valid := true, dirty := false, pin_count := 1 }) :
    (fetch p).Keeps I :=
  hI.lookup p hpin fun i => keeps_get.bind fun _ => (hI.write_back_if_dirty i).bind fun _ =>
    (hI.read_into_frame i p).bind fun _ => hI.retrack i p htake

theorem fetch_new (p : Nat)
    (hpin : good fun frame => { frame with
      pin_count := frame.pin_count + 1
      dirty := true
      data := List.replicate frame.data.length 0 })
    (htake : good fun frame =>
      { page_id := p, data := List.replicate frame.data.length 0, valid := true, dirty := true,
        pin_count := 1 }) :
    (fetch_new p).Keeps I :=
  hI.lookup p hpin fun i => keeps_get.bind fun _ => (hI.write_back_if_dirty i).bind fun _ =>
    hI.retrack i p htake

theorem unpin (handle : FrameHandle) (dirty : Bool)
    (hg : good fun frame =>
      { frame with dirty := dirty || frame.dirty, pin_count := frame.pin_count - 1 }) :
    (unpin handle dirty).Keeps I := by
  refine check_open_keeps.bind fun _ => keeps_get.bind fun s => ?_
  split
  · exact keeps_fail _
  · dsimp only
    split
    · exact keeps_fail _
    · exact hI.update_frame _ hg

end Kept

end BufferPool

end edb
