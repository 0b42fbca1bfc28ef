-- The laws of ARC, and from there the laws of every policy. The four lists
-- of ARC and its map of locations say the same of every page, the pages of
-- T1 and T2 are the pages in the frames, and pruning drops ghosts only.
import Edb.PolicyLaws

namespace edb

open Call

namespace ArcPolicy

/-! ## The lists and the map -/

/-- The map of locations says of each page on which list it is, and no list
holds a page twice. -/
structure Listed (a : ArcPolicy) : Prop where
  t1 : ∀ p, p ∈ a.t1 ↔ a.locations p = some .T1
  t2 : ∀ p, p ∈ a.t2 ↔ a.locations p = some .T2
  b1 : ∀ p, p ∈ a.b1 ↔ a.locations p = some .B1
  b2 : ∀ p, p ∈ a.b2 ↔ a.locations p = some .B2
  nodup_t1 : a.t1.Nodup
  nodup_t2 : a.t2.Nodup
  nodup_b1 : a.b1.Nodup
  nodup_b2 : a.b2.Nodup

/-- The pages of T1 and T2 are the pages in the frames, each in the frame
that the policy records for it. -/
structure Tracks (a : ArcPolicy) (rs : Residents) : Prop where
  listed : a.Listed
  resident : ∀ p, some p ∈ rs ↔ (a.locations p = some .T1 ∨ a.locations p = some .T2)
  frame : ∀ p i, a.resident_frames p = some i ↔ rs[i]? = some (some p)

theorem mem_push_front_unique (l : List Nat) (p q : Nat) :
    q ∈ push_front_unique l p ↔ q = p ∨ q ∈ l := by
  unfold push_front_unique erase_page
  rw [List.mem_cons]
  by_cases h : q = p
  · simp [h]
  · simp [h, List.mem_erase_of_ne h]

theorem nodup_push_front_unique {l : List Nat} (p : Nat) (h : l.Nodup) :
    (push_front_unique l p).Nodup := by
  unfold push_front_unique erase_page
  rw [List.nodup_cons]
  exact ⟨fun hm => ((List.Nodup.mem_erase_iff h).mp hm).1 rfl, h.erase p⟩

theorem mem_erase_page {l : List Nat} (h : l.Nodup) (p q : Nat) :
    q ∈ erase_page l p ↔ q ≠ p ∧ q ∈ l := List.Nodup.mem_erase_iff h

theorem mem_dropLast {l : List Nat} {last : Nat} (h : l.Nodup) (hl : l.getLast? = some last)
    (p : Nat) : p ∈ l.dropLast ↔ p ≠ last ∧ p ∈ l := by
  obtain ⟨front, rfl⟩ := List.getLast?_eq_some_iff.mp hl
  rw [List.dropLast_concat, List.mem_append, List.mem_singleton]
  rw [List.nodup_append] at h
  constructor
  · intro hp
    exact ⟨h.2.2 p hp last (by simp), Or.inl hp⟩
  · rintro ⟨hne, hp | hp⟩
    · exact hp
    · exact absurd hp hne

/-! ## Pruning -/

/-- `a'` is `a` with some ghosts gone. -/
structure Pruned (a a' : ArcPolicy) : Prop where
  listed : a'.Listed
  frames : a'.resident_frames = a.resident_frames
  recent : ∀ p, a'.locations p = some .T1 ↔ a.locations p = some .T1
  frequent : ∀ p, a'.locations p = some .T2 ↔ a.locations p = some .T2

theorem Pruned.refl {a : ArcPolicy} (h : a.Listed) : Pruned a a :=
  ⟨h, rfl, fun _ => Iff.rfl, fun _ => Iff.rfl⟩

theorem Pruned.trans {a b c : ArcPolicy} (h1 : Pruned a b) (h2 : Pruned b c) : Pruned a c :=
  ⟨h2.listed, h2.frames.trans h1.frames, fun p => (h2.recent p).trans (h1.recent p),
    fun p => (h2.frequent p).trans (h1.frequent p)⟩

/-- The location of a page that is not the one dropped. -/
theorem location_update_none {a : ArcPolicy} {q : Nat} {l l' : Location}
    (hq : a.locations q = some l) (hne : l ≠ l') (p : Nat) :
    Function.update a.locations q none p = some l' ↔ a.locations p = some l' := by
  by_cases hp : p = q
  · subst hp
    simp [hq, hne]
  · rw [Function.update_of_ne hp]

theorem location_update_none_self {a : ArcPolicy} {q : Nat} {l : Location} (p : Nat) :
    Function.update a.locations q none p = some l ↔ p ≠ q ∧ a.locations p = some l := by
  by_cases hp : p = q
  · subst hp; simp
  · simp [hp]

/-- A ghost goes out of the list that it is in. -/
theorem pruned_of_ghost {a : ArcPolicy} (h : a.Listed) {q : Nat} {l : Location} {b1 b2 : List Nat}
    (hq : a.locations q = some l) (hl : l = .B1 ∨ l = .B2)
    (h1 : ∀ p, p ∈ b1 ↔ Function.update a.locations q none p = some .B1)
    (h2 : ∀ p, p ∈ b2 ↔ Function.update a.locations q none p = some .B2) (hn1 : b1.Nodup)
    (hn2 : b2.Nodup) :
    Pruned a { a with b1, b2, locations := Function.update a.locations q none } := by
  have hne : l ≠ .T1 ∧ l ≠ .T2 := by rcases hl with rfl | rfl <;> decide
  have ht1 := location_update_none hq hne.1
  have ht2 := location_update_none hq hne.2
  exact ⟨⟨fun p => (h.t1 p).trans (ht1 p).symm, fun p => (h.t2 p).trans (ht2 p).symm, h1, h2,
    h.nodup_t1, h.nodup_t2, hn1, hn2⟩, rfl, ht1, ht2⟩

theorem remove_lru_b1_pruned {a : ArcPolicy} (h : a.Listed) : Pruned a (remove_lru_b1 a) := by
  unfold remove_lru_b1
  rcases hl : a.b1.getLast? with _ | q
  · exact Pruned.refl h
  · have hq : a.locations q = some .B1 := (h.b1 q).mp (List.mem_of_getLast? hl)
    refine pruned_of_ghost h hq (.inl rfl) (fun p => ?_)
      (fun p => (h.b2 p).trans (location_update_none hq (by simp) p).symm)
      (h.nodup_b1.sublist (List.dropLast_sublist _)) h.nodup_b2
    rw [mem_dropLast h.nodup_b1 hl, location_update_none_self, h.b1 p]

theorem remove_lru_b2_pruned {a : ArcPolicy} (h : a.Listed) : Pruned a (remove_lru_b2 a) := by
  unfold remove_lru_b2
  rcases hl : a.b2.getLast? with _ | q
  · exact Pruned.refl h
  · have hq : a.locations q = some .B2 := (h.b2 q).mp (List.mem_of_getLast? hl)
    refine pruned_of_ghost h hq (.inr rfl)
      (fun p => (h.b1 p).trans (location_update_none hq (by simp) p).symm) (fun p => ?_)
      h.nodup_b1 (h.nodup_b2.sublist (List.dropLast_sublist _))
    rw [mem_dropLast h.nodup_b2 hl, location_update_none_self, h.b2 p]

theorem while_loop_pruned (cond : ArcPolicy → Bool) (body : ArcPolicy → ArcPolicy)
    (hbody : ∀ a, a.Listed → Pruned a (body a)) (fuel : Nat) (a : ArcPolicy) (h : a.Listed) :
    Pruned a (while_loop cond body fuel a) := by
  induction fuel generalizing a with
  | zero => exact Pruned.refl h
  | succ fuel ih =>
    unfold while_loop
    split
    · exact (hbody a h).trans (ih _ (hbody a h).listed)
    · exact Pruned.refl h

theorem prune_ghosts_pruned {a : ArcPolicy} (h : a.Listed) : Pruned a (prune_ghosts a) := by
  unfold prune_ghosts
  have h1 := while_loop_pruned (fun a => a.b1.length > a.capacity) remove_lru_b1
    (fun _ => remove_lru_b1_pruned) a.b1.length a h
  have h2 (b : ArcPolicy) (hb : b.Listed) := while_loop_pruned
    (fun a => a.b2.length > a.capacity) remove_lru_b2 (fun _ => remove_lru_b2_pruned)
    b.b2.length b hb
  refine (h1.trans (h2 _ h1.listed)).trans
    (while_loop_pruned _ _ ?_ _ _ (h2 _ h1.listed).listed)
  intro b hb
  split
  · exact remove_lru_b1_pruned hb
  · exact remove_lru_b2_pruned hb

/-- Pruning keeps what the policy knows of the frames. -/
theorem Tracks.prune {a a' : ArcPolicy} {rs : Residents} (h : a.Tracks rs) (hp : Pruned a a') :
    a'.Tracks rs := by
  refine ⟨hp.listed, fun p => ?_, fun p i => ?_⟩
  · rw [hp.recent, hp.frequent]
    exact h.resident p
  · rw [hp.frames]
    exact h.frame p i

/-! ## The records -/

/-- The lists with page `p` moved to `l`, written as the four lists of after. -/
theorem Listed.moved {a : ArcPolicy} (h : a.Listed) (a' : ArcPolicy) (p : Nat) (l : Location)
    (hloc : a'.locations = Function.update a.locations p (some l))
    (ht1 : ∀ q, q ∈ a'.t1 ↔ if q = p then l = .T1 else q ∈ a.t1)
    (ht2 : ∀ q, q ∈ a'.t2 ↔ if q = p then l = .T2 else q ∈ a.t2)
    (hb1 : ∀ q, q ∈ a'.b1 ↔ if q = p then l = .B1 else q ∈ a.b1)
    (hb2 : ∀ q, q ∈ a'.b2 ↔ if q = p then l = .B2 else q ∈ a.b2)
    (hn : a'.t1.Nodup ∧ a'.t2.Nodup ∧ a'.b1.Nodup ∧ a'.b2.Nodup) : a'.Listed := by
  have hupd : ∀ q l', a'.locations q = some l' ↔
      if q = p then l = l' else a.locations q = some l' := by
    intro q l'
    rw [hloc]
    by_cases hq : q = p
    · subst hq; simp
    · simp [hq]
  refine ⟨fun q => ?_, fun q => ?_, fun q => ?_, fun q => ?_, hn.1, hn.2.1, hn.2.2.1, hn.2.2.2⟩
  · rw [ht1, hupd, h.t1]
  · rw [ht2, hupd, h.t2]
  · rw [hb1, hupd, h.b1]
  · rw [hb2, hupd, h.b2]

/-- Page `p` is on no list but that of its location. -/
theorem Listed.not_mem {a : ArcPolicy} {p : Nat} {l : Option Location} (h : a.Listed)
    (hl : a.locations p = l) :
    (l ≠ some .T1 → p ∉ a.t1) ∧ (l ≠ some .T2 → p ∉ a.t2) ∧
      (l ≠ some .B1 → p ∉ a.b1) ∧ (l ≠ some .B2 → p ∉ a.b2) := by
  rw [h.t1, h.t2, h.b1, h.b2, hl]
  exact ⟨id, id, id, id⟩

theorem Tracks.nodup_resident {a : ArcPolicy} {rs : Residents} {p i j : Nat} (h : a.Tracks rs)
    (hi : rs[i]? = some (some p)) (hj : rs[j]? = some (some p)) : i = j := by
  have h1 := (h.frame p i).mpr hi
  rw [(h.frame p j).mpr hj] at h1
  exact (Option.some.inj h1).symm

theorem record_access.spec {a : ArcPolicy} {rs : Residents} {p i : Nat} (h : a.Tracks rs)
    (hi : rs[i]? = some (some p)) :
    (record_access p i).wp (fun _ a' => a'.Tracks rs) (fun _ _ => False) a := by
  have hframes : Function.update a.resident_frames p (some i) = a.resident_frames := by
    rw [← (h.frame p i).mpr hi, Function.update_eq_self]
  have hloc := (h.resident p).mp (List.mem_of_getElem? hi)
  unfold record_access
  rw [wp_modify]
  dsimp only
  rw [hframes]
  rcases hloc with hl | hl
  · obtain ⟨-, ht2, hb1, hb2⟩ := h.listed.not_mem hl
    rw [hl]
    dsimp only
    refine ⟨h.listed.moved _ p .T2 rfl ?_ ?_ ?_ ?_
      ⟨h.listed.nodup_t1.erase p, nodup_push_front_unique p h.listed.nodup_t2,
        h.listed.nodup_b1, h.listed.nodup_b2⟩, ?_, h.frame⟩
    · intro q
      rw [mem_erase_page h.listed.nodup_t1]
      split <;> simp_all
    · intro q
      rw [mem_push_front_unique]
      split <;> simp_all
    · intro q
      split
      · simp_all
      · rfl
    · intro q
      split
      · simp_all
      · rfl
    · intro q
      rw [h.resident q]
      by_cases hq : q = p
      · subst hq; simp [hl]
      · simp [hq]
  · rw [hl]
    obtain ⟨ht1, -, hb1, hb2⟩ := h.listed.not_mem hl
    refine ⟨⟨h.listed.t1, ?_, h.listed.b1, h.listed.b2, h.listed.nodup_t1,
      nodup_push_front_unique p h.listed.nodup_t2, h.listed.nodup_b1, h.listed.nodup_b2⟩,
      h.resident, h.frame⟩
    intro q
    rw [mem_push_front_unique, ← h.listed.t2 q]
    constructor
    · rintro (rfl | hq)
      · exact (h.listed.t2 q).mpr hl
      · exact hq
    · exact Or.inr

theorem record_miss.spec {a : ArcPolicy} {rs : Residents} (p : Nat) (h : a.Tracks rs) :
    (record_miss p).wp (fun _ a' => a'.Tracks rs) (fun _ _ => False) a := by
  have hsame : ∀ a' : ArcPolicy, a'.t1 = a.t1 → a'.t2 = a.t2 → a'.b1 = a.b1 → a'.b2 = a.b2 →
      a'.locations = a.locations → a'.resident_frames = a.resident_frames → a'.Tracks rs := by
    rintro ⟨⟩ rfl rfl rfl rfl rfl rfl
    obtain ⟨⟨h1, h2, h3, h4, n1, n2, n3, n4⟩, hr, hf⟩ := h
    exact ⟨⟨h1, h2, h3, h4, n1, n2, n3, n4⟩, hr, hf⟩
  unfold record_miss
  rw [wp_modify]
  dsimp only
  split <;> exact hsame _ rfl rfl rfl rfl rfl rfl

/-- The frames after page `p` leaves frame `i`. -/
theorem frame_of_evict {a : ArcPolicy} {rs : Residents} {p i : Nat} (h : a.Tracks rs)
    (hi : rs[i]? = some (some p)) (q j : Nat) :
    Function.update a.resident_frames p none q = some j ↔
      (rs.set i none)[j]? = some (some q) := by
  have hlt : i < rs.length := (List.getElem?_eq_some_iff.mp hi).1
  by_cases hq : q = p
  · subst hq
    rw [Function.update_self]
    by_cases hj : i = j
    · subst hj; simp [hlt]
    · rw [List.getElem?_set_ne hj]
      simp only [reduceCtorEq, false_iff]
      intro hjq
      exact hj (h.nodup_resident hi hjq)
  · rw [Function.update_of_ne hq, h.frame q j]
    by_cases hj : i = j
    · subst hj
      simp [List.getElem?_set_self hlt, hi, Ne.symm hq]
    · rw [List.getElem?_set_ne hj]

theorem resident_of_evict {a : ArcPolicy} {rs : Residents} {p i : Nat} (h : a.Tracks rs)
    (hi : rs[i]? = some (some p)) (q : Nat) : some q ∈ rs.set i none ↔ q ≠ p ∧ some q ∈ rs := by
  rw [List.mem_iff_getElem?, List.mem_iff_getElem?]
  constructor
  · rintro ⟨j, hj⟩
    have h1 := (frame_of_evict h hi q j).mpr hj
    by_cases hq : q = p
    · subst hq; simp at h1
    · rw [Function.update_of_ne hq] at h1
      exact ⟨hq, j, (h.frame q j).mp h1⟩
  · rintro ⟨hq, j, hj⟩
    refine ⟨j, (frame_of_evict h hi q j).mp ?_⟩
    rw [Function.update_of_ne hq]
    exact (h.frame q j).mpr hj

theorem record_evict.spec {a : ArcPolicy} {rs : Residents} {p i : Nat} (h : a.Tracks rs)
    (hi : rs[i]? = some (some p)) :
    (record_evict p i).wp (fun _ a' => a'.Tracks (rs.set i none)) (fun _ _ => False) a := by
  have hloc := (h.resident p).mp (List.mem_of_getElem? hi)
  -- after the move to a ghost list, the residents are those of before less `p`
  have hres : ∀ l, l ≠ Location.T1 → l ≠ Location.T2 → ∀ q, some q ∈ rs.set i none ↔
      (Function.update a.locations p (some l) q = some .T1 ∨
        Function.update a.locations p (some l) q = some .T2) := by
    intro l h1 h2 q
    rw [resident_of_evict h hi, h.resident q]
    by_cases hq : q = p
    · subst hq; simp [h1, h2]
    · simp [hq]
  unfold record_evict
  rw [wp_modify]
  dsimp only
  rcases hloc with hl | hl
  · rw [hl]
    obtain ⟨-, ht2, hb1, hb2⟩ := h.listed.not_mem hl
    have hlist := h.listed.moved { a with
      resident_frames := Function.update a.resident_frames p none
      t1 := erase_page a.t1 p
      b1 := push_front_unique a.b1 p
      locations := Function.update a.locations p (some .B1) } p .B1 rfl
      (fun q => by rw [mem_erase_page h.listed.nodup_t1]; split <;> simp_all)
      (fun q => by split <;> simp_all)
      (fun q => by rw [mem_push_front_unique]; split <;> simp_all)
      (fun q => by split <;> simp_all)
      ⟨h.listed.nodup_t1.erase p, h.listed.nodup_t2,
        nodup_push_front_unique p h.listed.nodup_b1, h.listed.nodup_b2⟩
    exact Tracks.prune ⟨hlist, hres .B1 (by simp) (by simp), frame_of_evict h hi⟩
      (prune_ghosts_pruned hlist)
  · rw [hl]
    obtain ⟨ht1, -, hb1, hb2⟩ := h.listed.not_mem hl
    have hlist := h.listed.moved { a with
      resident_frames := Function.update a.resident_frames p none
      t2 := erase_page a.t2 p
      b2 := push_front_unique a.b2 p
      locations := Function.update a.locations p (some .B2) } p .B2 rfl
      (fun q => by split <;> simp_all)
      (fun q => by rw [mem_erase_page h.listed.nodup_t2]; split <;> simp_all)
      (fun q => by split <;> simp_all)
      (fun q => by rw [mem_push_front_unique]; split <;> simp_all)
      ⟨h.listed.nodup_t1, h.listed.nodup_t2.erase p, h.listed.nodup_b1,
        nodup_push_front_unique p h.listed.nodup_b2⟩
    exact Tracks.prune ⟨hlist, hres .B2 (by simp) (by simp), frame_of_evict h hi⟩
      (prune_ghosts_pruned hlist)

/-- The frames after page `p` comes into the free frame `i`. -/
theorem frame_of_load {a : ArcPolicy} {rs : Residents} {p i : Nat} (h : a.Tracks rs)
    (hi : rs[i]? = some none) (hp : some p ∉ rs) (q j : Nat) :
    Function.update a.resident_frames p (some i) q = some j ↔
      (rs.set i (some p))[j]? = some (some q) := by
  have hlt : i < rs.length := (List.getElem?_eq_some_iff.mp hi).1
  by_cases hj : i = j
  · subst hj
    by_cases hq : q = p
    · subst hq; simp [hlt]
    · rw [Function.update_of_ne hq, h.frame q i]
      simp [List.getElem?_set_self hlt, hi, Ne.symm hq]
  · rw [List.getElem?_set_ne hj]
    by_cases hq : q = p
    · subst hq
      simp only [Function.update_self, Option.some.injEq, hj, false_iff]
      exact fun hm => hp (List.mem_of_getElem? hm)
    · rw [Function.update_of_ne hq, h.frame q j]

theorem resident_of_load {a : ArcPolicy} {rs : Residents} {p i : Nat} (h : a.Tracks rs)
    (hi : rs[i]? = some none) (hp : some p ∉ rs) (q : Nat) :
    some q ∈ rs.set i (some p) ↔ q = p ∨ some q ∈ rs := by
  rw [List.mem_iff_getElem?, List.mem_iff_getElem?]
  constructor
  · rintro ⟨j, hj⟩
    have h1 := (frame_of_load h hi hp q j).mpr hj
    by_cases hq : q = p
    · exact Or.inl hq
    · rw [Function.update_of_ne hq] at h1
      exact Or.inr ⟨j, (h.frame q j).mp h1⟩
  · rintro (rfl | ⟨j, hj⟩)
    · exact ⟨i, (frame_of_load h hi hp q i).mp (by simp)⟩
    · refine ⟨j, (frame_of_load h hi hp q j).mp ?_⟩
      have hq : q ≠ p := by
        rintro rfl
        exact hp (List.mem_of_getElem? hj)
      rw [Function.update_of_ne hq]
      exact (h.frame q j).mpr hj

theorem record_load.spec {a : ArcPolicy} {rs : Residents} {p i : Nat} (h : a.Tracks rs)
    (hi : rs[i]? = some none) (hp : some p ∉ rs) :
    (record_load p i).wp (fun _ a' => a'.Tracks (rs.set i (some p))) (fun _ _ => False) a := by
  have hnot : ¬ (a.locations p = some .T1 ∨ a.locations p = some .T2) :=
    fun hl => hp ((h.resident p).mpr hl)
  push Not at hnot
  have hres : ∀ l, l = Location.T1 ∨ l = Location.T2 → ∀ q, some q ∈ rs.set i (some p) ↔
      (Function.update a.locations p (some l) q = some .T1 ∨
        Function.update a.locations p (some l) q = some .T2) := by
    intro l hl q
    rw [resident_of_load h hi hp, h.resident q]
    by_cases hq : q = p
    · subst hq; simpa using hl
    · simp [hq]
  have hmiss := h.listed.not_mem (p := p) rfl
  unfold record_load
  rw [wp_modify]
  dsimp only
  split
  · rename_i hl
    rw [hl] at hmiss
    obtain ⟨ht1, ht2, -, hb2⟩ := hmiss
    have hlist := h.listed.moved { a with
      resident_frames := Function.update a.resident_frames p (some i)
      b1 := erase_page a.b1 p
      t2 := push_front_unique a.t2 p
      locations := Function.update a.locations p (some .T2) } p .T2 rfl
      (fun q => by split <;> simp_all)
      (fun q => by rw [mem_push_front_unique]; split <;> simp_all)
      (fun q => by rw [mem_erase_page h.listed.nodup_b1]; split <;> simp_all)
      (fun q => by split <;> simp_all)
      ⟨h.listed.nodup_t1, nodup_push_front_unique p h.listed.nodup_t2,
        h.listed.nodup_b1.erase p, h.listed.nodup_b2⟩
    exact Tracks.prune ⟨hlist, hres .T2 (Or.inr rfl), frame_of_load h hi hp⟩
      (prune_ghosts_pruned hlist)
  · rename_i hl
    rw [hl] at hmiss
    obtain ⟨ht1, ht2, hb1, -⟩ := hmiss
    have hlist := h.listed.moved { a with
      resident_frames := Function.update a.resident_frames p (some i)
      b2 := erase_page a.b2 p
      t2 := push_front_unique a.t2 p
      locations := Function.update a.locations p (some .T2) } p .T2 rfl
      (fun q => by split <;> simp_all)
      (fun q => by rw [mem_push_front_unique]; split <;> simp_all)
      (fun q => by split <;> simp_all)
      (fun q => by rw [mem_erase_page h.listed.nodup_b2]; split <;> simp_all)
      ⟨h.listed.nodup_t1, nodup_push_front_unique p h.listed.nodup_t2,
        h.listed.nodup_b1, h.listed.nodup_b2.erase p⟩
    exact Tracks.prune ⟨hlist, hres .T2 (Or.inr rfl), frame_of_load h hi hp⟩
      (prune_ghosts_pruned hlist)
  · rename_i hb1 hb2
    obtain ⟨ht1, ht2, hn1, hn2⟩ := hmiss
    have hlist := h.listed.moved { a with
      resident_frames := Function.update a.resident_frames p (some i)
      t1 := push_front_unique a.t1 p
      locations := Function.update a.locations p (some .T1) } p .T1 rfl
      (fun q => by rw [mem_push_front_unique]; split <;> simp_all)
      (fun q => by split <;> simp_all)
      (fun q => by split <;> simp_all)
      (fun q => by split <;> simp_all)
      ⟨nodup_push_front_unique p h.listed.nodup_t1, h.listed.nodup_t2,
        h.listed.nodup_b1, h.listed.nodup_b2⟩
    exact Tracks.prune ⟨hlist, hres .T1 (Or.inl rfl), frame_of_load h hi hp⟩
      (prune_ghosts_pruned hlist)

/-! ## The victim -/

theorem choose_from_some {a : ArcPolicy} {frames : List EvictionFrameState} {pages : List Nat}
    {i : Nat} (h : a.choose_from frames pages = some i) : is_evictable frames i = true := by
  induction pages with
  | nil => simp [choose_from] at h
  | cons p rest ih =>
    unfold choose_from at h
    split at h
    · exact ih h
    · split at h
      · cases h; assumption
      · exact ih h

theorem choose_from_none {a : ArcPolicy} {frames : List EvictionFrameState} {pages : List Nat}
    (h : a.choose_from frames pages = none) :
    ∀ p ∈ pages, ∀ i, a.resident_frames p = some i → is_evictable frames i = false := by
  induction pages with
  | nil => simp
  | cons p rest ih =>
    unfold choose_from at h
    intro q hq i hi
    rcases List.mem_cons.mp hq with rfl | hq
    · rw [hi] at h
      simp only at h
      split at h
      · cases h
      · rename_i hev
        simpa using hev
    · split at h
      · exact ih h q hq i hi
      · split at h
        · cases h
        · exact ih h q hq i hi

theorem choose_victim.spec {a : ArcPolicy} {frames : List EvictionFrameState} {rs : Residents}
    (h : a.Tracks rs) (hs : Shows frames rs) :
    (choose_victim frames).wp (fun i a' => is_evictable frames i = true ∧ a' = a)
      (fun e a' => e = .BufferPoolFull ∧ a' = a ∧ ∀ j, is_evictable frames j = false) a := by
  unfold choose_victim choose_from_lru
  rw [wp_bind, wp_get]
  dsimp only
  split
  · rename_i frame hrec
    split at hrec
    · exact (wp_pure _).mpr ⟨choose_from_some hrec, rfl⟩
    · cases hrec
  · split
    · exact (wp_pure _).mpr ⟨choose_from_some ‹_›, rfl⟩
    · rename_i hf
      split
      · exact (wp_pure _).mpr ⟨choose_from_some ‹_›, rfl⟩
      · rename_i hr
        refine (wp_fail _).mpr ⟨rfl, rfl, fun j => ?_⟩
        by_contra hj
        rw [Bool.not_eq_false] at hj
        obtain ⟨p, hp⟩ := resident_of_evictable hs hj
        have hframe := (h.frame p j).mpr hp
        have hev : is_evictable frames j = false := by
          rcases (h.resident p).mp (List.mem_of_getElem? hp) with hl | hl
          · exact choose_from_none hr p (by simpa using (h.listed.t1 p).mpr hl) j hframe
          · exact choose_from_none hf p (by simpa using (h.listed.t2 p).mpr hl) j hframe
        simp [hj] at hev

end ArcPolicy

/-! ## Every policy -/

namespace EvictionPolicy

/-- The records of the policy fit frames that hold these pages. -/
def Tracks : EvictionPolicy → Residents → Prop
  | .clock c, rs => c.Tracks rs.length
  | .lru_k _, _ => True
  | .arc a, rs => a.Tracks rs

theorem wp_dispatch {α : Type} {policy : EvictionPolicy} {x : Call Error ClockSweepPolicy α}
    {y : Call Error LruKPolicy α} {z : Call Error ArcPolicy α}
    {Q : α → EvictionPolicy → Prop} {E : Error → EvictionPolicy → Prop}
    (hx : ∀ c, policy = .clock c → x.wp (fun a c' => Q a (.clock c')) (fun e c' => E e (.clock c')) c)
    (hy : ∀ l, policy = .lru_k l → y.wp (fun a l' => Q a (.lru_k l')) (fun e l' => E e (.lru_k l')) l)
    (hz : ∀ a, policy = .arc a → z.wp (fun r a' => Q r (.arc a')) (fun e a' => E e (.arc a')) a) :
    (dispatch x y z).wp Q E policy := by
  have hrun : ∀ {σ : Type} (w : Call Error σ α) (wrap : σ → EvictionPolicy) (s : σ),
      (dispatch x y z).run (wrap s) = ((w.run s).1, wrap (w.run s).2) →
      w.wp (fun a t => Q a (wrap t)) (fun e t => E e (wrap t)) s →
      (dispatch x y z).wp Q E (wrap s) := by
    intro σ w wrap s heq hw
    unfold Call.wp at hw ⊢
    rw [heq]
    rcases hr : w.run s with ⟨r, t⟩
    rw [hr] at hw
    cases r <;> exact hw
  cases policy with
  | clock c => exact hrun x .clock c rfl (hx c rfl)
  | lru_k l => exact hrun y .lru_k l rfl (hy l rfl)
  | arc a => exact hrun z .arc a rfl (hz a rfl)

/-- A policy of a new pool tracks its empty frames. -/
theorem reset.spec (config : EvictionPolicyConfig) {capacity : Nat} (h : 0 < capacity) :
    (reset capacity).wp (fun _ policy => policy.Tracks (List.replicate capacity none))
      (fun _ _ => False) (make_eviction_policy config) := by
  unfold reset
  apply wp_dispatch
  · intro c _
    unfold ClockSweepPolicy.reset
    rw [wp_modify]
    exact ⟨by simp, by simpa using h⟩
  · intro l _
    unfold LruKPolicy.reset
    rw [wp_modify]
    trivial
  · intro a _
    unfold ArcPolicy.reset
    rw [wp_modify]
    refine ⟨⟨by simp, by simp, by simp, by simp, by simp, by simp, by simp, by simp⟩, ?_, ?_⟩
    · simp [List.mem_replicate]
    · intro p i
      simp [List.getElem?_replicate]

theorem record_access.spec {policy : EvictionPolicy} {rs : Residents} {p i : Nat}
    (h : policy.Tracks rs) (hi : rs[i]? = some (some p)) :
    (record_access p i).wp (fun _ policy' => policy'.Tracks rs) (fun _ _ => False) policy := by
  have hlt : i < rs.length := (List.getElem?_eq_some_iff.mp hi).1
  unfold record_access
  apply wp_dispatch
  · rintro c rfl
    exact ClockSweepPolicy.set_referenced.spec true h hlt
  · rintro l rfl
    exact (wp_modify _).mpr trivial
  · rintro a rfl
    exact ArcPolicy.record_access.spec h hi

theorem record_miss.spec {policy : EvictionPolicy} {rs : Residents} (p : Nat)
    (h : policy.Tracks rs) :
    (record_miss p).wp (fun _ policy' => policy'.Tracks rs) (fun _ _ => False) policy := by
  unfold record_miss
  apply wp_dispatch
  · rintro c rfl
    exact (wp_pure _).mpr h
  · rintro l rfl
    exact (wp_pure _).mpr trivial
  · rintro a rfl
    exact ArcPolicy.record_miss.spec p h

theorem record_evict.spec {policy : EvictionPolicy} {rs : Residents} {p i : Nat}
    (h : policy.Tracks rs) (hi : rs[i]? = some (some p)) :
    (record_evict p i).wp (fun _ policy' => policy'.Tracks (rs.set i none))
      (fun _ _ => False) policy := by
  have hlt : i < rs.length := (List.getElem?_eq_some_iff.mp hi).1
  unfold record_evict
  apply wp_dispatch
  · rintro c rfl
    apply wp_mono (ClockSweepPolicy.set_referenced.spec false h hlt)
    · intro _ c' hc
      show c'.Tracks (rs.set i none).length
      rwa [List.length_set]
    · exact fun _ _ hf => hf
  · rintro l rfl
    exact (wp_pure _).mpr trivial
  · rintro a rfl
    exact ArcPolicy.record_evict.spec h hi

theorem record_load.spec {policy : EvictionPolicy} {rs : Residents} {p i : Nat}
    (h : policy.Tracks rs) (hi : rs[i]? = some none) (hp : some p ∉ rs) :
    (record_load p i).wp (fun _ policy' => policy'.Tracks (rs.set i (some p)))
      (fun _ _ => False) policy := by
  have hlt : i < rs.length := (List.getElem?_eq_some_iff.mp hi).1
  unfold record_load
  apply wp_dispatch
  · rintro c rfl
    apply wp_mono (ClockSweepPolicy.set_referenced.spec true h hlt)
    · intro _ c' hc
      show c'.Tracks (rs.set i (some p)).length
      rwa [List.length_set]
    · exact fun _ _ hf => hf
  · rintro l rfl
    exact (wp_modify _).mpr trivial
  · rintro a rfl
    exact ArcPolicy.record_load.spec h hi hp

/-- A policy that tracks the frames finds a victim whenever there is one. -/
theorem choose_victim.spec {policy : EvictionPolicy} {frames : List EvictionFrameState}
    {rs : Residents} (h : policy.Tracks rs) (hs : Shows frames rs) :
    (choose_victim frames).wp
      (fun i policy' => is_evictable frames i = true ∧ policy'.Tracks rs)
      (fun e policy' => e = .BufferPoolFull ∧ policy'.Tracks rs ∧
        ∀ j, is_evictable frames j = false) policy := by
  unfold choose_victim
  apply wp_dispatch
  · rintro c rfl
    have hc : c.Tracks frames.length := by rw [hs.length]; exact h
    apply wp_mono (ClockSweepPolicy.choose_victim.spec frames c hc)
    · rintro i c' ⟨h1, h2⟩
      exact ⟨h1, by rw [hs.length] at h2; exact h2⟩
    · rintro e c' ⟨h1, h2, h3⟩
      exact ⟨h1, by rw [hs.length] at h2; exact h2, h3⟩
  · rintro l rfl
    apply wp_mono (LruKPolicy.choose_victim.spec frames l)
    · rintro i l' ⟨h1, -⟩
      exact ⟨h1, trivial⟩
    · rintro e l' ⟨h1, -, h3⟩
      exact ⟨h1, trivial, h3⟩
  · rintro a rfl
    apply wp_mono (ArcPolicy.choose_victim.spec h hs)
    · rintro i a' ⟨h1, rfl⟩
      exact ⟨h1, h⟩
    · rintro e a' ⟨h1, rfl, h3⟩
      exact ⟨h1, h, h3⟩

end EvictionPolicy

end edb
