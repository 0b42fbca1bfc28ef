-- What the buffer pool needs from a policy, for all three of them. `Tracks`
-- ties the records of a policy to the pages in the frames. Each call keeps
-- it, and a policy that tracks the frames finds a victim whenever there is
-- one.
import Edb.EvictionPolicy

namespace edb

open Call

/-- The page that each frame holds, or `none` for a frame that is not valid. -/
abbrev Residents := List (Option Nat)

/-- What the policies see of frames that hold these pages. -/
def Shows (frames : List EvictionFrameState) (rs : Residents) : Prop :=
  frames.map (fun f => if f.valid then some f.page_id else none) = rs

theorem Shows.length {frames : List EvictionFrameState} {rs : Residents} (h : Shows frames rs) :
    frames.length = rs.length := by
  rw [← h]; simp

theorem is_evictable_lt {frames : List EvictionFrameState} {i : Nat}
    (h : is_evictable frames i = true) : i < frames.length := by
  unfold is_evictable at h
  rcases hf : frames[i]? with _ | f
  · simp [hf] at h
  · exact (List.getElem?_eq_some_iff.mp hf).1

/-- An evictable frame holds a page. -/
theorem resident_of_evictable {frames : List EvictionFrameState} {rs : Residents} {i : Nat}
    (hs : Shows frames rs) (h : is_evictable frames i = true) : ∃ p, rs[i]? = some (some p) := by
  unfold is_evictable at h
  rcases hf : frames[i]? with _ | f
  · simp [hf] at h
  · simp only [hf, Bool.and_eq_true] at h
    refine ⟨f.page_id, ?_⟩
    rw [← hs, List.getElem?_map, hf]
    simp [h.1]

/-! ## Clock sweep -/

namespace ClockSweepPolicy

/-- One reference bit for each frame, and the hand on a frame. -/
structure Tracks (c : ClockSweepPolicy) (n : Nat) : Prop where
  bits : c.referenced.length = n
  hand : c.clock_hand < n

/-- The steps of the hand from `hand` to frame `j`. -/
def distance (n hand j : Nat) : Nat := if hand ≤ j then j - hand else j + n - hand

theorem distance_lt {n hand j : Nat} (h : hand < n) (hj : j < n) : distance n hand j < n := by
  unfold distance; split <;> omega

theorem next_hand {n hand : Nat} (h : hand < n) :
    (hand + 1) % n = if hand + 1 = n then 0 else hand + 1 := by
  split
  · rename_i he; rw [he, Nat.mod_self]
  · rw [Nat.mod_eq_of_lt (by omega)]

theorem distance_next {n hand j : Nat} (h : hand < n) (hj : j < n) (hne : hand ≠ j) :
    distance n ((hand + 1) % n) j + 1 = distance n hand j := by
  rw [next_hand h]
  unfold distance
  split <;> split <;> split <;> omega

theorem distance_next_self {n hand : Nat} (h : hand < n) :
    distance n ((hand + 1) % n) hand + 1 = n := by
  rw [next_hand h]
  unfold distance
  split <;> split <;> omega

theorem set_referenced.spec {c : ClockSweepPolicy} {n i : Nat} (v : Bool) (h : c.Tracks n)
    (hi : i < n) : (set_referenced i v).wp (fun _ c' => c'.Tracks n) (fun _ _ => False) c := by
  unfold set_referenced
  rw [wp_bind, wp_get, if_neg (by have := h.bits; omega), wp_modify]
  exact ⟨by simp [h.bits], h.hand⟩

/-- The scans that the sweep still needs to come to frame `j` with its bit off. -/
def scans_needed (c : ClockSweepPolicy) (n j : Nat) : Nat :=
  distance n c.clock_hand j + if c.referenced[j]?.getD false then n else 0

/-- The sweep stops on an evictable frame, and gives up only when no frame is
near enough for the scans that are left. -/
theorem sweep.spec (frames : List EvictionFrameState) (scans : Nat) (c : ClockSweepPolicy)
    (h : c.Tracks frames.length) :
    (sweep frames scans).wp
      (fun i c' => is_evictable frames i = true ∧ c'.Tracks frames.length)
      (fun e c' => e = .BufferPoolFull ∧ c'.Tracks frames.length ∧
        ∀ j, is_evictable frames j = true → scans ≤ scans_needed c frames.length j) c := by
  induction scans generalizing c with
  | zero =>
    unfold sweep
    rw [wp_fail]
    exact ⟨rfl, h, fun _ _ => Nat.zero_le _⟩
  | succ scans ih =>
    have hn : 0 < frames.length := Nat.zero_lt_of_lt h.hand
    have hmod : (c.clock_hand + 1) % frames.length < frames.length := Nat.mod_lt _ hn
    unfold sweep
    rw [wp_bind, wp_get]
    dsimp only
    by_cases he : is_evictable frames c.clock_hand = true
    · rw [if_pos he]
      by_cases hr : c.referenced[c.clock_hand]?.getD false = true
      · -- the bit goes off, and the frame is a full turn away
        rw [if_pos hr, wp_bind, wp_modify]
        apply wp_mono (ih _ ⟨by simp [h.bits], hmod⟩)
        · exact fun _ _ hq => hq
        · rintro e c' ⟨rfl, ht, hj⟩
          refine ⟨rfl, ht, fun j hje => ?_⟩
          have hstep := hj j hje
          have hlt := is_evictable_lt hje
          unfold scans_needed at hstep ⊢
          by_cases hjc : c.clock_hand = j
          · subst hjc
            have hd := distance_next_self (n := frames.length) hlt
            have hoff : (c.referenced.set c.clock_hand false)[c.clock_hand]?.getD false = false := by
              simp [h.bits, hlt]
            simp only [hoff, hr, if_true, Bool.false_eq_true, if_false] at hstep ⊢
            omega
          · have hd := distance_next (n := frames.length) h.hand hlt hjc
            rw [List.getElem?_set_ne hjc] at hstep
            simp only at hstep
            omega
      · rw [if_neg hr, wp_bind, wp_modify, wp_pure]
        exact ⟨he, h.bits, hmod⟩
    · rw [if_neg he, wp_bind, wp_modify]
      apply wp_mono (ih { c with clock_hand := (c.clock_hand + 1) % frames.length }
        ⟨h.bits, hmod⟩)
      · exact fun _ _ hq => hq
      · rintro e c' ⟨rfl, ht, hj⟩
        refine ⟨rfl, ht, fun j hje => ?_⟩
        have hstep := hj j hje
        have hjc : c.clock_hand ≠ j := by
          intro hc; subst hc; exact he hje
        have hd := distance_next (n := frames.length) h.hand (is_evictable_lt hje) hjc
        unfold scans_needed at hstep ⊢
        simp only at hstep
        omega

theorem choose_victim.spec (frames : List EvictionFrameState) (c : ClockSweepPolicy)
    (h : c.Tracks frames.length) :
    (choose_victim frames).wp
      (fun i c' => is_evictable frames i = true ∧ c'.Tracks frames.length)
      (fun e c' => e = .BufferPoolFull ∧ c'.Tracks frames.length ∧
        ∀ j, is_evictable frames j = false) c := by
  have hn : 0 < frames.length := Nat.zero_lt_of_lt h.hand
  have hne : frames ≠ [] := List.ne_nil_of_length_pos hn
  unfold choose_victim
  rw [wp_bind, wp_get, if_neg (by simp [hne, h.bits])]
  apply wp_mono (sweep.spec frames _ c h)
  · exact fun _ _ hq => hq
  · rintro e c' ⟨he, ht, hj⟩
    refine ⟨he, ht, fun j => ?_⟩
    by_contra hje
    rw [Bool.not_eq_false] at hje
    have h1 := hj j hje
    have h2 := distance_lt (n := frames.length) h.hand (is_evictable_lt hje)
    unfold scans_needed at h1
    split at h1 <;> omega

end ClockSweepPolicy

/-! ## LRU-K -/

namespace LruKPolicy

/-- An evictable frame, or the error that there is none. -/
def Picks (all : List EvictionFrameState) : Result Nat → Prop
  | .ok i => is_evictable all i = true
  | .error e => e = .BufferPoolFull ∧ ∀ j, is_evictable all j = false

/-- The loop picks an evictable frame, and finds none only when there is none. -/
theorem choose_loop_spec (l : LruKPolicy) (all frames before : List EvictionFrameState)
    (best : Option Best) (hall : all = before ++ frames)
    (hbest : ∀ b, best = some b → is_evictable all b.victim = true)
    (hnone : best = none → ∀ j < before.length, is_evictable all j = false) :
    Picks all (l.choose_loop frames before.length best) := by
  induction frames generalizing before best with
  | nil =>
    cases best with
    | some b => exact hbest b rfl
    | none =>
      refine ⟨rfl, fun j => ?_⟩
      by_cases hj : j < before.length
      · exact hnone rfl j hj
      · by_contra hje
        have := is_evictable_lt ((Bool.not_eq_false _).mp hje)
        simp [hall] at this
        omega
  | cons frame rest ih =>
    have hat : all[before.length]? = some frame := by simp [hall]
    have hall' : all = (before ++ [frame]) ++ rest := by simp [hall]
    have hlen : (before ++ [frame]).length = before.length + 1 := by simp
    have hcase : is_evictable all before.length = (frame.valid && !frame.pinned) := by
      simp [is_evictable, hat]
    unfold choose_loop
    by_cases hskip : (!frame.valid || frame.pinned) = true
    · rw [if_pos hskip, ← hlen]
      apply ih _ _ hall' hbest
      intro hb j hj
      rw [hlen] at hj
      rcases Nat.lt_succ_iff_lt_or_eq.mp hj with hj | hj
      · exact hnone hb j hj
      · subst hj
        rw [hcase]
        cases hv : frame.valid <;> cases hp : frame.pinned <;> simp_all
    · rw [if_neg hskip]
      have hev : is_evictable all before.length = true := by
        rw [hcase]
        cases hv : frame.valid <;> cases hp : frame.pinned <;> simp_all
      -- whatever the best is now, it is this frame or the best of before
      have hnext : ∀ b : Best, is_evictable all b.victim = true →
          Picks all (l.choose_loop rest (before.length + 1) (some b)) := by
        intro b hb
        rw [← hlen]
        exact ih _ _ hall' (fun b' hb' => by cases hb'; exact hb) (by simp)
      rcases hh : l.histories frame.page_id with _ | _ | ⟨score, later⟩
      · exact hev
      · exact hev
      · dsimp only
        rcases best with _ | b
        · exact hnext ⟨before.length, _, _⟩ hev
        · dsimp only
          split
          · exact hnext ⟨before.length, _, _⟩ hev
          · split
            · exact hnext ⟨before.length, _, _⟩ hev
            · exact hnext b (hbest b rfl)

theorem choose_victim.spec (frames : List EvictionFrameState) (l : LruKPolicy) :
    (choose_victim frames).wp (fun i l' => is_evictable frames i = true ∧ l' = l)
      (fun e l' => e = .BufferPoolFull ∧ l' = l ∧ ∀ j, is_evictable frames j = false) l := by
  have h := choose_loop_spec l frames frames [] none rfl (by simp) (by simp)
  unfold choose_victim
  rw [wp_bind, wp_get, wp_ofExcept]
  refine ⟨fun i hi => ?_, fun e he => ?_⟩
  · rw [List.length_nil, hi] at h
    exact ⟨h, rfl⟩
  · rw [List.length_nil, he] at h
    exact ⟨h.1, rfl, h.2⟩

end LruKPolicy

end edb
