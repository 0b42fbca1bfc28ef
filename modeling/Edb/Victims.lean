-- Which frame a policy names. The clock sweep is the second-chance rule: the
-- first evictable frame from the hand whose bit is off, or else the first
-- evictable frame. LRU-K is a rule over the whole list of accesses: a page
-- with fewer than `k` of them, the one that came first, or else the page
-- whose access number `k` from the end is the oldest.
import Mathlib.Data.List.DropRight
import Mathlib.Data.Nat.ModEq
import Mathlib.Logic.Function.Iterate
import Edb.PolicyLaws

namespace edb

open Call

/-! ## Clock sweep -/

namespace ClockSweepPolicy

variable {frames : List EvictionFrameState} {c : ClockSweepPolicy}

/-- The next `m` places of the hand. -/
def hands (n hand m : Nat) : List Nat := (List.range m).map fun d => (hand + d) % n

/-- All frames, in the order in which the hand comes to them. -/
def cyclic (n hand : Nat) : List Nat := hands n hand n

/-- The bit of frame `i` is on. -/
def is_referenced (c : ClockSweepPolicy) (i : Nat) : Bool := c.referenced[i]?.getD false

/-- The first evictable frame without a reference. -/
def unreferenced_victim (frames : List EvictionFrameState) (c : ClockSweepPolicy) : Option Nat :=
  (cyclic frames.length c.clock_hand).find? fun i => is_evictable frames i && !c.is_referenced i

/-- The first evictable frame. -/
def evictable_victim (frames : List EvictionFrameState) (c : ClockSweepPolicy) : Option Nat :=
  (cyclic frames.length c.clock_hand).find? fun i => is_evictable frames i

/-- The second-chance rule. -/
def second_chance (frames : List EvictionFrameState) (c : ClockSweepPolicy) : Option Nat :=
  (unreferenced_victim frames c).or (evictable_victim frames c)

/-- The frames that the hand passes over on its way to the victim: those before
it, or all frames where the hand has to come around again. -/
def passed_over (frames : List EvictionFrameState) (c : ClockSweepPolicy) : List Nat :=
  match unreferenced_victim frames c with
  | some victim => (cyclic frames.length c.clock_hand).takeWhile (· != victim)
  | none => cyclic frames.length c.clock_hand

/-- The hand stops here. -/
def stops (frames : List EvictionFrameState) (c : ClockSweepPolicy) : Bool :=
  is_evictable frames c.clock_hand && !c.is_referenced c.clock_hand

/-- The hand goes on to the next frame. -/
def pass (frames : List EvictionFrameState) (c : ClockSweepPolicy) : ClockSweepPolicy where
  referenced :=
    if is_evictable frames c.clock_hand then c.referenced.set c.clock_hand false else c.referenced
  clock_hand := (c.clock_hand + 1) % frames.length

theorem sweep_stops (scans : Nat) (h : stops frames c = true) :
    (sweep frames (scans + 1)).run c =
      (.ok c.clock_hand, { c with clock_hand := (c.clock_hand + 1) % frames.length }) := by
  simp only [stops, is_referenced, Bool.and_eq_true, Bool.not_eq_true'] at h
  unfold sweep
  rw [run_bind, run_get]
  simp only [h.1, h.2, if_true, Bool.false_eq_true, if_false]
  rfl

theorem sweep_passes (scans : Nat) (h : stops frames c = false) :
    (sweep frames (scans + 1)).run c = (sweep frames scans).run (pass frames c) := by
  rw [sweep, run_bind, run_get]
  unfold pass
  dsimp only
  cases he : is_evictable frames c.clock_hand with
  | false => rfl
  | true =>
    have hr : c.referenced[c.clock_hand]?.getD false = true := by
      simpa [stops, is_referenced, he] using h
    simp only [hr, if_true]
    rfl

/-- The sweep after `m` frames on which the hand does not stop. -/
theorem sweep_run (m scans : Nat) (h : ∀ d < m, stops frames ((pass frames)^[d] c) = false) :
    (sweep frames (m + scans)).run c = (sweep frames scans).run ((pass frames)^[m] c) := by
  induction m generalizing c with
  | zero => rw [Nat.zero_add, Function.iterate_zero, id_eq]
  | succ m ih =>
    have h0 : stops frames c = false := h 0 (Nat.zero_lt_succ m)
    rw [Nat.add_right_comm, sweep_passes _ h0, Function.iterate_succ_apply]
    apply ih
    intro d hd
    rw [← Function.iterate_succ_apply]
    exact h (d + 1) (by omega)

theorem mem_hands {n hand m j : Nat} : j ∈ hands n hand m ↔ ∃ d < m, (hand + d) % n = j := by
  simp [hands]

theorem mem_cyclic {n hand j : Nat} (h : hand < n) : j ∈ cyclic n hand ↔ j < n := by
  rw [cyclic, mem_hands]
  constructor
  · rintro ⟨d, -, rfl⟩
    exact Nat.mod_lt _ (by omega)
  · intro hj
    refine ⟨distance n hand j, distance_lt h hj, ?_⟩
    unfold distance
    split
    · rw [Nat.add_sub_cancel' (by assumption), Nat.mod_eq_of_lt hj]
    · rw [show hand + (j + n - hand) = j + n by omega, Nat.add_mod_right, Nat.mod_eq_of_lt hj]

/-- Within one lap the hand comes to each frame once. -/
theorem hands_inj {n hand d e : Nat} (hd : d < n) (he : e < n)
    (h : (hand + d) % n = (hand + e) % n) : d = e := by
  have hmod : d % n = e % n := Nat.ModEq.add_left_cancel' hand h
  rwa [Nat.mod_eq_of_lt hd, Nat.mod_eq_of_lt he] at hmod

/-- The state after the hand has passed over `m` frames. -/
theorem after_passes (h : c.Tracks frames.length) (m : Nat) :
    ((pass frames)^[m] c).clock_hand = (c.clock_hand + m) % frames.length ∧
      ∀ j, ((pass frames)^[m] c).referenced[j]? =
        if is_evictable frames j = true ∧ j ∈ hands frames.length c.clock_hand m then some false
        else c.referenced[j]? := by
  induction m with
  | zero => exact ⟨(Nat.mod_eq_of_lt h.hand).symm, fun j => by simp [hands]⟩
  | succ m ih =>
    obtain ⟨hhand, hbits⟩ := ih
    rw [Function.iterate_succ_apply']
    generalize (pass frames)^[m] c = c' at hhand hbits
    have hmem : ∀ j, j ∈ hands frames.length c.clock_hand (m + 1) ↔
        j ∈ hands frames.length c.clock_hand m ∨ j = c'.clock_hand := by
      intro j
      rw [hhand, hands, List.range_succ, List.map_append, List.mem_append, ← hands]
      simp
    refine ⟨by simp only [pass]; rw [hhand, Nat.mod_add_mod, Nat.add_assoc], fun j => ?_⟩
    have hlen : j < frames.length → c'.referenced.length > j := by
      intro hj
      by_contra hle
      have hnone := hbits j
      rw [List.getElem?_eq_none (by omega),
        List.getElem?_eq_getElem (by rw [h.bits]; exact hj)] at hnone
      split at hnone <;> cases hnone
    simp only [pass]
    by_cases hj : j = c'.clock_hand
    · subst hj
      by_cases he : is_evictable frames c'.clock_hand = true
      · rw [if_pos he, if_pos ⟨he, (hmem _).mpr (Or.inr rfl)⟩,
          List.getElem?_set_self (hlen (is_evictable_lt he))]
      · rw [if_neg he, hbits, if_neg (fun hc => he hc.1), if_neg (fun hc => he hc.1)]
    · have hiff : j ∈ hands frames.length c.clock_hand (m + 1) ↔
          j ∈ hands frames.length c.clock_hand m := by
        rw [hmem]
        exact or_iff_left hj
      have hset : (if is_evictable frames c'.clock_hand = true
          then c'.referenced.set c'.clock_hand false else c'.referenced)[j]? =
            c'.referenced[j]? := by
        split
        · exact List.getElem?_set_ne (Ne.symm hj)
        · rfl
      rw [hset, hbits j]
      simp only [hiff]

/-- Within the first lap the hand sees the bits as they were. -/
theorem stops_in_lap (h : c.Tracks frames.length) {d : Nat} (hd : d < frames.length) :
    stops frames ((pass frames)^[d] c) =
      (is_evictable frames ((c.clock_hand + d) % frames.length) &&
        !c.is_referenced ((c.clock_hand + d) % frames.length)) := by
  obtain ⟨hhand, hbits⟩ := after_passes h d
  have hnew : (c.clock_hand + d) % frames.length ∉ hands frames.length c.clock_hand d := by
    intro hmem
    obtain ⟨e, he, heq⟩ := mem_hands.mp hmem
    exact absurd (hands_inj (by omega) hd heq) (by omega)
  unfold stops is_referenced
  rw [hhand, hbits, if_neg (fun hc => hnew hc.2)]

/-- In the second lap the bits of all evictable frames are off. -/
theorem stops_in_second_lap (h : c.Tracks frames.length) (d : Nat) :
    stops frames ((pass frames)^[frames.length + d] c) =
      is_evictable frames ((c.clock_hand + d) % frames.length) := by
  obtain ⟨hhand, hbits⟩ := after_passes h (frames.length + d)
  have hmod : (c.clock_hand + (frames.length + d)) % frames.length =
      (c.clock_hand + d) % frames.length := by
    rw [← Nat.add_assoc, Nat.add_right_comm, Nat.add_mod_right]
  unfold stops is_referenced
  rw [hhand, hmod, hbits]
  cases he : is_evictable frames ((c.clock_hand + d) % frames.length) with
  | false => rfl
  | true =>
    have hmem : (c.clock_hand + d) % frames.length ∈
        hands frames.length c.clock_hand (frames.length + d) := by
      have hall := (mem_cyclic h.hand).mpr (is_evictable_lt he)
      obtain ⟨e, hlt, heq⟩ := mem_hands.mp hall
      exact mem_hands.mpr ⟨e, by omega, heq⟩
    rw [if_pos ⟨rfl, hmem⟩]
    rfl

/-- The first frame with `p` from the hand on, by its number of steps. -/
theorem find_cyclic {p : Nat → Bool} {n hand victim : Nat}
    (h : (cyclic n hand).find? p = some victim) :
    ∃ m < n, (hand + m) % n = victim ∧ p victim = true ∧ ∀ d < m, p ((hand + d) % n) = false := by
  obtain ⟨hp, m, hm, hget, hbefore⟩ := List.find?_eq_some_iff_getElem.mp h
  have hlen : m < n := by simpa [cyclic, hands] using hm
  refine ⟨m, hlen, by simpa [cyclic, hands] using hget, hp, fun d hd => ?_⟩
  simpa [cyclic, hands] using hbefore d hd

theorem find_cyclic_none {p : Nat → Bool} {n hand : Nat} (h : (cyclic n hand).find? p = none) :
    ∀ d < n, p ((hand + d) % n) = false := by
  intro d hd
  have hnone := List.find?_eq_none.mp h _ (mem_hands.mpr ⟨d, hd, rfl⟩)
  simpa using hnone

theorem take_hands {n hand m : Nat} (hm : m < n) :
    (cyclic n hand).takeWhile (· != (hand + m) % n) = hands n hand m := by
  obtain ⟨rest, hsplit⟩ : ∃ rest, cyclic n hand = hands n hand m ++ (hand + m) % n :: rest := by
    obtain ⟨k, rfl⟩ : ∃ k, n = m + (k + 1) := ⟨n - m - 1, by omega⟩
    unfold cyclic hands
    rw [List.range_add, List.map_append, List.map_map, List.range_succ_eq_map, List.map_cons]
    exact ⟨_, rfl⟩
  rw [hsplit, List.takeWhile_append_of_pos]
  · simp
  · intro j hj
    obtain ⟨d, hd, rfl⟩ := mem_hands.mp hj
    rw [bne_iff_ne]
    intro heq
    exact absurd (hands_inj (by omega) hm heq) (by omega)

/-- What the sweep leaves behind when the hand stops after `m` frames. -/
theorem sweep_run_stops (h : c.Tracks frames.length) (m scans : Nat)
    (hpass : ∀ d < m, stops frames ((pass frames)^[d] c) = false)
    (hstop : stops frames ((pass frames)^[m] c) = true) :
    ∃ c', (sweep frames (m + (scans + 1))).run c =
        (.ok ((c.clock_hand + m) % frames.length), c') ∧
      c'.clock_hand = ((c.clock_hand + m) % frames.length + 1) % frames.length ∧
      ∀ j, c'.referenced[j]? =
        if is_evictable frames j = true ∧ j ∈ hands frames.length c.clock_hand m then some false
        else c.referenced[j]? := by
  obtain ⟨hhand, hbits⟩ := after_passes h m
  rw [sweep_run m _ hpass, sweep_stops _ hstop, hhand]
  exact ⟨_, rfl, rfl, hbits⟩

/-- The second-chance rule, and what is left of the bits after it. -/
structure Follows (frames : List EvictionFrameState) (c c' : ClockSweepPolicy) (victim : Nat) :
    Prop where
  hand : c'.clock_hand = (victim + 1) % frames.length
  bits : ∀ j, c'.referenced[j]? =
    if is_evictable frames j = true ∧ j ∈ passed_over frames c then some false
    else c.referenced[j]?

theorem sweep_second_chance (h : c.Tracks frames.length) :
    (sweep frames (frames.length * 2)).wp
      (fun victim c' => second_chance frames c = some victim ∧ Follows frames c c' victim)
      (fun e _ => e = .BufferPoolFull ∧ second_chance frames c = none) c := by
  rcases hu : unreferenced_victim frames c with _ | victim
  · -- no frame stops the hand in its first lap
    have hlap := find_cyclic_none hu
    have hfirst : ∀ d < frames.length, stops frames ((pass frames)^[d] c) = false := by
      intro d hd
      rw [stops_in_lap h hd]
      exact hlap d hd
    have hpast : passed_over frames c = cyclic frames.length c.clock_hand := by
      rw [passed_over, hu]
    rcases he : evictable_victim frames c with _ | victim
    · have hnone := find_cyclic_none he
      have hall : ∀ d < frames.length * 2, stops frames ((pass frames)^[d] c) = false := by
        intro d hd
        by_cases hlt : d < frames.length
        · exact hfirst d hlt
        · rw [show d = frames.length + (d - frames.length) by omega, stops_in_second_lap h]
          exact hnone _ (by omega)
      have hrun := sweep_run (frames.length * 2) 0 hall
      rw [Nat.add_zero] at hrun
      exact wp_of_run_error (e := .BufferPoolFull) hrun ⟨rfl, by rw [second_chance, hu, he]; rfl⟩
    · obtain ⟨m, hm, rfl, hev, hbefore⟩ := find_cyclic he
      have hpass : ∀ d < frames.length + m, stops frames ((pass frames)^[d] c) = false := by
        intro d hd
        by_cases hlt : d < frames.length
        · exact hfirst d hlt
        · rw [show d = frames.length + (d - frames.length) by omega, stops_in_second_lap h]
          exact hbefore _ (by omega)
      obtain ⟨c', hrun, hhand, hbits⟩ := sweep_run_stops h (frames.length + m)
        (frames.length - m - 1) hpass (by rw [stops_in_second_lap h]; exact hev)
      rw [show frames.length + m + (frames.length - m - 1 + 1) = frames.length * 2 by omega] at hrun
      have hmod : (c.clock_hand + (frames.length + m)) % frames.length =
          (c.clock_hand + m) % frames.length := by
        rw [← Nat.add_assoc, Nat.add_right_comm, Nat.add_mod_right]
      rw [hmod] at hrun hhand
      refine wp_of_run_ok hrun ⟨by rw [second_chance, hu, he]; rfl, hhand, fun j => ?_⟩
      -- one lap and a part of the next one pass over every frame
      have hmem : is_evictable frames j = true →
          (j ∈ hands frames.length c.clock_hand (frames.length + m) ↔
            j ∈ cyclic frames.length c.clock_hand) := by
        intro hj
        have hin := (mem_cyclic h.hand).mpr (is_evictable_lt hj)
        obtain ⟨d, hd, heq⟩ := mem_hands.mp hin
        exact ⟨fun _ => hin, fun _ => mem_hands.mpr ⟨d, by omega, heq⟩⟩
      rw [hbits, hpast]
      simp only [and_congr_right_iff.mpr hmem]
  · obtain ⟨m, hm, rfl, hev, hbefore⟩ := find_cyclic hu
    obtain ⟨c', hrun, hhand, hbits⟩ := sweep_run_stops h m (frames.length * 2 - m - 1)
      (fun d hd => by rw [stops_in_lap h (by omega)]; exact hbefore d hd)
      (by rw [stops_in_lap h hm]; exact hev)
    rw [show m + (frames.length * 2 - m - 1 + 1) = frames.length * 2 by omega] at hrun
    have hpast : passed_over frames c = hands frames.length c.clock_hand m := by
      rw [passed_over, hu]
      exact take_hands hm
    refine wp_of_run_ok hrun ⟨by rw [second_chance, hu]; rfl, hhand, fun j => ?_⟩
    rw [hbits, hpast]

theorem second_chance_none (h : c.clock_hand < frames.length) :
    second_chance frames c = none ↔ ∀ i, is_evictable frames i = false := by
  unfold second_chance unreferenced_victim evictable_victim
  rw [Option.or_eq_none_iff, List.find?_eq_none, List.find?_eq_none]
  constructor
  · rintro ⟨-, hnone⟩ i
    by_contra hi
    rw [Bool.not_eq_false] at hi
    exact hnone i ((mem_cyclic h).mpr (is_evictable_lt hi)) hi
  · intro hnone
    exact ⟨fun i _ => by simp [hnone i], fun i _ => by simp [hnone i]⟩

/-- The clock sweep is the second-chance rule, from every hand, bits and frames.
It fails where no frame is evictable. The hand ends one past the victim, and the
bits that go off are those of the evictable frames that the hand passed over. -/
theorem clock_sweep_is_second_chance (frames : List EvictionFrameState) (c : ClockSweepPolicy)
    (hbits : c.referenced.length = frames.length) (hhand : c.clock_hand < frames.length) :
    let r := (choose_victim frames).run c
    (r.1 = match second_chance frames c with
      | some victim => .ok victim
      | none => .error .BufferPoolFull) ∧
    (r.1 = .error .BufferPoolFull ↔ ∀ i, is_evictable frames i = false) ∧
    ∀ victim, r.1 = .ok victim → r.2.clock_hand = (victim + 1) % frames.length ∧
      ∀ j, r.2.referenced[j]? =
        if is_evictable frames j = true ∧ j ∈ passed_over frames c then some false
        else c.referenced[j]? := by
  have hne : frames ≠ [] := List.ne_nil_of_length_pos (by omega)
  have hw : (choose_victim frames).wp
      (fun victim c' => second_chance frames c = some victim ∧ Follows frames c c' victim)
      (fun e _ => e = .BufferPoolFull ∧ second_chance frames c = none) c := by
    unfold choose_victim
    rw [wp_bind, wp_get, if_neg (by simp [hne, hbits])]
    exact sweep_second_chance ⟨hbits, hhand⟩
  rw [← second_chance_none hhand]
  rcases hr : (choose_victim frames).run c with ⟨e | victim, c'⟩
  · obtain ⟨rfl, hnone⟩ := wp_error hw hr
    exact ⟨by rw [hnone], by simp [hnone], by simp⟩
  · obtain ⟨hsome, hfollows⟩ := wp_ok hw hr
    refine ⟨by rw [hsome], by simp [hsome], fun victim' heq => ?_⟩
    cases heq
    exact ⟨hfollows.hand, hfollows.bits⟩

/-- Three frames, the hand on the last one. Frame 2 is pinned and frame 0 has its
bit on, so the victim is frame 1. -/
theorem second_chance_of_three :
    (choose_victim [⟨7, true, false⟩, ⟨8, true, false⟩, ⟨9, true, true⟩]).run
      ⟨[true, false, true], 2⟩ = (.ok 1, ⟨[false, false, true], 2⟩) := by
  obtain ⟨hvictim, -, -⟩ := clock_sweep_is_second_chance
    [⟨7, true, false⟩, ⟨8, true, false⟩, ⟨9, true, true⟩] ⟨[true, false, true], 2⟩ rfl (by decide)
  have hok : ((choose_victim [⟨7, true, false⟩, ⟨8, true, false⟩, ⟨9, true, true⟩]).run
      ⟨[true, false, true], 2⟩).1 = .ok 1 := by
    rw [hvictim]
    decide
  rw [run_eq_of_fst hok]
  decide

end ClockSweepPolicy

/-! ## LRU-K -/

namespace LruKPolicy

/-- The calls that a policy gets between two choices. -/
inductive TraceCall where
  | record_load (page_id frame_index : Nat)
  | record_access (page_id frame_index : Nat)
  | record_miss (page_id : Nat)
  | record_evict (page_id frame_index : Nat)
  deriving DecidableEq, Repr

def TraceCall.call : TraceCall → Call Error LruKPolicy Unit
  | .record_load page_id frame_index => LruKPolicy.record_load page_id frame_index
  | .record_access page_id frame_index => LruKPolicy.record_access page_id frame_index
  | .record_miss page_id => LruKPolicy.record_miss page_id
  | .record_evict page_id frame_index => LruKPolicy.record_evict page_id frame_index

/-- The page that a call accesses. A load is the first access of a page. -/
def TraceCall.accessed : TraceCall → Option Nat
  | .record_load page_id _ => some page_id
  | .record_access page_id _ => some page_id
  | _ => none

/-- The pages that a trace accesses, in order. -/
def accesses (trace : List TraceCall) : List Nat := trace.filterMap TraceCall.accessed

/-- When page `p` is accessed, the oldest access first. -/
def times (pages : List Nat) (p : Nat) : List Nat :=
  (pages.zipIdx.filter fun x => x.1 == p).map Prod.snd

theorem times_concat (pages : List Nat) (q p : Nat) :
    times (pages ++ [q]) p = times pages p ++ if q = p then [pages.length] else [] := by
  unfold times
  rw [List.zipIdx_append, List.filter_append, List.map_append]
  by_cases h : q = p <;> simp [h]

theorem mem_times {pages : List Nat} {p t : Nat} : t ∈ times pages p ↔ pages[t]? = some p := by
  simp [times, List.mem_zipIdx_iff_getElem?]

/-- The records of a policy that was told of these accesses. -/
structure Recorded (k : Nat) (pages : List Nat) (l : LruKPolicy) : Prop where
  history : l.k_history = k
  tick : l.tick = pages.length
  histories : ∀ p, l.histories p =
    if p ∈ pages then some (((times pages p).map (· + 1)).rtake k) else none

/-- The last `k` of a list and one more are known from the last `k` of the list. -/
theorem rtake_concat_rtake {α : Type} (xs : List α) (x : α) (k : Nat) :
    (xs.rtake k ++ [x]).rtake k = (xs ++ [x]).rtake k := by
  unfold List.rtake
  rw [← List.drop_append_of_le_length (by omega), List.drop_drop]
  congr 1
  simp only [List.length_drop, List.length_append, List.length_singleton]
  omega

theorem times_eq_nil {pages : List Nat} {p : Nat} (h : p ∉ pages) : times pages p = [] := by
  rw [List.eq_nil_iff_forall_not_mem]
  intro t ht
  exact h (List.mem_of_getElem? (mem_times.mp ht))

theorem record_access_recorded {k : Nat} {pages : List Nat} {l : LruKPolicy}
    (h : Recorded k pages l) (hlt : pages.length + 1 < 2 ^ 64) (q i : Nat) :
    (record_access q i).wp (fun _ l' => Recorded k (pages ++ [q]) l') (fun _ _ => False) l := by
  have hold : (l.histories q).getD [] = ((times pages q).map (· + 1)).rtake k := by
    rw [h.histories]
    split
    · rfl
    · rename_i hq
      rw [times_eq_nil hq]
      simp [List.rtake]
  have htick : (l.tick + 1) % 2 ^ 64 = pages.length + 1 := by
    rw [h.tick, Nat.mod_eq_of_lt hlt]
  unfold record_access
  rw [wp_modify]
  dsimp only
  rw [htick, hold, h.history]
  refine ⟨rfl, by simp, fun p => ?_⟩
  dsimp only
  rw [times_concat]
  by_cases hp : p = q
  · subst hp
    rw [Function.update_self, if_pos (by simp), if_pos rfl, List.map_append]
    exact congrArg some (rtake_concat_rtake _ _ _)
  · rw [Function.update_of_ne hp, if_neg (Ne.symm hp), List.append_nil, h.histories]
    simp [hp]

theorem trace_recorded (l : LruKPolicy) (capacity : Nat) (trace : List TraceCall)
    (hlt : (accesses trace).length < 2 ^ 64) :
    (do reset capacity; Call.each TraceCall.call trace : Call Error LruKPolicy Unit).wp
      (fun _ l' => Recorded l.k_history (accesses trace) l') (fun _ _ => False) l := by
  have h0 : Recorded l.k_history (accesses []) { l with tick := 0, histories := fun _ => none } :=
    ⟨rfl, rfl, fun p => by simp [accesses]⟩
  rw [wp_bind]
  unfold reset
  rw [wp_modify]
  refine wp_mono (wp_each TraceCall.call (fun done l' => Recorded l.k_history (accesses done) l')
    trace [] h0 ?_) (fun _ _ h => h) fun _ _ h => h
  rintro call before after l' rfl hl
  have hacc : accesses ([] ++ before ++ [call]) = accesses before ++ call.accessed.toList := by
    unfold accesses
    rw [List.nil_append, List.filterMap_append]
    cases call <;> rfl
  have hroom : ∀ q, call.accessed = some q → (accesses before).length + 1 < 2 ^ 64 := by
    intro q hq
    refine lt_of_le_of_lt ?_ hlt
    unfold accesses
    rw [List.filterMap_append, List.filterMap_cons_some hq]
    simp
  rw [hacc]
  rw [List.nil_append] at hl
  cases call with
  | record_load q i => exact record_access_recorded hl (hroom q rfl) q i
  | record_access q i => exact record_access_recorded hl (hroom q rfl) q i
  | record_miss q => exact (wp_pure _).mpr (by simpa [TraceCall.accessed] using hl)
  | record_evict q i => exact (wp_pure _).mpr (by simpa [TraceCall.accessed] using hl)

/-! ### The least of the frames -/

/-- A frame that the policy may name. -/
def candidate (f : EvictionFrameState) : Bool := f.valid && !f.pinned

/-- What the policy looks at: whether the history of a page is full, and its
oldest entry. -/
def key (l : LruKPolicy) (p : Nat) : Bool × Nat :=
  match l.histories p with
  | some (score :: later) => (decide ((score :: later).length ≥ l.k_history), score)
  | _ => (false, 0)

/-- A short history comes before a full one, then the smaller score. -/
def KeyLe (a b : Bool × Nat) : Prop := (a.1 = false ∧ b.1 = true) ∨ (a.1 = b.1 ∧ a.2 ≤ b.2)

theorem KeyLe.refl (a : Bool × Nat) : KeyLe a a := Or.inr ⟨rfl, Nat.le_refl _⟩

theorem KeyLe.trans {a b c : Bool × Nat} (h1 : KeyLe a b) (h2 : KeyLe b c) : KeyLe a c := by
  unfold KeyLe at *
  grind

/-- The policy has a history of page `p`. -/
def Knows (l : LruKPolicy) (p : Nat) : Prop := ∃ score later, l.histories p = some (score :: later)

/-- Frame `i` is a candidate, the policy knows all candidates of `before`, and
none of them has a smaller key. -/
def Least (l : LruKPolicy) (all before : List EvictionFrameState) (i : Nat) : Prop :=
  ∃ f, all[i]? = some f ∧ candidate f = true ∧ l.Knows f.page_id ∧
    ∀ g ∈ before, candidate g = true →
      l.Knows g.page_id ∧ KeyLe (l.key f.page_id) (l.key g.page_id)

/-- The choice among all frames. A candidate that the policy does not know is
named at once. -/
def Chooses (l : LruKPolicy) (all : List EvictionFrameState) : Result Nat → Prop
  | .ok i => Least l all all i ∨
      ∃ f, all[i]? = some f ∧ candidate f = true ∧ ¬ l.Knows f.page_id
  | .error e => e = .BufferPoolFull ∧ ∀ f ∈ all, candidate f = false

theorem choose_loop_least (l : LruKPolicy) (all frames before : List EvictionFrameState)
    (best : Option Best) (hall : all = before ++ frames)
    (hbest : ∀ b, best = some b → Least l all before b.victim ∧
      ∀ f, all[b.victim]? = some f → l.key f.page_id = (b.full_history, b.score))
    (hnone : best = none → ∀ f ∈ before, candidate f = false) :
    Chooses l all (l.choose_loop frames before.length best) := by
  induction frames generalizing before best with
  | nil =>
    rw [List.append_nil] at hall
    subst hall
    cases best with
    | some b => exact Or.inl (hbest b rfl).1
    | none => exact ⟨rfl, hnone rfl⟩
  | cons frame rest ih =>
    have hat : all[before.length]? = some frame := by simp [hall]
    have hall' : all = (before ++ [frame]) ++ rest := by simp [hall]
    have hlen : (before ++ [frame]).length = before.length + 1 := by simp
    unfold choose_loop
    by_cases hskip : (!frame.valid || frame.pinned) = true
    · have hno : candidate frame = false := by
        unfold candidate
        cases hv : frame.valid <;> cases hp : frame.pinned <;> simp_all
      rw [if_pos hskip, ← hlen]
      refine ih _ _ hall' (fun b hb => ⟨?_, (hbest b hb).2⟩) (fun hb f hf => ?_)
      · obtain ⟨f, hf, hc, hfk, hle⟩ := (hbest b hb).1
        refine ⟨f, hf, hc, hfk, fun g hg hgc => ?_⟩
        rcases List.mem_append.mp hg with hg | hg
        · exact hle g hg hgc
        · rw [List.mem_singleton.mp hg, hno] at hgc
          cases hgc
      · rcases List.mem_append.mp hf with hf | hf
        · exact hnone hb f hf
        · rw [List.mem_singleton.mp hf]
          exact hno
    · have hyes : candidate frame = true := by
        unfold candidate
        cases hv : frame.valid <;> cases hp : frame.pinned <;> simp_all
      rw [if_neg hskip]
      rcases hh : l.histories frame.page_id with _ | _ | ⟨score, later⟩
      · exact Or.inr ⟨frame, hat, hyes, by simp [Knows, hh]⟩
      · exact Or.inr ⟨frame, hat, hyes, by simp [Knows, hh]⟩
      have hknows : l.Knows frame.page_id := ⟨score, later, hh⟩
      have hkey : l.key frame.page_id =
          (decide ((score :: later).length ≥ l.k_history), score) := by
        unfold key
        rw [hh]
      dsimp only
      rw [← hlen]
      -- this frame becomes the best when its key is below those of before
      have hmine : ∀ b : Best, b.victim = before.length →
          (b.full_history, b.score) = l.key frame.page_id →
          (∀ g ∈ before, candidate g = true →
            l.Knows g.page_id ∧ KeyLe (l.key frame.page_id) (l.key g.page_id)) →
          Chooses l all (l.choose_loop rest (before ++ [frame]).length (some b)) := by
        intro b hb hbk hle
        refine ih _ _ hall' (fun b' hb' => ?_) (by simp)
        cases hb'
        rw [hb]
        refine ⟨⟨frame, hat, hyes, hknows, fun g hg hgc => ?_⟩, fun f hf => ?_⟩
        · rcases List.mem_append.mp hg with hg | hg
          · exact hle g hg hgc
          · rw [List.mem_singleton.mp hg]
            exact ⟨hknows, KeyLe.refl _⟩
        · rw [hat] at hf
          cases hf
          exact hbk.symm
      rcases best with _ | b
      · refine hmine _ rfl hkey.symm fun g hg hgc => ?_
        rw [hnone rfl g hg] at hgc
        cases hgc
      · obtain ⟨⟨f, hf, hc, hfknows, hle⟩, hbk⟩ := hbest b rfl
        have hfk := hbk f hf
        dsimp only
        split
        · rename_i hshort
          refine hmine _ rfl hkey.symm fun g hg hgc =>
            ⟨(hle g hg hgc).1, KeyLe.trans ?_ (hle g hg hgc).2⟩
          rw [hkey, hfk]
          simp only [Bool.and_eq_true, Bool.not_eq_true'] at hshort
          exact Or.inl hshort
        · rename_i hshort
          split
          · rename_i hsmall
            simp only [Bool.and_eq_true, beq_iff_eq, decide_eq_true_eq] at hsmall
            refine hmine _ rfl (by rw [hkey, hsmall.1]) fun g hg hgc =>
              ⟨(hle g hg hgc).1, KeyLe.trans ?_ (hle g hg hgc).2⟩
            rw [hkey, hfk]
            exact Or.inr ⟨hsmall.1, hsmall.2.le⟩
          · rename_i hsmall
            refine ih _ _ hall' (fun b' hb' => ?_) (by simp)
            cases hb'
            refine ⟨⟨f, hf, hc, hfknows, fun g hg hgc => ?_⟩, hbk⟩
            rcases List.mem_append.mp hg with hg | hg
            · exact hle g hg hgc
            · rw [List.mem_singleton.mp hg]
              refine ⟨hknows, ?_⟩
              rw [hkey, hfk]
              unfold KeyLe
              revert hshort hsmall
              cases decide ((score :: later).length ≥ l.k_history) <;>
                cases b.full_history <;> simp

/-! ### The rule over the whole trace -/

/-- Page `p` has fewer than `k` accesses. -/
def IsShort (k : Nat) (pages : List Nat) (p : Nat) : Prop := (times pages p).length < k

/-- Page `p` was accessed for the first time before page `q`. A page that was
never accessed comes before all pages. -/
def FirstBefore (pages : List Nat) (p q : Nat) : Prop :=
  match (times pages p).head?, (times pages q).head? with
  | none, _ => True
  | some _, none => False
  | some t, some u => t < u

/-- When the access of page `p` was that is number `k` from the end. -/
def kth_recent (k : Nat) (pages : List Nat) (p : Nat) : Nat :=
  (times pages p)[(times pages p).length - k]?.getD 0

/-- Frame `i` is the right one after these accesses. Two frames with one page
have the same claim. -/
def IsVictim (k : Nat) (pages : List Nat) (frames : List EvictionFrameState) (i : Nat) : Prop :=
  ∃ f, frames[i]? = some f ∧ candidate f = true ∧
    ((∃ g ∈ frames, candidate g = true ∧ IsShort k pages g.page_id) →
      IsShort k pages f.page_id ∧
        ∀ g ∈ frames, candidate g = true → IsShort k pages g.page_id →
          g.page_id = f.page_id ∨ FirstBefore pages f.page_id g.page_id) ∧
    ((∀ g ∈ frames, candidate g = true → ¬ IsShort k pages g.page_id) →
      ∀ g ∈ frames, candidate g = true →
        g.page_id = f.page_id ∨ kth_recent k pages f.page_id < kth_recent k pages g.page_id)

section

variable {k : Nat} {pages : List Nat} {l : LruKPolicy} {p q : Nat}

theorem times_pos (hp : p ∈ pages) : 0 < (times pages p).length := by
  obtain ⟨t, ht⟩ := List.mem_iff_getElem?.mp hp
  exact List.length_pos_of_mem (mem_times.mpr ht)

theorem kth_recent_get (hk : 1 ≤ k) (hp : p ∈ pages) :
    (times pages p)[(times pages p).length - k]? = some (kth_recent k pages p) := by
  have hpos := times_pos hp
  unfold kth_recent
  rw [List.getElem?_eq_getElem (by omega)]
  rfl

/-- The pages of two accesses at one time are the same. -/
theorem eq_of_kth_recent (hk : 1 ≤ k) (hp : p ∈ pages) (hq : q ∈ pages)
    (h : kth_recent k pages p = kth_recent k pages q) : p = q := by
  have h1 := mem_times.mp (List.mem_of_getElem? (kth_recent_get hk hp))
  rw [h, mem_times.mp (List.mem_of_getElem? (kth_recent_get hk hq))] at h1
  exact (Option.some.inj h1).symm

theorem firstBefore_of_short (hp : p ∈ pages) (hq : q ∈ pages) (hps : IsShort k pages p)
    (hqs : IsShort k pages q) (h : kth_recent k pages p < kth_recent k pages q) :
    FirstBefore pages p q := by
  have hfirst : ∀ r ∈ pages, IsShort k pages r →
      (times pages r).head? = some (kth_recent k pages r) := by
    intro r hr hrs
    unfold IsShort at hrs
    have hget := kth_recent_get (by omega : 1 ≤ k) hr
    rwa [Nat.sub_eq_zero_of_le hrs.le, ← List.head?_eq_getElem?] at hget
  unfold FirstBefore
  rw [hfirst p hp hps, hfirst q hq hqs]
  exact h

theorem history_of_recorded (h : Recorded k pages l) (hk : 1 ≤ k) (hp : p ∈ pages) :
    ∃ later, l.histories p = some ((kth_recent k pages p + 1) :: later) ∧
      (k ≤ later.length + 1 ↔ ¬ IsShort k pages p) := by
  have hpos := times_pos hp
  obtain ⟨hlt, hget⟩ := List.getElem?_eq_some_iff.mp (kth_recent_get hk hp)
  refine ⟨((times pages p).map (· + 1)).drop ((times pages p).length - k + 1), ?_, ?_⟩
  · rw [h.histories, if_pos hp]
    unfold List.rtake
    rw [List.length_map, List.drop_eq_getElem_cons (by rw [List.length_map]; exact hlt),
      List.getElem_map, hget]
  · unfold IsShort
    rw [List.length_drop, List.length_map]
    omega

theorem key_of_recorded (h : Recorded k pages l) (hk : 1 ≤ k) (hp : p ∈ pages) :
    (l.key p).2 = kth_recent k pages p + 1 ∧ ((l.key p).1 = false ↔ IsShort k pages p) := by
  obtain ⟨later, hh, hfull⟩ := history_of_recorded h hk hp
  unfold key
  rw [hh, h.history]
  refine ⟨rfl, ?_⟩
  dsimp only
  rw [List.length_cons, decide_eq_false_iff_not, ge_iff_le, hfull, not_not]

theorem knows_iff (h : Recorded k pages l) (hk : 1 ≤ k) : l.Knows p ↔ p ∈ pages := by
  constructor
  · rintro ⟨score, later, hh⟩
    rw [h.histories] at hh
    split at hh
    · assumption
    · cases hh
  · intro hp
    obtain ⟨later, hh, -⟩ := history_of_recorded h hk hp
    exact ⟨_, later, hh⟩

theorem isVictim_of_unknown {frames : List EvictionFrameState} {i : Nat} {f : EvictionFrameState}
    (hk : 1 ≤ k) (hf : frames[i]? = some f) (hc : candidate f = true) (hno : f.page_id ∉ pages) :
    IsVictim k pages frames i := by
  have hnil := times_eq_nil hno
  have hshort : IsShort k pages f.page_id := by
    unfold IsShort
    rw [hnil]
    exact hk
  refine ⟨f, hf, hc, fun _ => ⟨hshort, fun g _ _ _ => Or.inr ?_⟩, fun hall => ?_⟩
  · unfold FirstBefore
    rw [hnil]
    trivial
  · exact absurd hshort (hall f (List.mem_of_getElem? hf) hc)

theorem isVictim_of_least {frames : List EvictionFrameState} {i : Nat} (h : Recorded k pages l)
    (hk : 1 ≤ k) (hleast : Least l frames frames i) : IsVictim k pages frames i := by
  obtain ⟨f, hf, hc, hfk, hle⟩ := hleast
  have hpage : ∀ g ∈ frames, candidate g = true → g.page_id ∈ pages :=
    fun g hg hgc => (knows_iff h hk).mp (hle g hg hgc).1
  have hfp := (knows_iff h hk).mp hfk
  obtain ⟨hf2, hf1⟩ := key_of_recorded h hk hfp
  -- of two pages in one class, the one with the smaller key is the older one
  have holder : ∀ g ∈ frames, candidate g = true →
      (IsShort k pages f.page_id ↔ IsShort k pages g.page_id) →
      g.page_id = f.page_id ∨ kth_recent k pages f.page_id < kth_recent k pages g.page_id := by
    intro g hg hgc hclass
    have hgp := hpage g hg hgc
    obtain ⟨hg2, hg1⟩ := key_of_recorded h hk hgp
    rcases (hle g hg hgc).2 with ⟨hshort, hfull⟩ | ⟨-, hscore⟩
    · have := hg1.mpr (hclass.mp (hf1.mp hshort))
      rw [hfull] at this
      cases this
    · rcases Nat.eq_or_lt_of_le hscore with heq | hlt
      · left
        refine (eq_of_kth_recent hk hfp hgp ?_).symm
        omega
      · right
        omega
  refine ⟨f, hf, hc, fun hex => ?_, fun hno g hg hgc => ?_⟩
  · have hshort : IsShort k pages f.page_id := by
      obtain ⟨g, hg, hgc, hgs⟩ := hex
      obtain ⟨-, hg1⟩ := key_of_recorded h hk (hpage g hg hgc)
      rcases (hle g hg hgc).2 with ⟨hshort, -⟩ | ⟨hsame, -⟩
      · exact hf1.mp hshort
      · exact hf1.mp (hsame.trans (hg1.mpr hgs))
    refine ⟨hshort, fun g hg hgc hgs => ?_⟩
    rcases holder g hg hgc (iff_of_true hshort hgs) with heq | hlt
    · exact Or.inl heq
    · exact Or.inr (firstBefore_of_short hfp (hpage g hg hgc) hshort hgs hlt)
  · exact holder g hg hgc (iff_of_false (hno f (List.mem_of_getElem? hf) hc) (hno g hg hgc))

end

/-- LRU-K names the frame that the whole trace of calls since the reset asks
for, and it fails where no frame is evictable. -/
theorem lru_k_names_the_victim (l : LruKPolicy) (capacity : Nat) (trace : List TraceCall)
    (frames : List EvictionFrameState) (hk : 1 ≤ l.k_history)
    (hlt : (accesses trace).length < 2 ^ 64) :
    ∃ after, (do reset capacity; Call.each TraceCall.call trace : Call Error LruKPolicy Unit).run l =
        (.ok (), after) ∧
      let r := ((choose_victim frames).run after).1
      (r = .error .BufferPoolFull ↔ ∀ f ∈ frames, candidate f = false) ∧
      ((∃ f ∈ frames, candidate f = true) →
        ∃ i, r = .ok i ∧ IsVictim l.k_history (accesses trace) frames i) := by
  obtain ⟨_, after, hrun, hrec⟩ := exists_ok_of_wp (trace_recorded l capacity trace hlt)
  refine ⟨after, hrun, ?_⟩
  have hloop := choose_loop_least after frames frames [] none rfl (by simp) (by simp)
  rw [List.length_nil] at hloop
  have hr : ((choose_victim frames).run after).1 = after.choose_loop frames 0 none := rfl
  intro r
  show (r = _ ↔ _) ∧ _
  rw [show r = after.choose_loop frames 0 none from hr]
  rcases hc : after.choose_loop frames 0 none with e | i <;> rw [hc] at hloop
  · obtain ⟨rfl, hnone⟩ := hloop
    refine ⟨iff_of_true rfl hnone, ?_⟩
    rintro ⟨f, hf, hfc⟩
    rw [hnone f hf] at hfc
    cases hfc
  · have hvictim : IsVictim l.k_history (accesses trace) frames i := by
      rcases hloop with hleast | ⟨f, hf, hfc, hunknown⟩
      · exact isVictim_of_least hrec hk hleast
      · exact isVictim_of_unknown hk hf hfc fun hp => hunknown ((knows_iff hrec hk).mpr hp)
    obtain ⟨f, hf, hfc, -⟩ := id hvictim
    refine ⟨iff_of_false (by simp) fun hnone => ?_, fun _ => ⟨i, rfl, hvictim⟩⟩
    rw [hnone f (List.mem_of_getElem? hf)] at hfc
    cases hfc

/-- With two accesses remembered: page 5 was accessed first, but twice. Page 6
and page 7 were accessed once, and page 6 came first. -/
theorem lru_2_of_three_pages :
    ∃ after, (do
        reset 3
        Call.each TraceCall.call [.record_load 5 0, .record_load 6 1, .record_miss 7,
          .record_load 7 2, .record_access 5 0] : Call Error LruKPolicy Unit).run {} =
        (.ok (), after) ∧
      ((choose_victim [⟨5, true, false⟩, ⟨6, true, false⟩, ⟨7, true, false⟩]).run after).1 =
        .ok 1 := by
  obtain ⟨after, hrun, -, -⟩ := lru_k_names_the_victim {} 3
    [.record_load 5 0, .record_load 6 1, .record_miss 7, .record_load 7 2, .record_access 5 0]
    [⟨5, true, false⟩, ⟨6, true, false⟩, ⟨7, true, false⟩] (by decide) (by decide)
  refine ⟨after, hrun, ?_⟩
  have hafter : after = ((do
      reset 3
      Call.each TraceCall.call [.record_load 5 0, .record_load 6 1, .record_miss 7,
        .record_load 7 2, .record_access 5 0] : Call Error LruKPolicy Unit).run {}).2 := by
    rw [hrun]
  rw [hafter]
  decide

end LruKPolicy

end edb
