-- A cursor that walks over a collection while others change it. The keys
-- before the position of the cursor are done. A step gives the next key that
-- has a value, says that there is none, or leaves the cursor where it is.
import Mathlib.Data.List.Induction
import Edb.Run

namespace Cursor

/-- What a step says of the walk. -/
inductive Event (κ β : Type) where
  | quiet
  | ended
  | item (key : κ) (value : β)

section

variable {ι ω σ κ β : Type} (before : κ → κ → Prop) (live : σ → κ → Option β) (pos : σ → κ)

/-- The step from `s` to `s'` moves the cursor as its event says. -/
def Moves (s s' : σ) : Event κ β → Prop
  | .quiet => pos s' = pos s
  | .ended => (∀ k, before k (pos s) → before k (pos s')) ∧
      ∀ k b, live s k = some b → before k (pos s)
  | .item k b => live s k = some b ∧ before k (pos s') ∧
      (∀ j, before j (pos s) → before j k ∧ before j (pos s')) ∧
      ∀ j c, live s j = some c → before j (pos s') → before j (pos s) ∨ j = k

/-- The items among the outputs, in order. -/
def items (event : ω → Event κ β) (outs : List ω) : List (κ × β) :=
  outs.filterMap fun out =>
    match event out with
    | .item k b => some (k, b)
    | _ => none

/-- `P` holds in every state of the run, the first and the last one too. -/
def Throughout (step : ι → σ → ω × σ) (P : σ → Prop) (is : List ι) (s : σ) : Prop :=
  ∀ before_it after_it, is = before_it ++ after_it → P (Run.exec step before_it s).2

theorem Throughout.last {step : ι → σ → ω × σ} {P : σ → Prop} {is : List ι} {s : σ}
    (h : Throughout step P is s) : P (Run.exec step is s).2 := h is [] (by simp)

theorem Throughout.front {step : ι → σ → ω × σ} {P : σ → Prop} {is js : List ι} {s : σ}
    (h : Throughout step P (is ++ js) s) : Throughout step P is s := by
  rintro a b rfl
  exact h a (b ++ js) (by simp)

/-- What a walk has given so far: everything is behind the cursor, in order, and
what had its value all the time and is behind the cursor was given. -/
structure Walked (step : ι → σ → ω × σ) (event : ω → Event κ β) (is : List ι) (s : σ) : Prop where
  behind : ∀ x ∈ items event (Run.exec step is s).1, before x.1 (pos (Run.exec step is s).2)
  sorted : (items event (Run.exec step is s).1).Pairwise fun x y => before x.1 y.1
  given : ∀ k b, Throughout step (fun t => live t k = some b) is s →
    before k (pos (Run.exec step is s).2) → (k, b) ∈ items event (Run.exec step is s).1

variable {before live pos}

/-- A run whose steps all move the cursor as they say. -/
theorem walked {step : ι → σ → ω × σ} {event : ω → Event κ β} {ok : ι → σ → Prop} {J : σ → Prop}
    {s : σ} (hstart : ∀ k, ¬ before k (pos s)) (hJ : J s)
    (hstep : ∀ i t, J t → ok i t →
      J (step i t).2 ∧ Moves before live pos t (step i t).2 (event (step i t).1))
    (is : List ι) (hok : Run.Allowed ok step is s) :
    J (Run.exec step is s).2 ∧ Walked before live pos step event is s := by
  induction is using List.reverseRecOn with
  | nil =>
    refine ⟨hJ, ?_, List.Pairwise.nil, ?_⟩
    · intro x hx
      cases hx
    · exact fun k b _ hk => absurd hk (hstart k)
  | append_singleton is i ih =>
    obtain ⟨hfront, hlast, -⟩ := (Run.allowed_append ok step is [i] s).mp hok
    obtain ⟨hJ1, hw⟩ := ih hfront
    obtain ⟨hJ2, hmove⟩ := hstep i _ hJ1 hlast
    have hstate := Run.exec_append step is [i] s
    have houts := Run.exec_concat step is i s
    have hstate : (Run.exec step (is ++ [i]) s).2 = (step i (Run.exec step is s).2).2 := hstate
    refine ⟨hstate ▸ hJ2, ?_⟩
    have hitems : items event (Run.exec step (is ++ [i]) s).1 =
        items event (Run.exec step is s).1 ++
          items event [(step i (Run.exec step is s).2).1] := by
      rw [houts]
      exact List.filterMap_append
    rcases he : event (step i (Run.exec step is s).2).1 with _ | _ | ⟨k, b⟩
    · -- the cursor stands still and nothing is given
      have hnone : items event [(step i (Run.exec step is s).2).1] = [] := by simp [items, he]
      rw [he] at hmove
      have hpos : pos (Run.exec step (is ++ [i]) s).2 = pos (Run.exec step is s).2 := by
        rw [hstate]
        exact hmove
      rw [hnone, List.append_nil] at hitems
      refine ⟨?_, ?_, ?_⟩
      · rw [hitems, hpos]
        exact hw.behind
      · rw [hitems]
        exact hw.sorted
      · intro k b hk hbefore
        rw [hpos] at hbefore
        rw [hitems]
        exact hw.given k b hk.front hbefore
    · -- nothing that is live now is ahead of the cursor
      have hnone : items event [(step i (Run.exec step is s).2).1] = [] := by simp [items, he]
      rw [he] at hmove
      obtain ⟨hmono, hall⟩ := hmove
      rw [hnone, List.append_nil] at hitems
      refine ⟨?_, ?_, ?_⟩
      · intro x hx
        rw [hitems] at hx
        rw [hstate]
        exact hmono _ (hw.behind x hx)
      · rw [hitems]
        exact hw.sorted
      · intro k b hk _
        rw [hitems]
        exact hw.given k b hk.front (hall k b hk.front.last)
    · have hone : items event [(step i (Run.exec step is s).2).1] = [(k, b)] := by
        simp [items, he]
      rw [he] at hmove
      obtain ⟨hlive, hbehind, hmono, hnext⟩ := hmove
      rw [hone] at hitems
      refine ⟨?_, ?_, ?_⟩
      · intro x hx
        rw [hitems] at hx
        rw [hstate]
        rcases List.mem_append.mp hx with hx | hx
        · exact (hmono _ (hw.behind x hx)).2
        · rw [List.mem_singleton.mp hx]
          exact hbehind
      · rw [hitems, List.pairwise_append]
        refine ⟨hw.sorted, List.pairwise_singleton _ _, fun x hx y hy => ?_⟩
        rw [List.mem_singleton.mp hy]
        exact (hmono _ (hw.behind x hx)).1
      · intro j c hj hbefore
        rw [hstate] at hbefore
        rw [hitems, List.mem_append]
        have hjc := hj.front.last
        rcases hnext j c hjc hbefore with hdone | rfl
        · exact Or.inl (hw.given j c hj.front hdone)
        · rw [hlive] at hjc
          cases hjc
          exact Or.inr (by simp)

/-- In a list in strict order, a member is the only one with its key. -/
theorem filter_key [DecidableEq κ] (hirr : ∀ k, ¬ before k k) {xs : List (κ × β)} {k : κ} {b : β}
    (hs : xs.Pairwise fun x y => before x.1 y.1) (hx : (k, b) ∈ xs) :
    xs.filter (fun x => x.1 = k) = [(k, b)] := by
  induction xs with
  | nil => cases hx
  | cons y rest ih =>
    obtain ⟨hy, hrest⟩ := List.pairwise_cons.mp hs
    rcases List.mem_cons.mp hx with rfl | hx
    · have hnone : rest.filter (fun x => x.1 = k) = [] := by
        rw [List.filter_eq_nil_iff]
        intro z hz he
        have hzk : z.1 = k := by simpa using he
        exact hirr k (hzk ▸ hy z hz)
      rw [List.filter_cons_of_pos (by simp), hnone]
    · have hne : y.1 ≠ k := fun he => hirr k (by
        have := hy _ hx
        rwa [he] at this)
      rw [List.filter_cons_of_neg (by simpa using hne)]
      exact ih hrest hx

end

end Cursor
