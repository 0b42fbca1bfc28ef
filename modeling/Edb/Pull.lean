-- Sources that are asked for one item at a time. A source works through a list
-- of its own, passes over what it does not give, and gives the next item or
-- says that there is none. Asking until then gives the whole list, mapped.
import Edb.Call

namespace Pull

variable {ε σ α β γ : Type}

/-- The first item that `f` makes of a list, and the part that is not yet
looked at. -/
def first (f : α → Except ε (Option β)) : List α → Except ε (Option β) × List α
  | [] => (.ok none, [])
  | a :: rest =>
    match f a with
    | .error e => (.error e, rest)
    | .ok none => first f rest
    | .ok (some b) => (.ok (some b), rest)

/-- `g` after `f`. -/
def after (f : α → Except ε (Option β)) (g : β → Except ε (Option γ)) (a : α) :
    Except ε (Option γ) := do
  match ← f a with
  | none => pure none
  | some b => g b

theorem length_first_lt {f : α → Except ε (Option β)} {xs : List α} {b : β} {rest : List α}
    (h : first f xs = (.ok (some b), rest)) : rest.length < xs.length := by
  induction xs with
  | nil => cases h
  | cons a xs ih =>
    rw [List.length_cons]
    unfold first at h
    split at h
    · cases h
    · exact Nat.lt_succ_of_lt (ih h)
    · cases h
      exact Nat.lt_succ_self _

theorem first_ok {f : α → Except ε (Option β)} {xs : List α}
    (h : ∀ a ∈ xs, ∃ r, f a = .ok r) : ∃ r, (first f xs).1 = .ok r := by
  induction xs with
  | nil => exact ⟨none, rfl⟩
  | cons a xs ih =>
    obtain ⟨r, hr⟩ := h a (by simp)
    unfold first
    rw [hr]
    cases r with
    | none => exact ih fun b hb => h b (by simp [hb])
    | some b => exact ⟨some b, rfl⟩

/-- What the second function passes over, the first goes on after. -/
theorem first_after (f : α → Except ε (Option β)) (g : β → Except ε (Option γ)) (xs : List α) :
    first (after f g) xs =
      match first f xs with
      | (.error e, rest) => (.error e, rest)
      | (.ok none, rest) => (.ok none, rest)
      | (.ok (some b), rest) =>
        match g b with
        | .error e => (.error e, rest)
        | .ok none => first (after f g) rest
        | .ok (some c) => (.ok (some c), rest) := by
  induction xs with
  | nil => rfl
  | cons a xs ih =>
    rcases hf : f a with e | _ | b
    · have hg : after f g a = .error e := by simp only [after, hf]; rfl
      simp only [first, hf, hg]
    · have hg : after f g a = .ok none := by simp only [after, hf]; rfl
      simp only [first, hf, hg]
      exact ih
    · have hg : after f g a = g b := by simp only [after, hf]; rfl
      simp only [first, hf, hg]

/-- All items, from the first one on. -/
theorem filterMapM_eq (f : α → Except ε (Option β)) (xs : List α) :
    xs.filterMapM f =
      match first f xs with
      | (.error e, _) => .error e
      | (.ok none, _) => .ok []
      | (.ok (some b), rest) => (do
        let others ← rest.filterMapM f
        pure (b :: others)) := by
  induction xs with
  | nil => rfl
  | cons a xs ih =>
    rw [List.filterMapM_cons]
    rcases hf : f a with e | _ | b
    · simp only [first, hf]
      rfl
    · simp only [first, hf]
      exact ih
    · simp only [first, hf]
      rfl

/-- In every state in which it is ready, a source gives the first item that `f`
makes of what is left to it. -/
def Feeds (ready : σ → Prop) (left : σ → List α) (f : α → Except ε (Option β))
    (x : Call ε σ (Option β)) : Prop :=
  ∀ s, ready s → ready (x.run s).2 ∧ (x.run s).1 = (first f (left s)).1 ∧
    left (x.run s).2 = (first f (left s)).2

variable {ready : σ → Prop} {left : σ → List α} {f : α → Except ε (Option β)}
  {x : Call ε σ (Option β)}

theorem Feeds.run_eq (h : Feeds ready left f x) {s : σ} (hs : ready s) :
    ∃ s', x.run s = ((first f (left s)).1, s') ∧ ready s' ∧ left s' = (first f (left s)).2 := by
  obtain ⟨h1, h2, h3⟩ := h s hs
  exact ⟨(x.run s).2, Prod.ext h2 rfl, h1, h3⟩

end Pull
