-- Runs of a machine that takes one operation after the other. A run of one
-- machine follows a run of another when a relation between their states
-- survives every operation, and a law of every state reached comes from an
-- invariant.
import Mathlib.Data.List.Basic

namespace Run

variable {ι ω σ τ : Type}

/-- The outputs of the operations, in order, and the state after them. -/
def exec (step : ι → σ → ω × σ) : List ι → σ → List ω × σ
  | [], s => ([], s)
  | i :: rest, s =>
    let r := exec step rest (step i s).2
    ((step i s).1 :: r.1, r.2)

/-- Each operation is allowed in the state in which it is made. -/
def Allowed (ok : ι → σ → Prop) (step : ι → σ → ω × σ) : List ι → σ → Prop
  | [], _ => True
  | i :: rest, s => ok i s ∧ Allowed ok step rest (step i s).2

/-- Two machines that agree on every operation agree on every run. -/
theorem simulates {step : ι → σ → ω × σ} {step' : ι → τ → ω × τ} {ok : ι → τ → Prop}
    (R : σ → τ → Prop)
    (hstep : ∀ i s t, R s t → ok i t →
      (step i s).1 = (step' i t).1 ∧ R (step i s).2 (step' i t).2) :
    ∀ is s t, R s t → Allowed ok step' is t →
      (exec step is s).1 = (exec step' is t).1 ∧ R (exec step is s).2 (exec step' is t).2
  | [], _, _, hR, _ => ⟨rfl, hR⟩
  | i :: rest, s, t, hR, hok => by
    obtain ⟨hout, hnext⟩ := hstep i s t hR hok.1
    obtain ⟨houts, hlast⟩ := simulates R hstep rest _ _ hnext hok.2
    exact ⟨by simp only [exec, hout, houts], hlast⟩

/-- What every allowed operation keeps holds after every allowed run. -/
theorem keeps {step : ι → σ → ω × σ} {ok : ι → σ → Prop} (I : σ → Prop)
    (hstep : ∀ i s, I s → ok i s → I (step i s).2) :
    ∀ is s, I s → Allowed ok step is s → I (exec step is s).2
  | [], _, h, _ => h
  | i :: rest, s, h, hok => keeps I hstep rest _ (hstep i s h hok.1) hok.2

theorem allowed_of_forall {step : ι → σ → ω × σ} {ok : ι → σ → Prop} :
    ∀ is s, (∀ i ∈ is, ∀ s, ok i s) → Allowed ok step is s
  | [], _, _ => trivial
  | i :: rest, s, h =>
    ⟨h i (by simp) s, allowed_of_forall rest _ fun j hj => h j (by simp [hj])⟩

/-- What every operation with `P` keeps holds after every run of such operations. -/
theorem keeps_of_forall {step : ι → σ → ω × σ} {P : ι → Prop} (I : σ → Prop)
    (hstep : ∀ i s, I s → P i → I (step i s).2) (is : List ι) (s : σ) (h : I s)
    (his : ∀ i ∈ is, P i) : I (exec step is s).2 :=
  keeps I hstep is s h (allowed_of_forall is s fun i hi _ => his i hi)

/-- What every operation with `P` says and keeps is said in all of a run of them. -/
theorem outputs_of_forall {step : ι → σ → ω × σ} {P : ι → Prop} (I : σ → Prop) (out : ω → Prop)
    (hstep : ∀ i s, I s → P i → out (step i s).1 ∧ I (step i s).2) :
    ∀ is s, I s → (∀ i ∈ is, P i) → ∀ o ∈ (exec step is s).1, out o
  | [], _, _, _ => nofun
  | i :: rest, s, h, his => by
    obtain ⟨hout, hnext⟩ := hstep i s h (his i (by simp))
    intro o ho
    rcases List.mem_cons.mp ho with rfl | ho
    · exact hout
    · exact outputs_of_forall I out hstep rest _ hnext (fun j hj => his j (by simp [hj])) o ho

theorem exec_append (step : ι → σ → ω × σ) (is js : List ι) (s : σ) :
    (exec step (is ++ js) s).2 = (exec step js (exec step is s).2).2 := by
  induction is generalizing s with
  | nil => rfl
  | cons i rest ih => exact ih (step i s).2

theorem allowed_and {step : ι → σ → ω × σ} {ok ok' : ι → σ → Prop} :
    ∀ {is : List ι} {s : σ}, Allowed ok step is s → Allowed ok' step is s →
      Allowed (fun i s => ok' i s ∧ ok i s) step is s
  | [], _, _, _ => trivial
  | _ :: _, _, h, h' => ⟨⟨h'.1, h.1⟩, allowed_and h.2 h'.2⟩

/-- The outputs of a run and of one operation more. -/
theorem exec_concat (step : ι → σ → ω × σ) (is : List ι) (i : ι) (s : σ) :
    (exec step (is ++ [i]) s).1 = (exec step is s).1 ++ [(step i (exec step is s).2).1] := by
  induction is generalizing s with
  | nil => rfl
  | cons j rest ih =>
    show (step j s).1 :: (exec step (rest ++ [i]) (step j s).2).1 = _
    rw [ih]
    rfl

theorem allowed_append (ok : ι → σ → Prop) (step : ι → σ → ω × σ) (is js : List ι) (s : σ) :
    Allowed ok step (is ++ js) s ↔ Allowed ok step is s ∧ Allowed ok step js (exec step is s).2 := by
  induction is generalizing s with
  | nil => exact ⟨fun h => ⟨trivial, h⟩, fun h => h.2⟩
  | cons i rest ih =>
    show ok i s ∧ Allowed ok step (rest ++ js) (step i s).2 ↔ _
    rw [ih]
    exact and_assoc.symm

/-- A relation between two machines that survives every allowed operation holds
after every allowed run. -/
theorem follows {ψ : Type} {step : ι → σ → ω × σ} {step' : ι → τ → ψ × τ} {ok : ι → τ → Prop}
    (valid : ι → Prop) (R : σ → τ → Prop)
    (hstep : ∀ i s t, valid i → R s t → ok i t → R (step i s).2 (step' i t).2) :
    ∀ is s t, (∀ i ∈ is, valid i) → R s t → Allowed ok step' is t →
      R (exec step is s).2 (exec step' is t).2
  | [], _, _, _, hR, _ => hR
  | i :: rest, s, t, hv, hR, hok =>
    follows valid R hstep rest _ _ (fun j hj => hv j (by simp [hj]))
      (hstep i s t (hv i (by simp)) hR hok.1) hok.2

/-- What an observer knows at the end of a run, from the operations and the outputs. -/
def observe {κ : Type} (step : ι → σ → ω × σ) (note : κ → ι → ω → κ) : List ι → σ → κ → κ
  | [], _, k => k
  | i :: rest, s, k => observe step note rest (step i s).2 (note k i (step i s).1)

/-- A relation between two machines and an observer that survives every allowed
operation holds after every allowed run. -/
theorem observes {ψ κ : Type} {step : ι → σ → ω × σ} {step' : ι → τ → ψ × τ} {ok : ι → τ → Prop}
    {note : κ → ι → ω → κ} (valid : ι → Prop) (R : σ → τ → κ → Prop)
    (hstep : ∀ i s t k, valid i → R s t k → ok i t →
      R (step i s).2 (step' i t).2 (note k i (step i s).1)) :
    ∀ is s t k, (∀ i ∈ is, valid i) → R s t k → Allowed ok step' is t →
      R (exec step is s).2 (exec step' is t).2 (observe step note is s k)
  | [], _, _, _, _, hR, _ => hR
  | i :: rest, s, t, k, hv, hR, hok =>
    observes valid R hstep rest _ _ _ (fun j hj => hv j (by simp [hj]))
      (hstep i s t k (hv i (by simp)) hR hok.1) hok.2

/-- As long as each operation meets the condition, each output is one that the
specification allows, and the specification goes on from there. The goal holds
at the end. -/
def Conforms (cond : ι → τ → Prop) (spec : ι → ω → τ → τ → Prop) (step : ι → σ → ω × σ)
    (goal : σ → τ → Prop) : List ι → σ → τ → Prop
  | [], s, a => goal s a
  | i :: rest, s, a => cond i a → ∃ b, spec i (step i s).1 a b ∧
      Conforms cond spec step goal rest (step i s).2 b

section

variable {cond : ι → τ → Prop} {spec : ι → ω → τ → τ → Prop} {step : ι → σ → ω × σ}
  {goal : σ → τ → Prop}

/-- A machine that follows the specification in one step follows it in a run. -/
theorem conforms (valid : ι → Prop) (R : σ → τ → Prop)
    (hstep : ∀ i s a, valid i → R s a → cond i a →
      ∃ b, spec i (step i s).1 a b ∧ R (step i s).2 b)
    (hgoal : ∀ s a, R s a → goal s a) :
    ∀ is s a, (∀ i ∈ is, valid i) → R s a → Conforms cond spec step goal is s a
  | [], s, a, _, hR => hgoal s a hR
  | i :: rest, s, a, hv, hR => by
    intro hc
    obtain ⟨b, hspec, hR'⟩ := hstep i s a (hv i (by simp)) hR hc
    exact ⟨b, hspec, conforms valid R hstep hgoal rest _ b (fun j hj => hv j (by simp [hj])) hR'⟩

/-- Where every operation meets the condition, the second part of a run
conforms from where the first part ends. -/
theorem conforms_append (hc : ∀ i a, cond i a) :
    ∀ is js s a, Conforms cond spec step goal (is ++ js) s a →
      ∃ b, Conforms cond spec step goal js (exec step is s).2 b
  | [], _, _, a, h => ⟨a, h⟩
  | i :: rest, js, _, a, h => by
    obtain ⟨b, -, hb⟩ := h (hc i a)
    exact conforms_append hc rest js _ b hb

end

/-- An operation that counts up is counted by the number of times it is made. -/
theorem exec_replicate {step : ι → σ → ω × σ} {i : ι} (I : Nat → σ → Prop) {limit : Nat}
    (hstep : ∀ k s, k < limit → I k s → I (k + 1) (step i s).2) :
    ∀ (j k : Nat) (s : σ), k + j ≤ limit → I k s →
      I (k + j) (exec step (List.replicate j i) s).2
  | 0, _, _, _, h => h
  | j + 1, k, s, hle, h => by
    have hnext := exec_replicate I hstep j (k + 1) (step i s).2 (by omega)
      (hstep k s (by omega) h)
    rw [show k + (j + 1) = k + 1 + j by omega]
    exact hnext

end Run
