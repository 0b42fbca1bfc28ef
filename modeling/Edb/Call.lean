-- Calls that change a state and may fail. A failed call keeps the changes
-- that it made before it failed, as a member function that returns an error
-- code does. The rules below reduce a fact about a call to facts about its
-- parts, and no proof above this file unfolds the monad.
import Mathlib.Data.List.Basic

/-- A call on the state `σ`: a value or an error, and the state after it. -/
def Call (ε σ α : Type) : Type := σ → Except ε α × σ

namespace Call

variable {ε σ τ α β : Type}

def run (x : Call ε σ α) (s : σ) : Except ε α × σ := x s

instance : Monad (Call ε σ) where
  pure a := fun s => (.ok a, s)
  bind x f := fun s =>
    match x s with
    | (.ok a, s') => f a s'
    | (.error e, s') => (.error e, s')

/-- The call that fails with `e` and changes nothing. -/
def fail (e : ε) : Call ε σ α := fun s => (.error e, s)

def get : Call ε σ σ := fun s => (.ok s, s)

def modify (f : σ → σ) : Call ε σ Unit := fun s => (.ok (), f s)

/-- A pure computation, as a call that leaves the state alone. -/
def ofExcept (x : Except ε α) : Call ε σ α := fun s => (x, s)

/-- The call with its error as a value, so that the caller can look at it. -/
def attempt (x : Call ε σ α) : Call ε σ (Except ε α) := fun s =>
  match x s with
  | (r, s') => (.ok r, s')

/-- A call on a part of the state. -/
def zoom (part : σ → τ) (put : τ → σ → σ) (x : Call ε τ α) : Call ε σ α := fun s =>
  match x (part s) with
  | (r, t) => (r, put t s)

/-- The calls of a list, one after the other, up to the first that fails. -/
def each (f : α → Call ε σ Unit) : List α → Call ε σ Unit
  | [] => pure ()
  | a :: rest => do
    f a
    each f rest

theorem each_map {γ : Type} (f : α → Call ε σ Unit) (g : γ → α) (xs : List γ) :
    each f (xs.map g) = each (fun x => f (g x)) xs := by
  induction xs with
  | nil => rfl
  | cons x rest ih => simp only [List.map_cons, each, ih]

/-! ## What a run gives -/

@[simp] theorem run_pure (a : α) (s : σ) : (pure a : Call ε σ α).run s = (.ok a, s) := rfl

theorem run_bind (x : Call ε σ α) (f : α → Call ε σ β) (s : σ) :
    (x >>= f).run s = match x.run s with
      | (.ok a, s') => (f a).run s'
      | (.error e, s') => (.error e, s') := rfl

theorem run_eq_of_fst {x : Call ε σ α} {s : σ} {r : Except ε α} (h : (x.run s).1 = r) :
    x.run s = (r, (x.run s).2) := by
  rw [← h]

theorem run_bind_ok {x : Call ε σ α} {s s' : σ} {a : α} (f : α → Call ε σ β)
    (h : x.run s = (.ok a, s')) : (x >>= f).run s = (f a).run s' := by
  rw [run_bind, h]

theorem run_bind_error {x : Call ε σ α} {s t : σ} {e : ε} (f : α → Call ε σ β)
    (h : x.run s = (.error e, t)) : (x >>= f).run s = (.error e, t) := by
  rw [run_bind, h]

/-- A sequence that returns a value has returned one in its first part. -/
theorem exists_of_run_bind {x : Call ε σ α} {f : α → Call ε σ β} {s t : σ} {b : β}
    (h : (x >>= f).run s = (.ok b, t)) :
    ∃ a s', x.run s = (.ok a, s') ∧ (f a).run s' = (.ok b, t) := by
  rw [run_bind] at h
  rcases hx : x.run s with ⟨e | a, s'⟩ <;> rw [hx] at h
  · cases h
  · exact ⟨a, s', rfl, h⟩

@[simp] theorem run_fail (e : ε) (s : σ) : (fail e : Call ε σ α).run s = (.error e, s) := rfl

@[simp] theorem run_get (s : σ) : (get : Call ε σ σ).run s = (.ok s, s) := rfl

@[simp] theorem run_modify (f : σ → σ) (s : σ) :
    (modify f : Call ε σ Unit).run s = (.ok (), f s) := rfl

@[simp] theorem run_ofExcept (x : Except ε α) (s : σ) :
    (ofExcept x : Call ε σ α).run s = (x, s) := rfl

@[simp] theorem run_attempt (x : Call ε σ α) (s : σ) :
    x.attempt.run s = (.ok (x.run s).1, (x.run s).2) := rfl

theorem run_zoom (part : σ → τ) (put : τ → σ → σ) (x : Call ε τ α) (s : σ) :
    (x.zoom part put).run s = ((x.run (part s)).1, put (x.run (part s)).2 s) := rfl

/-! ## The facts after a call -/

/-- `Q` holds when the call from `s` returns a value, and `E` when it fails. -/
def wp (x : Call ε σ α) (Q : α → σ → Prop) (E : ε → σ → Prop) (s : σ) : Prop :=
  match x.run s with
  | (.ok a, s') => Q a s'
  | (.error e, s') => E e s'

variable {Q Q' : α → σ → Prop} {E E' : ε → σ → Prop} {s : σ}

theorem wp_of_run_ok {x : Call ε σ α} {s' : σ} {a : α} (h : x.run s = (.ok a, s'))
    (hq : Q a s') : x.wp Q E s := by
  unfold wp
  rw [h]
  exact hq

theorem wp_of_run_error {x : Call ε σ α} {t : σ} {e : ε} (h : x.run s = (.error e, t))
    (he : E e t) : x.wp Q E s := by
  unfold wp
  rw [h]
  exact he

theorem wp_ok {x : Call ε σ α} {s' : σ} {a : α} (hw : x.wp Q E s)
    (h : x.run s = (.ok a, s')) : Q a s' := by
  unfold wp at hw
  rwa [h] at hw

theorem wp_error {x : Call ε σ α} {s' : σ} {e : ε} (hw : x.wp Q E s)
    (h : x.run s = (.error e, s')) : E e s' := by
  unfold wp at hw
  rwa [h] at hw

/-- A call whose failure is excluded returns a value. -/
theorem exists_ok_of_wp {x : Call ε σ α} (hw : x.wp Q (fun _ _ => False) s) :
    ∃ a s', x.run s = (.ok a, s') ∧ Q a s' := by
  unfold wp at hw
  split at hw
  · exact ⟨_, _, ‹_›, hw⟩
  · exact hw.elim

theorem wp_mono {x : Call ε σ α} (hw : x.wp Q E s) (hq : ∀ a s', Q a s' → Q' a s')
    (he : ∀ e s', E e s' → E' e s') : x.wp Q' E' s := by
  unfold wp at hw ⊢
  split
  · exact hq _ _ (by simpa [*] using hw)
  · exact he _ _ (by simpa [*] using hw)

theorem wp_bind (x : Call ε σ α) (f : α → Call ε σ β) (R : β → σ → Prop) :
    (x >>= f).wp R E s ↔ x.wp (fun a s' => (f a).wp R E s') E s := by
  unfold wp
  rw [run_bind]
  rcases x.run s with ⟨r, s'⟩
  cases r <;> rfl

@[simp] theorem wp_pure (a : α) : (pure a : Call ε σ α).wp Q E s ↔ Q a s := Iff.rfl

@[simp] theorem wp_fail (e : ε) : (fail e : Call ε σ α).wp Q E s ↔ E e s := Iff.rfl

@[simp] theorem wp_get {R : σ → σ → Prop} : (get : Call ε σ σ).wp R E s ↔ R s s := Iff.rfl

@[simp] theorem wp_modify (f : σ → σ) {R : Unit → σ → Prop} :
    (modify f : Call ε σ Unit).wp R E s ↔ R () (f s) := Iff.rfl

theorem wp_ofExcept (x : Except ε α) :
    (ofExcept x : Call ε σ α).wp Q E s ↔
      (∀ a, x = .ok a → Q a s) ∧ (∀ e, x = .error e → E e s) := by
  unfold wp
  cases x <;> simp

theorem wp_ofExcept_ok (a : α) : (ofExcept (.ok a) : Call ε σ α).wp Q E s ↔ Q a s := Iff.rfl

theorem wp_ofExcept_error (e : ε) : (ofExcept (.error e) : Call ε σ α).wp Q E s ↔ E e s := Iff.rfl

theorem wp_attempt (x : Call ε σ α) {R : Except ε α → σ → Prop} :
    x.attempt.wp R E s ↔ x.wp (fun a => R (.ok a)) (fun e => R (.error e)) s := by
  unfold wp
  rw [run_attempt]
  rcases x.run s with ⟨r, s'⟩
  cases r <;> rfl

theorem wp_zoom (part : σ → τ) (put : τ → σ → σ) (x : Call ε τ α) :
    (x.zoom part put).wp Q E s ↔
      x.wp (fun a t => Q a (put t s)) (fun e t => E e (put t s)) (part s) := by
  unfold wp
  rw [run_zoom]
  rcases x.run (part s) with ⟨r, t⟩
  cases r <;> rfl

/-- The invariant `I` of the calls done so far carries a whole list of calls. -/
theorem wp_each (f : α → Call ε σ Unit) (I : List α → σ → Prop) (xs done : List α)
    (h0 : I done s)
    (hstep : ∀ a before after t, xs = before ++ a :: after → I (done ++ before) t →
      (f a).wp (fun _ => I (done ++ before ++ [a])) E t) :
    (each f xs).wp (fun _ => I (done ++ xs)) E s := by
  induction xs generalizing done s with
  | nil => simpa [each] using h0
  | cons a rest ih =>
    unfold each
    rw [wp_bind]
    apply wp_mono (hstep a [] rest s rfl (by simpa using h0))
    · intro _ t ht
      have hrest := ih (done ++ [a]) (by simpa using ht) (fun b before after u he hu => by
        have := hstep b (a :: before) after u (by simp [he]) (by simpa using hu)
        simpa using this)
      simpa using hrest
    · exact fun _ _ he => he

theorem wp_and {x : Call ε σ α} (h1 : x.wp Q E s) (h2 : x.wp Q' E' s) :
    x.wp (fun a s' => Q a s' ∧ Q' a s') (fun e s' => E e s' ∧ E' e s') s := by
  unfold wp at h1 h2 ⊢
  split
  · exact ⟨by simpa [*] using h1, by simpa [*] using h2⟩
  · exact ⟨by simpa [*] using h1, by simpa [*] using h2⟩

theorem wp_trivial (x : Call ε σ α) (s : σ) : x.wp (fun _ _ => True) (fun _ _ => True) s := by
  unfold wp
  split <;> trivial

/-! ## What a call keeps -/

/-- The call keeps `I`, whether it returns a value or fails. -/
def Keeps (I : σ → Prop) (x : Call ε σ α) : Prop :=
  ∀ s, I s → x.wp (fun _ => I) (fun _ => I) s

section

variable {I : σ → Prop} {J : τ → Prop}

/-- What holds after the call, whether it returns or fails, holds of its state. -/
theorem after_of_wp {x : Call ε σ α} {I : σ → Prop} (h : x.wp (fun _ => I) (fun _ => I) s) :
    I (x.run s).2 := by
  rcases hr : x.run s with ⟨e | a, s'⟩
  · have hs' := wp_error h hr
    exact hs'
  · have hs' := wp_ok h hr
    exact hs'

theorem Keeps.after {x : Call ε σ α} (hx : x.Keeps I) (h : I s) : I (x.run s).2 :=
  after_of_wp (hx s h)

theorem keeps_pure (a : α) : (pure a : Call ε σ α).Keeps I := fun _ h => (wp_pure a).mpr h

theorem keeps_fail (e : ε) : (fail e : Call ε σ α).Keeps I := fun _ h => (wp_fail e).mpr h

theorem keeps_get : (get : Call ε σ σ).Keeps I := fun _ h => wp_get.mpr h

theorem keeps_modify {f : σ → σ} (hf : ∀ s, I s → I (f s)) : (modify f : Call ε σ Unit).Keeps I :=
  fun s h => (wp_modify f).mpr (hf s h)

theorem keeps_ofExcept (x : Except ε α) : (ofExcept x : Call ε σ α).Keeps I :=
  fun _ h => (wp_ofExcept x).mpr ⟨fun _ _ => h, fun _ _ => h⟩

theorem Keeps.bind {x : Call ε σ α} {f : α → Call ε σ β} (hx : x.Keeps I)
    (hf : ∀ a, (f a).Keeps I) : (x >>= f).Keeps I :=
  fun s h => (wp_bind x f _).mpr (wp_mono (hx s h) (fun a s' h' => hf a s' h') fun _ _ h' => h')

theorem Keeps.and {K : σ → Prop} {x : Call ε σ α} (hx : x.Keeps I) (hk : x.Keeps K) :
    x.Keeps fun s => I s ∧ K s :=
  fun s h => wp_and (hx s h.1) (hk s h.2)

/-- The rest of a call that reads the state may use what it read. -/
theorem keeps_get_bind {f : σ → Call ε σ β}
    (hf : ∀ s, I s → (f s).wp (fun _ => I) (fun _ => I) s) : (get >>= f).Keeps I :=
  fun s h => (wp_bind get f _).mpr (wp_get.mpr (hf s h))

theorem Keeps.zoom {part : σ → τ} {put : τ → σ → σ} {x : Call ε τ α} (hx : x.Keeps J)
    (hpart : ∀ s, I s → J (part s)) (hput : ∀ s t, I s → J t → I (put t s)) :
    (x.zoom part put).Keeps I :=
  fun s h => (wp_zoom part put x).mpr (wp_mono (hx _ (hpart s h))
    (fun _ t ht => hput s t h ht) fun _ t ht => hput s t h ht)

theorem Keeps.attempt {x : Call ε σ α} (hx : x.Keeps I) : x.attempt.Keeps I :=
  fun s h => (wp_attempt x).mpr (hx s h)

theorem keeps_each {f : α → Call ε σ Unit} (hf : ∀ a, (f a).Keeps I) :
    ∀ xs : List α, (each f xs).Keeps I
  | [] => keeps_pure ()
  | a :: rest => (hf a).bind fun _ => keeps_each hf rest

end

/-! ## The errors of a call -/

/-- The call fails with errors of `P` only. -/
def FailsWith (P : ε → Prop) (x : Call ε σ α) : Prop :=
  ∀ s, x.wp (fun _ _ => True) (fun e _ => P e) s

section

variable {P : ε → Prop}

theorem failsWith_of_run {x : Call ε σ α} (h : ∀ s e, (x.run s).1 = .error e → P e) :
    x.FailsWith P := by
  intro s
  rcases hr : x.run s with ⟨e | a, s'⟩
  · exact wp_of_run_error hr (h s e (by rw [hr]))
  · exact wp_of_run_ok hr trivial

theorem failsWith_pure (a : α) : (pure a : Call ε σ α).FailsWith P := fun _ => (wp_pure a).mpr trivial

theorem failsWith_fail {e : ε} (h : P e) : (fail e : Call ε σ α).FailsWith P :=
  fun _ => (wp_fail e).mpr h

theorem failsWith_get : (get : Call ε σ σ).FailsWith P := fun _ => wp_get.mpr trivial

theorem failsWith_modify (f : σ → σ) : (modify f : Call ε σ Unit).FailsWith P :=
  fun _ => (wp_modify f).mpr trivial

theorem failsWith_ofExcept {x : Except ε α} (h : ∀ e, x = .error e → P e) :
    (ofExcept x : Call ε σ α).FailsWith P :=
  fun _ => (wp_ofExcept x).mpr ⟨fun _ _ => trivial, h⟩

theorem FailsWith.bind {x : Call ε σ α} {f : α → Call ε σ β} (hx : x.FailsWith P)
    (hf : ∀ a, (f a).FailsWith P) : (x >>= f).FailsWith P :=
  fun s => (wp_bind x f _).mpr (wp_mono (hx s) (fun a s' _ => hf a s') fun _ _ h => h)

theorem failsWith_each {f : α → Call ε σ Unit} (hf : ∀ a, (f a).FailsWith P) :
    ∀ xs : List α, (each f xs).FailsWith P
  | [] => failsWith_pure ()
  | a :: rest => (hf a).bind fun _ => failsWith_each hf rest

theorem FailsWith.zoom {part : σ → τ} {put : τ → σ → σ} {x : Call ε τ α} (hx : x.FailsWith P) :
    (x.zoom part put).FailsWith P :=
  fun s => (wp_zoom part put x).mpr (hx (part s))

end

/-! ## What a call does not see -/

/-- The call does the same from a state and from the state changed by `f`. -/
def Blind (f : σ → σ) (x : Call ε σ α) : Prop :=
  ∀ s, x.run (f s) = ((x.run s).1, f (x.run s).2)

section

variable {f : σ → σ} {g : τ → τ}

theorem blind_pure (a : α) : (pure a : Call ε σ α).Blind f := fun _ => rfl

theorem blind_fail (e : ε) : (fail e : Call ε σ α).Blind f := fun _ => rfl

theorem blind_ofExcept (x : Except ε α) : (ofExcept x : Call ε σ α).Blind f := fun _ => rfl

theorem blind_modify {u : σ → σ} (hu : ∀ s, u (f s) = f (u s)) :
    (modify u : Call ε σ Unit).Blind f := fun s => by rw [run_modify, hu, run_modify]

theorem Blind.bind {x : Call ε σ α} {k : α → Call ε σ β} (hx : x.Blind f)
    (hk : ∀ a, (k a).Blind f) : (x >>= k).Blind f := by
  intro s
  rw [run_bind, run_bind, hx s]
  rcases x.run s with ⟨e | a, s'⟩
  · rfl
  · exact hk a s'

/-- The rest of a call that reads the state may use what `f` does not change. -/
theorem blind_get_bind {k : σ → Call ε σ β} (hsame : ∀ s, k (f s) = k s)
    (hk : ∀ s, (k s).Blind f) : (get >>= k).Blind f := by
  intro s
  show (k (f s)).run (f s) = (((k s).run s).1, f ((k s).run s).2)
  rw [hsame, hk s]

theorem Blind.zoom {part : σ → τ} {put : τ → σ → σ} {x : Call ε τ α} (hx : x.Blind g)
    (hpart : ∀ s, part (f s) = g (part s)) (hput : ∀ t s, put (g t) (f s) = f (put t s)) :
    (x.zoom part put).Blind f := by
  intro s
  rw [run_zoom, run_zoom, hpart, hx, hput]

/-- A value from the changed state is a value from the state itself. -/
theorem Blind.run_ok {x : Call ε σ α} (hx : x.Blind f) {a : α} {t : σ}
    (h : x.run (f s) = (.ok a, t)) : ∃ s', x.run s = (.ok a, s') ∧ t = f s' := by
  rw [hx s] at h
  obtain ⟨hr, rfl⟩ := Prod.mk.injEq .. ▸ h
  exact ⟨_, Prod.ext hr rfl, rfl⟩

end

/-! ## Calls that give what a pure function says -/

section

variable {I : σ → Prop}

/-- Where the invariant holds, the call gives the value, or fails where there is
none, and it keeps the invariant. -/
def Gives (x : Call ε σ α) (I : σ → Prop) (r : Option α) : Prop :=
  ∀ s, I s → x.wp (fun a s' => r = some a ∧ I s') (fun _ s' => r = none ∧ I s') s

theorem gives_pure (a : α) : (pure a : Call ε σ α).Gives I (some a) :=
  fun _ h => (wp_pure _).mpr ⟨rfl, h⟩

theorem gives_fail (e : ε) : (fail e : Call ε σ α).Gives I none :=
  fun _ h => (wp_fail _).mpr ⟨rfl, h⟩

theorem Gives.bind {x : Call ε σ α} {r : Option α} {k : α → Call ε σ β} {r' : Option β}
    (hx : x.Gives I r) (hnone : r = none → r' = none)
    (hsome : ∀ a, r = some a → (k a).Gives I r') : (x >>= k).Gives I r' := by
  intro s hs
  rw [wp_bind]
  refine wp_mono (hx s hs) (fun a s' h => ?_) fun e s' h => ?_
  · exact hsome a h.1 s' h.2
  · exact ⟨hnone h.1, h.2⟩

theorem Gives.run_ok_iff {x : Call ε σ α} {r : Option α} (hx : x.Gives I r) {s : σ} (hs : I s)
    (a : α) : (x.run s).1 = .ok a ↔ r = some a := by
  have hw := hx s hs
  rcases hrun : x.run s with ⟨e | a', s'⟩
  · simp [(wp_error hw hrun).1]
  · simp [(wp_ok hw hrun).1]

end

-- Elaboration must not run a call to see whether a fact about it is a function.
attribute [irreducible] wp

end Call
