-- A heap page under its calls. From the page that `initialize_page` sets up, any
-- inserts, deletes and overwrites keep the slots and the tuples apart, and the
-- page is a list of optional tuples that only grows.
import Edb.Run
import Edb.HeapPageLaws

open seq

namespace edb.heap

variable {page page' : Bytes} {slots : List (Option Bytes)} {i : Nat} {tuple : Bytes}

/-! ## Tuples that do not meet -/

/-- The page was set up and holds these slots, and no two tuples share a byte. -/
structure Neat (page : Bytes) (slots : List (Option Bytes)) : Prop where
  good : Good page slots
  start : read_u16 page FREE_START_OFFSET = slot_offset slots.length
  disjoint : ∀ i j t u, i ≠ j → slots[i]? = some (some t) → slots[j]? = some (some u) →
    read_u16 page (slot_offset i) + t.length ≤ read_u16 page (slot_offset j) ∨
      read_u16 page (slot_offset j) + u.length ≤ read_u16 page (slot_offset i)

theorem Good.start_of_ne (h : Good page slots) (hne : slots ≠ []) :
    read_u16 page FREE_START_OFFSET = slot_offset slots.length := by
  rcases h.bounds with ⟨h1, -⟩ | ⟨hnil, -⟩
  · exact h1
  · exact absurd hnil hne

theorem Neat.bounds (h : Neat page slots) :
    slot_offset slots.length ≤ read_u16 page FREE_END_OFFSET ∧
      read_u16 page FREE_END_OFFSET ≤ page.length := by
  rcases h.good.bounds with ⟨-, h2, h3⟩ | ⟨-, h1, -⟩
  · exact ⟨h2, h3⟩
  · have hstart := h.start
    rw [h1, slot_offset_eq] at hstart
    omega

theorem neat_initialize (page : Bytes) (page_id : Nat) (h1 : PAGE_HEADER_SIZE ≤ page.length)
    (h2 : page.length ≤ MAX_U16) :
    ∃ page', initialize_page page page_id = .ok page' ∧ page'.length = page.length ∧
      Neat page' [] ∧ free page' = page.length - PAGE_HEADER_SIZE := by
  obtain ⟨page', hrun, hlen, r6, r8, r10⟩ := initialize_page.fields page page_id h1 h2
  refine ⟨page', hrun, hlen, ⟨⟨by rw [hlen]; exact h1, by rw [hlen]; exact h2, r6,
    Or.inl ⟨r8, by rw [r10]; exact h1, by rw [r10, hlen]⟩, by simp⟩, r8, by simp⟩, ?_⟩
  unfold free
  rw [r10, r8]

theorem getElem?_concat {α : Type} {xs : List α} {x y : α} (h : (xs ++ [x])[i]? = some y) :
    (xs[i]? = some y ∧ i < xs.length) ∨ (i = xs.length ∧ x = y) := by
  by_cases hi : i < xs.length
  · rw [List.getElem?_append_left hi] at h
    exact Or.inl ⟨h, hi⟩
  · have hlt := (List.getElem?_eq_some_iff.mp h).1
    rw [List.length_append, List.length_singleton] at hlt
    obtain rfl : i = xs.length := by omega
    rw [List.getElem?_append_right (Nat.le_refl _), Nat.sub_self] at h
    exact Or.inr ⟨rfl, Option.some.inj h⟩

/-- The new slot points at the tuple. -/
theorem offset_with_tuple {c o : Nat} (hs : slot_offset (c + 1) ≤ o)
    (ht : o + tuple.length ≤ page.length) (hmax : page.length < 2 ^ 16) :
    read_u16 (with_tuple page c o tuple) (slot_offset c) = o := by
  have hl := length_with_slot hs ht
  simp only [slot_offset_eq] at hs
  have hfit : slot_offset c + 4 ≤ (patch page o tuple).length := by
    rw [length_patch ht, slot_offset_eq]; omega
  have hkeep : read_u16 (with_tuple page c o tuple) (slot_offset c) =
      read_u16 (write_slot (patch page o tuple) c { offset := o, len := tuple.length })
        (slot_offset c) :=
    read_u16_of_slice (slice_write_header (by omega) (by rw [slot_offset_eq]; omega))
  rw [hkeep, (read_write_slot { offset := o, len := tuple.length } hfit).1]
  exact Nat.mod_eq_of_lt (by simp only; omega)

theorem Neat.insert (h : Neat page slots) (hne : tuple ≠ [])
    (hroom : tuple.length + SLOT_SIZE ≤ free page) :
    ∃ page', insert_tuple page tuple = .ok (slots.length, page') ∧
      page'.length = page.length ∧ Neat page' (slots ++ [some tuple]) ∧
      free page' + tuple.length + SLOT_SIZE = free page := by
  obtain ⟨page', hrun, hlen, hgood, hfree⟩ := h.good.insert_tuple_eq hne hroom
  obtain ⟨-, hgap, hend⟩ := h.good.room hroom
  have hmax : page.length ≤ 65535 := h.good.small
  have hpage : page' = with_tuple page slots.length
      (read_u16 page FREE_END_OFFSET - tuple.length) tuple := by
    rw [h.good.insert_tuple_run hroom] at hrun
    cases hrun
    rfl
  refine ⟨page', hrun, hlen, ⟨hgood, hgood.start_of_ne (by simp), ?_⟩, hfree⟩
  generalize ho : read_u16 page FREE_END_OFFSET - tuple.length = o at hpage
  have hs : slot_offset (slots.length + 1) ≤ o := by omega
  have ht : o + tuple.length ≤ page.length := by omega
  -- the slots of before point where they did, and the new one below all tuples
  have hold : ∀ j < slots.length, read_u16 page' (slot_offset j) = read_u16 page (slot_offset j) := by
    intro j hj
    rw [hpage]
    simp only [slot_offset_eq] at hs ⊢
    exact read_u16_of_slice (slice_with_tuple (by rw [slot_offset_eq]; omega) ht (by omega)
      (Or.inl (by rw [slot_offset_eq]; omega)) (Or.inl (by omega)))
  have hnew : read_u16 page' (slot_offset slots.length) = o := by
    rw [hpage]
    exact offset_with_tuple hs ht (by omega)
  have hbelow : ∀ j u, slots[j]? = some (some u) →
      o + tuple.length ≤ read_u16 page (slot_offset j) := by
    intro j u hu
    obtain ⟨-, -, hge, -⟩ := h.good.slot j _ hu
    omega
  intro i j t u hij hi hj
  rcases getElem?_concat hi with ⟨hi, hil⟩ | ⟨rfl, hti⟩ <;>
    rcases getElem?_concat hj with ⟨hj, hjl⟩ | ⟨rfl, htj⟩
  · rw [hold i hil, hold j hjl]
    exact h.disjoint i j t u hij hi hj
  · cases htj
    rw [hold i hil, hnew]
    exact Or.inr (hbelow i t hi)
  · cases hti
    rw [hnew, hold j hjl]
    exact Or.inl (hbelow j u hj)
  · exact absurd rfl hij

theorem Neat.delete (h : Neat page slots) {t : Bytes} (hi : slots[i]? = some (some t)) :
    ∃ page', delete_tuple page i = .ok page' ∧ page'.length = page.length ∧
      Neat page' (slots.set i none) ∧ free page' = free page := by
  have hspec := h.good.delete_tuple_eq i
  rw [hi] at hspec
  obtain ⟨page', hrun, hlen, hgood, hfree⟩ := hspec
  have hlt : i < slots.length := (List.getElem?_eq_some_iff.mp hi).1
  have hpage : page' = write_slot page i { offset := 0, len := 0 } := by
    unfold delete_tuple at hrun
    rw [h.good.read_slot_eq, if_pos hlt] at hrun
    simp only [bind, Except.bind] at hrun
    split at hrun
    · cases hrun
    · cases hrun
      rfl
  refine ⟨page', hrun, hlen, ⟨hgood, hgood.start_of_ne ?_, ?_⟩, hfree⟩
  · exact List.ne_nil_of_length_pos (by rw [List.length_set]; omega)
  have hfit := h.good.slots_fit hlt
  have hold : ∀ j, j ≠ i → read_u16 page' (slot_offset j) = read_u16 page (slot_offset j) := by
    intro j hj
    rw [hpage]
    refine read_u16_of_slice (slice_write_slot hfit ?_)
    simp only [slot_offset_eq]
    omega
  intro j k t u hjk hj hk
  have hne : ∀ {m : Nat} {v : Bytes}, (slots.set i none)[m]? = some (some v) →
      m ≠ i ∧ slots[m]? = some (some v) := by
    intro m v hm
    by_cases hmi : i = m
    · subst hmi
      rw [List.getElem?_set_self hlt] at hm
      cases hm
    · rw [List.getElem?_set_ne hmi] at hm
      exact ⟨Ne.symm hmi, hm⟩
  obtain ⟨hji, hj⟩ := hne hj
  obtain ⟨hki, hk⟩ := hne hk
  rw [hold j hji, hold k hki]
  exact h.disjoint j k t u hjk hj hk

/-- Bytes of the same length over a live tuple. -/
theorem Neat.overwrite (h : Neat page slots) {t : Bytes} (hi : slots[i]? = some (some t))
    (hsize : t.length = tuple.length) :
    ∃ page', overwrite_tuple page i tuple = .ok page' ∧ page'.length = page.length ∧
      Neat page' (slots.set i (some tuple)) ∧ free page' = free page := by
  have hlt : i < slots.length := (List.getElem?_eq_some_iff.mp hi).1
  obtain ⟨hne, hlen, hge, hend, -⟩ := h.good.slot i _ hi
  obtain ⟨hstart, hfree⟩ := h.bounds
  have hpos : t.length ≠ 0 := by simpa using hne
  generalize ho : read_u16 page (slot_offset i) = o at hge hend
  have hin : o + tuple.length ≤ page.length := by omega
  have hrun : overwrite_tuple page i tuple = .ok (patch page o tuple) := by
    unfold overwrite_tuple
    rw [h.good.read_slot_eq, if_pos hlt]
    simp only [bind, Except.bind, hlen, ho]
    rw [if_neg hpos, if_neg (by omega), if_neg (by omega)]
    rfl
  have hl : (patch page o tuple).length = page.length := length_patch hin
  -- everything below the tuples stays
  have hread : ∀ a, a + 2 ≤ o → read_u16 (patch page o tuple) a = read_u16 page a :=
    fun a ha => read_u16_of_slice (slice_patch_disjoint hin (Or.inl ha))
  have hslot : ∀ j < slots.length, ∀ a, slot_offset j ≤ a → a + 2 ≤ slot_offset j + 4 →
      read_u16 (patch page o tuple) a = read_u16 page a := by
    intro j hj a h1 h2
    apply hread
    simp only [slot_offset_eq] at *
    omega
  have h28 : 28 ≤ o := by
    rw [slot_offset_eq] at hstart
    omega
  have r6 := hread SLOT_COUNT_OFFSET (by simp only [SLOT_COUNT_OFFSET]; omega)
  have r8 := hread FREE_START_OFFSET (by simp only [FREE_START_OFFSET]; omega)
  have r10 := hread FREE_END_OFFSET (by simp only [FREE_END_OFFSET]; omega)
  have hoff : ∀ j < slots.length,
      read_u16 (patch page o tuple) (slot_offset j) = read_u16 page (slot_offset j) :=
    fun j hj => hslot j hj _ (Nat.le_refl _) (by omega)
  have hbounds : read_u16 (patch page o tuple) FREE_START_OFFSET =
      slot_offset (slots.set i (some tuple)).length := by
    rw [r8, List.length_set]
    exact h.start
  refine ⟨_, hrun, hl, ⟨⟨by rw [hl]; exact h.good.header, by rw [hl]; exact h.good.small, ?_,
    Or.inl ⟨hbounds, by rw [r10, List.length_set]; exact hstart, by rw [r10, hl]; exact hfree⟩,
    ?_⟩, hbounds, ?_⟩, ?_⟩
  · rw [r6, List.length_set]
    exact h.good.count
  · intro j x hx
    have hjl : j < slots.length := by
      have := (List.getElem?_eq_some_iff.mp hx).1
      rwa [List.length_set] at this
    by_cases hj : i = j
    · subst hj
      rw [List.getElem?_set_self hlt] at hx
      cases hx
      refine ⟨?_, ?_, ?_, ?_, ?_⟩
      · exact List.ne_nil_of_length_pos (by omega)
      · rw [hslot i hlt _ (by omega) (by omega), hlen, hsize]
      · rw [r10, hoff i hlt, ho]
        exact hge
      · rw [hoff i hlt, ho, hl]
        exact hin
      · rw [hoff i hlt, ho]
        exact slice_patch_self hin
    · rw [List.getElem?_set_ne hj] at hx
      have hold := h.good.slot j x hx
      cases x with
      | none => exact (hslot j hjl _ (by omega) (by omega)).trans hold
      | some u =>
        obtain ⟨hune, hulen, huge, huend, husl⟩ := hold
        have hd := h.disjoint i j t u hj hi hx
        rw [ho] at hd
        refine ⟨hune, (hslot j hjl _ (by omega) (by omega)).trans hulen, ?_, ?_, ?_⟩
        · rw [r10, hoff j hjl]
          exact huge
        · rw [hoff j hjl, hl]
          exact huend
        · rw [hoff j hjl, slice_patch_disjoint hin (by omega)]
          exact husl
  · have hback : ∀ {m : Nat} {v : Bytes}, (slots.set i (some tuple))[m]? = some (some v) →
        ∃ w : Bytes, slots[m]? = some (some w) ∧ w.length = v.length ∧ m < slots.length := by
      intro m v hm
      have hml := (List.getElem?_eq_some_iff.mp hm).1
      rw [List.length_set] at hml
      by_cases hmi : i = m
      · subst hmi
        rw [List.getElem?_set_self hlt] at hm
        cases hm
        exact ⟨t, hi, hsize, hlt⟩
      · rw [List.getElem?_set_ne hmi] at hm
        exact ⟨v, hm, rfl, hml⟩
    intro j k v w hjk hj hk
    obtain ⟨v', hj', hv, hjl⟩ := hback hj
    obtain ⟨w', hk', hw, hkl⟩ := hback hk
    rw [hoff j hjl, hoff k hkl, ← hv, ← hw]
    exact h.disjoint j k v' w' hjk hj' hk'
  · unfold free
    rw [r8, r10]

/-! ## Runs -/

/-- What is called on a page. -/
inductive PageOp where
  | insert_tuple (tuple : Bytes)
  | delete_tuple (slot_idx : Nat)
  | overwrite_tuple (slot_idx : Nat) (tuple : Bytes)
  deriving DecidableEq, Repr

/-- What comes back: the slot of an insert, or that it was done. -/
inductive PageReply where
  | slot (r : Result Nat)
  | done (r : Result Unit)
  deriving DecidableEq

/-- The page after a call that changes it, or the page as it was. -/
def replace (page : Bytes) : Result Bytes → PageReply × Bytes
  | .ok page' => (.done (.ok ()), page')
  | .error e => (.done (.error e), page)

def PageOp.step : PageOp → Bytes → PageReply × Bytes
  | .insert_tuple tuple, page =>
    match heap.insert_tuple page tuple with
    | .ok (slot_idx, page') => (.slot (.ok slot_idx), page')
    | .error e => (.slot (.error e), page)
  | .delete_tuple slot_idx, page => replace page (heap.delete_tuple page slot_idx)
  | .overwrite_tuple slot_idx tuple, page => replace page (heap.overwrite_tuple page slot_idx tuple)

/-- What a page is for: a list of optional tuples that grows while there is room. -/
structure TupleList where
  slots : List (Option Bytes) := []
  room : Nat
  deriving DecidableEq, Repr

namespace TupleList

/-- Entry `i` is live, or the error that a call on it gets. -/
def entry (a : TupleList) (i : Nat) : Result Bytes :=
  match a.slots[i]? with
  | none => .error .InvalidArgument
  | some none => .error .NotFound
  | some (some tuple) => .ok tuple

def step : PageOp → TupleList → PageReply × TupleList
  | .insert_tuple tuple, a =>
    if tuple.length + SLOT_SIZE ≤ a.room then
      (.slot (.ok a.slots.length),
        { slots := a.slots ++ [some tuple], room := a.room - (tuple.length + SLOT_SIZE) })
    else (.slot (.error .OutOfMemory), a)
  | .delete_tuple i, a =>
    match a.entry i with
    | .ok _ => (.done (.ok ()), { a with slots := a.slots.set i none })
    | .error e => (.done (.error e), a)
  | .overwrite_tuple i tuple, a =>
    match a.entry i with
    | .ok old =>
      if old.length = tuple.length then
        (.done (.ok ()), { a with slots := a.slots.set i (some tuple) })
      else (.done (.error .InvalidArgument), a)
    | .error e => (.done (.error e), a)

/-- The page holds the list, and its free bytes are the room that is left. -/
structure Held (n : Nat) (page : Bytes) (a : TupleList) : Prop where
  length : page.length = n
  neat : Neat page a.slots
  room : free page = a.room

end TupleList

/-- The slot that a call reads first. -/
theorem Good.live_or_refused (h : Good page slots) (room i : Nat) :
    match (TupleList.mk slots room).entry i with
    | .ok t => slots[i]? = some (some t) ∧
        read_slot page i = .ok ⟨read_u16 page (slot_offset i), t.length⟩ ∧ t.length ≠ 0
    | .error e => ∀ {α : Type} (k : Slot → Result α),
        (do let slot ← read_slot page i
            if slot.len = 0 then .error .NotFound else k slot) = .error e := by
  unfold TupleList.entry
  dsimp only
  rcases hi : slots[i]? with _ | _ | t
  · intro α k
    have hout : ¬ i < slots.length := by simpa using hi
    rw [h.read_slot_eq, if_neg hout]
    rfl
  · intro α k
    have hlt : i < slots.length := (List.getElem?_eq_some_iff.mp hi).1
    have hzero : read_u16 page (slot_offset i + 2) = 0 := h.slot i _ hi
    rw [h.read_slot_eq, if_pos hlt, hzero]
    rfl
  · have hlt : i < slots.length := (List.getElem?_eq_some_iff.mp hi).1
    obtain ⟨hne, hlen, -⟩ := h.slot i _ hi
    refine ⟨rfl, ?_, by simpa using hne⟩
    rw [h.read_slot_eq, if_pos hlt, hlen]

namespace TupleList

variable {n : Nat} {a : TupleList}

/-- A call that is refused leaves the page as it was. -/
theorem replace_held {r : Result Bytes} {b : TupleList}
    (hr : ∃ page', r = .ok page' ∧ page'.length = page.length ∧ Neat page' b.slots ∧
      free page' = b.room) (hn : page.length = n) :
    (replace page r).1 = .done (.ok ()) ∧ Held n (replace page r).2 b := by
  obtain ⟨page', rfl, hlen, hneat, hfree⟩ := hr
  exact ⟨rfl, hlen.trans hn, hneat, hfree⟩

theorem held_insert (h : Held n page a) (hne : tuple ≠ []) :
    (PageOp.step (.insert_tuple tuple) page).1 = (step (.insert_tuple tuple) a).1 ∧
      Held n (PageOp.step (.insert_tuple tuple) page).2 (step (.insert_tuple tuple) a).2 := by
  simp only [PageOp.step, step]
  by_cases hroom : tuple.length + SLOT_SIZE ≤ a.room
  · obtain ⟨page', hrun, hlen, hneat, hfree⟩ := h.neat.insert hne (h.room ▸ hroom)
    rw [hrun, if_pos hroom]
    have hroom' := h.room
    exact ⟨rfl, hlen.trans h.length, hneat, by dsimp only; omega⟩
  · have hrun : heap.insert_tuple page tuple = .error .OutOfMemory := by
      unfold heap.insert_tuple
      rw [h.neat.good.can_insert_eq, h.room, decide_eq_false hroom]
      rfl
    rw [hrun, if_neg hroom]
    exact ⟨rfl, h⟩

theorem held_delete (h : Held n page a) (i : Nat) :
    (PageOp.step (.delete_tuple i) page).1 = (step (.delete_tuple i) a).1 ∧
      Held n (PageOp.step (.delete_tuple i) page).2 (step (.delete_tuple i) a).2 := by
  have hlive := h.neat.good.live_or_refused a.room i
  unfold PageOp.step step
  dsimp only
  rcases he : a.entry i with e | t
  · have hrun : heap.delete_tuple page i = .error e := by
      rw [show (TupleList.mk a.slots a.room).entry i = .error e from he] at hlive
      exact hlive _
    rw [hrun]
    exact ⟨rfl, h⟩
  · rw [show (TupleList.mk a.slots a.room).entry i = .ok t from he] at hlive
    obtain ⟨page', hrun, hlen, hneat, hfree⟩ := h.neat.delete hlive.1
    exact replace_held ⟨page', hrun, hlen, hneat, hfree.trans h.room⟩ h.length

theorem held_overwrite (h : Held n page a) (i : Nat) (tuple : Bytes) :
    (PageOp.step (.overwrite_tuple i tuple) page).1 = (step (.overwrite_tuple i tuple) a).1 ∧
      Held n (PageOp.step (.overwrite_tuple i tuple) page).2
        (step (.overwrite_tuple i tuple) a).2 := by
  have hlive := h.neat.good.live_or_refused a.room i
  unfold PageOp.step step
  dsimp only
  rcases he : a.entry i with e | t
  · have hrun : heap.overwrite_tuple page i tuple = .error e := by
      rw [show (TupleList.mk a.slots a.room).entry i = .error e from he] at hlive
      exact hlive _
    rw [hrun]
    exact ⟨rfl, h⟩
  · rw [show (TupleList.mk a.slots a.room).entry i = .ok t from he] at hlive
    obtain ⟨hi, hread, hpos⟩ := hlive
    dsimp only
    by_cases hsize : t.length = tuple.length
    · rw [if_pos hsize]
      obtain ⟨page', hrun, hlen, hneat, hfree⟩ := h.neat.overwrite hi hsize
      exact replace_held ⟨page', hrun, hlen, hneat, hfree.trans h.room⟩ h.length
    · have hrun : heap.overwrite_tuple page i tuple = .error .InvalidArgument := by
        unfold heap.overwrite_tuple
        rw [hread]
        simp only [bind, Except.bind]
        rw [if_neg hpos, if_pos hsize]
      rw [if_neg hsize, hrun]
      exact ⟨rfl, h⟩

/-- An insert is of a tuple with bytes. -/
def Inserts : PageOp → Prop
  | .insert_tuple tuple => tuple ≠ []
  | _ => True

theorem held_step (op : PageOp) (h : Held n page a) (hop : Inserts op) :
    (PageOp.step op page).1 = (step op a).1 ∧ Held n (PageOp.step op page).2 (step op a).2 := by
  cases op with
  | insert_tuple tuple => exact held_insert h hop
  | delete_tuple i => exact held_delete h i
  | overwrite_tuple i tuple => exact held_overwrite h i tuple

theorem Held.read_tuple_eq (h : Held n page a) (i : Nat) : read_tuple page i = a.entry i := by
  have hlive := h.neat.good.live_or_refused a.room i
  rcases he : a.entry i with e | t
  · rw [show (TupleList.mk a.slots a.room).entry i = .error e from he] at hlive
    exact hlive _
  · rw [show (TupleList.mk a.slots a.room).entry i = .ok t from he] at hlive
    exact h.neat.good.read_tuple_eq hlive.1

end TupleList

/-- Calls on a page that was set up do to it what they do to a list of optional
tuples: an insert appends when its bytes and a slot fit between the slots and the
tuples, a delete empties an entry, an overwrite replaces one by bytes of the same
length, and a call that fails changes nothing. The slots and the tuples stay apart
and no tuple meets another one. -/
theorem page_is_a_list_of_tuples (page : Bytes) (page_id : Nat) (hmin : 28 ≤ page.length)
    (hmax : page.length ≤ 65535) (ops : List PageOp) (hops : ∀ op ∈ ops, TupleList.Inserts op) :
    ∃ start, initialize_page page page_id = .ok start ∧
      let p := (Run.exec PageOp.step ops start).2
      let a := (Run.exec TupleList.step ops ⟨[], page.length - 28⟩).2
      let free_start := read_u16 p FREE_START_OFFSET
      let free_end := read_u16 p FREE_END_OFFSET
      let offset i := read_u16 p (slot_offset i)
      (Run.exec PageOp.step ops start).1 =
        (Run.exec TupleList.step ops ⟨[], page.length - 28⟩).1 ∧
      p.length = page.length ∧ slot_count p = .ok a.slots.length ∧
      free_start = 28 + 4 * a.slots.length ∧ free_start ≤ free_end ∧ free_end ≤ page.length ∧
      free_end - free_start = a.room ∧
      (∀ i t, a.slots[i]? = some (some t) →
        read_slot p i = .ok ⟨offset i, t.length⟩ ∧ free_end ≤ offset i ∧
          offset i + t.length ≤ page.length) ∧
      (∀ i j t u, i ≠ j → a.slots[i]? = some (some t) → a.slots[j]? = some (some u) →
        offset i + t.length ≤ offset j ∨ offset j + u.length ≤ offset i) ∧
      ∀ i, read_tuple p i = a.entry i := by
  obtain ⟨start, hrun, hlen, hneat, hfree⟩ := neat_initialize page page_id hmin hmax
  have h0 : TupleList.Held page.length start ⟨[], page.length - 28⟩ := ⟨hlen, hneat, hfree⟩
  obtain ⟨hout, hheld⟩ := Run.simulates (TupleList.Held page.length)
    (fun op p a h hop => TupleList.held_step op h hop) ops start _ h0
    (Run.allowed_of_forall ops _ fun op hop _ => hops op hop)
  refine ⟨start, hrun, hout, hheld.length, hheld.neat.good.slot_count_eq, ?_, ?_, ?_, hheld.room,
    ?_, hheld.neat.disjoint, hheld.read_tuple_eq⟩
  · exact hheld.neat.start.trans (by rw [slot_offset_eq, Nat.mul_comm])
  · exact hheld.neat.start ▸ hheld.neat.bounds.1
  · exact hheld.length ▸ hheld.neat.bounds.2
  · intro i t hi
    have hlt := (List.getElem?_eq_some_iff.mp hi).1
    obtain ⟨-, hsize, hge, hend, -⟩ := hheld.neat.good.slot i _ hi
    exact ⟨by rw [hheld.neat.good.read_slot_eq, if_pos hlt, hsize], hge, hheld.length ▸ hend⟩

/-- A page of 40 bytes: two tuples, the first is overwritten, the second deleted,
and a third one does not fit. -/
theorem tuples_of_a_small_page :
    ∃ start, initialize_page (List.replicate 40 7) 3 = .ok start ∧
      (Run.exec PageOp.step [.insert_tuple [1, 2], .insert_tuple [3], .overwrite_tuple 0 [5, 6],
        .delete_tuple 1, .insert_tuple [4]] start).1 =
        [.slot (.ok 0), .slot (.ok 1), .done (.ok ()), .done (.ok ()),
          .slot (.error .OutOfMemory)] := by
  obtain ⟨start, hrun, hout, -⟩ := page_is_a_list_of_tuples (List.replicate 40 7) 3 (by decide)
    (by decide) [.insert_tuple [1, 2], .insert_tuple [3], .overwrite_tuple 0 [5, 6],
      .delete_tuple 1, .insert_tuple [4]] (by simp [TupleList.Inserts])
  exact ⟨start, hrun, hout.trans (by decide)⟩

end edb.heap
