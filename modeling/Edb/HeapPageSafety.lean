-- The calls on a heap page once more, with every access to the page checked.
-- The counts, bounds and slots of a page are bytes of the page itself, and the
-- code trusts some of them: a slot below the slot count is read wherever it
-- would lie, and an insert believes the end of the free bytes.
import Edb.HeapPageLaws

open seq

namespace edb.heap

-- There is no result when an access is outside of the page.
namespace Checked

def read_u16 (page : Bytes) (offset : Nat) : Option Nat := do
  let lo ← page[offset]?
  let hi ← page[offset + 1]?
  pure (le.decode [lo, hi])

/-- Bytes written one after the other, or copied to a `subspan`. -/
def write (page : Bytes) (offset : Nat) (bytes : Bytes) : Option Bytes :=
  if offset + bytes.length ≤ page.length then some (patch page offset bytes) else none

def write_u16 (page : Bytes) (offset value : Nat) : Option Bytes :=
  write page offset (le.encode 2 value)

def subspan (page : Bytes) (offset count : Nat) : Option Bytes :=
  if offset + count ≤ page.length then some (slice page offset count) else none

def slot_count (page : Bytes) : Option (Result Nat) :=
  match validate_page_size page with
  | .error e => some (.error e)
  | .ok () => do
    let count ← read_u16 page SLOT_COUNT_OFFSET
    pure (.ok count)

def read_slot (page : Bytes) (slot_idx : Nat) : Option (Result Slot) := do
  let count ← slot_count page
  match count with
  | .error e => pure (.error e)
  | .ok count =>
    if slot_idx ≥ count then pure (.error .InvalidArgument)
    else
      let offset ← read_u16 page (slot_offset slot_idx)
      let len ← read_u16 page (slot_offset slot_idx + 2)
      pure (.ok { offset, len })

def write_slot (page : Bytes) (slot_idx : Nat) (slot : Slot) : Option Bytes := do
  let page ← write_u16 page (slot_offset slot_idx) slot.offset
  write_u16 page (slot_offset slot_idx + 2) slot.len

def free_space (page : Bytes) : Option (Result Nat) :=
  match validate_page_size page with
  | .error e => some (.error e)
  | .ok () => do
    let free_start ← read_u16 page FREE_START_OFFSET
    let free_end ← read_u16 page FREE_END_OFFSET
    if free_end < free_start then pure (.error .Corruption) else pure (.ok (free_end - free_start))

def can_insert (page : Bytes) (tuple_size : Nat) : Option (Result Bool) :=
  if !fits_u16 tuple_size then some (.ok false)
  else do
    let space ← free_space page
    match space with
    | .error e => pure (.error e)
    | .ok space => pure (.ok (decide (space ≥ tuple_size + SLOT_SIZE)))

def insert_tuple (page tuple : Bytes) : Option (Result (Nat × Bytes)) := do
  let can_fit ← can_insert page tuple.length
  match can_fit with
  | .error e => pure (.error e)
  | .ok false => pure (.error .OutOfMemory)
  | .ok true =>
    let count ← read_u16 page SLOT_COUNT_OFFSET
    let free_end ← read_u16 page FREE_END_OFFSET
    let tuple_offset := (free_end - tuple.length) % 2 ^ 16
    let page ← write page tuple_offset tuple
    let page ← write_slot page count { offset := tuple_offset, len := tuple.length % 2 ^ 16 }
    let new_count := (count + 1) % 2 ^ 16
    let page ← write_u16 page SLOT_COUNT_OFFSET new_count
    let page ← write_u16 page FREE_START_OFFSET
      ((PAGE_HEADER_SIZE + new_count * SLOT_SIZE) % 2 ^ 16)
    let page ← write_u16 page FREE_END_OFFSET tuple_offset
    pure (.ok (count, page))

/-- What a call does with the slot that it reads first. -/
def with_slot {α : Type} (page : Bytes) (slot_idx : Nat) (k : Slot → Option (Result α)) :
    Option (Result α) := do
  let slot ← read_slot page slot_idx
  match slot with
  | .error e => pure (.error e)
  | .ok slot => k slot

def delete_tuple (page : Bytes) (slot_idx : Nat) : Option (Result Bytes) :=
  with_slot page slot_idx fun slot =>
    if slot.len = 0 then pure (.error .NotFound)
    else do
      let page ← write_slot page slot_idx { offset := 0, len := 0 }
      pure (.ok page)

def overwrite_tuple (page : Bytes) (slot_idx : Nat) (tuple : Bytes) : Option (Result Bytes) :=
  with_slot page slot_idx fun slot =>
    if slot.len = 0 then pure (.error .NotFound)
    else if slot.len ≠ tuple.length then pure (.error .InvalidArgument)
    else if slot.offset + slot.len > page.length then pure (.error .Corruption)
    else do
      let page ← write page slot.offset tuple
      pure (.ok page)

def read_tuple (page : Bytes) (slot_idx : Nat) : Option (Result Bytes) :=
  with_slot page slot_idx fun slot =>
    if slot.len = 0 then pure (.error .NotFound)
    else if slot.offset + slot.len > page.length then pure (.error .Corruption)
    else do
      let src ← subspan page slot.offset slot.len
      pure (.ok src)

def is_live_slot (page : Bytes) (slot_idx : Nat) : Option (Result Bool) :=
  with_slot page slot_idx fun slot => pure (.ok (decide (slot.len ≠ 0)))

/-! ## Accesses that stay inside -/

variable {page tuple : Bytes} {offset i : Nat}

theorem read_u16_eq (page : Bytes) (offset : Nat) : read_u16 page offset =
    if offset + 2 ≤ page.length then some (heap.read_u16 page offset) else none := by
  unfold read_u16 heap.read_u16
  split
  · rename_i h
    have hslice : slice page offset 2 = [page[offset], page[offset + 1]] := by
      unfold slice
      rw [List.drop_eq_getElem_cons (by omega), List.take_succ_cons,
        List.drop_eq_getElem_cons (by omega), List.take_succ_cons, List.take_zero]
    rw [hslice, List.getElem?_eq_getElem (by omega), List.getElem?_eq_getElem (by omega)]
    rfl
  · rename_i h
    rcases hlo : page[offset]? with _ | lo
    · rfl
    · rw [List.getElem?_eq_none (by omega : page.length ≤ offset + 1)]
      rfl

theorem write_eq (h : offset + tuple.length ≤ page.length) :
    write page offset tuple = some (patch page offset tuple) := if_pos h

theorem write_u16_eq {v : Nat} (h : offset + 2 ≤ page.length) :
    write_u16 page offset v = some (heap.write_u16 page offset v) := if_pos (by simpa using h)

theorem write_slot_eq (page : Bytes) (i : Nat) (slot : Slot) : write_slot page i slot =
    if slot_offset i + 4 ≤ page.length then some (heap.write_slot page i slot) else none := by
  unfold write_slot heap.write_slot
  split
  · rw [write_u16_eq (by omega)]
    exact write_u16_eq (by rw [length_write_u16 (by omega)]; omega)
  · by_cases h : slot_offset i + 2 ≤ page.length
    · rw [write_u16_eq h]
      refine if_neg ?_
      rw [length_write_u16 h, le.length_encode]
      omega
    · unfold write_u16 write
      rw [if_neg (by rw [le.length_encode]; exact h)]
      rfl

/-- The fields of the header are there in every page that is taken for one. -/
theorem read_header_eq (h : validate_page_size page = .ok ()) (ho : offset + 2 ≤ 28) :
    read_u16 page offset = some (heap.read_u16 page offset) := by
  unfold validate_page_size PAGE_HEADER_SIZE at h
  split at h
  · cases h
  · rw [read_u16_eq, if_pos (by omega)]

theorem slot_count_eq (page : Bytes) : slot_count page = some (heap.slot_count page) := by
  unfold slot_count heap.slot_count
  rcases hv : validate_page_size page with e | ⟨⟩
  · rfl
  · dsimp only
    rw [read_header_eq hv (by decide)]
    rfl

theorem free_space_eq (page : Bytes) : free_space page = some (heap.free_space page) := by
  unfold free_space heap.free_space
  rcases hv : validate_page_size page with e | ⟨⟩
  · rfl
  · dsimp only
    rw [read_header_eq hv (by decide), read_header_eq hv (by decide)]
    simp only [Option.bind_some, bind, Except.bind]
    split <;> rfl

theorem can_insert_eq (page : Bytes) (size : Nat) :
    can_insert page size = some (heap.can_insert page size) := by
  unfold can_insert heap.can_insert
  split
  · rfl
  · rw [free_space_eq]
    rcases heap.free_space page with e | space <;> rfl

end Checked

/-! ## Which calls stay inside -/

/-- A slot below the slot count lies in the page. -/
def SlotInside (page : Bytes) (i : Nat) : Prop :=
  ∀ count, slot_count page = .ok count → i < count → slot_offset i + 4 ≤ page.length

/-- A page with room for the tuple has the end of its free bytes and the next slot
inside. -/
def InsertInside (page tuple : Bytes) : Prop :=
  can_insert page tuple.length = .ok true →
    read_u16 page FREE_END_OFFSET ≤ page.length ∧
      slot_offset (read_u16 page SLOT_COUNT_OFFSET) + 4 ≤ page.length

/-- The call has the result of the page that is not checked where all accesses are
inside, and no result elsewhere. -/
structure Stays {α : Type} (inside : Prop) (checked : Option (Result α)) (plain : Result α) :
    Prop where
  same : inside → checked = some plain
  outside : ¬ inside → checked = none

namespace Checked

variable {page : Bytes} {i : Nat}

theorem read_slot_stays (page : Bytes) (i : Nat) :
    Stays (SlotInside page i) (read_slot page i) (heap.read_slot page i) := by
  unfold SlotInside read_slot heap.read_slot
  rw [slot_count_eq]
  simp only [Option.bind_eq_bind, Option.bind_some]
  rcases heap.slot_count page with e | count
  · exact ⟨fun _ => rfl, fun h => absurd nofun h⟩
  · simp only [Except.ok.injEq, forall_eq', bind, Except.bind]
    by_cases hi : i ≥ count
    · rw [if_pos hi, if_pos hi]
      exact ⟨fun _ => rfl, fun h => absurd (fun hlt => absurd hlt (by omega)) h⟩
    · rw [if_neg hi, if_neg hi]
      refine ⟨fun h => ?_, fun h => ?_⟩
      · have hin := h (by omega)
        rw [read_u16_eq, if_pos (by omega), read_u16_eq, if_pos (by omega)]
        rfl
      · have hout : ¬ slot_offset i + 2 + 2 ≤ page.length := fun hin => h fun _ => hin
        rw [read_u16_eq page (slot_offset i + 2), if_neg hout]
        rcases read_u16 page (slot_offset i) with _ | offset <;> rfl

/-- A call that stays inside once it has its slot stays inside where the slot does. -/
theorem with_slot_stays {α : Type} {k : Slot → Option (Result α)} {plain : Slot → Result α}
    (h : ∀ slot, heap.read_slot page i = .ok slot → SlotInside page i →
      k slot = some (plain slot)) :
    Stays (SlotInside page i) (with_slot page i k) (heap.read_slot page i >>= plain) := by
  have hslot := read_slot_stays page i
  unfold with_slot
  refine ⟨fun hin => ?_, fun hout => ?_⟩
  · rw [hslot.same hin]
    rcases hr : heap.read_slot page i with e | slot
    · rfl
    · exact h slot hr hin
  · rw [hslot.outside hout]
    rfl

/-- A slot that was read lies in the page, where it is known to. -/
theorem slot_fits {slot : Slot} (h : heap.read_slot page i = .ok slot) (hin : SlotInside page i) :
    slot_offset i + 4 ≤ page.length := by
  unfold heap.read_slot at h
  rcases hc : heap.slot_count page with e | count <;> rw [hc] at h
  · cases h
  · simp only [bind, Except.bind] at h
    split at h
    · cases h
    · exact hin count hc (by omega)

theorem delete_tuple_stays (page : Bytes) (i : Nat) :
    Stays (SlotInside page i) (delete_tuple page i) (heap.delete_tuple page i) := by
  refine with_slot_stays fun slot hslot hin => ?_
  split
  · rfl
  · rw [write_slot_eq, if_pos (slot_fits hslot hin)]
    rfl

theorem overwrite_tuple_stays (page : Bytes) (i : Nat) (tuple : Bytes) :
    Stays (SlotInside page i) (overwrite_tuple page i tuple) (heap.overwrite_tuple page i tuple) := by
  refine with_slot_stays fun slot hslot hin => ?_
  split
  · rfl
  · split
    · rfl
    · split
      · rfl
      · rw [write_eq (by omega)]
        rfl

theorem read_tuple_stays (page : Bytes) (i : Nat) :
    Stays (SlotInside page i) (read_tuple page i) (heap.read_tuple page i) := by
  refine with_slot_stays fun slot hslot hin => ?_
  split
  · rfl
  · split
    · rfl
    · unfold subspan
      rw [if_pos (by omega)]
      rfl

theorem is_live_slot_stays (page : Bytes) (i : Nat) :
    Stays (SlotInside page i) (is_live_slot page i) (heap.is_live_slot page i) :=
  with_slot_stays fun _ _ _ => rfl

/-- What a page with room for a tuple says of itself. -/
theorem can_insert_true {size : Nat} (h : heap.can_insert page size = .ok true) :
    validate_page_size page = .ok () ∧ 28 ≤ page.length ∧
      size + 4 ≤ heap.read_u16 page FREE_END_OFFSET := by
  unfold heap.can_insert heap.free_space at h
  split at h
  · cases h
  · rcases hv : validate_page_size page with e | ⟨⟩ <;> rw [hv] at h
    · cases h
    · refine ⟨rfl, ?_, ?_⟩
      · unfold validate_page_size PAGE_HEADER_SIZE at hv
        split at hv
        · cases hv
        · omega
      · by_cases hlt : heap.read_u16 page FREE_END_OFFSET < heap.read_u16 page FREE_START_OFFSET
        · simp only [bind, Except.bind, if_pos hlt] at h
          cases h
        · simp only [bind, Except.bind, if_neg hlt] at h
          have hspace := of_decide_eq_true (Except.ok.inj h)
          unfold SLOT_SIZE at hspace
          omega

theorem insert_tuple_stays (page tuple : Bytes) :
    Stays (InsertInside page tuple) (insert_tuple page tuple) (heap.insert_tuple page tuple) := by
  unfold InsertInside insert_tuple heap.insert_tuple
  rw [can_insert_eq]
  simp only [Option.bind_eq_bind, Option.bind_some]
  rcases hc : heap.can_insert page tuple.length with e | _ | _
  · exact ⟨fun _ => rfl, fun h => absurd nofun h⟩
  · exact ⟨fun _ => rfl, fun h => absurd nofun h⟩
  · obtain ⟨hv, h28, hend⟩ := can_insert_true hc
    simp only [forall_true_left]
    rw [read_header_eq hv (by decide), read_header_eq hv (by decide)]
    simp only [Option.bind_some]
    have hlt := read_u16_lt page FREE_END_OFFSET
    generalize heap.read_u16 page FREE_END_OFFSET = fe at *
    generalize heap.read_u16 page SLOT_COUNT_OFFSET = count
    rw [Nat.mod_eq_of_lt (show fe - tuple.length < 2 ^ 16 by omega)]
    by_cases hfe : fe ≤ page.length
    · have hin : fe - tuple.length + tuple.length ≤ page.length := by omega
      rw [write_eq hin]
      simp only [Option.bind_some]
      rw [write_slot_eq, length_patch hin]
      by_cases hslot : slot_offset count + 4 ≤ page.length
      · refine ⟨fun _ => ?_, fun h => absurd ⟨hfe, hslot⟩ h⟩
        have hl : (heap.write_slot (patch page (fe - tuple.length) tuple) count
            ⟨fe - tuple.length, tuple.length % 2 ^ 16⟩).length = page.length := by
          rw [length_write_slot _ (by rw [length_patch hin]; exact hslot), length_patch hin]
        rw [if_pos hslot]
        simp only [Option.bind_some]
        generalize heap.write_slot (patch page (fe - tuple.length) tuple) count
            ⟨fe - tuple.length, tuple.length % 2 ^ 16⟩ = p at hl ⊢
        have l1 : ∀ v, (heap.write_u16 p SLOT_COUNT_OFFSET v).length = page.length := fun v =>
          (length_write_u16 (by simp only [SLOT_COUNT_OFFSET]; omega)).trans hl
        have l2 : ∀ v w, (heap.write_u16 (heap.write_u16 p SLOT_COUNT_OFFSET v)
            FREE_START_OFFSET w).length = page.length := fun v w =>
          (length_write_u16 (by rw [l1]; simp only [FREE_START_OFFSET]; omega)).trans (l1 v)
        rw [write_u16_eq (by simp only [SLOT_COUNT_OFFSET]; omega)]
        simp only [Option.bind_some]
        rw [write_u16_eq (by rw [l1]; simp only [FREE_START_OFFSET]; omega)]
        simp only [Option.bind_some]
        rw [write_u16_eq (by rw [l2]; simp only [FREE_END_OFFSET]; omega)]
        rfl
      · rw [if_neg hslot]
        exact ⟨fun h => absurd h.2 hslot, fun _ => rfl⟩
    · refine ⟨fun h => absurd h.1 hfe, fun _ => ?_⟩
      unfold write
      rw [if_neg (by omega)]
      rfl

end Checked

/-- Which calls on a page of any bytes stay inside of it. The counts and the space
are always read inside. A call on a slot stays inside exactly when the slot lies in
the page or is not below the slot count. An insert stays inside exactly when it is
refused, or the free bytes end in the page and the next slot lies in it. -/
theorem page_accesses_stay_inside (page tuple : Bytes) (i size : Nat) :
    Checked.slot_count page = some (slot_count page) ∧
      Checked.free_space page = some (free_space page) ∧
      Checked.can_insert page size = some (can_insert page size) ∧
      Stays (InsertInside page tuple) (Checked.insert_tuple page tuple) (insert_tuple page tuple) ∧
      Stays (SlotInside page i) (Checked.delete_tuple page i) (delete_tuple page i) ∧
      Stays (SlotInside page i) (Checked.overwrite_tuple page i tuple)
        (overwrite_tuple page i tuple) ∧
      Stays (SlotInside page i) (Checked.read_tuple page i) (read_tuple page i) ∧
      Stays (SlotInside page i) (Checked.is_live_slot page i) (is_live_slot page i) :=
  ⟨Checked.slot_count_eq page, Checked.free_space_eq page, Checked.can_insert_eq page size,
    Checked.insert_tuple_stays page tuple, Checked.delete_tuple_stays page i,
    Checked.overwrite_tuple_stays page i tuple, Checked.read_tuple_stays page i,
    Checked.is_live_slot_stays page i⟩

/-- A page of 28 bytes that claims to have one slot and 255 free bytes. -/
def bad_page : Bytes := List.replicate 6 0 ++ [1, 0, 0, 0, 255, 0] ++ List.replicate 16 0

/-- Slot 0 of the bad page and a new tuple are looked for behind its end. -/
theorem bad_page_is_left :
    Checked.read_tuple bad_page 0 = none ∧ Checked.is_live_slot bad_page 0 = none ∧
      Checked.delete_tuple bad_page 0 = none ∧ Checked.overwrite_tuple bad_page 0 [1] = none ∧
      Checked.insert_tuple bad_page [1] = none := by
  decide

end edb.heap
