-- What a heap page holds: a list of slots, each one a tuple or a deleted
-- tuple. An insert adds a slot at the end, a delete empties a slot, and
-- nothing else changes. A page of zeros has no slots and no room.
import Edb.HeapPage

open seq

namespace edb.heap

/-! ## Reads after writes -/

section Access

variable {page : Bytes} {offset o v k : Nat}

theorem length_write_u16 (h : offset + 2 ≤ page.length) :
    (write_u16 page offset v).length = page.length := length_patch (by simpa using h)

theorem read_u16_write_u16 (h : offset + 2 ≤ page.length) :
    read_u16 (write_u16 page offset v) offset = v % 2 ^ 16 := by
  have hs : slice (patch page offset (le.encode 2 v)) offset (le.encode 2 v).length =
      le.encode 2 v := slice_patch_self (by simpa using h)
  rw [le.length_encode] at hs
  unfold read_u16 write_u16
  rw [hs, le.decode_encode]
  rfl

theorem slice_write_u16 (h : offset + 2 ≤ page.length) (hd : o + k ≤ offset ∨ offset + 2 ≤ o) :
    slice (write_u16 page offset v) o k = slice page o k :=
  slice_patch_disjoint (by simpa using h) (by simpa using hd)

theorem read_u16_of_slice {page' : Bytes} (h : slice page' o 2 = slice page o 2) :
    read_u16 page' o = read_u16 page o := by
  unfold read_u16
  rw [h]

theorem read_u16_lt (page : Bytes) (o : Nat) : read_u16 page o < 2 ^ 16 := by
  have h1 := le.decode_lt (slice page o 2)
  have h2 : 256 ^ (slice page o 2).length ≤ 256 ^ 2 :=
    Nat.pow_le_pow_right (by decide) (by simp)
  unfold read_u16
  omega

/-- A slot is written whole, and nothing else. -/
theorem length_write_slot {i : Nat} (slot : Slot) (h : slot_offset i + 4 ≤ page.length) :
    (write_slot page i slot).length = page.length := by
  unfold write_slot
  rw [length_write_u16 (by rw [length_write_u16 (by omega)]; omega), length_write_u16 (by omega)]

theorem slice_write_slot {i : Nat} {slot : Slot} (h : slot_offset i + 4 ≤ page.length)
    (hd : o + k ≤ slot_offset i ∨ slot_offset i + 4 ≤ o) :
    slice (write_slot page i slot) o k = slice page o k := by
  unfold write_slot
  rw [slice_write_u16 (by rw [length_write_u16 (by omega)]; omega) (by omega),
    slice_write_u16 (by omega) (by omega)]

theorem read_write_slot {i : Nat} (slot : Slot) (h : slot_offset i + 4 ≤ page.length) :
    read_u16 (write_slot page i slot) (slot_offset i) = slot.offset % 2 ^ 16 ∧
      read_u16 (write_slot page i slot) (slot_offset i + 2) = slot.len % 2 ^ 16 := by
  unfold write_slot
  constructor
  · rw [read_u16_of_slice
      (slice_write_u16 (by rw [length_write_u16 (by omega)]; omega) (by omega)),
      read_u16_write_u16 (by omega)]
  · rw [read_u16_write_u16 (by rw [length_write_u16 (by omega)]; omega)]

/-- The three fields that an insert writes last. -/
def write_header (page : Bytes) (count start fin : Nat) : Bytes :=
  write_u16 (write_u16 (write_u16 page 6 count) 8 start) 10 fin

section Header

variable {count start fin : Nat}

theorem length_write_header (h : 12 ≤ page.length) :
    (write_header page count start fin).length = page.length := by
  have l1 : (write_u16 page 6 count).length = page.length := length_write_u16 (by omega)
  have l2 : (write_u16 (write_u16 page 6 count) 8 start).length = page.length := by
    rw [length_write_u16 (by omega), l1]
  exact (length_write_u16 (by omega)).trans l2

theorem slice_write_header (h : 12 ≤ page.length) (ho : 12 ≤ o) :
    slice (write_header page count start fin) o k = slice page o k := by
  have l1 : (write_u16 page 6 count).length = page.length := length_write_u16 (by omega)
  have l2 : (write_u16 (write_u16 page 6 count) 8 start).length = page.length := by
    rw [length_write_u16 (by omega), l1]
  have e3 : slice (write_header page count start fin) o k =
      slice (write_u16 (write_u16 page 6 count) 8 start) o k :=
    slice_write_u16 (by omega) (by omega)
  have e2 : slice (write_u16 (write_u16 page 6 count) 8 start) o k =
      slice (write_u16 page 6 count) o k := slice_write_u16 (by omega) (by omega)
  have e1 : slice (write_u16 page 6 count) o k = slice page o k :=
    slice_write_u16 (by omega) (by omega)
  exact e3.trans (e2.trans e1)

theorem read_write_header (page : Bytes) (h : 12 ≤ page.length) (hc : count < 2 ^ 16) (hs : start < 2 ^ 16)
    (hf : fin < 2 ^ 16) :
    read_u16 (write_header page count start fin) SLOT_COUNT_OFFSET = count ∧
      read_u16 (write_header page count start fin) FREE_START_OFFSET = start ∧
      read_u16 (write_header page count start fin) FREE_END_OFFSET = fin := by
  have l1 : (write_u16 page 6 count).length = page.length := length_write_u16 (by omega)
  have l2 : (write_u16 (write_u16 page 6 count) 8 start).length = page.length := by
    rw [length_write_u16 (by omega), l1]
  have e3 : ∀ a, a + 2 ≤ 10 → read_u16 (write_header page count start fin) a =
      read_u16 (write_u16 (write_u16 page 6 count) 8 start) a := fun a ha =>
    read_u16_of_slice (slice_write_u16 (by omega) (Or.inl ha))
  refine ⟨?_, ?_, ?_⟩
  · refine (e3 6 (by omega)).trans ?_
    rw [read_u16_of_slice (slice_write_u16 (by omega) (by omega)),
      read_u16_write_u16 (by omega), Nat.mod_eq_of_lt hc]
  · refine (e3 8 (by omega)).trans ?_
    rw [read_u16_write_u16 (by omega), Nat.mod_eq_of_lt hs]
  · refine (read_u16_write_u16 (by omega)).trans ?_
    rw [Nat.mod_eq_of_lt hf]

end Header

end Access

/-! ## The slots of a page -/

/-- Slot `i` of the page holds the tuple, or it is a deleted one. -/
def SlotIs (page : Bytes) (i : Nat) : Option Bytes → Prop
  | none => read_u16 page (slot_offset i + 2) = 0
  | some tuple => tuple ≠ [] ∧ read_u16 page (slot_offset i + 2) = tuple.length ∧
      read_u16 page FREE_END_OFFSET ≤ read_u16 page (slot_offset i) ∧
      read_u16 page (slot_offset i) + tuple.length ≤ page.length ∧
      slice page (read_u16 page (slot_offset i)) tuple.length = tuple

/-- The bytes between the slots and the tuples. -/
def free (page : Bytes) : Nat :=
  read_u16 page FREE_END_OFFSET - read_u16 page FREE_START_OFFSET

/-- The page holds these slots. Its free bytes lie between the slots and the
tuples, or it is still the page of zeros that the file was extended with. -/
structure Good (page : Bytes) (slots : List (Option Bytes)) : Prop where
  header : PAGE_HEADER_SIZE ≤ page.length
  small : page.length ≤ MAX_U16
  count : read_u16 page SLOT_COUNT_OFFSET = slots.length
  bounds : (read_u16 page FREE_START_OFFSET = slot_offset slots.length ∧
      slot_offset slots.length ≤ read_u16 page FREE_END_OFFSET ∧
      read_u16 page FREE_END_OFFSET ≤ page.length) ∨
    (slots = [] ∧ read_u16 page FREE_START_OFFSET = 0 ∧ read_u16 page FREE_END_OFFSET = 0)
  slot : ∀ i x, slots[i]? = some x → SlotIs page i x

variable {page : Bytes} {slots : List (Option Bytes)}

theorem slot_offset_eq (i : Nat) : slot_offset i = 28 + i * 4 := rfl

/-- The slots end before the page does. -/
theorem Good.slots_fit (h : Good page slots) {i : Nat} (hi : i < slots.length) :
    slot_offset i + 4 ≤ page.length := by
  rcases h.bounds with ⟨-, h1, h2⟩ | ⟨rfl, -⟩
  · rw [slot_offset_eq] at h1 ⊢
    omega
  · simp at hi

theorem Good.validate (h : Good page slots) : validate_page_size page = .ok () := by
  have := h.header
  have := h.small
  unfold validate_page_size
  rw [if_neg (by omega)]

theorem Good.slot_count_eq (h : Good page slots) : slot_count page = .ok slots.length := by
  unfold slot_count
  rw [h.validate, h.count]
  rfl

theorem Good.read_slot_eq (h : Good page slots) (i : Nat) :
    read_slot page i = if i < slots.length then
      .ok { offset := read_u16 page (slot_offset i), len := read_u16 page (slot_offset i + 2) }
    else .error .InvalidArgument := by
  unfold read_slot
  rw [h.slot_count_eq]
  show (if i ≥ slots.length then _ else _) = _
  by_cases hi : i < slots.length
  · rw [if_neg (by omega), if_pos hi]
    rfl
  · rw [if_pos (by omega), if_neg hi]

/-- A page of zeros, as the store adds it to the file. -/
theorem good_zeros {n : Nat} (h1 : PAGE_HEADER_SIZE ≤ n) (h2 : n ≤ MAX_U16) :
    Good (List.replicate n 0) [] ∧ free (List.replicate n 0) = 0 := by
  have hread : ∀ o, o + 2 ≤ n → read_u16 (List.replicate n 0) o = 0 := by
    intro o ho
    unfold read_u16
    rw [slice_replicate _ _ _ _ ho]
    exact le.decode_replicate_zero 2
  have h6 := hread 6 (by simp [PAGE_HEADER_SIZE] at h1; omega)
  have h8 := hread 8 (by simp [PAGE_HEADER_SIZE] at h1; omega)
  have h10 := hread 10 (by simp [PAGE_HEADER_SIZE] at h1; omega)
  refine ⟨⟨by simpa using h1, by simpa using h2, h6, Or.inr ⟨rfl, h8, h10⟩, by simp⟩, ?_⟩
  unfold free FREE_END_OFFSET
  rw [h10]
  exact Nat.zero_sub _

/-! ## Reading a tuple -/

theorem Good.is_live_slot_eq (h : Good page slots) {i : Nat} {x : Option Bytes}
    (hi : slots[i]? = some x) : is_live_slot page i = .ok x.isSome := by
  have hlt : i < slots.length := (List.getElem?_eq_some_iff.mp hi).1
  have hslot := h.slot i x hi
  unfold is_live_slot
  rw [h.read_slot_eq, if_pos hlt]
  cases x with
  | none =>
    show Except.ok (decide (read_u16 page (slot_offset i + 2) ≠ 0)) = _
    rw [show read_u16 page (slot_offset i + 2) = 0 from hslot]
    rfl
  | some tuple =>
    obtain ⟨hne, hlen, -⟩ := hslot
    have hpos : tuple.length ≠ 0 := by simpa using hne
    show Except.ok (decide (read_u16 page (slot_offset i + 2) ≠ 0)) = _
    rw [hlen]
    simp [hpos]

theorem Good.read_tuple_eq (h : Good page slots) {i : Nat} {tuple : Bytes}
    (hi : slots[i]? = some (some tuple)) : read_tuple page i = .ok tuple := by
  have hlt : i < slots.length := (List.getElem?_eq_some_iff.mp hi).1
  obtain ⟨hne, hlen, -, hend, hslice⟩ := h.slot i _ hi
  have hpos : tuple.length ≠ 0 := by simpa using hne
  unfold read_tuple
  rw [h.read_slot_eq, if_pos hlt]
  show (if read_u16 page (slot_offset i + 2) = 0 then _ else _) = _
  rw [hlen, if_neg hpos]
  show (if read_u16 page (slot_offset i) + tuple.length > page.length then _ else _) = _
  rw [if_neg (by omega)]
  show Except.ok _ = _
  rw [hslice]

/-! ## Changing a page -/

/-- The fields of a page that was set up. -/
theorem initialize_page.fields (page : Bytes) (page_id : Nat)
    (h1 : PAGE_HEADER_SIZE ≤ page.length) (h2 : page.length ≤ MAX_U16) :
    ∃ page', initialize_page page page_id = .ok page' ∧ page'.length = page.length ∧
      read_u16 page' SLOT_COUNT_OFFSET = 0 ∧ read_u16 page' FREE_START_OFFSET = PAGE_HEADER_SIZE ∧
      read_u16 page' FREE_END_OFFSET = page.length := by
  obtain ⟨n, hn⟩ : ∃ n, page.length = n := ⟨_, rfl⟩
  rw [hn] at h1 h2 ⊢
  have hhead : 28 ≤ n := h1
  have hmax : n ≤ 65535 := h2
  have hvalid : validate_page_size page = .ok () := by
    unfold validate_page_size
    rw [hn, if_neg (by omega)]
  -- the three fields are written over a page of zeros, and the page id after them
  obtain ⟨p2, hp2⟩ : ∃ p2, p2 = write_u16 (write_u32_zero (List.replicate n 0) CHECKSUM_OFFSET)
    FLAGS_OFFSET 0 := ⟨_, rfl⟩
  have l1 : (write_u32_zero (List.replicate n 0) CHECKSUM_OFFSET).length = n := by
    refine (length_patch ?_).trans List.length_replicate
    simp only [CHECKSUM_OFFSET, List.length_replicate]
    omega
  have l2 : p2.length = n := by
    rw [hp2]
    exact (length_write_u16 (by rw [l1]; simp only [FLAGS_OFFSET]; omega)).trans l1
  have l5 : (write_header p2 0 28 n).length = n := (length_write_header (by omega)).trans l2
  obtain ⟨r6, r8, r10⟩ := read_write_header p2 (by omega)
    (show 0 < 2 ^ 16 by omega) (show 28 < 2 ^ 16 by omega) (show n < 2 ^ 16 by omega)
  have hid : 12 + (le.encode 8 page_id).length ≤ (write_header p2 0 28 n).length := by
    rw [le.length_encode, l5]
    omega
  obtain ⟨p6, hp6⟩ : ∃ p6, p6 = patch (write_header p2 0 28 n) 12 (le.encode 8 page_id) :=
    ⟨_, rfl⟩
  have l6 : p6.length = n := by rw [hp6, length_patch hid, l5]
  have hkeep : ∀ o, o + 2 ≤ 12 → read_u16 p6 o = read_u16 (write_header p2 0 28 n) o := by
    intro o ho
    rw [hp6]
    exact read_u16_of_slice (slice_patch_disjoint hid (Or.inl ho))
  have r6' : read_u16 p6 SLOT_COUNT_OFFSET = 0 := (hkeep 6 (by omega)).trans r6
  have r8' : read_u16 p6 FREE_START_OFFSET = 28 := (hkeep 8 (by omega)).trans r8
  have r10' : read_u16 p6 FREE_END_OFFSET = n := (hkeep 10 (by omega)).trans r10
  refine ⟨p6, ?_, l6, r6', r8', r10'⟩
  have hlen : (write_u16 (write_u16 p2 SLOT_COUNT_OFFSET 0) FREE_START_OFFSET
      PAGE_HEADER_SIZE).length = n := by
    rw [length_write_u16, length_write_u16, l2]
    all_goals simp only [SLOT_COUNT_OFFSET, FREE_START_OFFSET]
    · omega
    · rw [length_write_u16 (by omega)]
      omega
  unfold initialize_page
  rw [hvalid, hn]
  show Except.ok (write_u64 (write_u16 (write_u16 (write_u16 (write_u16 (write_u32_zero
    (List.replicate n 0) CHECKSUM_OFFSET) FLAGS_OFFSET 0) SLOT_COUNT_OFFSET 0)
    FREE_START_OFFSET PAGE_HEADER_SIZE) FREE_END_OFFSET _) PAGE_ID_OFFSET page_id) = _
  rw [← hp2, hlen, hp6]
  rfl

theorem initialize_page.spec (page : Bytes) (page_id : Nat) (h1 : PAGE_HEADER_SIZE ≤ page.length)
    (h2 : page.length ≤ MAX_U16) :
    ∃ page', initialize_page page page_id = .ok page' ∧ page'.length = page.length ∧
      Good page' [] ∧ free page' = page.length - PAGE_HEADER_SIZE := by
  obtain ⟨page', hrun, hlen, r6, r8, r10⟩ := initialize_page.fields page page_id h1 h2
  refine ⟨page', hrun, hlen, ⟨by rw [hlen]; exact h1, by rw [hlen]; exact h2, r6,
    Or.inl ⟨r8, by rw [r10]; exact h1, by rw [r10, hlen]⟩, by simp⟩, ?_⟩
  unfold free
  rw [r10, r8]

theorem Good.free_space_eq (h : Good page slots) : free_space page = .ok (free page) := by
  have hle : ¬ read_u16 page FREE_END_OFFSET < read_u16 page FREE_START_OFFSET := by
    rcases h.bounds with ⟨h1, h2, -⟩ | ⟨-, h1, h2⟩ <;> omega
  unfold free_space
  rw [h.validate]
  show (if read_u16 page FREE_END_OFFSET < read_u16 page FREE_START_OFFSET then _ else _) = _
  rw [if_neg hle]
  rfl

theorem Good.can_insert_eq (h : Good page slots) (size : Nat) :
    can_insert page size = .ok (decide (size + SLOT_SIZE ≤ free page)) := by
  have hfree : free page < 2 ^ 16 :=
    Nat.lt_of_le_of_lt (Nat.sub_le _ _) (read_u16_lt page FREE_END_OFFSET)
  unfold can_insert fits_u16
  by_cases hsize : size ≤ MAX_U16
  · rw [if_neg (by simp [hsize]), h.free_space_eq]
    rfl
  · have hno : ¬ size + SLOT_SIZE ≤ free page := by
      simp only [MAX_U16, SLOT_SIZE] at hsize ⊢
      omega
    rw [if_pos (by simp [hsize]), decide_eq_false hno]

/-! ## The page with one more tuple -/

/-- The page with `tuple` at `o` and in slot `c`, its last one. -/
def with_tuple (page : Bytes) (c o : Nat) (tuple : Bytes) : Bytes :=
  write_header (write_slot (patch page o tuple) c { offset := o, len := tuple.length })
    (c + 1) (slot_offset (c + 1)) o

section WithTuple

variable {tuple : Bytes} {c o : Nat}

theorem length_with_slot (hs : slot_offset (c + 1) ≤ o) (ht : o + tuple.length ≤ page.length) :
    (write_slot (patch page o tuple) c { offset := o, len := tuple.length }).length =
      page.length := by
  simp only [slot_offset_eq] at hs
  rw [length_write_slot _ (by rw [length_patch ht, slot_offset_eq]; omega), length_patch ht]

theorem length_with_tuple (hs : slot_offset (c + 1) ≤ o)
    (ht : o + tuple.length ≤ page.length) :
    (with_tuple page c o tuple).length = page.length := by
  have hl := length_with_slot hs ht
  simp only [slot_offset_eq] at hs
  exact (length_write_header (by omega)).trans hl

theorem slice_with_tuple (hs : slot_offset (c + 1) ≤ o) (ht : o + tuple.length ≤ page.length)
    {a k : Nat} (ha : 12 ≤ a) (hslot : a + k ≤ slot_offset c ∨ slot_offset c + 4 ≤ a)
    (htup : a + k ≤ o ∨ o + tuple.length ≤ a) :
    slice (with_tuple page c o tuple) a k = slice page a k := by
  have hl := length_with_slot hs ht
  simp only [slot_offset_eq] at hs hslot
  unfold with_tuple
  rw [slice_write_header (by omega) ha,
    slice_write_slot (by rw [length_patch ht, slot_offset_eq]; omega) hslot,
    slice_patch_disjoint ht htup]

/-- The new slot holds the tuple. -/
theorem slotIs_with_tuple (hne : tuple ≠ []) (hs : slot_offset (c + 1) ≤ o)
    (ht : o + tuple.length ≤ page.length) (hmax : page.length < 2 ^ 16)
    (hend : read_u16 (with_tuple page c o tuple) FREE_END_OFFSET = o) :
    SlotIs (with_tuple page c o tuple) c (some tuple) := by
  have hl := length_with_slot hs ht
  have hlen := length_with_tuple hs ht
  simp only [slot_offset_eq] at hs
  have hfit : slot_offset c + 4 ≤ (patch page o tuple).length := by
    rw [length_patch ht, slot_offset_eq]; omega
  have hread : ∀ a, 12 ≤ a → read_u16 (with_tuple page c o tuple) a =
      read_u16 (write_slot (patch page o tuple) c { offset := o, len := tuple.length }) a :=
    fun a ha => read_u16_of_slice (slice_write_header (by omega) ha)
  obtain ⟨h1, h2⟩ := read_write_slot { offset := o, len := tuple.length } hfit
  rw [← hread _ (by rw [slot_offset_eq]; omega)] at h1 h2
  rw [Nat.mod_eq_of_lt (by simp only; omega)] at h1 h2
  refine ⟨hne, h2, by rw [hend, h1], by rw [h1, hlen]; exact ht, ?_⟩
  rw [h1]
  unfold with_tuple
  simp only
  rw [slice_write_header (by omega) (by omega),
    slice_write_slot hfit (by rw [slot_offset_eq]; omega)]
  exact slice_patch_self ht

end WithTuple

/-- A slot of the page is one of the page with changes elsewhere. -/
theorem SlotIs.of_slices {page' : Bytes} {i : Nat} {x : Option Bytes} (h : SlotIs page i x)
    (hl : page'.length = page.length)
    (hslot : ∀ a, slot_offset i ≤ a → a + 2 ≤ slot_offset i + 4 →
      read_u16 page' a = read_u16 page a)
    (hend : read_u16 page' FREE_END_OFFSET ≤ read_u16 page FREE_END_OFFSET)
    (htup : ∀ a k, read_u16 page FREE_END_OFFSET ≤ a → slice page' a k = slice page a k) :
    SlotIs page' i x := by
  have h1 := hslot (slot_offset i) (by omega) (by omega)
  have h2 := hslot (slot_offset i + 2) (by omega) (by omega)
  cases x with
  | none => exact h2.trans h
  | some t =>
    obtain ⟨hne, hlen, hge, hfin, hsl⟩ := h
    exact ⟨hne, h2.trans hlen, by rw [h1]; omega, by rw [h1, hl]; exact hfin,
      by rw [h1, htup _ _ hge]; exact hsl⟩

/-- A page with room is not the page of zeros, and the new slot and the new tuple
do not meet. -/
theorem Good.room {n : Nat} (h : Good page slots) (hroom : n + SLOT_SIZE ≤ free page) :
    read_u16 page FREE_START_OFFSET = slot_offset slots.length ∧
      n + slot_offset (slots.length + 1) ≤ read_u16 page FREE_END_OFFSET ∧
      read_u16 page FREE_END_OFFSET ≤ page.length := by
  unfold free SLOT_SIZE at hroom
  rcases h.bounds with ⟨h1, -, h3⟩ | ⟨-, h1, h2⟩
  · rw [h1] at hroom
    refine ⟨h1, ?_, h3⟩
    simp only [slot_offset_eq] at hroom ⊢
    omega
  · omega

/-- The tuple goes right below the tuples that are there. -/
theorem Good.insert_tuple_run {tuple : Bytes} (h : Good page slots)
    (hroom : tuple.length + SLOT_SIZE ≤ free page) :
    insert_tuple page tuple = .ok (slots.length, with_tuple page slots.length
      (read_u16 page FREE_END_OFFSET - tuple.length) tuple) := by
  obtain ⟨-, hgap, hend⟩ := h.room hroom
  have hmax : page.length ≤ 65535 := h.small
  simp only [slot_offset_eq] at hgap
  unfold insert_tuple
  rw [h.can_insert_eq, decide_eq_true hroom]
  show Except.ok _ = _
  rw [h.count,
    Nat.mod_eq_of_lt (show read_u16 page FREE_END_OFFSET - tuple.length < 2 ^ 16 by omega),
    Nat.mod_eq_of_lt (show tuple.length < 2 ^ 16 by omega),
    Nat.mod_eq_of_lt (show slots.length + 1 < 2 ^ 16 by omega),
    Nat.mod_eq_of_lt (show PAGE_HEADER_SIZE + (slots.length + 1) * SLOT_SIZE < 2 ^ 16 by
      simp only [PAGE_HEADER_SIZE, SLOT_SIZE]; omega)]
  rfl

/-- A tuple that the page has room for becomes its last slot. -/
theorem Good.insert_tuple_eq {tuple : Bytes} (h : Good page slots) (hne : tuple ≠ [])
    (hroom : tuple.length + SLOT_SIZE ≤ free page) :
    ∃ page', insert_tuple page tuple = .ok (slots.length, page') ∧
      page'.length = page.length ∧ Good page' (slots ++ [some tuple]) ∧
      free page' + tuple.length + SLOT_SIZE = free page := by
  obtain ⟨c, hc⟩ : ∃ c, slots.length = c := ⟨_, rfl⟩
  obtain ⟨fe, hfe⟩ : ∃ fe, read_u16 page FREE_END_OFFSET = fe := ⟨_, rfl⟩
  have hmax : page.length ≤ 65535 := h.small
  obtain ⟨hstart, hgap, hfele⟩ := h.room hroom
  have hrun := h.insert_tuple_run hroom
  rw [hfe, hc] at hgap hrun
  rw [hc] at hstart
  rw [hfe] at hfele
  obtain ⟨o, ho⟩ : ∃ o, fe - tuple.length = o := ⟨_, rfl⟩
  rw [ho] at hrun
  have hs : slot_offset (c + 1) ≤ o := by omega
  have ht : o + tuple.length ≤ page.length := by omega
  have hl := length_with_slot hs ht
  have hlen := length_with_tuple hs ht
  have hso : slot_offset (c + 1) = 28 + (c + 1) * 4 := rfl
  obtain ⟨r6, r8, r10⟩ := read_write_header
    (write_slot (patch page o tuple) c { offset := o, len := tuple.length }) (by omega)
    (show c + 1 < 2 ^ 16 by omega) (show slot_offset (c + 1) < 2 ^ 16 by omega)
    (show o < 2 ^ 16 by omega)
  refine ⟨with_tuple page c o tuple, hc ▸ hrun, hlen, ⟨by rw [hlen]; exact h.header,
    by rw [hlen]; exact h.small, ?_, Or.inl ⟨?_, ?_, ?_⟩, ?_⟩, ?_⟩
  · simp only [List.length_append, List.length_singleton, hc]
    exact r6
  · simp only [List.length_append, List.length_singleton, hc]
    exact r8
  · simp only [List.length_append, List.length_singleton, hc]
    exact hs.trans (Nat.le_of_eq r10.symm)
  · exact (Nat.le_of_eq r10).trans (by omega)
  · intro i x hx
    by_cases hi : i < slots.length
    · rw [List.getElem?_append_left hi] at hx
      have hio : slot_offset i + 4 ≤ slot_offset c := by simp only [slot_offset_eq]; omega
      have hi0 : 28 ≤ slot_offset i := by simp only [slot_offset_eq]; omega
      have hcs : slot_offset c + 4 = slot_offset (c + 1) := by simp only [slot_offset_eq]; omega
      refine (h.slot i x hx).of_slices hlen ?_ ((Nat.le_of_eq r10).trans (by omega)) ?_
      · intro a h1 h2
        exact read_u16_of_slice (slice_with_tuple hs ht (by omega) (by omega) (by omega))
      · intro a k ha
        exact slice_with_tuple hs ht (by omega) (by omega) (by omega)
    · have hic : i = c := by
        have := (List.getElem?_eq_some_iff.mp hx).1
        simp at this
        omega
      subst hic
      rw [List.getElem?_append_right (by omega), hc, Nat.sub_self] at hx
      cases hx
      exact slotIs_with_tuple hne hs ht (by omega) r10
  · have hfree : free (with_tuple page c o tuple) = o - slot_offset (c + 1) := by
      unfold free with_tuple
      rw [r10, r8]
    rw [hfree]
    unfold free
    rw [hstart, hfe]
    simp only [SLOT_SIZE, slot_offset_eq] at hs ⊢
    omega

/-! ## The page with one tuple less -/

/-- A live tuple is deleted, and everything else that is asked for is refused. -/
theorem Good.delete_tuple_eq (h : Good page slots) (i : Nat) :
    match slots[i]? with
    | none => delete_tuple page i = .error .InvalidArgument
    | some none => delete_tuple page i = .error .NotFound
    | some (some _) => ∃ page', delete_tuple page i = .ok page' ∧
        page'.length = page.length ∧ Good page' (slots.set i none) ∧ free page' = free page := by
  rcases hx : slots[i]? with _ | x
  · have hi : ¬ i < slots.length := by simpa using hx
    simp only
    unfold delete_tuple
    rw [h.read_slot_eq, if_neg hi]
    rfl
  · have hi : i < slots.length := (List.getElem?_eq_some_iff.mp hx).1
    have hslot := h.slot i x hx
    have hfit := h.slots_fit hi
    have hrun : delete_tuple page i =
        if read_u16 page (slot_offset i + 2) = 0 then .error .NotFound
        else .ok (write_slot page i { offset := 0, len := 0 }) := by
      unfold delete_tuple
      rw [h.read_slot_eq, if_pos hi]
      rfl
    cases x with
    | none =>
      simp only
      rw [hrun]
      exact if_pos hslot
    | some t =>
      obtain ⟨hne, hlen, -⟩ := hslot
      have hpos : read_u16 page (slot_offset i + 2) ≠ 0 := by
        rw [hlen]
        simpa using hne
      simp only
      rw [hrun, if_neg hpos]
      have hl := length_write_slot { offset := 0, len := 0 } hfit
      have hread : ∀ a, a + 2 ≤ slot_offset i ∨ slot_offset i + 4 ≤ a →
          read_u16 (write_slot page i { offset := 0, len := 0 }) a = read_u16 page a :=
        fun a ha => read_u16_of_slice (slice_write_slot hfit ha)
      have h28 : 28 ≤ slot_offset i := by rw [slot_offset_eq]; omega
      have r6 := hread SLOT_COUNT_OFFSET (by simp only [SLOT_COUNT_OFFSET]; omega)
      have r8 := hread FREE_START_OFFSET (by simp only [FREE_START_OFFSET]; omega)
      have r10 := hread FREE_END_OFFSET (by simp only [FREE_END_OFFSET]; omega)
      have hbounds : slot_offset slots.length ≤ read_u16 page FREE_END_OFFSET := by
        rcases h.bounds with ⟨-, h2, -⟩ | ⟨rfl, -⟩
        · exact h2
        · simp at hi
      refine ⟨_, rfl, hl, ⟨by rw [hl]; exact h.header, by rw [hl]; exact h.small, ?_, ?_, ?_⟩, ?_⟩
      · rw [r6, List.length_set]
        exact h.count
      · rw [r8, r10, hl, List.length_set]
        rcases h.bounds with hb | ⟨rfl, -⟩
        · exact Or.inl hb
        · simp at hi
      · intro j y hy
        by_cases hj : i = j
        · subst hj
          rw [List.getElem?_set_self hi] at hy
          cases hy
          exact (read_write_slot _ hfit).2
        · rw [List.getElem?_set_ne hj] at hy
          have hjl : j < slots.length := (List.getElem?_eq_some_iff.mp hy).1
          refine (h.slot j y hy).of_slices hl ?_ (Nat.le_of_eq r10) ?_
          · intro a h1 h2
            apply hread a
            simp only [slot_offset_eq] at h1 h2 ⊢
            omega
          · intro a k ha
            apply slice_write_slot hfit
            simp only [slot_offset_eq] at hbounds ⊢
            omega
      · unfold free
        rw [r8, r10]

end edb.heap
