-- The page store (src/storage/page/page_store.cpp): pages of one size, laid
-- one after the other in the file of a backend. The specs say what each call
-- does to the array of pages that the file holds.
import Mathlib.Tactic.Ring
import Edb.StorageIO

open seq

namespace edb

open Call StorageIO

/-- `io` says whether the pointer to the backend is set. -/
structure PageStore where
  io : Bool := false
  page_size : Nat := 8192
  deriving DecidableEq, Repr

def PageStore.open (page_size : Nat) : PageStore := { io := true, page_size }

namespace PageStore

/-- The largest `std::uint64_t`. -/
def u64_max : Nat := 2 ^ 64 - 1

def close (store : PageStore) : PageStore := { store with io := false }

def check_open (store : PageStore) : Call Error StorageIO Unit :=
  if store.io then pure () else .fail .IoError

def byte_size_for_page_count (store : PageStore) (count : Nat) : Result Nat :=
  if count > u64_max / store.page_size then .error .Overflow
  else .ok (count * store.page_size % 2 ^ 64)

def byte_offset_for_page (store : PageStore) (page_id : Nat) : Result Nat :=
  store.byte_size_for_page_count page_id

def page_count (store : PageStore) : Call Error StorageIO Nat := do
  store.check_open
  let size ← StorageIO.file_size
  if size % store.page_size ≠ 0 then .fail .Corruption
  else pure (size / store.page_size)

def validate_existing_page (store : PageStore) (page_id : Nat) : Call Error StorageIO Unit := do
  store.check_open
  let count ← store.page_count
  if page_id ≥ count then .fail .PageNotFound else pure ()

/-- A call on the backend alone, next to a buffer. -/
def beside_buf {α : Type} (x : Call Error StorageIO α) : Call Error Buffered α :=
  x.zoom Prod.fst fun io s => (io, s.2)

/-- Reads a page into the front of the buffer of the state. -/
def read_page (store : PageStore) (page_id : Nat) : Call Error Buffered Unit := do
  beside_buf (store.validate_existing_page page_id)
  let offset ← Call.ofExcept (store.byte_offset_for_page page_id)
  let count ← Call.zoom (fun s => (s.1, s.2.take store.page_size))
    (fun t s => (t.1, t.2 ++ s.2.drop store.page_size)) <| StorageIO.read offset
  if count ≠ store.page_size then .fail .PageNotFound else pure ()

def write_page (store : PageStore) (page_id : Nat) (buf : Bytes) :
    Call Error StorageIO Unit := do
  store.validate_existing_page page_id
  let offset ← Call.ofExcept (store.byte_offset_for_page page_id)
  let count ← StorageIO.write offset (buf.take store.page_size)
  if count ≠ store.page_size then .fail .IoError else pure ()

def allocate_page (store : PageStore) : Call Error StorageIO Nat := do
  store.check_open
  let current_count ← store.page_count
  let new_count := (current_count + 1) % 2 ^ 64
  let new_size ← Call.ofExcept (store.byte_size_for_page_count new_count)
  StorageIO.truncate new_size
  pure current_count

def sync (store : PageStore) : Call Error StorageIO Unit := do
  store.check_open
  StorageIO.sync

/-! ## The pages of a file -/

/-- The store is open, and the file is a whole number of its pages. -/
structure Laid (store : PageStore) (io : StorageIO) : Prop where
  is_open : store.io = true
  pos : 0 < store.page_size
  whole : store.page_size ∣ io.bytes.length
  fits : io.bytes.length < 2 ^ 64

/-- The number of pages in the file. -/
def pages (store : PageStore) (io : StorageIO) : Nat := io.bytes.length / store.page_size

/-- The bytes of page `p` in the file. -/
def page (store : PageStore) (io : StorageIO) (p : Nat) : Bytes :=
  slice io.bytes (p * store.page_size) store.page_size

variable {store : PageStore} {io : StorageIO} {p : Nat}

theorem Laid.length_eq (h : Laid store io) :
    io.bytes.length = store.pages io * store.page_size :=
  (Nat.div_mul_cancel h.whole).symm

theorem Laid.page_end_le (h : Laid store io) (hp : p < store.pages io) :
    p * store.page_size + store.page_size ≤ io.bytes.length := by
  rw [h.length_eq, ← Nat.succ_mul]
  exact Nat.mul_le_mul_right _ hp

theorem Laid.length_page (h : Laid store io) (hp : p < store.pages io) :
    (store.page io p).length = store.page_size :=
  length_slice_of_le (h.page_end_le hp)

/-- The layout depends on the length of the file only. -/
theorem Laid.of_length {io' : StorageIO} (h : Laid store io)
    (hl : io'.bytes.length = io.bytes.length) : Laid store io' :=
  ⟨h.is_open, h.pos, hl ▸ h.whole, hl ▸ h.fits⟩

theorem pages_of_length {io' : StorageIO} (hl : io'.bytes.length = io.bytes.length) :
    store.pages io' = store.pages io := by
  unfold pages; rw [hl]

/-- Two pages do not share a byte. -/
theorem page_ranges_disjoint {q : Nat} (ps : Nat) (h : p ≠ q) :
    q * ps + ps ≤ p * ps ∨ p * ps + ps ≤ q * ps := by
  rcases Nat.lt_or_gt_of_ne h with h | h
  · right; rw [← Nat.succ_mul]; exact Nat.mul_le_mul_right _ h
  · left; rw [← Nat.succ_mul]; exact Nat.mul_le_mul_right _ h

/-! ## The specs -/

/-- The check before the product leaves nothing for it to wrap. -/
theorem byte_size_for_page_count_eq (store : PageStore) (count : Nat) :
    store.byte_size_for_page_count count =
      if count > u64_max / store.page_size then .error .Overflow
      else .ok (count * store.page_size) := by
  unfold byte_size_for_page_count
  split
  · rfl
  · rename_i h
    have hle : count * store.page_size ≤ u64_max := Nat.mul_le_of_le_div _ _ _ (by omega)
    have hlt : count * store.page_size < 2 ^ 64 := by
      unfold u64_max at hle
      omega
    rw [Nat.mod_eq_of_lt hlt]

theorem page_count_run (h : Laid store io) (hz : io.faults.file_size = []) :
    store.page_count.run io = (.ok (store.pages io), io) := by
  have hmod : io.bytes.length % store.page_size = 0 := Nat.mod_eq_zero_of_dvd h.whole
  unfold page_count check_open
  rw [if_pos h.is_open, run_bind_ok _ (run_pure _ _),
    run_bind_ok _ (file_size_run hz), if_neg (by simp [hmod])]
  rfl

theorem validate_existing_page_run (h : Laid store io) (hz : io.faults.file_size = []) (p : Nat) :
    (store.validate_existing_page p).run io =
      if p < store.pages io then (.ok (), io) else (.error .PageNotFound, io) := by
  unfold validate_existing_page check_open
  rw [if_pos h.is_open, run_bind_ok _ (run_pure _ _),
    run_bind_ok _ (page_count_run h hz)]
  by_cases hp : p < store.pages io
  · rw [if_neg (by omega), if_pos hp]; rfl
  · rw [if_pos (by omega), if_neg hp]; rfl

theorem byte_offset_of_page (h : Laid store io) (hp : p < store.pages io) :
    store.byte_offset_for_page p = .ok (p * store.page_size) := by
  have h1 := h.page_end_le hp
  have h2 := h.fits
  have hle : p ≤ u64_max / store.page_size := by
    rw [Nat.le_div_iff_mul_le h.pos]
    unfold u64_max
    omega
  unfold byte_offset_for_page
  rw [byte_size_for_page_count_eq, if_neg (by omega)]

/-- A read of a page puts its bytes at the front of the buffer, and a read past
the last page fails. -/
theorem read_page_run_front {buf : Bytes} (h : Laid store io) (hz : io.ReadsWell)
    (hbuf : store.page_size ≤ buf.length) (p : Nat) :
    (store.read_page p).run (io, buf) =
      if p < store.pages io then (.ok (), (io, store.page io p ++ buf.drop store.page_size))
      else (.error .PageNotFound, (io, buf)) := by
  have hv := validate_existing_page_run h hz.file_size p
  have hb : ∀ r, (store.validate_existing_page p).run io = (r, io) →
      (beside_buf (store.validate_existing_page p)).run (io, buf) = (r, (io, buf)) := by
    intro r hr
    unfold beside_buf
    rw [run_zoom, hr]
  unfold read_page
  by_cases hp : p < store.pages io
  · rw [if_pos hp] at hv ⊢
    have hfront : (buf.take store.page_size).length = store.page_size := by
      rw [List.length_take]
      omega
    have hin : p * store.page_size + (buf.take store.page_size).length ≤ io.bytes.length := by
      rw [hfront]; exact h.page_end_le hp
    rw [run_bind_ok _ (hb _ hv)]
    rw [run_bind_ok _ (by rw [run_ofExcept, byte_offset_of_page h hp])]
    have hread := StorageIO.read_run hz.read hin
    rw [run_bind, run_zoom]
    simp only [hread, hfront, ne_eq, not_true, if_false]
    rfl
  · rw [if_neg hp] at hv ⊢
    rw [run_bind_error _ (hb _ hv)]

theorem read_page_run {buf : Bytes} (h : Laid store io) (hz : io.ReadsWell)
    (hbuf : buf.length = store.page_size) (p : Nat) :
    (store.read_page p).run (io, buf) =
      if p < store.pages io then (.ok (), (io, store.page io p))
      else (.error .PageNotFound, (io, buf)) := by
  rw [read_page_run_front h hz (by omega), List.drop_eq_nil_of_le (by omega), List.append_nil]

/-- The file after a write of a part of page `p`. -/
def with_page (store : PageStore) (io : StorageIO) (p : Nat) (data : Bytes) : StorageIO :=
  { io with bytes := patch io.bytes (p * store.page_size) data }

theorem Laid.length_with_page {data : Bytes} (h : Laid store io) (hp : p < store.pages io)
    (hd : data.length ≤ store.page_size) :
    (store.with_page io p data).bytes.length = io.bytes.length :=
  length_patch (by have := h.page_end_le hp; omega)

theorem Laid.page_with_page_self {data : Bytes} (h : Laid store io) (hp : p < store.pages io)
    (hd : data.length = store.page_size) : store.page (store.with_page io p data) p = data := by
  unfold page with_page
  rw [← hd]
  exact slice_patch_self (by rw [hd]; exact h.page_end_le hp)

/-- A write to page `p` changes no other page. -/
theorem Laid.page_with_page_ne {data : Bytes} {q : Nat} (h : Laid store io)
    (hp : p < store.pages io) (hd : data.length ≤ store.page_size) (hq : q ≠ p) :
    store.page (store.with_page io p data) q = store.page io q := by
  have := h.page_end_le hp
  unfold page with_page
  apply slice_patch_disjoint (by omega)
  rcases page_ranges_disjoint store.page_size hq with hr | hr
  · right; omega
  · left; omega

/-- The backend with the fault of its next write used up. -/
def written (io : StorageIO) : StorageIO :=
  { io with faults.write := io.faults.write.tail }

/-- A write of a page stores it, fails with a part of it stored, or is past
the last page. Which one it is depends on the next write fault alone. -/
theorem write_page.spec {buf : Bytes} (h : Laid store io) (hz : io.faults.file_size = [])
    (hbuf : buf.length = store.page_size) (p : Nat) :
    (store.write_page p buf).wp
      (fun _ io' => p < store.pages io ∧
        Fault.lets store.page_size io.faults.write.head? = true ∧
        io' = store.with_page (written io) p buf)
      (fun e io' => (e = .PageNotFound ∧ store.pages io ≤ p ∧ io' = io) ∨
        (e = .IoError ∧ p < store.pages io ∧
          Fault.lets store.page_size io.faults.write.head? = false ∧
          ∃ part, part.length ≤ store.page_size ∧
            io' = store.with_page (written io) p part)) io := by
  have hv := validate_existing_page_run h hz p
  unfold write_page
  by_cases hp : p < store.pages io
  · rw [if_pos hp] at hv
    have hend := h.page_end_le hp
    rw [wp_bind]
    refine wp_of_run_ok hv ?_
    rw [wp_bind]
    refine wp_of_run_ok (by rw [run_ofExcept, byte_offset_of_page h hp]) ?_
    rw [List.take_of_length_le (by omega)]
    have hstore : ∀ data : Bytes, data.length ≤ store.page_size →
        (written io).store (p * store.page_size) data = store.with_page (written io) p data := by
      intro data hd
      have hle : p * store.page_size + data.length ≤ (written io).bytes.length :=
        Nat.le_trans (Nat.add_le_add_left hd _) hend
      unfold StorageIO.store with_page
      rw [extend_of_le hle]
    have hpart : ∀ n, (buf.take n).length ≤ store.page_size := by
      intro n; simp; omega
    have hwhole := hstore buf (by omega)
    have hrun : (write (p * store.page_size) buf).run io =
        StorageIO.write (p * store.page_size) buf io := rfl
    unfold StorageIO.write at hrun
    rw [wp_bind]
    rcases hf : io.faults.write.head? with _ | f
    · rw [hf] at hrun
      refine wp_of_run_ok hrun ?_
      rw [if_neg (by simp [hbuf]), wp_pure]
      exact ⟨hp, rfl, hwhole⟩
    · rw [hf] at hrun
      cases f with
      | none =>
        refine wp_of_run_ok hrun ?_
        rw [if_neg (by simp [hbuf]), wp_pure]
        exact ⟨hp, rfl, hwhole⟩
      | fail n =>
        refine wp_of_run_error hrun ?_
        exact Or.inr ⟨rfl, hp, rfl, _, hpart n, hstore _ (hpart n)⟩
      | short n =>
        refine wp_of_run_ok hrun ?_
        by_cases hn : store.page_size ≤ n
        · -- a short write of a whole page has stored all of it
          rw [List.take_of_length_le (by omega), if_neg (by simp [hbuf]), wp_pure]
          exact ⟨hp, by simp [Fault.lets, hn], hwhole⟩
        · rw [if_pos (by simp; omega), wp_fail]
          exact Or.inr ⟨rfl, hp, by simp [Fault.lets, hn], _, hpart n, hstore _ (hpart n)⟩
  · rw [if_neg hp] at hv
    rw [wp_bind]
    refine wp_of_run_error hv ?_
    exact Or.inl ⟨rfl, by omega, rfl⟩

theorem after_with_page {data : Bytes} : io.After (store.with_page (written io) p data) :=
  ⟨1, 0, by simp [with_page, written]⟩

/-- The file with one more page of zeros at the end. -/
def with_new_page (store : PageStore) (io : StorageIO) : StorageIO :=
  { io with bytes := io.bytes ++ List.replicate store.page_size 0 }

theorem Laid.length_with_new_page (h : Laid store io) :
    (store.with_new_page io).bytes.length = (store.pages io + 1) * store.page_size := by
  simp only [with_new_page, List.length_append, List.length_replicate, h.length_eq, Nat.succ_mul]

theorem Laid.pages_with_new_page (h : Laid store io) :
    store.pages (store.with_new_page io) = store.pages io + 1 := by
  unfold pages
  rw [h.length_with_new_page, Nat.mul_div_cancel _ h.pos]
  rfl

theorem Laid.page_with_new_page (h : Laid store io) (hp : p < store.pages io) :
    store.page (store.with_new_page io) p = store.page io p :=
  slice_append_left (h.page_end_le hp)

theorem Laid.page_with_new_page_last (h : Laid store io) :
    store.page (store.with_new_page io) (store.pages io) = List.replicate store.page_size 0 := by
  unfold page with_new_page
  rw [← h.length_eq, slice_append_right (Nat.le_refl _), Nat.sub_self]
  exact slice_full (by simp)

theorem Laid.with_new_page (h : Laid store io)
    (hroom : (store.pages io + 1) * store.page_size < 2 ^ 64) :
    Laid store (store.with_new_page io) :=
  ⟨h.is_open, h.pos, h.length_with_new_page ▸ Nat.dvd_mul_left _ _,
    h.length_with_new_page ▸ hroom⟩

/-- A new page takes the next id and is zero, while its bytes can be counted in
a `u64`. The new count itself must not wrap: with pages of one byte it can. -/
theorem allocate_page_run (h : Laid store io) (hz : io.ReadsWell)
    (hwrap : store.pages io + 1 < 2 ^ 64) :
    store.allocate_page.run io =
      if (store.pages io + 1) * store.page_size < 2 ^ 64 then
        (.ok (store.pages io), store.with_new_page io)
      else (.error .Overflow, io) := by
  have hcount := page_count_run h hz.file_size
  have hlen := h.length_eq
  have hpos := h.pos
  have hsucc : (store.pages io + 1) * store.page_size = io.bytes.length + store.page_size := by
    rw [Nat.succ_mul, ← hlen]
  unfold allocate_page check_open
  rw [if_pos h.is_open, run_bind_ok _ (run_pure _ _), run_bind_ok _ hcount]
  have hle_iff : store.pages io + 1 ≤ u64_max / store.page_size ↔
      (store.pages io + 1) * store.page_size < 2 ^ 64 := by
    rw [Nat.le_div_iff_mul_le hpos]
    unfold u64_max
    omega
  have hmod : (store.pages io + 1) % 2 ^ 64 = store.pages io + 1 := Nat.mod_eq_of_lt hwrap
  by_cases hroom : (store.pages io + 1) * store.page_size < 2 ^ 64
  · rw [if_pos hroom]
    have hsize : store.byte_size_for_page_count (store.pages io + 1) =
        .ok (io.bytes.length + store.page_size) := by
      rw [byte_size_for_page_count_eq, if_neg (by have := hle_iff.mpr hroom; omega), hsucc]
    simp only [hmod]
    rw [run_bind_ok _ (by rw [run_ofExcept, hsize])]
    rw [run_bind_ok _ (truncate_run hz.truncate (by omega))]
    simp [with_new_page]
  · rw [if_neg hroom]
    have hsize : store.byte_size_for_page_count (store.pages io + 1) = .error .Overflow := by
      rw [byte_size_for_page_count_eq, if_pos (by
        by_contra hc
        exact hroom (hle_iff.mp (by omega)))]
    simp only [hmod]
    rw [run_bind_error _ (by rw [run_ofExcept, hsize])]

end PageStore

end edb
