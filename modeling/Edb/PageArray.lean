-- The page store is an array of pages. Every run of its calls over a file that
-- never fails answers as the array does, and leaves the file that lays out the
-- array, page after page.
import Edb.PageStore
import Edb.Run

open seq

namespace edb

/-! ## The calls -/

/-- A buffer that is too small stops the program in an assertion. -/
inductive PageOp (size : Nat) where
  | allocate_page
  | write_page (page_id : Nat) (buf : Bytes) (fits : size ≤ buf.length)
  | read_page (page_id : Nat) (buf : Bytes) (fits : size ≤ buf.length)
  | page_count

/-- A read answers with the buffer too. -/
inductive PageReply where
  | id (r : Result Nat)
  | done (r : Result Unit)
  | read (r : Result Unit) (buf : Bytes)

variable {size : Nat}

def PageOp.step (store : PageStore) : PageOp size → StorageIO → PageReply × StorageIO
  | .allocate_page, io => (store.allocate_page.run io).map .id id
  | .write_page page_id buf _, io => ((store.write_page page_id buf).run io).map .done id
  | .read_page page_id buf _, io =>
    let (r, (io, buf)) := (store.read_page page_id).run (io, buf)
    (.read r buf, io)
  | .page_count, io => (store.page_count.run io).map .id id

/-! ## The array -/

/-- Pages of one size, by number. -/
@[ext] structure PageArray (size : Nat) where
  pages : List Bytes
  sized : ∀ d ∈ pages, d.length = size

namespace PageArray

def count (a : PageArray size) : Nat := a.pages.length

def push (a : PageArray size) (d : Bytes) (hd : d.length = size) : PageArray size where
  pages := a.pages ++ [d]
  sized x hx := by
    rcases List.mem_append.mp hx with hx | hx
    · exact a.sized x hx
    · rw [List.mem_singleton.mp hx, hd]

def set (a : PageArray size) (p : Nat) (d : Bytes) (hd : d.length = size) : PageArray size where
  pages := a.pages.set p d
  sized x hx := by
    rcases List.mem_or_eq_of_mem_set hx with hx | rfl
    · exact a.sized x hx
    · exact hd

/-- A new page is zero and takes the next number. A page that is not there is
not found, and nothing changes. -/
def step : PageOp size → PageArray size → PageReply × PageArray size
  | .allocate_page, a =>
    (.id (.ok a.count), a.push (List.replicate size 0) List.length_replicate)
  | .write_page p buf fits, a =>
    if p < a.count then
      (.done (.ok ()), a.set p (buf.take size) (List.length_take_of_le fits))
    else (.done (.error .PageNotFound), a)
  | .read_page p buf _, a =>
    match a.pages[p]? with
    | some d => (.read (.ok ()) (d ++ buf.drop size), a)
    | none => (.read (.error .PageNotFound) buf, a)
  | .page_count, a => (.id (.ok a.count), a)

/-- The array that a file lays out. -/
def of_file (size : Nat) (file : Bytes) : PageArray size where
  pages := (List.range (file.length / size)).map fun p => slice file (p * size) size
  sized d hd := by
    obtain ⟨p, hp, rfl⟩ := List.mem_map.mp hd
    have hle : (p + 1) * size ≤ file.length :=
      Nat.le_trans (Nat.mul_le_mul_right size (List.mem_range.mp hp)) (Nat.div_mul_le_self _ _)
    rw [Nat.succ_mul] at hle
    exact length_slice_of_le hle

theorem count_of_file (size : Nat) (file : Bytes) :
    (of_file size file).count = file.length / size := by
  simp [count, of_file]

theorem getElem?_of_file {file : Bytes} (p : Nat) :
    (of_file size file).pages[p]? =
      if p < file.length / size then some (slice file (p * size) size) else none := by
  unfold of_file
  rw [List.getElem?_map]
  split
  · rename_i hp
    rw [List.getElem?_range hp]
    rfl
  · rename_i hp
    rw [List.getElem?_eq_none (by rw [List.length_range]; omega)]
    rfl

end PageArray

/-! ## One call -/

/-- The file is a whole number of pages, lays out the array, and never fails. -/
structure LaysOut (store : PageStore) (io : StorageIO) (a : PageArray store.page_size) : Prop where
  laid : store.Laid io
  healthy : io.Healthy
  array : PageArray.of_file store.page_size io.bytes = a

namespace LaysOut

variable {store : PageStore} {io : StorageIO} {a : PageArray store.page_size}

theorem count (h : LaysOut store io a) : a.count = store.pages io := by
  rw [← h.array, PageArray.count_of_file]
  rfl

theorem page (h : LaysOut store io a) (p : Nat) :
    a.pages[p]? = if p < store.pages io then some (store.page io p) else none := by
  rw [← h.array]
  exact PageArray.getElem?_of_file p

/-- A file of the same pages lays out the same array. -/
theorem of_pages {io' : StorageIO} {b : PageArray store.page_size} (hlaid : store.Laid io')
    (hio : io'.Healthy)
    (hpages : ∀ p, b.pages[p]? = if p < store.pages io' then some (store.page io' p) else none) :
    LaysOut store io' b := by
  refine ⟨hlaid, hio, PageArray.ext (List.ext_getElem? fun p => ?_)⟩
  rw [hpages]
  exact PageArray.getElem?_of_file p

theorem push (h : LaysOut store io a)
    (hroom : (store.pages io + 1) * store.page_size < 2 ^ 64) :
    LaysOut store (store.with_new_page io)
      (a.push (List.replicate store.page_size 0) List.length_replicate) := by
  refine of_pages (h.laid.with_new_page hroom) h.healthy fun p => ?_
  have hlen : a.pages.length = store.pages io := h.count
  rw [h.laid.pages_with_new_page]
  show (a.pages ++ [List.replicate store.page_size 0])[p]? = _
  rcases Nat.lt_trichotomy p (store.pages io) with hp | rfl | hp
  · rw [List.getElem?_append_left (by omega), h.page, if_pos hp, if_pos (by omega),
      h.laid.page_with_new_page hp]
  · rw [List.getElem?_append_right (by omega), hlen, Nat.sub_self, if_pos (by omega),
      h.laid.page_with_new_page_last]
    rfl
  · rw [List.getElem?_eq_none (by simp; omega), if_neg (by omega)]

theorem set {p : Nat} {d : Bytes} (h : LaysOut store io a) (hp : p < store.pages io)
    (hd : d.length = store.page_size) :
    LaysOut store (store.with_page io p d) (a.set p d hd) := by
  have hlen := h.laid.length_with_page hp (Nat.le_of_eq hd)
  refine of_pages (h.laid.of_length hlen) h.healthy fun q => ?_
  rw [PageStore.pages_of_length hlen]
  show (a.pages.set p d)[q]? = _
  by_cases hq : q = p
  · subst hq
    rw [List.getElem?_set_self (by rw [show a.pages.length = _ from h.count]; exact hp), if_pos hp,
      h.laid.page_with_page_self hp hd]
  · rw [List.getElem?_set_ne (Ne.symm hq), h.page, h.laid.page_with_page_ne hp (Nat.le_of_eq hd) hq]

end LaysOut

/-- A write of a page to a file that never fails. -/
theorem PageStore.write_page_run {store : PageStore} {io : StorageIO} {buf : Bytes}
    (h : store.Laid io) (hio : io.Healthy) (hbuf : store.page_size ≤ buf.length) (p : Nat) :
    (store.write_page p buf).run io =
      if p < store.pages io then (.ok (), store.with_page io p (buf.take store.page_size))
      else (.error .PageNotFound, io) := by
  have hfront : store.write_page p buf = store.write_page p (buf.take store.page_size) := by
    unfold PageStore.write_page
    rw [List.take_take, Nat.min_self]
  have hwritten : PageStore.written io = io := by
    unfold PageStore.written
    rw [hio.write_eq]
    obtain ⟨bytes, ⟨rs, ws, ss, ts, zs, cs⟩⟩ := io
    cases hio.write_eq
    rfl
  have hw := PageStore.write_page.spec h hio.readsWell.file_size (List.length_take_of_le hbuf) p
  rw [hfront]
  rcases hrun : (store.write_page p (buf.take store.page_size)).run io with ⟨e | u, io'⟩
  · rcases Call.wp_error hw hrun with ⟨rfl, hp, rfl⟩ | ⟨-, -, hlets, -⟩
    · rw [if_neg (by omega)]
    · rw [List.head?_eq_getElem?, hio.lets] at hlets
      cases hlets
  · obtain ⟨hp, -, rfl⟩ := Call.wp_ok hw hrun
    rw [if_pos hp, hwritten]

/-- The file of the array has room for what the operation adds. -/
def PageArray.HasRoom : PageOp size → PageArray size → Prop
  | .allocate_page, a => (a.count + 1) * size < 2 ^ 63
  | _, _ => True

/-- A call answers as the array does and leaves the next array. -/
theorem PageOp.step_spec {store : PageStore} {io : StorageIO} {a : PageArray store.page_size}
    (op : PageOp store.page_size) (h : LaysOut store io a) (hroom : a.HasRoom op) :
    (op.step store io).1 = (a.step op).1 ∧ LaysOut store (op.step store io).2 (a.step op).2 := by
  cases op with
  | allocate_page =>
    have hroom : (store.pages io + 1) * store.page_size < 2 ^ 63 := h.count ▸ hroom
    have hcount : store.pages io + 1 ≤ (store.pages io + 1) * store.page_size :=
      Nat.le_mul_of_pos_right _ h.laid.pos
    have hrun := PageStore.allocate_page_run h.laid h.healthy.readsWell (by omega)
    rw [if_pos (by omega)] at hrun
    simp only [PageOp.step, PageArray.step, hrun, h.count]
    exact ⟨rfl, h.push (by omega)⟩
  | write_page p buf fits =>
    have hrun := PageStore.write_page_run h.laid h.healthy fits p
    simp only [PageOp.step, PageArray.step, hrun, h.count]
    split
    · rename_i hp
      exact ⟨rfl, h.set hp (List.length_take_of_le fits)⟩
    · exact ⟨rfl, h⟩
  | read_page p buf fits =>
    have hrun := PageStore.read_page_run_front h.laid h.healthy.readsWell fits p
    simp only [PageOp.step, PageArray.step, hrun, h.page]
    split
    · exact ⟨rfl, h⟩
    · exact ⟨rfl, h⟩
  | page_count =>
    have hrun := PageStore.page_count_run h.laid h.healthy.readsWell.file_size
    simp only [PageOp.step, PageArray.step, hrun, h.count]
    exact ⟨rfl, h⟩

/-! ## Runs -/

/-- The number of pages that the operations allocate. -/
def PageOp.allocations : List (PageOp size) → Nat
  | [] => 0
  | .allocate_page :: rest => allocations rest + 1
  | _ :: rest => allocations rest

/-- The bytes that were last written to page `p`, where `n` pages are there at
first. A write past the last page does not count. -/
def PageOp.last_written (p : Nat) : Nat → List (PageOp size) → Option Bytes
  | _, [] => none
  | n, .allocate_page :: rest => last_written p (n + 1) rest
  | n, .write_page q buf _ :: rest =>
    (last_written p n rest).or (if q = p ∧ p < n then some (buf.take size) else none)
  | n, _ :: rest => last_written p n rest

namespace PageArray

/-- The bytes that were last written to page `p`, or those that it had at first.
A page that was not there at first is zero. -/
def page_after (a : PageArray size) (ops : List (PageOp size)) (p : Nat) : Bytes :=
  (PageOp.last_written p a.count ops).getD (a.pages[p]?.getD (List.replicate size 0))

theorem count_exec (ops : List (PageOp size)) (a : PageArray size) :
    (Run.exec step ops a).2.count = a.count + PageOp.allocations ops := by
  induction ops generalizing a with
  | nil => rfl
  | cons op rest ih =>
    show (Run.exec step rest (step op a).2).2.count = _
    rw [ih]
    cases op with
    | allocate_page =>
      simp only [step, push, count, PageOp.allocations, List.length_append, List.length_singleton]
      omega
    | write_page q buf fits =>
      simp only [step]
      split
      · simp only [set, count, PageOp.allocations, List.length_set]
      · rfl
    | read_page q buf fits =>
      simp only [step]
      split <;> rfl
    | page_count => rfl

/-- A page holds what was last written to it. -/
theorem page_exec (ops : List (PageOp size)) (a : PageArray size) {p : Nat}
    (hp : p < a.count + PageOp.allocations ops) :
    (Run.exec step ops a).2.pages[p]? = some (a.page_after ops p) := by
  induction ops generalizing a with
  | nil =>
    have hp : p < a.pages.length := hp
    show a.pages[p]? = some (a.pages[p]?.getD _)
    rw [List.getElem?_eq_getElem hp]
    rfl
  | cons op rest ih =>
    show (Run.exec step rest (step op a).2).2.pages[p]? = _
    cases op with
    | allocate_page =>
      have hcount : (step .allocate_page a).2.count = a.count + 1 := by
        simp [step, push, count]
      rw [ih _ (by rw [hcount]; simp only [PageOp.allocations] at hp; omega)]
      -- a page that was not there reads as the zero page that was added
      have hpage : (a.pages ++ [List.replicate size 0])[p]?.getD (List.replicate size 0) =
          a.pages[p]?.getD (List.replicate size 0) := by
        rcases Nat.lt_or_ge p a.pages.length with hlt | hge
        · rw [List.getElem?_append_left hlt]
        · rw [List.getElem?_append_right hge, List.getElem?_eq_none hge,
            List.getElem?_singleton]
          split <;> rfl
      unfold page_after
      rw [hcount]
      exact congrArg (fun d => some ((PageOp.last_written p (a.count + 1) rest).getD d)) hpage
    | write_page q buf fits =>
      simp only [step]
      split
      · rename_i hq
        rw [ih _ (by simpa [set, count, PageOp.allocations] using hp)]
        have hcount : (a.set q (buf.take size) (List.length_take_of_le fits)).count = a.count := by
          simp [set, count]
        unfold page_after
        rw [hcount]
        show some (Option.getD _ ((a.pages.set q (buf.take size))[p]?.getD _)) = some (Option.getD
          (Option.or _ _) _)
        by_cases hqp : q = p
        · subst hqp
          rw [List.getElem?_set_self hq, if_pos ⟨rfl, hq⟩]
          cases PageOp.last_written q a.count rest <;> rfl
        · rw [List.getElem?_set_ne hqp, if_neg (fun h : q = p ∧ p < a.count => hqp h.1), Option.or_none]
      · rename_i hq
        rw [ih a hp]
        unfold page_after
        show _ = some (Option.getD (Option.or _ _) _)
        rw [if_neg (fun h : q = p ∧ p < a.count => hq (h.1 ▸ h.2)), Option.or_none]
    | read_page q buf fits =>
      simp only [step]
      split <;> exact ih a hp
    | page_count => exact ih a hp

theorem has_room_of_fits (ops : List (PageOp size)) (a : PageArray size)
    (h : (a.count + PageOp.allocations ops) * size < 2 ^ 63) :
    Run.Allowed (fun op b => HasRoom op b) step ops a := by
  induction ops generalizing a with
  | nil => trivial
  | cons op rest ih =>
    have hcount := count_exec [op] a
    have hnext : (step op a).2.count + PageOp.allocations rest =
        a.count + PageOp.allocations (op :: rest) := by
      have hone : (step op a).2.count = a.count + PageOp.allocations [op] := hcount
      rw [hone]
      cases op with
      | allocate_page =>
        simp only [PageOp.allocations]
        omega
      | _ => simp only [PageOp.allocations, Nat.add_zero]
    refine ⟨?_, ih _ (by rw [hnext]; exact h)⟩
    cases op with
    | allocate_page =>
      have hle : (a.count + 1) * size ≤
          (a.count + PageOp.allocations (.allocate_page :: rest)) * size :=
        Nat.mul_le_mul_right _ (by simp only [PageOp.allocations]; omega)
      exact Nat.lt_of_le_of_lt hle h
    | _ => trivial

end PageArray

theorem lays_out_file {size : Nat} {file : Bytes} (hsize : 0 < size) (hwhole : size ∣ file.length)
    (hfits : file.length < 2 ^ 63) :
    LaysOut (PageStore.open size) { bytes := file } (PageArray.of_file size file) :=
  ⟨⟨rfl, hsize, hwhole, by dsimp only; omega⟩, rfl, rfl⟩

/-- A run of the page store over a file that never fails and stays below 2^63
bytes is a run of the array of its pages: it answers as the array does and
leaves the array in the file. Afterwards the count is the first one and one
more for each allocation, a page holds what was last written to it, a page past
the last one is not found and changes nothing, and the byte size of every
number of pages up to the count is exact. -/
theorem page_store_refines_page_array (size : Nat) (hsize : 0 < size) (file : Bytes)
    (hwhole : size ∣ file.length) (ops : List (PageOp size))
    (hfits : (file.length / size + PageOp.allocations ops) * size < 2 ^ 63) :
    let store := PageStore.open size
    let array := PageArray.of_file size file
    let run := Run.exec (PageOp.step store) ops { bytes := file }
    let count := file.length / size + PageOp.allocations ops
    run.1 = (Run.exec PageArray.step ops array).1 ∧
      PageArray.of_file size run.2.bytes = (Run.exec PageArray.step ops array).2 ∧
      run.2.bytes.length = count * size ∧
      store.page_count.run run.2 = (.ok count, run.2) ∧
      (∀ p buf, size ≤ buf.length → (store.read_page p).run (run.2, buf) =
        if p < count then (.ok (), (run.2, array.page_after ops p ++ buf.drop size))
        else (.error .PageNotFound, (run.2, buf))) ∧
      (∀ p buf, size ≤ buf.length → count ≤ p →
        (store.write_page p buf).run run.2 = (.error .PageNotFound, run.2)) ∧
      ∀ n ≤ count, n < 2 ^ 64 ∧ n * size < 2 ^ 63 ∧
        store.byte_size_for_page_count n = .ok (n * size) := by
  intro store array run count
  have hfile : file.length / size * size = file.length := Nat.div_mul_cancel hwhole
  have hstart : LaysOut store { bytes := file } array := by
    refine lays_out_file hsize hwhole ?_
    rw [Nat.add_mul, hfile] at hfits
    omega
  have hcount0 : array.count = file.length / size := PageArray.count_of_file size file
  have hsim := Run.simulates (fun io a => LaysOut store io a)
    (fun op io a h hroom => PageOp.step_spec op h hroom) ops _ _ hstart
    (PageArray.has_room_of_fits ops array (by rw [hcount0]; exact hfits))
  obtain ⟨houts, hend⟩ : run.1 = (Run.exec PageArray.step ops array).1 ∧
      LaysOut store run.2 (Run.exec PageArray.step ops array).2 := hsim
  have hcount : store.pages run.2 = count :=
    hend.count.symm.trans ((PageArray.count_exec ops array).trans (by rw [hcount0]))
  refine ⟨houts, hend.array, ?_, ?_, ?_, ?_, ?_⟩
  · rw [hend.laid.length_eq, hcount]
    rfl
  · rw [PageStore.page_count_run hend.laid hend.healthy.readsWell.file_size, hcount]
  · intro p buf hbuf
    rw [PageStore.read_page_run_front hend.laid hend.healthy.readsWell hbuf, hcount]
    split
    · rename_i hp
      have hpage := hend.page p
      rw [PageArray.page_exec ops array (by rw [hcount0]; exact hp), if_pos (hcount ▸ hp)] at hpage
      rw [← Option.some.inj hpage]
      rfl
    · rfl
  · intro p buf hbuf hp
    rw [PageStore.write_page_run hend.laid hend.healthy hbuf, if_neg (by omega)]
  · intro n hn
    have hbytes : n * size < 2 ^ 63 := Nat.lt_of_le_of_lt (Nat.mul_le_mul_right _ hn) hfits
    have hle : n ≤ n * size := Nat.le_mul_of_pos_right _ hsize
    refine ⟨by omega, hbytes, ?_⟩
    have hmax : n ≤ PageStore.u64_max / size := by
      rw [Nat.le_div_iff_mul_le hsize]
      unfold PageStore.u64_max
      omega
    rw [PageStore.byte_size_for_page_count_eq]
    exact if_neg (Nat.not_lt.mpr hmax)

/-- A page is added after the one of the file and written. The first write and
the one to page 2 come too early. -/
def one_page_more : List (PageOp 2) :=
  [.write_page 1 [3, 4] (by decide), .allocate_page, .write_page 1 [7, 8, 9] (by decide),
    .write_page 2 [3, 4] (by decide), .write_page 0 [5, 6] (by decide)]

theorem one_page_more_is_read :
    ((PageStore.open 2).read_page 1).run
        ((Run.exec (PageOp.step (PageStore.open 2)) one_page_more { bytes := [1, 2] }).2, [0, 0, 0]) =
      (.ok (), ((Run.exec (PageOp.step (PageStore.open 2)) one_page_more { bytes := [1, 2] }).2,
        [7, 8, 0])) :=
  (page_store_refines_page_array 2 (by decide) [1, 2] (by decide) one_page_more
    (by decide)).2.2.2.2.1 1 [0, 0, 0] (by decide)

end edb
