-- Slices and patches of a list: read a range, overwrite a range, and what a
-- read sees after a write. Pages, files and encoded rows are all byte lists
-- that the code reads and writes this way.
import Mathlib.Data.List.Basic

namespace seq

variable {α : Type}

/-- The `len` elements from `off` on, or as many of them as there are. -/
def slice (xs : List α) (off len : Nat) : List α := (xs.drop off).take len

/-- The list with the range from `off` on overwritten by `ys`. -/
def patch (xs : List α) (off : Nat) (ys : List α) : List α :=
  xs.take off ++ ys ++ xs.drop (off + ys.length)

@[simp] theorem length_slice (xs : List α) (off len : Nat) :
    (slice xs off len).length = min len (xs.length - off) := by
  simp [slice]

theorem length_slice_of_le {xs : List α} {off len : Nat} (h : off + len ≤ xs.length) :
    (slice xs off len).length = len := by
  simp; omega

theorem length_patch {xs ys : List α} {off : Nat} (h : off + ys.length ≤ xs.length) :
    (patch xs off ys).length = xs.length := by
  simp [patch]; omega

theorem getElem?_slice (xs : List α) (off len i : Nat) :
    (slice xs off len)[i]? = if i < len then xs[off + i]? else none := by
  unfold slice
  rw [List.getElem?_take]
  split
  · rw [List.getElem?_drop]
  · rfl

theorem getElem?_patch {xs ys : List α} {off : Nat} (h : off + ys.length ≤ xs.length) (i : Nat) :
    (patch xs off ys)[i]? =
      if off ≤ i ∧ i < off + ys.length then ys[i - off]? else xs[i]? := by
  have hoff : (xs.take off).length = off := by simp; omega
  unfold patch
  rw [List.append_assoc]
  by_cases h1 : i < off
  · rw [List.getElem?_append_left (by omega), List.getElem?_take, if_pos h1, if_neg (by omega)]
  · rw [List.getElem?_append_right (by omega), hoff]
    by_cases h2 : i < off + ys.length
    · rw [List.getElem?_append_left (by omega), if_pos (by omega)]
    · rw [List.getElem?_append_right (by omega), List.getElem?_drop, if_neg (by omega)]
      congr 1
      omega

theorem slice_ext {xs ys : List α} {off len : Nat}
    (h : ∀ i, off ≤ i → i < off + len → xs[i]? = ys[i]?) :
    slice xs off len = slice ys off len := by
  apply List.ext_getElem?
  intro i
  simp only [getElem?_slice]
  split
  · exact h _ (by omega) (by omega)
  · rfl

/-- A read of a range that the write does not touch. -/
theorem slice_patch_disjoint {xs ys : List α} {off o len : Nat}
    (h : off + ys.length ≤ xs.length) (hd : o + len ≤ off ∨ off + ys.length ≤ o) :
    slice (patch xs off ys) o len = slice xs o len := by
  apply slice_ext
  intro i h1 h2
  rw [getElem?_patch h, if_neg (by omega)]

/-- A read of the range that was written. -/
theorem slice_patch_self {xs ys : List α} {off : Nat} (h : off + ys.length ≤ xs.length) :
    slice (patch xs off ys) off ys.length = ys := by
  apply List.ext_getElem?
  intro i
  rw [getElem?_slice]
  split
  · rw [getElem?_patch h, if_pos (by omega)]
    congr 1
    omega
  · rw [List.getElem?_eq_none (by omega)]

theorem slice_append_left {xs ys : List α} {off len : Nat} (h : off + len ≤ xs.length) :
    slice (xs ++ ys) off len = slice xs off len := by
  apply slice_ext
  intro i h1 h2
  rw [List.getElem?_append_left (by omega)]

theorem slice_append_right {xs ys : List α} {off len : Nat} (h : xs.length ≤ off) :
    slice (xs ++ ys) off len = slice ys (off - xs.length) len := by
  apply List.ext_getElem?
  intro i
  simp only [getElem?_slice]
  split
  · rw [List.getElem?_append_right (by omega)]
    congr 1
    omega
  · rfl

@[simp] theorem slice_zero_length (xs : List α) : slice xs 0 xs.length = xs := by
  simp [slice]

theorem slice_mid (xs ys zs : List α) : slice (xs ++ ys ++ zs) xs.length ys.length = ys := by
  simp [slice]

theorem slice_full {xs : List α} {n : Nat} (h : xs.length = n) : slice xs 0 n = xs := by
  subst h; simp

@[simp] theorem slice_replicate (n off len : Nat) (a : α) (h : off + len ≤ n) :
    slice (List.replicate n a) off len = List.replicate len a := by
  apply List.ext_getElem?
  intro i
  rw [getElem?_slice]
  simp only [List.getElem?_replicate]
  split
  · rw [if_pos (by omega)]
  · rfl

theorem patch_nil (xs : List α) (off : Nat) : patch xs off [] = xs := by
  simp [patch]

end seq
