-- Scans of the heap engine. A scan gives the live tuples page by page and
-- slot by slot. Its cursor keeps 32 bits of the page id, so a scan that
-- meets a live tuple on a page past those starts over and never ends.
import Edb.HeapSpecs

namespace edb

open Call

/-- The order of a scan: by page, then by slot. -/
def TupleId.Before (a b : TupleId) : Prop :=
  a.page_id < b.page_id ∨ (a.page_id = b.page_id ∧ a.slot_idx < b.slot_idx)

namespace Heap

/-- The live tuples of the slots of page `p` from slot `i` on. -/
def page_entries (p : Nat) : Nat → List (Option Bytes) → List Tuple
  | _, [] => []
  | i, none :: rest => page_entries p (i + 1) rest
  | i, some t :: rest => ⟨⟨p, i⟩, t⟩ :: page_entries p (i + 1) rest

/-- The live tuples of the pages from page `p` on. -/
def entries : Nat → Heap → List Tuple
  | _, [] => []
  | p, slots :: rest => page_entries p 0 slots ++ entries (p + 1) rest

/-- The live tuples at slot `i` of page `p` and after it. -/
def rest_from (h : Heap) (p i : Nat) : List Tuple :=
  page_entries p i ((h[p]?.getD []).drop i) ++ entries (p + 1) (h.drop (p + 1))

/-- The live tuples in the order of a scan. -/
def live (h : Heap) : List Tuple := h.entries 0

theorem mem_page_entries {p i : Nat} {slots : List (Option Bytes)} {x : Tuple} :
    x ∈ page_entries p i slots ↔ x.id.page_id = p ∧ i ≤ x.id.slot_idx ∧
      slots[x.id.slot_idx - i]? = some (some x.data) := by
  induction slots generalizing i with
  | nil => simp [page_entries]
  | cons slot rest ih =>
    have hstep : (x.id.page_id = p ∧ i + 1 ≤ x.id.slot_idx ∧
        rest[x.id.slot_idx - (i + 1)]? = some (some x.data)) ↔
        (x.id.page_id = p ∧ i < x.id.slot_idx ∧
          (slot :: rest)[x.id.slot_idx - i]? = some (some x.data)) := by
      constructor
      · rintro ⟨h1, h2, h3⟩
        refine ⟨h1, h2, ?_⟩
        rw [show x.id.slot_idx - i = (x.id.slot_idx - (i + 1)) + 1 by omega]
        exact h3
      · rintro ⟨h1, h2, h3⟩
        refine ⟨h1, h2, ?_⟩
        rw [show x.id.slot_idx - i = (x.id.slot_idx - (i + 1)) + 1 by omega] at h3
        exact h3
    cases slot with
    | none =>
      rw [page_entries, ih, hstep]
      constructor
      · rintro ⟨h1, h2, h3⟩
        exact ⟨h1, by omega, h3⟩
      · rintro ⟨h1, h2, h3⟩
        refine ⟨h1, ?_, h3⟩
        rcases Nat.eq_or_lt_of_le h2 with he | hlt
        · rw [← he, Nat.sub_self] at h3
          simp at h3
        · exact hlt
    | some t =>
      rw [page_entries, List.mem_cons, ih, hstep]
      constructor
      · rintro (rfl | ⟨h1, h2, h3⟩)
        · simp
        · exact ⟨h1, by omega, h3⟩
      · rintro ⟨h1, h2, h3⟩
        rcases Nat.eq_or_lt_of_le h2 with he | hlt
        · rw [← he, Nat.sub_self] at h3
          simp only [List.getElem?_cons_zero, Option.some.injEq] at h3
          left
          obtain ⟨⟨q, k⟩, d⟩ := x
          simp only at h1 he h3
          subst h1 he h3
          rfl
        · exact Or.inr ⟨h1, hlt, h3⟩

theorem get_eq_some {h : Heap} {id : TupleId} {t : Bytes} :
    h.get id = some t ↔
      ∃ slots, h[id.page_id]? = some slots ∧ slots[id.slot_idx]? = some (some t) := by
  unfold get
  rw [Option.join_eq_some_iff, Option.bind_eq_some_iff]

theorem mem_entries {h : Heap} {p : Nat} {x : Tuple} :
    x ∈ entries p h ↔ p ≤ x.id.page_id ∧
      get h ⟨x.id.page_id - p, x.id.slot_idx⟩ = some x.data := by
  induction h generalizing p with
  | nil => simp [entries, get]
  | cons slots rest ih =>
    rw [entries, List.mem_append, mem_page_entries, ih]
    simp only [get_eq_some]
    constructor
    · rintro (⟨rfl, -, h3⟩ | ⟨h1, ss, h2, h3⟩)
      · exact ⟨Nat.le_refl _, slots, by simp, by simpa using h3⟩
      · refine ⟨by omega, ss, ?_, h3⟩
        rw [show x.id.page_id - p = (x.id.page_id - (p + 1)) + 1 by omega]
        exact h2
    · rintro ⟨h1, ss, h2, h3⟩
      rcases Nat.eq_or_lt_of_le h1 with he | hlt
      · left
        rw [← he, Nat.sub_self] at h2
        simp only [List.getElem?_cons_zero, Option.some.injEq] at h2
        subst h2
        exact ⟨he.symm, Nat.zero_le _, h3⟩
      · right
        refine ⟨hlt, ss, ?_, h3⟩
        rw [show x.id.page_id - p = (x.id.page_id - (p + 1)) + 1 by omega] at h2
        exact h2

/-- The tuples of a scan are the live ones. -/
theorem mem_live {h : Heap} {x : Tuple} : x ∈ h.live ↔ h.get x.id = some x.data := by
  unfold live
  rw [mem_entries]
  simp

theorem mem_rest_from {h : Heap} {p i : Nat} {x : Tuple} :
    x ∈ h.rest_from p i ↔ h.get x.id = some x.data ∧
      ((x.id.page_id = p ∧ i ≤ x.id.slot_idx) ∨ p < x.id.page_id) := by
  unfold rest_from
  rw [List.mem_append, mem_page_entries, mem_entries]
  simp only [get_eq_some, List.getElem?_drop]
  constructor
  · rintro (⟨rfl, h2, h3⟩ | ⟨h1, ss, h2, h3⟩)
    · rw [Nat.add_sub_cancel' h2] at h3
      rcases hs : h[x.id.page_id]? with _ | ss
      · simp [hs] at h3
      · exact ⟨⟨ss, rfl, by simpa [hs] using h3⟩, Or.inl ⟨rfl, h2⟩⟩
    · rw [show p + 1 + (x.id.page_id - (p + 1)) = x.id.page_id by omega] at h2
      exact ⟨⟨ss, h2, h3⟩, Or.inr h1⟩
  · rintro ⟨⟨ss, h2, h3⟩, ⟨rfl, hi⟩ | hlt⟩
    · left
      refine ⟨rfl, hi, ?_⟩
      rw [Nat.add_sub_cancel' hi, h2]
      exact h3
    · right
      refine ⟨hlt, ss, ?_, h3⟩
      rw [show p + 1 + (x.id.page_id - (p + 1)) = x.id.page_id by omega]
      exact h2

theorem sorted_page_entries (p i : Nat) (slots : List (Option Bytes)) :
    (page_entries p i slots).Pairwise fun a b => a.id.Before b.id := by
  induction slots generalizing i with
  | nil => exact List.Pairwise.nil
  | cons slot rest ih =>
    cases slot with
    | none => exact ih (i + 1)
    | some t =>
      refine List.Pairwise.cons ?_ (ih (i + 1))
      intro x hx
      obtain ⟨h1, h2, -⟩ := mem_page_entries.mp hx
      exact Or.inr ⟨h1.symm, by simp only; omega⟩

theorem sorted_entries (p : Nat) (h : Heap) :
    (entries p h).Pairwise fun a b => a.id.Before b.id := by
  induction h generalizing p with
  | nil => exact List.Pairwise.nil
  | cons slots rest ih =>
    rw [entries, List.pairwise_append]
    refine ⟨sorted_page_entries p 0 slots, ih (p + 1), ?_⟩
    intro a ha b hb
    have h1 := (mem_page_entries.mp ha).1
    have h2 := (mem_entries.mp hb).1
    exact Or.inl (by omega)

/-- A scan goes up in the order of ids, so it gives no tuple twice. -/
theorem sorted_live (h : Heap) : h.live.Pairwise fun a b => a.id.Before b.id :=
  sorted_entries 0 h

/-- The first live tuple at or after a slot, and what comes after it. -/
theorem page_entries_cons {p i : Nat} {slots : List (Option Bytes)} {x : Tuple}
    {rest : List Tuple} (h : page_entries p i slots = x :: rest) :
    x.id.page_id = p ∧ i ≤ x.id.slot_idx ∧
      slots[x.id.slot_idx - i]? = some (some x.data) ∧
      rest = page_entries p (x.id.slot_idx + 1) (slots.drop (x.id.slot_idx + 1 - i)) := by
  induction slots generalizing i with
  | nil => cases h
  | cons slot more ih =>
    cases slot with
    | none =>
      obtain ⟨h1, h2, h3, h4⟩ := ih h
      refine ⟨h1, by omega, ?_, ?_⟩
      · rw [show x.id.slot_idx - i = (x.id.slot_idx - (i + 1)) + 1 by omega]
        exact h3
      · rw [h4, show x.id.slot_idx + 1 - i = (x.id.slot_idx + 1 - (i + 1)) + 1 by omega]
        rfl
    | some t =>
      rw [page_entries, List.cons.injEq] at h
      obtain ⟨rfl, rfl⟩ := h
      simp

theorem page_lt_of_rest {h : Heap} {p i : Nat} {x : Tuple} (hx : x ∈ h.rest_from p i) :
    x.id.page_id < h.length := by
  obtain ⟨slots, hslots, -⟩ := get_eq_some.mp (mem_rest_from.mp hx).1
  exact (List.getElem?_eq_some_iff.mp hslots).1

theorem rest_from_past {h : Heap} {p i : Nat} (hp : h.length ≤ p) : h.rest_from p i = [] := by
  unfold rest_from
  rw [List.getElem?_eq_none hp, List.drop_eq_nil_of_le (by omega : h.length ≤ p + 1)]
  simp [page_entries, entries]

/-- A page with nothing left is skipped. -/
theorem rest_from_next {h : Heap} {p i : Nat} {slots : List (Option Bytes)}
    (hs : h[p]? = some slots) (hnone : page_entries p i (slots.drop i) = []) :
    h.rest_from p i = h.rest_from (p + 1) 0 := by
  unfold rest_from
  rw [hs, Option.getD_some, hnone, List.nil_append, List.drop_zero]
  by_cases hlt : p + 1 < h.length
  · rw [List.drop_eq_getElem_cons hlt, List.getElem?_eq_getElem hlt]
    rfl
  · rw [List.drop_eq_nil_of_le (by omega : h.length ≤ p + 1),
      List.drop_eq_nil_of_le (by omega : h.length ≤ p + 1 + 1),
      List.getElem?_eq_none (by omega)]
    rfl

theorem rest_from_cons {h : Heap} {p i : Nat} {slots : List (Option Bytes)} {x : Tuple}
    {rest : List Tuple} (hs : h[p]? = some slots)
    (hcons : page_entries p i (slots.drop i) = x :: rest) :
    h.rest_from p i = x :: h.rest_from x.id.page_id (x.id.slot_idx + 1) := by
  obtain ⟨h1, h2, -, h4⟩ := page_entries_cons hcons
  unfold rest_from
  rw [hs, Option.getD_some, hcons, h1, hs, h4, List.drop_drop, Option.getD_some,
    show i + (x.id.slot_idx + 1 - i) = x.id.slot_idx + 1 by omega]
  rfl

theorem live_eq_rest_from (h : Heap) : h.live = h.rest_from 0 0 := by
  unfold live rest_from
  cases h with
  | nil => rfl
  | cons slots rest => rfl

end Heap

namespace EdbHeapEngine

/-! ## The cursor -/

theorem cursor_page_id_encode {p i : Nat} (hi : i < 2 ^ 16) :
    cursor_page_id ⟨encode_cursor p i⟩ = p % 2 ^ 32 := by
  simp only [cursor_page_id, encode_cursor, CURSOR_PAGE_MASK, CURSOR_SLOT_BASE]
  omega

theorem cursor_slot_idx_encode {p i : Nat} (hi : i < 2 ^ 16) :
    cursor_slot_idx ⟨encode_cursor p i⟩ = i := by
  simp only [cursor_slot_idx, encode_cursor, CURSOR_PAGE_MASK, CURSOR_SLOT_BASE]
  omega

theorem cursor_page_id_lt (handle : ScanHandle) : cursor_page_id handle < 2 ^ 32 :=
  Nat.mod_lt _ (by decide)

/-! ## The loops of a scan -/

variable {α : Type} {store : PageStore} {n : Nat} {m : List Bytes} {h : Heap} {s : ScanState}
  {Q : α → ScanState → Prop} {E : Error → ScanState → Prop}

theorem wp_on_heap {x : Call Error HeapState α}
    (hw : x.wp (fun a t => Q a { s with heap := t }) (fun e t => E e { s with heap := t })
      s.heap) : (on_heap x).wp Q E s :=
  (wp_zoom _ _ _).mpr hw

/-- The tuples of the heap that the cursor has ahead of it. -/
def ahead (h : Heap) (handle : ScanHandle) : List Tuple :=
  h.rest_from (cursor_page_id handle) (cursor_slot_idx handle)

theorem ahead_start (h : Heap) : ahead h ⟨encode_cursor 0 0⟩ = h.live := h.live_eq_rest_from.symm

/-- The scan stops at the first of the tuples left, with the cursor behind it. -/
structure StoppedAt (h : Heap) (left : List Tuple) (x : Tuple) (handle : ScanHandle) : Prop where
  first : left = x :: h.rest_from x.id.page_id (x.id.slot_idx + 1)
  handle : handle = ⟨encode_cursor x.id.page_id (x.id.slot_idx + 1)⟩
  slot : x.id.slot_idx + 1 < 2 ^ 16

/-- What a scan call gives when `left` is what it has before it. -/
def NextOf (h : Heap) (left : List Tuple) (handle : ScanHandle) : Option Tuple → Prop
  | none => left = []
  | some x => StoppedAt h left x handle

theorem StoppedAt.left_eq {left : List Tuple} {x : Tuple} {handle : ScanHandle}
    (hstop : StoppedAt h left x handle) (hx : x.id.page_id < 2 ^ 32) :
    left = x :: ahead h handle := by
  unfold ahead
  rw [hstop.handle, cursor_page_id_encode hstop.slot, cursor_slot_idx_encode hstop.slot,
    Nat.mod_eq_of_lt hx]
  exact hstop.first

variable {l : Loan} {d : Bytes} {slots : List (Option Bytes)}

/-- The slots from `i` on: the first live one ends the loop. -/
theorem scan_slots.spec {s0 : HeapState} (hh : HoldsHeap store n m h s0) (hr : Ready store n m [l] s.heap)
    (hm : l.mutated = false) (hd : m[l.page]? = some d) (hs : h[l.page]? = some slots)
    (k i : Nat) (hk : k = slots.length - i) :
    (scan_slots l.handle l.page k i).wp
      (fun r s' => match r with
        | none => Heap.page_entries l.page i (slots.drop i) = [] ∧ s' = s
        | some x => HoldsHeap store n m h s'.heap ∧ s.heap.io.After s'.heap.io ∧
          (∃ rest, Heap.page_entries l.page i (slots.drop i) = x :: rest) ∧
          s'.handle = ⟨encode_cursor x.id.page_id (x.id.slot_idx + 1)⟩ ∧
          x.id.slot_idx + 1 < 2 ^ 16)
      (fun _ _ => False) s := by
  have hgood := hh.slotted.good _ d slots hd hs
  have hcount : slots.length < 2 ^ 16 := hgood.count ▸ heap.read_u16_lt d _
  induction k generalizing i with
  | zero =>
    rw [List.drop_eq_nil_of_le (by omega)]
    exact (wp_pure _).mpr ⟨rfl, rfl⟩
  | succ k ih =>
    have hi : i < slots.length := by omega
    obtain ⟨x, hx⟩ : ∃ x, slots[i]? = some x := ⟨_, List.getElem?_eq_getElem hi⟩
    have hdrop : slots.drop i = x :: slots.drop (i + 1) := by
      rw [List.drop_eq_getElem_cons hi]
      rw [List.getElem?_eq_getElem hi] at hx
      rw [Option.some.inj hx]
    unfold scan_slots scan_slot
    rw [wp_bind, wp_bind]
    refine wp_on_heap (wp_frame_data hr hd ?_)
    rw [hgood.is_live_slot_eq hx, hdrop]
    cases x with
    | none => exact (wp_pure _).mpr (ih (i + 1) (by omega))
    | some t =>
      simp only [Option.isSome_some, hgood.read_tuple_eq hx, Heap.page_entries]
      unfold set_cursor
      rw [wp_bind, wp_modify, wp_bind]
      refine wp_on_heap ?_
      apply wp_mono (unpin_clean.spec hr hm) _ (fun _ _ hf => hf.elim)
      rintro _ s1 ⟨h1, hio⟩
      refine (wp_pure _).mpr ((wp_pure _).mpr ⟨HoldsHeap.ready' hh h1, ?_, ⟨_, rfl⟩, ?_, ?_⟩)
      · show s.heap.io.After s1.io
        rw [hio]
        exact StorageIO.After.refl _
      · show ScanHandle.mk _ = _
        rw [Nat.mod_eq_of_lt (by omega)]
      · show i + 1 < 2 ^ 16
        omega

/-- The pages from `p` on, starting with slot `i` of page `p`. -/
theorem scan_pages.spec (hh : HoldsHeap store n m h s.heap) (k p i : Nat)
    (hk : k = m.length - p)
    (hi : i = if p = cursor_page_id s.handle then cursor_slot_idx s.handle else 0) :
    (scan_pages k p).wp
      (fun r s' => HoldsHeap store n m h s'.heap ∧ s.heap.io.After s'.heap.io ∧
        NextOf h (h.rest_from p i) s'.handle r)
      (fun e s' => e = .IoError ∧ HoldsHeap store n m h s'.heap ∧ s.heap.io.After s'.heap.io ∧
        s.heap.io.faults.write ≠ []) s := by
  induction k generalizing p i s with
  | zero =>
    rw [Heap.rest_from_past (by rw [← hh.slotted.length]; omega)]
    exact (wp_pure _).mpr ⟨hh, StorageIO.After.refl _, rfl⟩
  | succ k ih =>
    obtain ⟨d, hd⟩ : ∃ d, m[p]? = some d := ⟨_, List.getElem?_eq_getElem (by omega)⟩
    obtain ⟨slots, hs, hgood⟩ := hh.slotted.slots_of hd
    unfold scan_pages
    rw [wp_bind]
    refine wp_on_heap ?_
    apply wp_mono (fetch.spec hh.ready p)
    · rintro handle s1 ⟨l, rfl, hm, rfl, h1, hafter1, -⟩
      rw [wp_bind]
      refine wp_on_heap (wp_frame_data h1 hd ?_)
      rw [hgood.slot_count_eq]
      simp only
      rw [wp_bind, wp_get, ← hi, wp_bind]
      apply wp_mono (scan_slots.spec (s := { s with heap := s1 }) hh h1 hm hd hs _ i rfl) _
        (fun _ _ hf => hf.elim)
      rintro (_ | x) s2 hr
      · obtain ⟨hpe, rfl⟩ := hr
        simp only
        rw [wp_bind]
        refine wp_on_heap ?_
        apply wp_mono (unpin_clean.spec h1 hm) _ (fun _ _ hf => hf.elim)
        rintro _ s3 ⟨h3, hio3⟩
        unfold set_cursor
        rw [wp_bind, wp_modify, Heap.rest_from_next hs hpe]
        have hafter3 : s.heap.io.After s3.io := by rw [hio3]; exact hafter1
        have hnext := ih (s := { heap := s3, handle := ⟨encode_cursor (l.page + 1) 0⟩ })
          (HoldsHeap.ready' hh h3) (l.page + 1) 0 (by omega) (by
            rw [cursor_slot_idx_encode (by decide)]
            simp)
        apply wp_mono hnext
        · exact fun r s4 hr => ⟨hr.1, hafter3.trans hr.2.1, hr.2.2⟩
        · rintro e s4 ⟨rfl, h4, hafter4, hne⟩
          exact ⟨rfl, h4, hafter3.trans hafter4, hafter3.write_ne_nil hne⟩
      · obtain ⟨h2, hafter2, ⟨rest, hpe⟩, hhandle, hslot⟩ := hr
        exact (wp_pure _).mpr
          ⟨h2, hafter1.trans hafter2, Heap.rest_from_cons hs hpe, hhandle, hslot⟩
    · rintro e s1 ⟨h1, hafter, ⟨-, hle⟩ | ⟨rfl, hne⟩⟩
      · omega
      · exact ⟨rfl, HoldsHeap.ready' hh h1, hafter, hne⟩

/-- One call gives the next live tuple, and its cursor stands behind it. -/
theorem scan_next.spec (hh : HoldsHeap store n m h s.heap) :
    scan_next.wp
      (fun r s' => HoldsHeap store n m h s'.heap ∧ s.heap.io.After s'.heap.io ∧
        NextOf h (ahead h s.handle) s'.handle r)
      (fun e s' => e = .IoError ∧ HoldsHeap store n m h s'.heap ∧ s.heap.io.After s'.heap.io ∧
        s.heap.io.faults.write ≠ []) s := by
  unfold scan_next
  rw [wp_bind]
  refine wp_on_heap (wp_check_open hh.ready ?_)
  rw [wp_bind]
  refine wp_on_heap (wp_page_count hh.ready ?_)
  rw [wp_bind, wp_get]
  exact scan_pages.spec hh _ _ _ rfl (by simp)

/-! ## Complete scans -/

/-- Every tuple of the list lies on a page that a cursor can name. -/
def InReach (xs : List Tuple) : Prop := ∀ x ∈ xs, x.id.page_id < 2 ^ 32

/-- Within reach the cursor names the page of the tuple, so the rest follows. -/
theorem StoppedAt.within {left : List Tuple} {x : Tuple} {handle : ScanHandle}
    (hstop : StoppedAt h left x handle) (hreach : InReach left) :
    left = x :: ahead h handle ∧ InReach (ahead h handle) ∧
      left.length = (ahead h handle).length + 1 := by
  have hrest := hstop.left_eq (hreach x (by rw [hstop.first]; exact List.mem_cons_self))
  rw [hrest] at hreach ⊢
  exact ⟨rfl, fun y hy => hreach y (List.mem_cons_of_mem _ hy), rfl⟩

/-- Enough calls give all that is left, unless a write of the pool fails. -/
theorem drain.spec (hh : HoldsHeap store n m h s.heap) (calls : Nat)
    (hreach : InReach (ahead h s.handle)) (hcalls : (ahead h s.handle).length < calls) :
    (drain calls).wp
      (fun r s' => r = ahead h s.handle ∧ HoldsHeap store n m h s'.heap ∧
        s.heap.io.After s'.heap.io)
      (fun e s' => e = .IoError ∧ HoldsHeap store n m h s'.heap ∧ s.heap.io.After s'.heap.io ∧
        s.heap.io.faults.write ≠ []) s := by
  induction calls generalizing s with
  | zero => omega
  | succ calls ih =>
    unfold drain
    rw [wp_bind]
    apply wp_mono (scan_next.spec hh) _ (fun _ _ he => he)
    rintro (_ | x) s1 ⟨h1, hafter, hnext⟩
    · exact (wp_pure _).mpr ⟨hnext.symm, h1, hafter⟩
    · obtain ⟨hrest, hreach', hlen⟩ := hnext.within hreach
      rw [hrest]
      simp only
      rw [wp_bind]
      apply wp_mono (ih h1 hreach' (by omega))
      · rintro r s2 ⟨rfl, h2, hafter2⟩
        exact (wp_pure _).mpr ⟨rfl, h2, hafter.trans hafter2⟩
      · rintro e s2 ⟨rfl, h2, hafter2, hne⟩
        exact ⟨rfl, h2, hafter.trans hafter2, hafter.write_ne_nil hne⟩

/-- A live tuple out of reach is ahead of every cursor, so no number of calls
is enough. -/
theorem drain_diverges (hh : HoldsHeap store n m h s.heap) (hio : s.heap.io.Healthy) {x : Tuple}
    (hx : x ∈ h.live) (hfar : 2 ^ 32 ≤ x.id.page_id) (calls : Nat) :
    (drain calls).wp (fun _ _ => False)
      (fun e s' => e = .Diverges ∧ HoldsHeap store n m h s'.heap ∧ s'.heap.io.Healthy) s := by
  induction calls generalizing s with
  | zero => exact (wp_fail _).mpr ⟨rfl, hh, hio⟩
  | succ calls ih =>
    unfold drain
    rw [wp_bind]
    apply wp_mono (scan_next.spec hh)
    · have hahead : x ∈ ahead h s.handle := Heap.mem_rest_from.mpr ⟨Heap.mem_live.mp hx,
        Or.inr (Nat.lt_of_lt_of_le (cursor_page_id_lt _) hfar)⟩
      rintro (_ | y) s1 ⟨h1, hafter, hnext⟩
      · rw [show ahead h s.handle = [] from hnext] at hahead
        cases hahead
      · simp only
        rw [wp_bind]
        exact wp_mono (ih h1 (hafter.healthy hio)) (fun _ _ hf => hf.elim) (fun _ _ he => he)
    · rintro e s1 ⟨-, -, -, hne⟩
      exact absurd hio.write_eq hne

theorem wp_complete_scan {Q : List Tuple → HeapState → Prop} {E : Error → HeapState → Prop}
    {s : HeapState} (hh : HoldsHeap store n m h s) {calls : Nat}
    (hw : (drain calls).wp (fun r t => Q r t.heap) (fun e t => E e t.heap)
      { heap := s, handle := ⟨encode_cursor 0 0⟩ }) : (complete_scan calls).wp Q E s := by
  unfold complete_scan begin_scan
  rw [wp_bind, wp_bind]
  refine wp_check_open hh.ready ?_
  rw [wp_pure, wp_zoom]
  exact hw

/-- A complete scan gives the live tuples. -/
theorem complete_scan.spec {s : HeapState} (hh : HoldsHeap store n m h s)
    (hreach : InReach h.live) {calls : Nat} (hcalls : h.live.length < calls) :
    (complete_scan calls).wp
      (fun r s' => r = h.live ∧ HoldsHeap store n m h s' ∧ s.io.After s'.io)
      (fun e s' => e = .IoError ∧ HoldsHeap store n m h s' ∧ s.io.After s'.io ∧
        s.io.faults.write ≠ []) s := by
  refine wp_complete_scan hh ?_
  have hdrain := drain.spec (s := { heap := s, handle := ⟨encode_cursor 0 0⟩ }) hh calls
  rw [ahead_start] at hdrain
  exact hdrain hreach hcalls

end EdbHeapEngine

/-! ## How many tuples a file can hold -/

namespace Heap

theorem length_page_entries_le (p i : Nat) (slots : List (Option Bytes)) :
    (page_entries p i slots).length ≤ slots.length := by
  induction slots generalizing i with
  | nil => simp [page_entries]
  | cons slot rest ih =>
    have := ih (i + 1)
    cases slot with
    | none => simp only [page_entries, List.length_cons]; omega
    | some t => simp only [page_entries, List.length_cons]; omega

theorem length_entries_le {size : Nat} (p : Nat) (h : Heap)
    (hsize : ∀ slots ∈ h, slots.length ≤ size) :
    (entries p h).length ≤ h.length * size := by
  induction h generalizing p with
  | nil => simp [entries]
  | cons slots rest ih =>
    have h1 := length_page_entries_le p 0 slots
    have h2 := hsize slots (by simp)
    have h3 := ih (p + 1) (fun ss hss => hsize ss (by simp [hss]))
    rw [entries, List.length_append, List.length_cons, Nat.succ_mul]
    omega

/-- A live tuple takes at least one byte of the file. -/
theorem length_live_le {store : PageStore} {n : Nat} {m : List Bytes} {h : Heap} {s : HeapState}
    (hh : HoldsHeap store n m h s) : h.live.length ≤ s.io.bytes.length := by
  have hlen := hh.ready.pool.laid.length_eq
  rw [← hh.ready.pool.frames.count, hh.slotted.length] at hlen
  show h.live.length ≤ s.io.bytes.length
  rw [show s.io.bytes.length = h.length * store.page_size from hlen]
  apply length_entries_le
  intro slots hslots
  obtain ⟨p, hp⟩ := List.mem_iff_getElem?.mp hslots
  have hlt : p < m.length := hh.slotted.length ▸ (List.getElem?_eq_some_iff.mp hp).1
  have hgood := hh.slotted.good p _ slots (List.getElem?_eq_getElem hlt) hp
  have hd := hh.ready.pool.length_of_page (List.getElem?_eq_getElem hlt)
  rcases hgood.bounds with ⟨-, h1, h2⟩ | ⟨rfl, -⟩
  · rw [hd] at h2
    rw [heap.slot_offset_eq] at h1
    omega
  · simp

end Heap

end edb
