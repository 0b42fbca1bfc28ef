-- Inserts and deletes of the heap engine on a heap: a list of pages, each a
-- list of slots. An insert takes the first page with room, or a new page,
-- and adds a slot at the end. A delete empties a slot. So a slot is never
-- used twice.
import Edb.HeapLaws

namespace edb

open Call

/-- The slots of each page. -/
abbrev Heap := List (List (Option Bytes))

namespace Heap

/-- The tuple behind an id, if it is live. -/
def get (h : Heap) (id : TupleId) : Option Bytes :=
  (h[id.page_id]?.bind fun slots => slots[id.slot_idx]?).join

/-- The id was given to a tuple at some time. -/
def Issued (h : Heap) (id : TupleId) : Prop :=
  ∃ slots, h[id.page_id]? = some slots ∧ id.slot_idx < slots.length

/-- The heap without the tuple behind the id. -/
def erase (h : Heap) (id : TupleId) : Heap :=
  h.modify id.page_id fun slots => slots.set id.slot_idx none

theorem issued_of_get {h : Heap} {id : TupleId} {t : Bytes} (hg : h.get id = some t) :
    h.Issued id := by
  unfold get at hg
  rw [Option.join_eq_some_iff, Option.bind_eq_some_iff] at hg
  obtain ⟨slots, hs, ht⟩ := hg
  exact ⟨slots, hs, (List.getElem?_eq_some_iff.mp ht).1⟩

theorem get_eq {h : Heap} {id : TupleId} {slots : List (Option Bytes)}
    (hs : h[id.page_id]? = some slots) : h.get id = (slots[id.slot_idx]?).join := by
  unfold get
  rw [hs]
  rfl

theorem erase_eq {h : Heap} {id : TupleId} {slots : List (Option Bytes)}
    (hs : h[id.page_id]? = some slots) :
    h.erase id = h.set id.page_id (slots.set id.slot_idx none) := by
  unfold erase
  rw [List.modify_eq_set_getElem?, hs]
  rfl

theorem get_set {h : Heap} {p : Nat} {slots' : List (Option Bytes)} (hp : p < h.length)
    (id : TupleId) :
    get (h.set p slots') id =
      if id.page_id = p then (slots'[id.slot_idx]?).join else h.get id := by
  unfold get
  by_cases he : id.page_id = p
  · rw [if_pos he, he, List.getElem?_set_self hp]
    rfl
  · rw [if_neg he, List.getElem?_set_ne (Ne.symm he)]

end Heap

/-- Each page holds its slots. -/
structure Slotted (m : List Bytes) (h : Heap) : Prop where
  length : m.length = h.length
  good : ∀ (p : Nat) (d : Bytes) (slots : List (Option Bytes)), m[p]? = some d →
    h[p]? = some slots → heap.Good d slots

namespace Slotted

variable {m : List Bytes} {h : Heap}

theorem slots_of {p : Nat} {d : Bytes} (hs : Slotted m h) (hd : m[p]? = some d) :
    ∃ slots, h[p]? = some slots ∧ heap.Good d slots := by
  have hlt : p < h.length := hs.length ▸ (List.getElem?_eq_some_iff.mp hd).1
  exact ⟨_, List.getElem?_eq_getElem hlt, hs.good p d _ hd (List.getElem?_eq_getElem hlt)⟩

theorem set {p : Nat} {d : Bytes} {slots : List (Option Bytes)} (hs : Slotted m h)
    (hg : heap.Good d slots) : Slotted (m.set p d) (h.set p slots) := by
  refine ⟨by simpa using hs.length, fun q e ss he hss => ?_⟩
  by_cases hq : p = q
  · subst hq
    have hlt : p < m.length := by simpa using (List.getElem?_eq_some_iff.mp he).1
    rw [List.getElem?_set_self hlt] at he
    rw [List.getElem?_set_self (hs.length ▸ hlt)] at hss
    cases he
    cases hss
    exact hg
  · rw [List.getElem?_set_ne hq] at he hss
    exact hs.good q e ss he hss

theorem append {d : Bytes} {slots : List (Option Bytes)} (hs : Slotted m h)
    (hg : heap.Good d slots) : Slotted (m ++ [d]) (h ++ [slots]) := by
  refine ⟨by simpa using hs.length, fun q e ss he hss => ?_⟩
  by_cases hq : q < m.length
  · rw [List.getElem?_append_left hq] at he
    rw [List.getElem?_append_left (hs.length ▸ hq)] at hss
    exact hs.good q e ss he hss
  · have hqm : q = m.length := by
      have := (List.getElem?_eq_some_iff.mp he).1
      simp at this
      omega
    subst hqm
    simp only [List.getElem?_concat_length] at he
    rw [hs.length, List.getElem?_concat_length] at hss
    cases he
    cases hss
    exact hg

end Slotted

/-- The engine is open and holds the heap `h` in the pages `m`. -/
structure HoldsHeap (store : PageStore) (n : Nat) (m : List Bytes) (h : Heap) (s : HeapState) :
    Prop where
  ready : Ready store n m [] s
  slotted : Slotted m h
  header : heap.PAGE_HEADER_SIZE ≤ store.page_size
  small : store.page_size ≤ heap.MAX_U16

/-- Where an insert of `t` goes: to the first page with room, or to a new page. -/
inductive Placed (size : Nat) (t : Bytes) (m : List Bytes) (h : Heap) :
    TupleId → List Bytes → Heap → Prop where
  | existing {p : Nat} {d d' : Bytes} {slots : List (Option Bytes)} (hd : m[p]? = some d)
      (hslots : h[p]? = some slots) (hroom : t.length + heap.SLOT_SIZE ≤ heap.free d)
      (hfirst : ∀ q < p, ∀ e, m[q]? = some e → heap.free e < t.length + heap.SLOT_SIZE)
      (hfree : heap.free d' + t.length + heap.SLOT_SIZE = heap.free d) :
      Placed size t m h ⟨p, slots.length⟩ (m.set p d') (h.set p (slots ++ [some t]))
  | new {d' : Bytes} (hfull : ∀ e ∈ m, heap.free e < t.length + heap.SLOT_SIZE)
      (hfits : t.length + heap.SLOT_SIZE + heap.PAGE_HEADER_SIZE ≤ size)
      (hfree : heap.free d' + t.length + heap.SLOT_SIZE + heap.PAGE_HEADER_SIZE = size) :
      Placed size t m h ⟨m.length, 0⟩ (m ++ [d']) (h ++ [[some t]])

namespace EdbHeapEngine

variable {store : PageStore} {n : Nat} {m : List Bytes} {h : Heap} {s : HeapState} {t : Bytes}

theorem HoldsHeap.ready' {s' : HeapState} (hh : HoldsHeap store n m h s)
    (hr : Ready store n m [] s') : HoldsHeap store n m h s' :=
  ⟨hr, hh.slotted, hh.header, hh.small⟩

/-! ## Insert -/

theorem insert_into_existing_page.spec (hh : HoldsHeap store n m h s) (ht : t ≠ []) {p : Nat}
    {d : Bytes} {slots : List (Option Bytes)} (hd : m[p]? = some d) (hs : h[p]? = some slots) :
    (insert_into_existing_page p t).wp
      (fun r s' => s.io.After s'.io ∧
        ((r = none ∧ heap.free d < t.length + heap.SLOT_SIZE ∧ HoldsHeap store n m h s') ∨
          (r = some ⟨p, slots.length⟩ ∧ t.length + heap.SLOT_SIZE ≤ heap.free d ∧
            ∃ d', HoldsHeap store n (m.set p d') (h.set p (slots ++ [some t])) s' ∧
              heap.free d' + t.length + heap.SLOT_SIZE = heap.free d)))
      (fun e s' => HoldsHeap store n m h s' ∧ s.io.After s'.io ∧ e = .IoError ∧
        s.io.faults.write ≠ []) s := by
  have hgood := hh.slotted.good p d slots hd hs
  have hp : p < m.length := (List.getElem?_eq_some_iff.mp hd).1
  unfold insert_into_existing_page
  rw [wp_bind]
  apply wp_mono (fetch.spec hh.ready p)
  · rintro handle s1 ⟨l, rfl, hm, rfl, h1, hafter, -⟩
    rw [wp_bind]
    refine wp_frame_data h1 hd ?_
    rw [hgood.can_insert_eq]
    by_cases hroom : t.length + heap.SLOT_SIZE ≤ heap.free d
    · obtain ⟨d', hins, hlen, hgood', hfree⟩ := hgood.insert_tuple_eq ht hroom
      rw [decide_eq_true hroom]
      simp only [hins]
      rw [wp_bind]
      have hsize : d'.length = store.page_size := hlen.trans (h1.pool.length_of_page hd)
      apply wp_mono (set_frame_data.spec h1 hsize) _ (fun _ _ hf => hf.elim)
      rintro _ s2 ⟨h2, hio2⟩
      rw [wp_bind]
      apply wp_mono (unpin.spec h2 (fun _ => rfl)) _ (fun _ _ hf => hf.elim)
      rintro _ s3 ⟨h3, hio3⟩
      refine (wp_pure _).mpr ⟨by rw [hio3, hio2]; exact hafter, Or.inr ⟨rfl, hroom, d', ?_, hfree⟩⟩
      exact ⟨h3, hh.slotted.set hgood', hh.header, hh.small⟩
    · rw [decide_eq_false hroom]
      simp only
      rw [wp_bind]
      apply wp_mono (unpin.spec h1 (by simp [hm])) _ (fun _ _ hf => hf.elim)
      rintro _ s2 ⟨h2, hio2⟩
      exact (wp_pure _).mpr
        ⟨by rw [hio2]; exact hafter, Or.inl ⟨rfl, by omega, HoldsHeap.ready' hh h2⟩⟩
  · rintro e s1 ⟨h1, hafter, ⟨-, hle⟩ | ⟨rfl, hne⟩⟩
    · omega
    · exact ⟨HoldsHeap.ready' hh h1, hafter, rfl, hne⟩

/-- What an insert that fails leaves behind. -/
def Refused (store : PageStore) (n : Nat) (m : List Bytes) (h : Heap) (t : Bytes)
    (s : HeapState) (e : Error) (s' : HeapState) : Prop :=
  (e = .OutOfMemory ∧ store.page_size < t.length + heap.SLOT_SIZE + heap.PAGE_HEADER_SIZE ∧
    HoldsHeap store n m h s') ∨
  (e = .Overflow ∧ 2 ^ 64 ≤ (m.length + 1) * store.page_size ∧ HoldsHeap store n m h s') ∨
  (e = .IoError ∧ s.io.faults.write ≠ [] ∧ (HoldsHeap store n m h s' ∨
    HoldsHeap store n (m ++ [List.replicate store.page_size 0]) (h ++ [[]]) s'))

theorem count_lt (hh : HoldsHeap store n m h s) : m.length + 1 < 2 ^ 64 := by
  have hlen := hh.ready.pool.laid.length_eq
  rw [← hh.ready.pool.frames.count] at hlen
  have hfits := hh.ready.pool.laid.fits
  have hhead : 28 ≤ store.page_size := hh.header
  have : m.length * 28 ≤ m.length * store.page_size := Nat.mul_le_mul_left _ hhead
  omega

theorem insert_into_new_page.spec (hh : HoldsHeap store n m h s) (ht : t ≠ [])
    (hfull : ∀ e ∈ m, heap.free e < t.length + heap.SLOT_SIZE) :
    (insert_into_new_page t).wp
      (fun id s' => s.io.After s'.io ∧ ∃ m' h', Placed store.page_size t m h id m' h' ∧
        HoldsHeap store n m' h' s')
      (fun e s' => s.io.After s'.io ∧ Refused store n m h t s e s') s := by
  have hhead : 28 ≤ store.page_size := hh.header
  have hmax : store.page_size ≤ 65535 := hh.small
  have hzeros := heap.good_zeros hh.header hh.small
  have hcap : (store.page_size + (2 ^ 64 - heap.PAGE_HEADER_SIZE)) % 2 ^ 64 =
      store.page_size - 28 := by
    simp only [heap.PAGE_HEADER_SIZE]
    omega
  unfold insert_into_new_page
  rw [wp_bind, wp_get, hh.ready.page_size, hcap]
  dsimp only
  by_cases hsize : t.length + heap.SLOT_SIZE > store.page_size - 28
  · rw [if_pos hsize]
    refine (wp_fail _).mpr ⟨.refl _, Or.inl ⟨rfl, ?_, hh⟩⟩
    simp only [heap.PAGE_HEADER_SIZE]
    omega
  rw [if_neg hsize, wp_bind]
  apply wp_allocate hh.ready (count_lt hh)
  · intro s1 h1 hafter1
    have hadded : HoldsHeap store n (m ++ [List.replicate store.page_size 0]) (h ++ [[]]) s1 :=
      ⟨h1, hh.slotted.append hzeros.1, hh.header, hh.small⟩
    rw [wp_bind]
    apply wp_mono (fetch_new.spec h1 (p := m.length) (by simp))
    · rintro handle s2 ⟨l, hp, hm, rfl, h2, hafter2⟩
      have hset : ∀ (d e : Bytes), (m ++ [d]).set m.length e = m ++ [e] := by
        intro d e
        rw [List.set_append_right _ _ (Nat.le_refl _), Nat.sub_self]
        rfl
      have hset' : ∀ (d e : Bytes), (m ++ [d]).set l.page e = m ++ [e] := hp ▸ hset
      rw [hset] at h2
      rw [wp_bind]
      refine wp_frame_data h2 (d := List.replicate store.page_size 0) (by rw [hp]; simp) ?_
      obtain ⟨d1, hinit, hlen1, hgood1, hfree1⟩ := heap.initialize_page.spec
        (List.replicate store.page_size 0) m.length (by simpa using hh.header)
        (by simpa using hh.small)
      have hroom : t.length + heap.SLOT_SIZE ≤ heap.free d1 := by
        rw [hfree1, List.length_replicate]
        simp only [heap.PAGE_HEADER_SIZE]
        omega
      obtain ⟨d2, hins, hlen2, hgood2, hfree2⟩ := hgood1.insert_tuple_eq ht hroom
      rw [hinit]
      simp only
      rw [wp_bind]
      rw [List.length_replicate] at hlen1
      apply wp_mono (set_frame_data.spec h2 hlen1) _ (fun _ _ hf => hf.elim)
      rintro _ s3 ⟨h3, hio3⟩
      rw [hset'] at h3
      simp only [hins]
      rw [wp_bind]
      apply wp_mono (set_frame_data.spec (l := { l with mutated := true }) h3
        (hlen2.trans hlen1)) _ (fun _ _ hf => hf.elim)
      rintro _ s4 ⟨h4, hio4⟩
      rw [hset'] at h4
      rw [wp_bind]
      apply wp_mono (unpin.spec h4 (fun _ => rfl)) _ (fun _ _ hf => hf.elim)
      rintro _ s5 ⟨h5, hio5⟩
      refine (wp_pure _).mpr ⟨by rw [hio5, hio4, hio3]; exact hafter1.trans hafter2,
        m ++ [d2], h ++ [[some t]], ?_, ⟨h5, hh.slotted.append hgood2, hh.header, hh.small⟩⟩
      refine Placed.new hfull ?_ ?_
      · simp only [heap.PAGE_HEADER_SIZE]
        omega
      · rw [List.length_replicate] at hfree1
        simp only [heap.PAGE_HEADER_SIZE] at hfree1 ⊢
        omega
    · rintro e s2 ⟨h2, hafter2, rfl, hne⟩
      refine ⟨hafter1.trans hafter2, Or.inr (Or.inr ⟨rfl, ?_, Or.inr ?_⟩)⟩
      · exact hafter1.write_ne_nil hne
      · exact HoldsHeap.ready' hadded h2
  · intro hle
    exact ⟨.refl _, Or.inr (Or.inl ⟨rfl, hle, hh⟩)⟩

/-- The loop over the pages from `p` on, after the pages before had no room. -/
theorem insert_loop.spec (ht : t ≠ []) (pages p : Nat) (hh : HoldsHeap store n m h s)
    (hp : p + pages = m.length)
    (hfirst : ∀ q < p, ∀ e, m[q]? = some e → heap.free e < t.length + heap.SLOT_SIZE) :
    (insert_loop t pages p).wp
      (fun id s' => s.io.After s'.io ∧ ∃ m' h', Placed store.page_size t m h id m' h' ∧
        HoldsHeap store n m' h' s')
      (fun e s' => s.io.After s'.io ∧ Refused store n m h t s e s') s := by
  induction pages generalizing p s with
  | zero =>
    unfold insert_loop
    have hfull : ∀ e ∈ m, heap.free e < t.length + heap.SLOT_SIZE := by
      intro e he
      obtain ⟨q, hq⟩ := List.mem_iff_getElem?.mp he
      exact hfirst q (by have := (List.getElem?_eq_some_iff.mp hq).1; omega) e hq
    exact insert_into_new_page.spec hh ht hfull
  | succ pages ih =>
    obtain ⟨d, hd⟩ : ∃ d, m[p]? = some d := ⟨_, List.getElem?_eq_getElem (by omega)⟩
    obtain ⟨slots, hs, -⟩ := hh.slotted.slots_of hd
    unfold insert_loop
    rw [wp_bind]
    apply wp_mono (insert_into_existing_page.spec hh ht hd hs)
    · rintro r s1 ⟨hafter, ⟨rfl, hfull, h1⟩ | ⟨rfl, hroom, d', h1, hfree⟩⟩
      · have hnext := ih (p + 1) h1 (by omega) (by
          intro q hq e he
          by_cases hqp : q = p
          · subst hqp
            rw [hd] at he
            cases he
            exact hfull
          · exact hfirst q (by omega) e he)
        apply wp_mono hnext
        · rintro id s2 ⟨hafter2, hplaced⟩
          exact ⟨hafter.trans hafter2, hplaced⟩
        · rintro e s2 ⟨hafter2, hrest⟩
          refine ⟨hafter.trans hafter2, ?_⟩
          rcases hrest with h1 | h1 | ⟨rfl, hne, h1⟩
          · exact Or.inl h1
          · exact Or.inr (Or.inl h1)
          · exact Or.inr (Or.inr ⟨rfl, hafter.write_ne_nil hne, h1⟩)
      · exact (wp_pure _).mpr
          ⟨hafter, _, _, Placed.existing hd hs hroom hfirst hfree, h1⟩
    · rintro e s1 ⟨h1, hafter, rfl, hne⟩
      exact ⟨hafter, Or.inr (Or.inr ⟨rfl, hne, Or.inl h1⟩)⟩

theorem insert_tuple.spec (hh : HoldsHeap store n m h s) (ht : t ≠ []) :
    (insert_tuple t).wp
      (fun id s' => s.io.After s'.io ∧ ∃ m' h', Placed store.page_size t m h id m' h' ∧
        HoldsHeap store n m' h' s')
      (fun e s' => s.io.After s'.io ∧ Refused store n m h t s e s') s := by
  unfold insert_tuple
  rw [wp_bind]
  refine wp_check_open hh.ready ?_
  rw [wp_bind]
  refine wp_page_count hh.ready ?_
  exact insert_loop.spec ht m.length 0 hh (by omega) (by simp)

/-! ## Delete and update -/

theorem delete_tuple.spec (hh : HoldsHeap store n m h s) (id : TupleId) :
    (delete_tuple id).wp
      (fun _ s' => s.io.After s'.io ∧ ∃ t m', h.get id = some t ∧
        HoldsHeap store n m' (h.erase id) s')
      (fun e s' => s.io.After s'.io ∧ HoldsHeap store n m h s' ∧
        (h.get id = none ∨ (e = .IoError ∧ s.io.faults.write ≠ []))) s := by
  unfold delete_tuple
  rw [wp_bind]
  refine wp_check_open hh.ready ?_
  rw [wp_bind]
  apply wp_mono (fetch.spec hh.ready id.page_id)
  · rintro handle s1 ⟨l, hp, hm, rfl, h1, hafter, hlt⟩
    obtain ⟨d, hd⟩ : ∃ d, m[l.page]? = some d := ⟨_, List.getElem?_eq_getElem (hp ▸ hlt)⟩
    obtain ⟨slots, hs, hgood⟩ := hh.slotted.slots_of hd
    rw [hp] at hs
    have hdel := hgood.delete_tuple_eq id.slot_idx
    rw [wp_bind]
    refine wp_frame_data h1 hd ?_
    have hget := Heap.get_eq hs
    have hcases : (∃ e, heap.delete_tuple d id.slot_idx = .error e ∧ h.get id = none) ∨
        ∃ t, slots[id.slot_idx]? = some (some t) := by
      rcases hx : slots[id.slot_idx]? with _ | _ | t
      · rw [hx] at hdel hget
        exact Or.inl ⟨_, hdel, hget⟩
      · rw [hx] at hdel hget
        exact Or.inl ⟨_, hdel, hget⟩
      · exact Or.inr ⟨t, rfl⟩
    rcases hcases with ⟨e, he, hnone⟩ | ⟨t, hx⟩
    · -- a slot that is not live is refused, and the page goes back unchanged
      rw [he]
      simp only
      rw [wp_bind]
      apply wp_mono (unpin_clean.spec h1 hm) _ (fun _ _ hf => hf.elim)
      rintro _ s2 ⟨h2, hio2⟩
      exact (wp_fail _).mpr ⟨by rw [hio2]; exact hafter, HoldsHeap.ready' hh h2,
        Or.inl hnone⟩
    · rw [hx] at hdel hget
      obtain ⟨d', hok, hlen, hgood', -⟩ := hdel
      rw [hok]
      simp only
      rw [wp_bind]
      apply wp_mono (set_frame_data.spec h1 (hlen.trans (h1.pool.length_of_page hd))) _
        (fun _ _ hf => hf.elim)
      rintro _ s2 ⟨h2, hio2⟩
      apply wp_mono (unpin.spec h2 (fun _ => rfl)) _ (fun _ _ hf => hf.elim)
      rintro _ s3 ⟨h3, hio3⟩
      refine ⟨by rw [hio3, hio2]; exact hafter, t, m.set l.page d', hget, h3, ?_, hh.header,
        hh.small⟩
      rw [Heap.erase_eq hs, hp]
      exact hh.slotted.set hgood'
  · rintro e s1 ⟨h1, hafter, ⟨rfl, hle⟩ | ⟨rfl, hne⟩⟩
    · refine ⟨hafter, HoldsHeap.ready' hh h1, Or.inl ?_⟩
      unfold Heap.get
      rw [List.getElem?_eq_none (hh.slotted.length ▸ hle)]
      rfl
    · exact ⟨hafter, HoldsHeap.ready' hh h1, Or.inr ⟨rfl, hne⟩⟩

end EdbHeapEngine

/-! ## What an insert and a delete do to the ids -/

namespace Heap

variable {size : Nat} {t : Bytes} {m m' : List Bytes} {h h' : Heap} {id : TupleId}

/-- The id of a placed tuple is new. -/
theorem not_issued_of_placed (hs : Slotted m h) (hp : Placed size t m h id m' h') :
    ¬ h.Issued id := by
  rintro ⟨slots, hslots, hlt⟩
  cases hp with
  | existing hd hslots' =>
    rw [hslots'] at hslots
    cases hslots
    exact Nat.lt_irrefl _ hlt
  | new =>
    rw [List.getElem?_eq_none (Nat.le_of_eq hs.length.symm)] at hslots
    cases hslots

theorem issued_of_placed (hs : Slotted m h) (hp : Placed size t m h id m' h') (j : TupleId) :
    h'.Issued j ↔ j = id ∨ h.Issued j := by
  cases hp with
  | @existing p d d' slots hd hslots =>
    have hlt : p < h.length := (List.getElem?_eq_some_iff.mp hslots).1
    obtain ⟨q, i⟩ := j
    unfold Issued
    simp only [TupleId.mk.injEq]
    by_cases hq : q = p
    · subst hq
      rw [List.getElem?_set_self hlt]
      simp only [Option.some.injEq, exists_eq_left', List.length_append, List.length_singleton,
        hslots, true_and]
      omega
    · rw [List.getElem?_set_ne (Ne.symm hq)]
      simp [hq]
  | new =>
    obtain ⟨q, i⟩ := j
    unfold Issued
    simp only [TupleId.mk.injEq]
    by_cases hq : q < h.length
    · rw [List.getElem?_append_left hq]
      have hne : q ≠ m.length := by rw [hs.length]; omega
      simp [hne]
    · rw [List.getElem?_eq_none (l := h) (by omega)]
      by_cases hqm : q = h.length
      · subst hqm
        rw [List.getElem?_concat_length]
        simp [hs.length]
      · rw [List.getElem?_eq_none (by simp; omega)]
        simp only [reduceCtorEq, false_and, exists_false, or_false, false_iff, not_and]
        intro he
        rw [hs.length] at he
        omega

theorem get_of_placed (hs : Slotted m h) (hp : Placed size t m h id m' h') (j : TupleId) :
    h'.get j = if j = id then some t else h.get j := by
  cases hp with
  | @existing p d d' slots hd hslots =>
    have hlt : p < h.length := (List.getElem?_eq_some_iff.mp hslots).1
    obtain ⟨q, i⟩ := j
    rw [get_set hlt]
    by_cases hq : q = p
    · subst hq
      rw [if_pos rfl]
      simp only [TupleId.mk.injEq, true_and]
      rw [show h.get ⟨q, i⟩ = _ from get_eq hslots]
      by_cases hi : i = slots.length
      · subst hi
        simp
      · rw [if_neg hi]
        by_cases hlt' : i < slots.length
        · rw [List.getElem?_append_left hlt']
        · rw [List.getElem?_eq_none (by simp; omega), List.getElem?_eq_none (by simp; omega)]
    · rw [if_neg hq, if_neg (by simp [hq])]
  | new =>
    obtain ⟨q, i⟩ := j
    simp only [TupleId.mk.injEq]
    unfold get
    by_cases hq : q < h.length
    · have hne : q ≠ m.length := by rw [hs.length]; omega
      rw [List.getElem?_append_left hq, if_neg (by simp [hne])]
    · rw [List.getElem?_eq_none (l := h) (by simp; omega)]
      by_cases hqm : q = h.length
      · subst hqm
        rw [List.getElem?_concat_length, hs.length]
        by_cases hi : i = 0
        · subst hi; simp
        · rw [if_neg (by simp [hi])]
          simp [List.getElem?_eq_none (l := [some t]) (i := i) (by simp; omega)]
      · rw [List.getElem?_eq_none (by simp; omega), if_neg (by rw [hs.length]; omega)]

theorem get_erase (h : Heap) (id j : TupleId) :
    (h.erase id).get j = if j = id then none else h.get j := by
  rcases hs : h[id.page_id]? with _ | slots
  · have herase : h.erase id = h := by
      unfold erase
      rw [List.modify_eq_set_getElem?, hs]
      simp
    rw [herase]
    split
    · rename_i he
      subst he
      unfold get
      rw [hs]
      rfl
    · rfl
  · have hlt : id.page_id < h.length := (List.getElem?_eq_some_iff.mp hs).1
    obtain ⟨p, i⟩ := id
    obtain ⟨q, k⟩ := j
    rw [erase_eq hs, get_set hlt]
    simp only [TupleId.mk.injEq]
    by_cases hq : q = p
    · subst hq
      rw [if_pos rfl, show h.get ⟨q, k⟩ = _ from get_eq hs]
      by_cases hk : k = i
      · subst hk
        rw [if_pos ⟨rfl, rfl⟩]
        rw [List.getElem?_set_self']
        cases slots[k]? <;> rfl
      · rw [if_neg (by simp [hk]), List.getElem?_set_ne (Ne.symm hk)]
    · rw [if_neg hq, if_neg (by simp [hq])]

theorem issued_erase (h : Heap) (id j : TupleId) : (h.erase id).Issued j ↔ h.Issued j := by
  unfold Issued erase
  rw [List.getElem?_modify]
  rcases h[j.page_id]? with _ | slots
  · simp
  · by_cases he : id.page_id = j.page_id
    · simp [he]
    · simp [he]

end Heap

end edb
