-- The three eviction policies of the buffer pool (src/storage/buffer): clock
-- sweep, LRU-K and ARC. Each one keeps its own records of the pages and
-- names a frame to reuse. The buffer pool owns the frames, the pins and the
-- page bytes.
import Mathlib.Logic.Function.Basic
import Mathlib.Tactic.Ring
import Edb.StorageIO

namespace edb

/-- What a policy may see of a frame. -/
structure EvictionFrameState where
  page_id : Nat := 0
  valid : Bool := false
  pinned : Bool := false
  deriving DecidableEq, Repr

def is_evictable (frames : List EvictionFrameState) (frame_index : Nat) : Bool :=
  match frames[frame_index]? with
  | none => false
  | some frame => frame.valid && !frame.pinned

/-! ## Clock sweep -/

structure ClockSweepPolicy where
  referenced : List Bool := []
  clock_hand : Nat := 0
  deriving DecidableEq, Repr

namespace ClockSweepPolicy

def reset (capacity : Nat) : Call Error ClockSweepPolicy Unit :=
  .modify fun _ => { referenced := List.replicate capacity false, clock_hand := 0 }

def set_referenced (frame_index : Nat) (value : Bool) : Call Error ClockSweepPolicy Unit := do
  let policy ← .get
  if frame_index ≥ policy.referenced.length then .fail .InvalidArgument
  else .modify fun c => { c with referenced := c.referenced.set frame_index value }

def record_access (_page_id frame_index : Nat) : Call Error ClockSweepPolicy Unit :=
  set_referenced frame_index true

def record_miss (_page_id : Nat) : Call Error ClockSweepPolicy Unit := pure ()

def record_load (page_id frame_index : Nat) : Call Error ClockSweepPolicy Unit :=
  record_access page_id frame_index

def record_evict (_page_id frame_index : Nat) : Call Error ClockSweepPolicy Unit :=
  set_referenced frame_index false

/-- The loop of `choose_victim`, with the scans that are left. -/
def sweep (frames : List EvictionFrameState) : Nat → Call Error ClockSweepPolicy Nat
  | 0 => .fail .BufferPoolFull
  | scans + 1 => do
    let policy ← .get
    let frame_index := policy.clock_hand
    let next_hand := (policy.clock_hand + 1) % frames.length
    if is_evictable frames frame_index then
      if policy.referenced[frame_index]?.getD false then
        .modify fun c => { referenced := c.referenced.set frame_index false, clock_hand := next_hand }
        sweep frames scans
      else
        .modify fun c => { c with clock_hand := next_hand }
        pure frame_index
    else
      .modify fun c => { c with clock_hand := next_hand }
      sweep frames scans

def choose_victim (frames : List EvictionFrameState) : Call Error ClockSweepPolicy Nat := do
  let policy ← .get
  if frames.isEmpty || policy.referenced.length != frames.length then .fail .InvalidArgument
  else sweep frames (frames.length * 2)

end ClockSweepPolicy

/-! ## LRU-K -/

structure LruKPolicy where
  k_history : Nat := 2
  tick : Nat := 0
  histories : Nat → Option (List Nat) := fun _ => none

namespace LruKPolicy

def reset (_capacity : Nat) : Call Error LruKPolicy Unit :=
  .modify fun l => { l with tick := 0, histories := fun _ => none }

/-- The page gets the next tick, and keeps its last `k_history` ticks. -/
def record_access (page_id _frame_index : Nat) : Call Error LruKPolicy Unit :=
  .modify fun l =>
    let tick := (l.tick + 1) % 2 ^ 64
    let history := (l.histories page_id).getD [] ++ [tick]
    { l with
      tick
      histories := Function.update l.histories page_id
        (some (history.drop (history.length - l.k_history))) }

def record_miss (_page_id : Nat) : Call Error LruKPolicy Unit := pure ()

def record_load (page_id frame_index : Nat) : Call Error LruKPolicy Unit :=
  record_access page_id frame_index

def record_evict (_page_id _frame_index : Nat) : Call Error LruKPolicy Unit := pure ()

/-- The best victim so far: its frame, whether its history is full, its score. -/
structure Best where
  victim : Nat
  full_history : Bool
  score : Nat
  deriving DecidableEq, Repr

/-- The loop of `choose_victim` over the frames from `frame_index` on. -/
def choose_loop (l : LruKPolicy) :
    List EvictionFrameState → Nat → Option Best → Result Nat
  | [], _, none => .error .BufferPoolFull
  | [], _, some best => .ok best.victim
  | frame :: rest, frame_index, best =>
    if !frame.valid || frame.pinned then choose_loop l rest (frame_index + 1) best
    else
      match l.histories frame.page_id with
      | none | some [] => .ok frame_index
      | some (score :: later) =>
        let full_history := decide ((score :: later).length ≥ l.k_history)
        let mine : Best := { victim := frame_index, full_history, score }
        match best with
        | none => choose_loop l rest (frame_index + 1) (some mine)
        | some b =>
          if !full_history && b.full_history then
            choose_loop l rest (frame_index + 1) (some mine)
          else if full_history == b.full_history && decide (score < b.score) then
            choose_loop l rest (frame_index + 1) (some { b with victim := frame_index, score })
          else choose_loop l rest (frame_index + 1) (some b)

def choose_victim (frames : List EvictionFrameState) : Call Error LruKPolicy Nat := do
  let l ← .get
  .ofExcept (l.choose_loop frames 0 none)

end LruKPolicy

/-! ## ARC -/

inductive Location where
  | T1
  | T2
  | B1
  | B2
  deriving DecidableEq, Repr

/-- The lists have the most recently used page at the front. -/
structure ArcPolicy where
  capacity : Nat := 0
  target_recent : Nat := 0
  pending_b2_hit : Bool := false
  t1 : List Nat := []
  t2 : List Nat := []
  b1 : List Nat := []
  b2 : List Nat := []
  locations : Nat → Option Location := fun _ => none
  resident_frames : Nat → Option Nat := fun _ => none

namespace ArcPolicy

def erase_page (pages : List Nat) (page_id : Nat) : List Nat := pages.erase page_id

def push_front_unique (pages : List Nat) (page_id : Nat) : List Nat :=
  page_id :: erase_page pages page_id

/-- `remove_lru_ghost` on `b1`. -/
def remove_lru_b1 (a : ArcPolicy) : ArcPolicy :=
  match a.b1.getLast? with
  | none => a
  | some page_id =>
    { a with b1 := a.b1.dropLast, locations := Function.update a.locations page_id none }

/-- `remove_lru_ghost` on `b2`. -/
def remove_lru_b2 (a : ArcPolicy) : ArcPolicy :=
  match a.b2.getLast? with
  | none => a
  | some page_id =>
    { a with b2 := a.b2.dropLast, locations := Function.update a.locations page_id none }

/-- The loop `while (cond) body`, for at most `fuel` rounds. -/
def while_loop (cond : ArcPolicy → Bool) (body : ArcPolicy → ArcPolicy) :
    Nat → ArcPolicy → ArcPolicy
  | 0, a => a
  | fuel + 1, a => if cond a then while_loop cond body fuel (body a) else a

/-- Each round takes one ghost off a list, so the lengths bound the rounds. -/
def prune_ghosts (a : ArcPolicy) : ArcPolicy :=
  let a := while_loop (fun a => a.b1.length > a.capacity) remove_lru_b1 a.b1.length a
  let a := while_loop (fun a => a.b2.length > a.capacity) remove_lru_b2 a.b2.length a
  while_loop (fun a => a.b1.length + a.b2.length > a.capacity)
    (fun a => if a.b1.length ≥ a.b2.length then remove_lru_b1 a else remove_lru_b2 a)
    (a.b1.length + a.b2.length) a

def reset (new_capacity : Nat) : Call Error ArcPolicy Unit :=
  .modify fun _ => { capacity := new_capacity }

def record_access (page_id frame_index : Nat) : Call Error ArcPolicy Unit := .modify fun a =>
  let a := { a with resident_frames := Function.update a.resident_frames page_id (some frame_index) }
  match a.locations page_id with
  | none =>
    { a with
      locations := Function.update a.locations page_id (some .T1)
      t1 := push_front_unique a.t1 page_id }
  | some .T1 =>
    { a with
      t1 := erase_page a.t1 page_id
      t2 := push_front_unique a.t2 page_id
      locations := Function.update a.locations page_id (some .T2) }
  | some .T2 => { a with t2 := push_front_unique a.t2 page_id }
  | some _ => a

def record_miss (page_id : Nat) : Call Error ArcPolicy Unit := .modify fun a =>
  let a := { a with pending_b2_hit := false }
  match a.locations page_id with
  | some .B1 =>
    let delta := max 1 (a.b2.length / max 1 a.b1.length)
    { a with target_recent := min a.capacity (a.target_recent + delta) }
  | some .B2 =>
    let delta := max 1 (a.b1.length / max 1 a.b2.length)
    { a with
      target_recent := if a.target_recent > delta then a.target_recent - delta else 0
      pending_b2_hit := true }
  | _ => a

def record_load (page_id frame_index : Nat) : Call Error ArcPolicy Unit := .modify fun a =>
  let a := { a with resident_frames := Function.update a.resident_frames page_id (some frame_index) }
  match a.locations page_id with
  | some .B1 =>
    prune_ghosts { a with
      b1 := erase_page a.b1 page_id
      t2 := push_front_unique a.t2 page_id
      locations := Function.update a.locations page_id (some .T2) }
  | some .B2 =>
    prune_ghosts { a with
      b2 := erase_page a.b2 page_id
      t2 := push_front_unique a.t2 page_id
      locations := Function.update a.locations page_id (some .T2) }
  | _ =>
    prune_ghosts { a with
      locations := Function.update a.locations page_id (some .T1)
      t1 := push_front_unique a.t1 page_id }

def record_evict (page_id _frame_index : Nat) : Call Error ArcPolicy Unit := .modify fun a =>
  let a := { a with resident_frames := Function.update a.resident_frames page_id none }
  match a.locations page_id with
  | none => a
  | some .T1 =>
    prune_ghosts { a with
      t1 := erase_page a.t1 page_id
      b1 := push_front_unique a.b1 page_id
      locations := Function.update a.locations page_id (some .B1) }
  | some .T2 =>
    prune_ghosts { a with
      t2 := erase_page a.t2 page_id
      b2 := push_front_unique a.b2 page_id
      locations := Function.update a.locations page_id (some .B2) }
  | some _ => prune_ghosts a

/-- The loop of `choose_from_lru`, over the pages from the oldest on. -/
def choose_from (a : ArcPolicy) (frames : List EvictionFrameState) : List Nat → Option Nat
  | [] => none
  | page :: newer =>
    match a.resident_frames page with
    | none => choose_from a frames newer
    | some frame => if is_evictable frames frame then some frame else choose_from a frames newer

/-- `none` stands for `Error::NotFound`, which no caller passes on. -/
def choose_from_lru (a : ArcPolicy) (pages : List Nat) (frames : List EvictionFrameState) :
    Option Nat := a.choose_from frames pages.reverse

def choose_victim (frames : List EvictionFrameState) : Call Error ArcPolicy Nat := do
  let a ← .get
  let recent :=
    if a.t1.length > a.target_recent ∨ (a.pending_b2_hit ∧ a.t1.length = a.target_recent) then
      a.choose_from_lru a.t1 frames
    else none
  match recent with
  | some frame => pure frame
  | none =>
    match a.choose_from_lru a.t2 frames with
    | some frame => pure frame
    | none =>
      match a.choose_from_lru a.t1 frames with
      | some frame => pure frame
      | none => .fail .BufferPoolFull

end ArcPolicy

/-! ## The policy of a pool -/

inductive EvictionPolicyKind where
  | ClockSweep
  | LruK
  | Arc
  deriving DecidableEq, Repr

structure EvictionPolicyConfig where
  kind : EvictionPolicyKind := .ClockSweep
  lru_k_history : Nat := 2
  deriving DecidableEq, Repr

inductive EvictionPolicy where
  | clock (policy : ClockSweepPolicy)
  | lru_k (policy : LruKPolicy)
  | arc (policy : ArcPolicy)

def make_eviction_policy (config : EvictionPolicyConfig) : EvictionPolicy :=
  match config.kind with
  | .ClockSweep => .clock {}
  | .LruK => .lru_k { k_history := config.lru_k_history }
  | .Arc => .arc {}

namespace EvictionPolicy

/-- The virtual call: the member of the policy at hand runs on its own state. -/
def dispatch {α : Type} (on_clock : Call Error ClockSweepPolicy α)
    (on_lru_k : Call Error LruKPolicy α) (on_arc : Call Error ArcPolicy α) :
    Call Error EvictionPolicy α := fun policy =>
  match policy with
  | .clock c => match on_clock.run c with
    | (r, c') => (r, .clock c')
  | .lru_k l => match on_lru_k.run l with
    | (r, l') => (r, .lru_k l')
  | .arc a => match on_arc.run a with
    | (r, a') => (r, .arc a')

def reset (capacity : Nat) : Call Error EvictionPolicy Unit :=
  dispatch (ClockSweepPolicy.reset capacity) (LruKPolicy.reset capacity)
    (ArcPolicy.reset capacity)

def record_access (page_id frame_index : Nat) : Call Error EvictionPolicy Unit :=
  dispatch (ClockSweepPolicy.record_access page_id frame_index)
    (LruKPolicy.record_access page_id frame_index) (ArcPolicy.record_access page_id frame_index)

def record_miss (page_id : Nat) : Call Error EvictionPolicy Unit :=
  dispatch (ClockSweepPolicy.record_miss page_id) (LruKPolicy.record_miss page_id)
    (ArcPolicy.record_miss page_id)

def record_load (page_id frame_index : Nat) : Call Error EvictionPolicy Unit :=
  dispatch (ClockSweepPolicy.record_load page_id frame_index)
    (LruKPolicy.record_load page_id frame_index) (ArcPolicy.record_load page_id frame_index)

def record_evict (page_id frame_index : Nat) : Call Error EvictionPolicy Unit :=
  dispatch (ClockSweepPolicy.record_evict page_id frame_index)
    (LruKPolicy.record_evict page_id frame_index) (ArcPolicy.record_evict page_id frame_index)

def choose_victim (frames : List EvictionFrameState) : Call Error EvictionPolicy Nat :=
  dispatch (ClockSweepPolicy.choose_victim frames) (LruKPolicy.choose_victim frames)
    (ArcPolicy.choose_victim frames)

end EvictionPolicy

end edb
