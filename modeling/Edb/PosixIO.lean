-- The POSIX backend (src/storage/io/posix/posix_io.cpp). Its read and write go
-- on until the buffer is done, over whatever the kernel answers: a part of what
-- was asked for, an interruption, an error, or the end of the file.
import Mathlib.Data.List.Count
import Edb.BuiltinTypes

open seq

namespace edb

open StorageIO (extend fill)

/-! ## The kernel -/

/-- What `pread64` or `pwrite64` says: how many bytes it moved, that a signal
came first, or that it failed. A read that moves none is at the end of the file. -/
inductive Answer where
  | moved (n : Nat)
  | interrupted
  | failed
  deriving DecidableEq, Repr

/-- A call with the offset and the number of bytes that it asks for. -/
structure SysCall where
  off : Int
  count : Nat
  answer : Answer
  deriving DecidableEq, Repr

/-- What a loop leaves: its result, the calls it made, and the memory that they
changed. -/
structure Transfer where
  result : Result Nat
  calls : List SysCall := []
  memory : Bytes
  deriving DecidableEq, Repr

/-- The transfer with one call before it. -/
def Transfer.after (call : SysCall) (t : Transfer) : Transfer :=
  { t with calls := call :: t.calls }

/-- What a write of the kernel leaves of a file. A gap before it is zero. -/
def put (file : Bytes) (off : Nat) (data : Bytes) : Bytes :=
  patch (extend file (off + data.length)) off data

/-- A descriptor below zero is a closed file. -/
structure PosixIO where
  fd : Int := -1
  deriving DecidableEq, Repr

namespace PosixIO

/-- An `off64_t` that goes forward by `n`. -/
def forward (off : Int) (n : Nat) : Int := (off + n).bmod (2 ^ 64)

/-- The loop of `read`. Where the answers end before it does, it does not return. -/
def read_loop (file : Bytes) : List Answer → Nat → Int → Bytes → Transfer
  | [], bytes_read, _, buf =>
    if bytes_read < buf.length then { result := .error .Diverges, memory := buf }
    else { result := .ok bytes_read, memory := buf }
  | answer :: rest, bytes_read, off, buf =>
    if bytes_read < buf.length then
      .after { off, count := buf.length - bytes_read, answer } <|
        match answer with
        | .interrupted => read_loop file rest bytes_read off buf
        | .failed => { result := .error .IoError, memory := buf }
        | .moved n =>
          if n = 0 then { result := .ok bytes_read, memory := buf }
          else read_loop file rest (bytes_read + n) (forward off n)
            (patch buf bytes_read (slice file off.toNat n))
    else { result := .ok bytes_read, memory := buf }

/-- An empty buffer stops the program in an assertion. -/
def read (io : PosixIO) (file : Bytes) (answers : List Answer) (offset : Nat) (buf : Bytes) :
    Transfer :=
  if io.fd < 0 then { result := .error .IoError, memory := buf }
  else read_loop file answers 0 (to_signed 8 offset) buf

/-- The loop of `write`. -/
def write_loop (buf : Bytes) : List Answer → Nat → Int → Bytes → Transfer
  | [], bytes_written, _, file =>
    if bytes_written < buf.length then { result := .error .Diverges, memory := file }
    else { result := .ok buf.length, memory := file }
  | answer :: rest, bytes_written, off, file =>
    if bytes_written < buf.length then
      .after { off, count := buf.length - bytes_written, answer } <|
        match answer with
        | .interrupted => write_loop buf rest bytes_written off file
        | .failed => { result := .error .IoError, memory := file }
        | .moved n =>
          write_loop buf rest (bytes_written + n) (forward off n)
            (put file off.toNat (slice buf bytes_written n))
    else { result := .ok buf.length, memory := file }

def write (io : PosixIO) (file : Bytes) (answers : List Answer) (offset : Nat) (buf : Bytes) :
    Transfer :=
  if io.fd < 0 then { result := .error .IoError, memory := file }
  else write_loop buf answers 0 (to_signed 8 offset) file

end PosixIO

/-! ## What the kernel may answer -/

/-- A read moves at least a byte and no more than was asked for and the file has.
It says that the file ends only where it does, and refuses an offset below zero. -/
def SysCall.MayRead (file : Bytes) (call : SysCall) : Prop :=
  match call.answer with
  | .moved 0 => (file.length : Int) ≤ call.off
  | .moved (n + 1) => 0 ≤ call.off ∧ n + 1 ≤ call.count ∧ call.off + (n + 1 : Nat) ≤ file.length
  | _ => True

/-- A write moves at least a byte and no more than was asked for, and leaves the
file below 2^63 bytes. It refuses an offset below zero. -/
def SysCall.MayWrite (call : SysCall) : Prop :=
  match call.answer with
  | .moved n => 0 ≤ call.off ∧ 1 ≤ n ∧ n ≤ call.count ∧ call.off + n < 2 ^ 63
  | _ => True

instance (file : Bytes) : DecidablePred (SysCall.MayRead file)
  | ⟨off, _, .moved 0⟩ => inferInstanceAs (Decidable ((file.length : Int) ≤ off))
  | ⟨off, count, .moved (n + 1)⟩ =>
    inferInstanceAs (Decidable (0 ≤ off ∧ n + 1 ≤ count ∧ off + (n + 1 : Nat) ≤ file.length))
  | ⟨_, _, .interrupted⟩ => isTrue trivial
  | ⟨_, _, .failed⟩ => isTrue trivial

instance : DecidablePred SysCall.MayWrite
  | ⟨off, count, .moved n⟩ =>
    inferInstanceAs (Decidable (0 ≤ off ∧ 1 ≤ n ∧ n ≤ count ∧ off + n < 2 ^ 63))
  | ⟨_, _, .interrupted⟩ => isTrue trivial
  | ⟨_, _, .failed⟩ => isTrue trivial

/-- The call failed, and not because of a signal. -/
def SysCall.Fails (call : SysCall) : Prop := call.answer = .failed

/-! ## Bytes -/

theorem slice_append_slice (xs : Bytes) (off n m : Nat) :
    slice xs off n ++ slice xs (off + n) m = slice xs off (n + m) := by
  unfold slice
  rw [List.take_add, List.drop_drop]

/-- A transfer into the part of a buffer that was not filled. -/
theorem patch_filled (front data buf : Bytes) :
    patch (front ++ buf.drop front.length) front.length data =
      front ++ data ++ buf.drop (front.length + data.length) := by
  unfold patch
  rw [List.take_left' rfl, List.drop_append]
  simp

theorem put_eq (file : Bytes) (off : Nat) (data : Bytes) :
    put file off data = file.take off ++ List.replicate (off - file.length) 0 ++ data ++
      file.drop (off + data.length) := by
  unfold put patch StorageIO.extend
  rw [List.take_append, List.drop_append, List.take_replicate, List.drop_replicate]
  simp
  omega

/-- Two writes, one right after the other, are one. -/
theorem put_put (file : Bytes) (off : Nat) (a b : Bytes) :
    put (put file off a) (off + a.length) b = put file off (a ++ b) := by
  have hlen : (file.take off ++ List.replicate (off - file.length) 0 ++ a).length =
      off + a.length := by
    simp
    omega
  have hgap : off + a.length - (put file off a).length = 0 := by
    rw [put_eq, List.length_append, hlen]
    omega
  have hfront : (put file off a).take (off + a.length) =
      file.take off ++ List.replicate (off - file.length) 0 ++ a := by
    rw [put_eq, List.take_left' hlen]
  have hback : (put file off a).drop (off + a.length + b.length) =
      file.drop (off + (a ++ b).length) := by
    rw [put_eq, ← List.drop_drop, List.drop_left' hlen, List.drop_drop, List.length_append,
      Nat.add_assoc]
  rw [put_eq (put file off a), hgap, hfront, hback, put_eq file off (a ++ b)]
  simp

namespace PosixIO

theorem forward_eq {off : Int} {n : Nat} (h0 : 0 ≤ off) (h : off + n < 2 ^ 63) :
    forward off n = off + n := by
  unfold forward
  exact Int.bmod_eq_of_le (by omega) (by omega)

theorem forward_from {base : Int} {r n : Nat} (h0 : 0 ≤ base + r) (h : base + r + n < 2 ^ 63) :
    forward (base + r) n = base + (r + n : Nat) := by
  rw [forward_eq h0 h]
  push_cast
  ring

/-- An offset that an `off64_t` does not hold becomes one below zero. -/
theorem offset_eq {offset : Nat} (h : offset < 2 ^ 64) (h0 : 0 ≤ to_signed 8 offset) :
    to_signed 8 offset = offset := by
  unfold to_signed at h0 ⊢
  rcases Nat.lt_or_ge offset (2 ^ 63) with hlt | hge
  · exact Int.bmod_eq_of_le (by omega) (by omega)
  · have hneg : (offset : Int).bmod (256 ^ 8) = offset - 2 ^ 64 := by
      rw [← Int.sub_bmod_right]
      exact Int.bmod_eq_of_le (by omega) (by omega)
    omega

/-! ## Reading -/

theorem read_loop_cons {file buf : Bytes} {r : Nat} (h : r < buf.length) (answer : Answer)
    (rest : List Answer) (off : Int) :
    read_loop file (answer :: rest) r off buf =
      .after { off, count := buf.length - r, answer } (match answer with
        | .interrupted => read_loop file rest r off buf
        | .failed => { result := .error .IoError, memory := buf }
        | .moved n =>
          if n = 0 then { result := .ok r, memory := buf }
          else read_loop file rest (r + n) (forward off n)
            (patch buf r (slice file off.toNat n))) :=
  if_pos h

theorem read_loop_done {file buf : Bytes} {r : Nat} (h : ¬r < buf.length) (answers : List Answer)
    (off : Int) : read_loop file answers r off buf = { result := .ok r, memory := buf } := by
  cases answers with
  | nil => exact if_neg h
  | cons answer rest => exact if_neg h

/-- The first `r` bytes of the buffer are those of the file from `base` on, and
the others are as they were. -/
structure Filled (file buf : Bytes) (base : Int) (r : Nat) (now : Bytes) : Prop where
  le : r ≤ buf.length
  inside : r = 0 ∨ (0 ≤ base ∧ base + r ≤ file.length)
  bytes : now = slice file base.toNat r ++ buf.drop r

section

variable {file buf now : Bytes} {base : Int} {r : Nat}

theorem Filled.length_front (h : Filled file buf base r now) :
    (slice file base.toNat r).length = r := by
  rcases h.inside with rfl | ⟨h0, hle⟩
  · simp
  · exact length_slice_of_le (by omega)

theorem Filled.length (h : Filled file buf base r now) : now.length = buf.length := by
  have hle := h.le
  rw [h.bytes, List.length_append, h.length_front, List.length_drop]
  omega

theorem filled_start : Filled file buf base 0 buf := ⟨Nat.zero_le _, .inl rfl, by simp [slice]⟩

/-- The kernel has moved `n` more bytes. -/
theorem Filled.next {n : Nat} (h : Filled file buf base r now) (h0 : 0 ≤ base + r)
    (hcount : n ≤ now.length - r) (hle : base + r + n ≤ file.length) :
    Filled file buf base (r + n) (patch now r (slice file (base + r).toNat n)) := by
  have hbase : 0 ≤ base := by
    rcases h.inside with rfl | ⟨hbase, -⟩
    · simpa using h0
    · exact hbase
  have hoff : (base + r).toNat = base.toNat + r := by omega
  have hfront := h.length_front
  have hdata : (slice file (base.toNat + r) n).length = n := length_slice_of_le (by omega)
  have hlen := h.length
  have hr := h.le
  refine ⟨by omega, .inr ⟨hbase, by omega⟩, ?_⟩
  have hpatch := patch_filled (slice file base.toNat r) (slice file (base.toNat + r) n) buf
  rw [hfront, hdata] at hpatch
  rw [h.bytes, hoff, hpatch, slice_append_slice]

/-- A read has filled a front part of the buffer when it ends. Where it returns
without an error, that is the whole buffer, or the file has ended. -/
theorem read_loop_fills (hfile : file.length < 2 ^ 63) (answers : List Answer) {off : Int}
    (hoff : off = base + r) (h : Filled file buf base r now)
    (hcalls : ∀ c ∈ (read_loop file answers r off now).calls, c.MayRead file) :
    ∃ m, Filled file buf base m (read_loop file answers r off now).memory ∧
      ∀ k, (read_loop file answers r off now).result = .ok k →
        k = m ∧ (m = buf.length ∨ file.length ≤ base + m) := by
  have hlen := h.length
  have hle := h.le
  induction answers generalizing r now off with
  | nil =>
    by_cases hmore : r < now.length
    · rw [read_loop, if_pos hmore]
      exact ⟨r, h, nofun⟩
    · rw [read_loop_done hmore]
      refine ⟨r, h, fun k hk => ?_⟩
      cases hk
      exact ⟨rfl, .inl (by omega)⟩
  | cons answer rest ih =>
    by_cases hmore : r < now.length
    · rw [read_loop_cons hmore] at hcalls ⊢
      have hfirst := hcalls _ List.mem_cons_self
      have hrest := fun c hc => hcalls c (List.mem_cons_of_mem _ hc)
      cases answer with
      | interrupted => exact ih hoff h hrest hlen hle
      | failed => exact ⟨r, h, nofun⟩
      | moved n =>
        cases n with
        | zero =>
          refine ⟨r, h, fun k hk => ?_⟩
          cases hk
          exact ⟨rfl, .inr (hoff ▸ hfirst)⟩
        | succ n =>
          obtain ⟨h0, hcount, hend⟩ := hfirst
          subst hoff
          have hnext := h.next h0 hcount hend
          have hoff := forward_from h0 (Int.lt_of_le_of_lt hend (by omega))
          exact ih hoff hnext hrest hnext.length hnext.le
    · rw [read_loop_done hmore]
      refine ⟨r, h, fun k hk => ?_⟩
      cases hk
      exact ⟨rfl, .inl (by omega)⟩

/-- A read that has not returned waits for an answer that moves it on. -/
theorem read_loop_returns (hfile : file.length < 2 ^ 63) (answers : List Answer) {off : Int}
    (hoff : off = base + r) (h : Filled file buf base r now)
    (hcalls : ∀ c ∈ (read_loop file answers r off now).calls, c.MayRead file)
    (henough : buf.length ≤ r + answers.countP (· != .interrupted)) :
    (∃ k, (read_loop file answers r off now).result = .ok k) ∨
      (read_loop file answers r off now).result = .error .IoError := by
  have hlen := h.length
  induction answers generalizing r now off with
  | nil =>
    rw [read_loop_done (by simp at henough; omega)]
    exact .inl ⟨r, rfl⟩
  | cons answer rest ih =>
    by_cases hmore : r < now.length
    · rw [read_loop_cons hmore] at hcalls ⊢
      have hfirst := hcalls _ List.mem_cons_self
      have hrest := fun c hc => hcalls c (List.mem_cons_of_mem _ hc)
      cases answer with
      | interrupted => exact ih hoff h hrest (by simpa using henough) hlen
      | failed => exact .inr rfl
      | moved n =>
        cases n with
        | zero => exact .inl ⟨r, rfl⟩
        | succ n =>
          obtain ⟨h0, hcount, hend⟩ := hfirst
          subst hoff
          have hnext := h.next h0 hcount hend
          have hoff := forward_from h0 (Int.lt_of_le_of_lt hend (by omega))
          refine ih hoff hnext hrest ?_ hnext.length
          rw [List.countP_cons_of_pos (by rfl)] at henough
          omega
    · rw [read_loop_done hmore]
      exact .inl ⟨r, rfl⟩

end

theorem read_loop_io_error (file : Bytes) (answers : List Answer) (r : Nat) (off : Int)
    (buf : Bytes) :
    (read_loop file answers r off buf).result = .error .IoError ↔
      ∃ c ∈ (read_loop file answers r off buf).calls, c.Fails := by
  induction answers generalizing r off buf with
  | nil =>
    unfold read_loop
    split <;> simp
  | cons answer rest ih =>
    by_cases hmore : r < buf.length
    · rw [read_loop_cons hmore]
      cases answer with
      | interrupted => simp [Transfer.after, SysCall.Fails, ih]
      | failed => simp [Transfer.after, SysCall.Fails]
      | moved n =>
        by_cases hn : n = 0
        · simp [Transfer.after, SysCall.Fails, hn]
        · simp [Transfer.after, SysCall.Fails, hn, ih]
    · simp [read_loop_done hmore]

/-! ## Writing -/

theorem write_loop_cons {buf : Bytes} {w : Nat} (h : w < buf.length) (answer : Answer)
    (rest : List Answer) (off : Int) (file : Bytes) :
    write_loop buf (answer :: rest) w off file =
      .after { off, count := buf.length - w, answer } (match answer with
        | .interrupted => write_loop buf rest w off file
        | .failed => { result := .error .IoError, memory := file }
        | .moved n =>
          write_loop buf rest (w + n) (forward off n) (put file off.toNat (slice buf w n))) :=
  if_pos h

theorem write_loop_done {buf : Bytes} {w : Nat} (h : ¬w < buf.length) (answers : List Answer)
    (off : Int) (file : Bytes) :
    write_loop buf answers w off file = { result := .ok buf.length, memory := file } := by
  cases answers with
  | nil => exact if_neg h
  | cons answer rest => exact if_neg h

/-- The first `w` bytes of the buffer are in the file, from `base` on. -/
structure Written (file buf : Bytes) (base : Int) (w : Nat) (now : Bytes) : Prop where
  le : w ≤ buf.length
  inside : w = 0 ∨ 0 ≤ base
  bytes : now = if w = 0 then file else put file base.toNat (buf.take w)

section

variable {file buf now : Bytes} {base : Int} {w : Nat}

theorem written_start : Written file buf base 0 file := ⟨Nat.zero_le _, .inl rfl, rfl⟩

theorem Written.next {n : Nat} (h : Written file buf base w now) (h0 : 0 ≤ base + w)
    (hpos : 1 ≤ n) (hcount : n ≤ buf.length - w) :
    Written file buf base (w + n) (put now (base + w).toNat (slice buf w n)) := by
  have hbase : 0 ≤ base := by
    rcases h.inside with rfl | hbase
    · simpa using h0
    · exact hbase
  have hle := h.le
  refine ⟨by omega, .inr hbase, ?_⟩
  rw [if_neg (by omega), h.bytes]
  rcases Nat.eq_zero_or_pos w with rfl | hw
  · simp [slice]
  · have hfront : (buf.take w).length = w := List.length_take_of_le hle
    have hoff : (base + w).toNat = base.toNat + (buf.take w).length := by omega
    rw [if_neg (by omega), hoff, put_put, slice, ← List.take_add]

/-- A write has put a front part of the buffer into the file when it ends, and
all of it where it returns without an error. -/
theorem write_loop_puts (answers : List Answer) {off : Int} (hoff : off = base + w)
    (h : Written file buf base w now)
    (hcalls : ∀ c ∈ (write_loop buf answers w off now).calls, c.MayWrite) :
    ∃ m, Written file buf base m (write_loop buf answers w off now).memory ∧
      ∀ k, (write_loop buf answers w off now).result = .ok k →
        k = buf.length ∧ m = buf.length := by
  have hle := h.le
  induction answers generalizing w now off with
  | nil =>
    by_cases hmore : w < buf.length
    · rw [write_loop, if_pos hmore]
      exact ⟨w, h, nofun⟩
    · rw [write_loop_done hmore]
      refine ⟨w, h, fun k hk => ?_⟩
      cases hk
      exact ⟨rfl, by omega⟩
  | cons answer rest ih =>
    by_cases hmore : w < buf.length
    · rw [write_loop_cons hmore] at hcalls ⊢
      have hfirst := hcalls _ List.mem_cons_self
      have hrest := fun c hc => hcalls c (List.mem_cons_of_mem _ hc)
      cases answer with
      | interrupted => exact ih hoff h hrest hle
      | failed => exact ⟨w, h, nofun⟩
      | moved n =>
        obtain ⟨h0, hpos, hcount, hend⟩ := hfirst
        subst hoff
        have hnext := h.next h0 hpos hcount
        exact ih (forward_from h0 hend) hnext hrest hnext.le
    · rw [write_loop_done hmore]
      refine ⟨w, h, fun k hk => ?_⟩
      cases hk
      exact ⟨rfl, by omega⟩

theorem write_loop_returns (answers : List Answer) (off : Int)
    (hcalls : ∀ c ∈ (write_loop buf answers w off now).calls, c.MayWrite)
    (henough : buf.length ≤ w + answers.countP (· != .interrupted)) :
    (∃ k, (write_loop buf answers w off now).result = .ok k) ∨
      (write_loop buf answers w off now).result = .error .IoError := by
  induction answers generalizing w off now with
  | nil =>
    rw [write_loop_done (by simp at henough; omega)]
    exact .inl ⟨_, rfl⟩
  | cons answer rest ih =>
    by_cases hmore : w < buf.length
    · rw [write_loop_cons hmore] at hcalls ⊢
      have hfirst := hcalls _ List.mem_cons_self
      have hrest := fun c hc => hcalls c (List.mem_cons_of_mem _ hc)
      cases answer with
      | interrupted => exact ih off hrest (by simpa using henough)
      | failed => exact .inr rfl
      | moved n =>
        obtain ⟨-, hpos, -, -⟩ := hfirst
        refine ih _ hrest ?_
        rw [List.countP_cons_of_pos (by rfl)] at henough
        omega
    · rw [write_loop_done hmore]
      exact .inl ⟨_, rfl⟩

end

theorem write_loop_io_error (buf : Bytes) (answers : List Answer) (w : Nat) (off : Int)
    (file : Bytes) :
    (write_loop buf answers w off file).result = .error .IoError ↔
      ∃ c ∈ (write_loop buf answers w off file).calls, c.Fails := by
  induction answers generalizing w off file with
  | nil =>
    unfold write_loop
    split <;> simp
  | cons answer rest ih =>
    by_cases hmore : w < buf.length
    · rw [write_loop_cons hmore]
      cases answer with
      | interrupted => simp [Transfer.after, SysCall.Fails, ih]
      | failed => simp [Transfer.after, SysCall.Fails]
      | moved n => simp [Transfer.after, SysCall.Fails, ih]
    · simp [write_loop_done hmore]

/-! ## Whole transfers -/

section

variable {file buf : Bytes} {offset : Nat} {base : Int} {answers : List Answer}

theorem read_loop_whole (hfile : file.length < 2 ^ 63) (hbase : 0 ≤ base → base = offset)
    (hbuf : buf ≠ []) (hcalls : ∀ c ∈ (read_loop file answers 0 base buf).calls, c.MayRead file)
    {k : Nat} (hk : (read_loop file answers 0 base buf).result = .ok k) :
    k = min buf.length (file.length - offset) ∧
      (read_loop file answers 0 base buf).memory = slice file offset k ++ buf.drop k := by
  have hpos : 0 < buf.length := List.length_pos_iff.mpr hbuf
  obtain ⟨m, ⟨hle, hinside, hbytes⟩, hall⟩ :=
    read_loop_fills hfile answers (Int.add_zero base).symm filled_start hcalls
  obtain ⟨rfl, hend⟩ := hall k hk
  have hbase := hbase (by omega)
  refine ⟨by omega, ?_⟩
  rw [hbytes, hbase, Int.toNat_natCast]

theorem write_loop_whole (hbase : 0 ≤ base → base = offset) (hbuf : buf ≠ [])
    (hcalls : ∀ c ∈ (write_loop buf answers 0 base file).calls, c.MayWrite)
    {k : Nat} (hk : (write_loop buf answers 0 base file).result = .ok k) :
    k = buf.length ∧ (write_loop buf answers 0 base file).memory = put file offset buf := by
  have hpos : 0 < buf.length := List.length_pos_iff.mpr hbuf
  obtain ⟨m, ⟨-, hinside, hbytes⟩, hall⟩ :=
    write_loop_puts answers (Int.add_zero base).symm written_start hcalls
  obtain ⟨rfl, rfl⟩ := hall k hk
  have hbase := hbase (by omega)
  rw [if_neg (by omega), List.take_length] at hbytes
  refine ⟨rfl, ?_⟩
  rw [hbytes, hbase, Int.toNat_natCast]

/-! ## The backend that the rest of the system sees -/

/-- A read that returns is a read of the backend, under the fault that says how
far it got. -/
theorem read_loop_refines (hfile : file.length < 2 ^ 63) (hbase : 0 ≤ base → base = offset)
    (hbuf : buf ≠ []) (hcalls : ∀ c ∈ (read_loop file answers 0 base buf).calls, c.MayRead file)
    (hreturns : (∃ k, (read_loop file answers 0 base buf).result = .ok k) ∨
      (read_loop file answers 0 base buf).result = .error .IoError) :
    ∃ fault, StorageIO.read_under fault file offset buf =
      ((read_loop file answers 0 base buf).result,
        ({ bytes := file }, (read_loop file answers 0 base buf).memory)) := by
  rcases hreturns with ⟨k, hk⟩ | hfails
  · obtain ⟨hlen, hmemory⟩ := read_loop_whole hfile hbase hbuf hcalls hk
    have hfound : slice file offset k = slice file offset buf.length := by
      unfold slice
      rw [List.take_eq_take_iff, List.length_drop]
      omega
    have hcount : (slice file offset buf.length).length = k := by
      rw [length_slice, hlen]
    refine ⟨.none, ?_⟩
    rw [hk, hmemory, hfound]
    show (Except.ok _, (_, fill buf _)) = _
    rw [fill, hcount]
    rfl
  · obtain ⟨m, hfilled, -⟩ :=
      read_loop_fills hfile answers (Int.add_zero base).symm filled_start hcalls
    have hle := hfilled.le
    have hfront : (slice file offset buf.length).take m = slice file base.toNat m := by
      rcases hfilled.inside with rfl | ⟨h0, -⟩
      · simp [slice]
      · rw [hbase h0, Int.toNat_natCast, slice, slice, List.take_take, Nat.min_eq_left hle]
    refine ⟨.fail m, ?_⟩
    rw [hfails, hfilled.bytes]
    show (Except.error _, (_, fill buf ((slice file offset buf.length).take m))) = _
    rw [hfront, fill, hfilled.length_front]
    rfl

/-- A write that returns is a write of the backend, where it starts inside the
file or right after it. -/
theorem write_loop_refines (hbase : 0 ≤ base → base = offset) (hbuf : buf ≠ [])
    (hinside : offset ≤ file.length)
    (hcalls : ∀ c ∈ (write_loop buf answers 0 base file).calls, c.MayWrite)
    (hreturns : (∃ k, (write_loop buf answers 0 base file).result = .ok k) ∨
      (write_loop buf answers 0 base file).result = .error .IoError) :
    ∃ fault, StorageIO.write_under fault file offset buf =
      ((write_loop buf answers 0 base file).result,
        { bytes := (write_loop buf answers 0 base file).memory }) := by
  rcases hreturns with ⟨k, hk⟩ | hfails
  · obtain ⟨rfl, hmemory⟩ := write_loop_whole hbase hbuf hcalls hk
    refine ⟨.none, ?_⟩
    rw [hk, hmemory]
    rfl
  · obtain ⟨m, hwritten, -⟩ :=
      write_loop_puts answers (Int.add_zero base).symm written_start hcalls
    have hput : (if m = 0 then file else put file base.toNat (buf.take m)) =
        put file offset (buf.take m) := by
      split
      · rename_i hm
        rw [hm, put_eq]
        simp [Nat.sub_eq_zero_of_le hinside]
      · have h0 : 0 ≤ base := by
          rcases hwritten.inside with hm | h0
          · omega
          · exact h0
        rw [hbase h0, Int.toNat_natCast]
    refine ⟨.fail m, ?_⟩
    rw [hfails, hwritten.bytes, hput]
    rfl

end

end PosixIO

/-- Whatever parts the kernel moves, and however often it is interrupted, a read
that does not fail gives all that the buffer takes and the file has from the
offset on, and a write that does not fail puts the whole buffer there and
changes nothing else. Both fail exactly where one of their calls does, and both
return once the kernel has answered as often as there are bytes in the buffer,
interruptions aside. -/
theorem short_transfers_are_invisible (io : PosixIO) (hopen : 0 ≤ io.fd) (file : Bytes)
    (hfile : file.length < 2 ^ 63) (answers : List Answer) (offset : Nat)
    (hoffset : offset < 2 ^ 64) (buf : Bytes) (hbuf : buf ≠ []) :
    ((∀ c ∈ (io.read file answers offset buf).calls, c.MayRead file) →
      (∀ k, (io.read file answers offset buf).result = .ok k →
        k = min buf.length (file.length - offset) ∧
          (io.read file answers offset buf).memory = slice file offset k ++ buf.drop k) ∧
      ((io.read file answers offset buf).result = .error .IoError ↔
        ∃ c ∈ (io.read file answers offset buf).calls, c.Fails) ∧
      (buf.length ≤ answers.countP (· != .interrupted) →
        (∃ k, (io.read file answers offset buf).result = .ok k) ∨
          (io.read file answers offset buf).result = .error .IoError)) ∧
    ((∀ c ∈ (io.write file answers offset buf).calls, c.MayWrite) →
      (∀ k, (io.write file answers offset buf).result = .ok k →
        k = buf.length ∧ (io.write file answers offset buf).memory = put file offset buf) ∧
      ((io.write file answers offset buf).result = .error .IoError ↔
        ∃ c ∈ (io.write file answers offset buf).calls, c.Fails) ∧
      (buf.length ≤ answers.countP (· != .interrupted) →
        (∃ k, (io.write file answers offset buf).result = .ok k) ∨
          (io.write file answers offset buf).result = .error .IoError)) := by
  have hread : io.read file answers offset buf =
      PosixIO.read_loop file answers 0 (to_signed 8 offset) buf := if_neg (by omega)
  have hwrite : io.write file answers offset buf =
      PosixIO.write_loop buf answers 0 (to_signed 8 offset) file := if_neg (by omega)
  have hbase : 0 ≤ to_signed 8 offset → to_signed 8 offset = offset := PosixIO.offset_eq hoffset
  rw [hread, hwrite]
  generalize to_signed 8 offset = base at hbase
  refine ⟨fun hcalls => ⟨fun k hk => PosixIO.read_loop_whole hfile hbase hbuf hcalls hk,
    PosixIO.read_loop_io_error _ _ _ _ _, fun henough => ?_⟩,
    fun hcalls => ⟨fun k hk => PosixIO.write_loop_whole hbase hbuf hcalls hk,
      PosixIO.write_loop_io_error _ _ _ _ _, fun henough => ?_⟩⟩
  · exact PosixIO.read_loop_returns hfile answers (Int.add_zero base).symm PosixIO.filled_start
      hcalls (by omega)
  · exact PosixIO.write_loop_returns answers base hcalls (by omega)

/-- Five bytes are read from the third one on in two parts, with an interruption
between them, and the file ends. Three bytes are written in two parts. -/
theorem parts_of_a_transfer :
    (({ fd := 3 } : PosixIO).read [1, 2, 3, 4, 5] [.moved 1, .interrupted, .moved 2, .moved 0] 2
        [0, 0, 0, 0, 0]).memory = [3, 4, 5, 0, 0] ∧
      (({ fd := 3 } : PosixIO).write [1, 2, 3, 4, 5] [.interrupted, .moved 2, .moved 1] 1
        [7, 8, 9]).memory = [1, 7, 8, 9, 5] := by
  have hread := (short_transfers_are_invisible { fd := 3 } (by decide) [1, 2, 3, 4, 5] (by decide)
    [.moved 1, .interrupted, .moved 2, .moved 0] 2 (by decide) [0, 0, 0, 0, 0] (by decide)).1
  have hwrite := (short_transfers_are_invisible { fd := 3 } (by decide) [1, 2, 3, 4, 5] (by decide)
    [.interrupted, .moved 2, .moved 1] 1 (by decide) [7, 8, 9] (by decide)).2
  exact ⟨((hread (by decide)).1 3 rfl).2, ((hwrite (by decide)).1 3 rfl).2⟩

/-- The POSIX backend is a backend as the rest of the system knows it. A transfer
that returns is one that goes through or fails after a number of bytes. -/
theorem posix_refines_storage (io : PosixIO) (hopen : 0 ≤ io.fd) (file : Bytes)
    (hfile : file.length < 2 ^ 63) (answers : List Answer) (offset : Nat)
    (hoffset : offset < 2 ^ 64) (buf : Bytes) (hbuf : buf ≠ [])
    (henough : buf.length ≤ answers.countP (· != .interrupted)) :
    ((∀ c ∈ (io.read file answers offset buf).calls, c.MayRead file) →
      ∃ fault, StorageIO.read_under fault file offset buf =
        ((io.read file answers offset buf).result,
          ({ bytes := file }, (io.read file answers offset buf).memory))) ∧
    ((∀ c ∈ (io.write file answers offset buf).calls, c.MayWrite) → offset ≤ file.length →
      ∃ fault, StorageIO.write_under fault file offset buf =
        ((io.write file answers offset buf).result,
          { bytes := (io.write file answers offset buf).memory })) := by
  have hread : io.read file answers offset buf =
      PosixIO.read_loop file answers 0 (to_signed 8 offset) buf := if_neg (by omega)
  have hwrite : io.write file answers offset buf =
      PosixIO.write_loop buf answers 0 (to_signed 8 offset) file := if_neg (by omega)
  have hbase : 0 ≤ to_signed 8 offset → to_signed 8 offset = offset := PosixIO.offset_eq hoffset
  rw [hread, hwrite]
  generalize to_signed 8 offset = base at hbase
  constructor
  · intro hcalls
    have hreturns := PosixIO.read_loop_returns hfile answers (Int.add_zero base).symm
      PosixIO.filled_start hcalls (by omega)
    exact PosixIO.read_loop_refines hfile hbase hbuf hcalls hreturns
  · intro hcalls hinside
    have hreturns := PosixIO.write_loop_returns answers base hcalls (by omega)
    exact PosixIO.write_loop_refines hbase hbuf hinside hcalls hreturns

end edb
