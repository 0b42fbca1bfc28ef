-- Whole runs of the POSIX backend. Every run of an open or closed file, over
-- whatever the kernel answers, is a run of the backend that the page store works
-- with, under some faults.
import Edb.PosixIO
import Edb.Run

open seq

namespace edb

open StorageIO (extend extend_of_le)

/-- The calls that the page store makes of a backend. -/
inductive IoCall where
  | read (offset : Nat) (buf : Bytes)
  | write (offset : Nat) (buf : Bytes)
  | sync
  | truncate (size : Nat)
  | file_size
  | close
  deriving DecidableEq, Repr

/-- What a call returns, with the buffer of a read. -/
inductive IoReply where
  | read (r : Result Nat) (buf : Bytes)
  | count (r : Result Nat)
  | done (r : Result Unit)
  deriving DecidableEq, Repr

/-- A call of the abstract backend. -/
def IoCall.step : IoCall → StorageIO → IoReply × StorageIO
  | .read offset buf, io =>
    let r := StorageIO.read offset |>.run (io, buf)
    (.read r.1 r.2.2, r.2.1)
  | .write offset buf, io =>
    let r := StorageIO.write offset buf |>.run io
    (.count r.1, r.2)
  | .sync, io => let r := StorageIO.sync.run io; (.done r.1, r.2)
  | .truncate size, io => let r := StorageIO.truncate size |>.run io; (.done r.1, r.2)
  | .file_size, io => let r := StorageIO.file_size.run io; (.count r.1, r.2)
  | .close, io => let r := StorageIO.close.run io; (.done r.1, r.2)

namespace PosixIO

variable (io : PosixIO) (file : Bytes) (failed : Bool)

def check_open : Result Unit := if io.fd < 0 then .error .IoError else .ok ()

/-- `failed` is what `fsync` says. -/
def sync : Result Unit := do
  io.check_open
  if failed then .error .IoError else .ok ()

/-- `failed` is what `ftruncate64` says, which has changed nothing then. It refuses
a size below zero as an `off64_t`. -/
def truncate (size : Nat) : Result Unit × Bytes :=
  match io.check_open with
  | .error e => (.error e, file)
  | .ok () =>
    if failed || decide (to_signed 8 size < 0) then (.error .IoError, file)
    else (.ok (), (extend file size).take size)

/-- `failed` is what `lseek64` says. It gives the length of the file otherwise. -/
def file_size : Result Nat := do
  io.check_open
  if failed then .error .IoError else .ok file.length

/-- A closed file may be closed again. Where `::close` fails, the descriptor stays. -/
def close : Result Unit × PosixIO :=
  if io.fd < 0 then (.ok (), io)
  else if failed then (.error .IoError, io)
  else (.ok (), { fd := -1 })

end PosixIO

/-- What the kernel says during a call: the answers to its transfers, or whether
its one request failed. -/
structure Kernel where
  answers : List Answer := []
  failed : Bool := false
  deriving DecidableEq, Repr

/-- A call of the POSIX backend, with the file on disk. -/
def PosixIO.step (op : IoCall × Kernel) (s : PosixIO × Bytes) : IoReply × PosixIO × Bytes :=
  match op.1 with
  | .read offset buf =>
    let t := s.1.read s.2 op.2.answers offset buf
    (.read t.result t.memory, s)
  | .write offset buf =>
    let t := s.1.write s.2 op.2.answers offset buf
    (.count t.result, (s.1, t.memory))
  | .sync => (.done (s.1.sync op.2.failed), s)
  | .truncate size =>
    let r := s.1.truncate s.2 op.2.failed size
    (.done r.1, (s.1, r.2))
  | .file_size => (.count (s.1.file_size s.2 op.2.failed), s)
  | .close =>
    let r := s.1.close op.2.failed
    (.done r.1, (r.2, s.2))

/-- The kernel answers until the call returns, and moves only bytes that it can.
The buffer is not empty, and a write leaves no gap after the file. -/
def PosixIO.Answered (op : IoCall × Kernel) (s : PosixIO × Bytes) : Prop :=
  match op.1 with
  | .read offset buf =>
    buf ≠ [] ∧ offset < 2 ^ 64 ∧ s.2.length < 2 ^ 63 ∧
      buf.length ≤ op.2.answers.countP (· != .interrupted) ∧
      ∀ c ∈ (s.1.read s.2 op.2.answers offset buf).calls, c.MayRead s.2
  | .write offset buf =>
    buf ≠ [] ∧ offset ≤ s.2.length ∧ s.2.length < 2 ^ 63 ∧
      buf.length ≤ op.2.answers.countP (· != .interrupted) ∧
      ∀ c ∈ (s.1.write s.2 op.2.answers offset buf).calls, c.MayWrite
  | _ => True

instance (op : IoCall × Kernel) (s : PosixIO × Bytes) : Decidable <| PosixIO.Answered op s := by
  obtain ⟨call, k⟩ := op
  cases call <;> unfold PosixIO.Answered <;> infer_instance

namespace StorageIO

variable {file : Bytes} {rest : Faults} {fault : Fault}

/-- A read takes one fault, whatever comes after it. -/
theorem read_takes (offset : Nat) (buf : Bytes) :
    (read offset).run ({ bytes := file, faults := { rest with read := fault :: rest.read } }, buf) =
      let r := read_under fault file offset buf
      (r.1, ({ bytes := file, faults := rest }, r.2.2)) := by
  cases fault <;> rfl

theorem write_takes (offset : Nat) (buf : Bytes) :
    (write offset buf).run { bytes := file, faults := { rest with write := fault :: rest.write } } =
      let r := write_under fault file offset buf
      (r.1, { bytes := r.2.bytes, faults := rest }) := by
  cases fault <;> rfl

end StorageIO

/-- The fault of a call without bytes to move. -/
def Fault.when (fails : Bool) : Fault := if fails then .fail 0 else .none

/-- The abstract backend gives the reply and the file, under the faults that `add`
puts before any others. -/
def IoCall.Matches (call : IoCall) (file : Bytes) (r : IoReply × PosixIO × Bytes) : Prop :=
  ∃ add : Faults → Faults, ∀ rest,
    call.step { bytes := file, faults := add rest } = (r.1, { bytes := r.2.2, faults := rest })

namespace PosixIO

variable {io : PosixIO} {file : Bytes}

theorem read_matches {offset : Nat} {buf : Bytes} {k : Kernel}
    (h : Answered (.read offset buf, k) (io, file)) :
    (IoCall.read offset buf).Matches file (step (.read offset buf, k) (io, file)) := by
  obtain ⟨hbuf, hoffset, hfile, henough, hcalls⟩ := h
  have hfault : ∃ fault, StorageIO.read_under fault file offset buf =
        ((io.read file k.answers offset buf).result,
          ({ bytes := file }, (io.read file k.answers offset buf).memory)) := by
    by_cases hopen : 0 ≤ io.fd
    · exact (posix_refines_storage io hopen file hfile k.answers offset hoffset buf hbuf
        henough).1 hcalls
    · refine ⟨.fail 0, ?_⟩
      rw [read, if_pos (by omega)]
      rfl
  obtain ⟨fault, hrun⟩ := hfault
  refine ⟨fun rest => { rest with read := fault :: rest.read }, fun rest => ?_⟩
  simp only [IoCall.step, StorageIO.read_takes, hrun, step]

theorem write_matches {offset : Nat} {buf : Bytes} {k : Kernel}
    (h : Answered (.write offset buf, k) (io, file)) :
    (IoCall.write offset buf).Matches file (step (.write offset buf, k) (io, file)) := by
  obtain ⟨hbuf, hinside, hfile, henough, hcalls⟩ := h
  have hfault : ∃ fault, StorageIO.write_under fault file offset buf =
        ((io.write file k.answers offset buf).result,
          { bytes := (io.write file k.answers offset buf).memory }) := by
    by_cases hopen : 0 ≤ io.fd
    · exact (posix_refines_storage io hopen file hfile k.answers offset (by omega) buf hbuf
        henough).2 hcalls hinside
    · have hput : put file offset [] = file :=
        (patch_nil _ _).trans (extend_of_le hinside)
      refine ⟨.fail 0, ?_⟩
      rw [write, if_pos (by omega)]
      show (Except.error _, StorageIO.mk (put file offset []) _) = _
      rw [hput]
      rfl
  obtain ⟨fault, hrun⟩ := hfault
  refine ⟨fun rest => { rest with write := fault :: rest.write }, fun rest => ?_⟩
  simp only [IoCall.step, StorageIO.write_takes, hrun, step]

theorem step_matches {op : IoCall × Kernel} (h : Answered op (io, file)) :
    op.1.Matches file (step op (io, file)) := by
  obtain ⟨call, k⟩ := op
  cases call with
  | read offset buf => exact read_matches h
  | write offset buf => exact write_matches h
  -- the calls without bytes to move fail as a whole or go through
  | sync =>
    refine ⟨fun rest => { rest with sync := .when (io.fd < 0 || k.failed) :: rest.sync },
      fun rest => ?_⟩
    by_cases hclosed : io.fd < 0 <;> cases hk : k.failed <;>
      simp [IoCall.step, step, StorageIO.sync, sync, check_open, Fault.when, hclosed, hk, Call.run,
        bind, Except.bind]
  | truncate size =>
    refine ⟨fun rest => { rest with
      truncate := .when (io.fd < 0 || (k.failed || to_signed 8 size < 0)) :: rest.truncate },
      fun rest => ?_⟩
    by_cases hclosed : io.fd < 0 <;> cases hk : k.failed || decide (to_signed 8 size < 0) <;>
      simp [IoCall.step, step, StorageIO.truncate, truncate, check_open, Fault.when, hclosed, hk,
        Call.run]
  | file_size =>
    refine ⟨fun rest => { rest with file_size := .when (io.fd < 0 || k.failed) :: rest.file_size },
      fun rest => ?_⟩
    by_cases hclosed : io.fd < 0 <;> cases hk : k.failed <;>
      simp [IoCall.step, step, StorageIO.file_size, file_size, check_open, Fault.when, hclosed, hk,
        Call.run, bind, Except.bind]
  | close =>
    refine ⟨fun rest => { rest with close := .when (!decide (io.fd < 0) && k.failed) :: rest.close },
      fun rest => ?_⟩
    by_cases hclosed : io.fd < 0 <;> cases hk : k.failed <;>
      simp [IoCall.step, step, StorageIO.close, close, Fault.when, hclosed, hk, Call.run]

end PosixIO

/-- For every run of the POSIX backend there are faults of the abstract backend
under which it gives the same replies, fills the same buffers and leaves the same
file. So what holds of the system over a backend with any faults holds of it over
the kernel, however the kernel cuts and interrupts the transfers and whichever
requests it refuses, before the file is closed and after. -/
theorem posix_runs_refine_storage (io : PosixIO) (file : Bytes) (ops : List (IoCall × Kernel))
    (hkernel : Run.Allowed PosixIO.Answered PosixIO.step ops (io, file)) :
    ∃ faults, Run.exec IoCall.step (ops.map Prod.fst) { bytes := file, faults } =
      ((Run.exec PosixIO.step ops (io, file)).1,
        { bytes := (Run.exec PosixIO.step ops (io, file)).2.2, faults := {} }) := by
  induction ops generalizing io file with
  | nil => exact ⟨{}, rfl⟩
  | cons op rest ih =>
    obtain ⟨add, hstep⟩ := PosixIO.step_matches hkernel.1
    obtain ⟨faults, hrest⟩ := ih _ _ hkernel.2
    refine ⟨add faults, ?_⟩
    simp only [List.map_cons, Run.exec, hstep, hrest]

/-- Three bytes are written in two parts around an interruption, read back up to
the end of the file, and cut off. The sync fails, and so does the read after the
close. -/
theorem requests_of_a_session :
    ∃ faults, Run.exec IoCall.step
      [.write 3 [7, 8, 9], .read 2 [0, 0, 0, 0, 0], .sync, .truncate 4, .file_size, .close,
        .read 0 [0]] { bytes := [1, 2, 3], faults } =
      ([.count (.ok 3), .read (.ok 4) [3, 7, 8, 9, 0], .done (.error .IoError), .done (.ok ()),
        .count (.ok 4), .done (.ok ()), .read (.error .IoError) [0]],
        { bytes := [1, 2, 3, 7], faults := {} }) :=
  posix_runs_refine_storage { fd := 3 } [1, 2, 3]
    [(.write 3 [7, 8, 9], { answers := [.moved 2, .interrupted, .moved 1, .failed] }),
      (.read 2 [0, 0, 0, 0, 0], { answers := [.moved 1, .moved 3, .moved 0, .failed, .failed] }),
      (.sync, { failed := true }), (.truncate 4, {}), (.file_size, {}), (.close, {}),
      (.read 0 [0], { answers := [.moved 1] })]
    ⟨by decide, by decide, trivial, trivial, trivial, trivial, by decide, trivial⟩

end edb
