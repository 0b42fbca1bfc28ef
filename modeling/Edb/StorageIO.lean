-- The storage backend (src/storage/io/io_ops.hpp): a file of bytes that is
-- read, written, resized and synced by byte offset. Each kind of call takes
-- its faults from a list of its own, so a run can let any call fail at any
-- moment, and an empty list is a backend that never fails.
import Edb.Call
import Edb.Slice

open seq

namespace edb

abbrev Bytes := List UInt8

/-- The bytes of an ASCII text. -/
def str (text : String) : Bytes := text.toList.map fun c => UInt8.ofNat c.toNat

/-- The error codes of `src/utils/error.hpp`. `Diverges` is not one of them:
a call that never returns ends with it here. -/
inductive Error where
  | Ok
  | InvalidArgument
  | OutOfMemory
  | NotSupported
  | NotFound
  | AlreadyExists
  | Overflow
  | Corruption
  | IoError
  | IoTimeout
  | IoAlignment
  | PageNotFound
  | BufferPoolFull
  | InvalidPageId
  | TypeNotFound
  | TypeAlreadyRegistered
  | CatalogCorrupted
  | ParseError
  | AnalyzerError
  | ExecutorError
  | Diverges
  deriving DecidableEq, Repr

abbrev Result (α : Type) := Except Error α

/-- What one call of the backend does: it goes through, it stops after `n`
bytes and says so, or it fails after `n` bytes. -/
inductive Fault where
  | none
  | short (n : Nat)
  | fail (n : Nat)
  deriving DecidableEq, Repr

/-- Whether a write of `size` bytes goes through under the fault. -/
def Fault.lets (size : Nat) : Option Fault → Bool
  | some (.fail _) => false
  | some (.short n) => decide (size ≤ n)
  | _ => true

/-- The faults to come, one list for each kind of call. -/
structure Faults where
  read : List Fault := []
  write : List Fault := []
  sync : List Fault := []
  truncate : List Fault := []
  file_size : List Fault := []
  close : List Fault := []
  deriving DecidableEq, Repr

/-- A backend: the bytes that it holds and the faults to come. -/
structure StorageIO where
  bytes : Bytes := []
  faults : Faults := {}
  deriving DecidableEq, Repr

/-- A backend and the buffer of the caller. -/
abbrev Buffered := StorageIO × Bytes

namespace StorageIO

/-- The buffer after a transfer of `got` into its front. -/
def fill (buf got : Bytes) : Bytes := got ++ buf.drop got.length

/-- The bytes, with zeros at the end up to `size` of them. -/
def extend (bytes : Bytes) (size : Nat) : Bytes :=
  bytes ++ List.replicate (size - bytes.length) 0

/-- Reads into the buffer of the state. A read past the end comes back short. -/
def read (offset : Nat) : Call Error Buffered Nat := fun (io, buf) =>
  let io' := { io with faults.read := io.faults.read.tail }
  let found := slice io.bytes offset buf.length
  match io.faults.read.head? with
  | some (.fail n) => (.error .IoError, (io', fill buf (found.take n)))
  | some (.short n) => (.ok (found.take n).length, (io', fill buf (found.take n)))
  | _ => (.ok found.length, (io', fill buf found))

def store (io : StorageIO) (offset : Nat) (data : Bytes) : StorageIO :=
  { io with bytes := patch (extend io.bytes (offset + data.length)) offset data }

/-- Writes at the offset, past the end too. A write that fails or stops short
has stored the first `n` bytes. -/
def write (offset : Nat) (data : Bytes) : Call Error StorageIO Nat := fun io =>
  let io' := { io with faults.write := io.faults.write.tail }
  match io.faults.write.head? with
  | some (.fail n) => (.error .IoError, io'.store offset (data.take n))
  | some (.short n) => (.ok (data.take n).length, io'.store offset (data.take n))
  | _ => (.ok data.length, io'.store offset data)

def sync : Call Error StorageIO Unit := fun io =>
  let io' := { io with faults.sync := io.faults.sync.tail }
  match io.faults.sync.head? with
  | some (.fail _) => (.error .IoError, io')
  | _ => (.ok (), io')

/-- Cuts the file to `size` bytes, or extends it with zeros. -/
def truncate (size : Nat) : Call Error StorageIO Unit := fun io =>
  let io' := { io with faults.truncate := io.faults.truncate.tail }
  match io.faults.truncate.head? with
  | some (.fail _) => (.error .IoError, io')
  | _ => (.ok (), { io' with bytes := (extend io.bytes size).take size })

def file_size : Call Error StorageIO Nat := fun io =>
  let io' := { io with faults.file_size := io.faults.file_size.tail }
  match io.faults.file_size.head? with
  | some (.fail _) => (.error .IoError, io')
  | _ => (.ok io.bytes.length, io')

def close : Call Error StorageIO Unit := fun io =>
  let io' := { io with faults.close := io.faults.close.tail }
  match io.faults.close.head? with
  | some (.fail _) => (.error .IoError, io')
  | _ => (.ok (), io')

/-- A read under one fault. -/
def read_under (fault : Fault) (bytes : Bytes) (offset : Nat) (buf : Bytes) :
    Result Nat × Buffered :=
  (read offset).run ({ bytes, faults.read := [fault] }, buf)

/-- A write under one fault. -/
def write_under (fault : Fault) (bytes : Bytes) (offset : Nat) (buf : Bytes) :
    Result Nat × StorageIO :=
  (write offset buf).run { bytes, faults.write := [fault] }

/-! ## Backends that go through -/

/-- Only writes, syncs and closes may fail. -/
structure ReadsWell (io : StorageIO) : Prop where
  read : io.faults.read = []
  file_size : io.faults.file_size = []
  truncate : io.faults.truncate = []

/-- No call fails. -/
def Healthy (io : StorageIO) : Prop := io.faults = {}

theorem Healthy.readsWell {io : StorageIO} (h : io.Healthy) : io.ReadsWell := by
  unfold Healthy at h
  constructor <;> rw [h]

/-- Every write to a backend that never fails goes through. -/
theorem Healthy.lets {io : StorageIO} (h : io.Healthy) (size j : Nat) :
    Fault.lets size io.faults.write[j]? = true := by
  unfold Healthy at h
  rw [h]
  rfl

/-- `io'` comes after `io`: some writes and syncs were made in between. -/
def After (io io' : StorageIO) : Prop :=
  ∃ n k, io'.faults = { io.faults with
    write := io.faults.write.drop n
    sync := io.faults.sync.drop k }

theorem After.refl (io : StorageIO) : After io io := ⟨0, 0, rfl⟩

theorem After.trans {a b c : StorageIO} (h1 : After a b) (h2 : After b c) : After a c := by
  obtain ⟨n, k, h1⟩ := h1
  obtain ⟨n', k', h2⟩ := h2
  refine ⟨n + n', k + k', ?_⟩
  rw [h2, h1]
  simp only [List.drop_drop]

theorem After.readsWell {io io' : StorageIO} (h : After io io') (hr : io.ReadsWell) :
    io'.ReadsWell := by
  obtain ⟨n, k, h⟩ := h
  refine ⟨?_, ?_, ?_⟩
  · rw [h]; exact hr.read
  · rw [h]; exact hr.file_size
  · rw [h]; exact hr.truncate

/-- A write fault to come was to come before. -/
theorem After.write_ne_nil {io io' : StorageIO} (h : After io io')
    (hne : io'.faults.write ≠ []) : io.faults.write ≠ [] := by
  obtain ⟨n, k, h⟩ := h
  intro hnil
  rw [h] at hne
  simp [hnil] at hne

theorem Healthy.write_eq {io : StorageIO} (h : io.Healthy) : io.faults.write = [] := by
  unfold Healthy at h
  rw [h]

theorem After.healthy {io io' : StorageIO} (h : After io io') (hh : io.Healthy) : io'.Healthy := by
  obtain ⟨n, k, h⟩ := h
  unfold Healthy at hh ⊢
  rw [h, hh]
  simp

/-! ## The calls, one by one -/

theorem fill_of_length {buf got : Bytes} (h : got.length = buf.length) : fill buf got = got := by
  simp [fill, h]

theorem length_fill {buf got : Bytes} (h : got.length ≤ buf.length) :
    (fill buf got).length = buf.length := by
  simp [fill]; omega

theorem extend_of_le {bytes : Bytes} {size : Nat} (h : size ≤ bytes.length) :
    extend bytes size = bytes := by
  simp [extend, Nat.sub_eq_zero_of_le h]

theorem read_run {io : StorageIO} {buf : Bytes} {offset : Nat} (h : io.faults.read = [])
    (hin : offset + buf.length ≤ io.bytes.length) :
    (read offset).run (io, buf) =
      (.ok buf.length, (io, slice io.bytes offset buf.length)) := by
  have hlen : (slice io.bytes offset buf.length).length = buf.length := length_slice_of_le hin
  obtain ⟨bytes, ⟨rs, ws, ss, ts, zs, cs⟩⟩ := io
  simp only at h hlen
  subst h
  show (Except.ok _, (_, fill buf _)) = _
  rw [fill_of_length hlen, hlen]
  rfl

theorem file_size_run {io : StorageIO} (h : io.faults.file_size = []) :
    file_size.run io = (.ok io.bytes.length, io) := by
  obtain ⟨bytes, ⟨rs, ws, ss, ts, zs, cs⟩⟩ := io
  simp only at h
  subst h
  rfl

theorem truncate_run {io : StorageIO} {size : Nat} (h : io.faults.truncate = [])
    (hle : io.bytes.length ≤ size) :
    (truncate size).run io =
      (.ok (), { io with bytes := io.bytes ++ List.replicate (size - io.bytes.length) 0 }) := by
  have hlen : (extend io.bytes size).length = size := by simp [extend]; omega
  obtain ⟨bytes, ⟨rs, ws, ss, ts, zs, cs⟩⟩ := io
  simp only at h hlen
  subst h
  show (Except.ok (), StorageIO.mk ((extend bytes size).take size) _) = _
  rw [List.take_of_length_le (by omega)]
  rfl

theorem sync.spec (io : StorageIO) :
    sync.wp (fun _ io' => io' = { io with faults.sync := io.faults.sync.tail })
      (fun e io' => e = .IoError ∧ io.faults.sync ≠ [] ∧
        io' = { io with faults.sync := io.faults.sync.tail }) io := by
  unfold Call.wp
  obtain ⟨bytes, ⟨rs, ws, ss, ts, zs, cs⟩⟩ := io
  cases ss with
  | nil => rfl
  | cons f rest =>
    cases f with
    | none => rfl
    | short n => rfl
    | fail n => exact ⟨rfl, by simp, rfl⟩

end StorageIO

end edb
