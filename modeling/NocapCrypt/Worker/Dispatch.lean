import NocapCrypt.BlockIo.SectorIo
import NocapCrypt.Core.EngineLaws
import NocapCrypt.Library.Runs
import NocapCrypt.Worker.Concurrency

/-! Sector-range dispatch: `crates/nocap-crypt-worker/src/dispatch.rs`. Every range is a task over the
shared files; a schedule interleaves the private steps and the system calls of all tasks. -/

namespace NocapCrypt.Worker

open NocapCrypt.Library.Image NocapCrypt.Library.Runs NocapCrypt.Core NocapCrypt.BlockIo

structure SectorRange where
  firstSector : ℕ
  sectorCount : ℕ
  deriving DecidableEq, Repr

/-- The `while start < total_sectors` loop. Each pass moves `start` by at least one sector, so
`total_sectors` passes are enough (`chunkLoop_getElem?`). -/
def chunkLoop (chunkSectors totalSectors : ℕ) : ℕ → ℕ → List SectorRange
  | 0, _ => []
  | passes + 1, start =>
    if start < totalSectors then
      let count := min chunkSectors (totalSectors - start)
      ⟨start, count⟩ :: chunkLoop chunkSectors totalSectors passes (start + count)
    else []

def chunkRanges (dataLen chunkSectors : ℕ) : Except Panic (List SectorRange) :=
  if chunkSectors = 0 then .error (.assertion "chunk_sectors > 0")
  else
    let totalSectors := divCeil dataLen sectorSize
    .ok (chunkLoop chunkSectors totalSectors totalSectors 0)

/-- `first_sector * SECTOR_SIZE` in `u64`. -/
def SectorRange.byteOffset (range : SectorRange) : ℕ := range.firstSector * sectorSize % u64Size

/-- `sector_count * SECTOR_SIZE` in `usize`. -/
def SectorRange.byteLen (range : SectorRange) : ℕ := range.sectorCount * sectorSize % u64Size

def SectorRange.available (range : SectorRange) (dataLen : ℕ) : ℕ :=
  min (dataLen - range.byteOffset) range.byteLen

/-- The arguments of `process_ranges`; `progress` says whether a counter was passed. -/
structure RangeJob where
  input : SectorFile
  output : SectorFile
  engine : SectorEngine
  ranges : List SectorRange
  dataLen : ℕ
  encrypt : Bool
  progress : Bool

/-- Where `process_one_range` stands in one range. -/
inductive Phase where
  | waiting
  | reading (filled : ℕ) (buf : Bytes)
  | transforming (buf : Bytes)
  | writing (written : ℕ) (buf : Bytes)
  | counting
  | finished
  | failed (written : ℕ) (error : IoError)
  | panicked (panic : Panic)
  deriving DecidableEq, Repr

inductive Move where
  | compute
  | kernel (answer : Answer)
  deriving DecidableEq, Repr

/-- The files, the progress counter, and as a history variable the sectors ciphered so far: the byte
offset in the output and the plain64 IV of each. -/
structure Shared where
  disk : ℕ → Bytes
  counter : ℕ
  ciphered : List (ℕ × Block)

/-- The IV the engine derives for sector `s` of a buffer that starts at `firstSector`. -/
def ivOf (engine : SectorEngine) (firstSector s : ℕ) : Block :=
  match engine with
  | .xts _ => tweakFn (firstSector + s)
  | .cbcEssiv _ => plain64Iv ((firstSector + s) % u64Size)

def sectorUses (engine : SectorEngine) (range : SectorRange) (bufLen : ℕ) : List (ℕ × Block) :=
  (List.range (bufLen / sectorSize)).map fun s =>
    (range.byteOffset + s * sectorSize, ivOf engine range.firstSector s)

/-- One step of `process_one_range` on range `i`. -/
def processOneRange (job : RangeJob) (i : ℕ) (s : Shared) (phase : Phase) (move : Move) :
    Option (Shared × Phase) :=
  match job.ranges[i]? with
  | none => none
  | some range =>
    let available := range.available job.dataLen
    match phase, move with
    | .waiting, .compute =>
      let buf := List.replicate range.byteLen 0
      some (s, if 0 < available then .reading 0 buf else .transforming buf)
    | .reading filled buf, .kernel answer =>
      match readPass job.input.directIoActive (s.disk job.input.file) (range.byteOffset + filled)
        (available - filled) answer with
      | .error e => some (s, .failed 0 e)
      | .ok bytes =>
        let buf := overwrite buf filled bytes
        let filled := filled + bytes.length
        some (s, if filled < available then .reading filled buf else .transforming buf)
    | .transforming buf, .compute =>
      match job.engine.cryptRange job.encrypt range.firstSector buf with
      | .error p => some (s, .panicked p)
      | .ok out =>
        some ({ s with ciphered := s.ciphered ++ sectorUses job.engine range buf.length },
          if out = [] then .counting else .writing 0 out)
    | .writing written buf, .kernel answer =>
      match writePass job.output.directIoActive (s.disk job.output.file) (range.byteOffset + written)
        (buf.drop written) answer with
      | .error e => some (s, .failed written e)
      | .ok (n, file) =>
        some ({ s with disk := Function.update s.disk job.output.file file },
          if written + n < buf.length then .writing (written + n) buf else .counting)
    | .counting, .compute =>
      some (if job.progress then { s with counter := (s.counter + range.byteLen) % u64Size } else s, .finished)
    | _, _ => none

def Phase.active : Phase → Bool
  | .reading _ _ | .transforming _ | .writing _ _ | .counting => true
  | _ => false

/-- May task `i` move now? The sequential loop reaches a range after the ranges before it are done, a
pool of `k` threads has at most `k` ranges under way, and the ambient pool may have any width. -/
def admits (mode : Concurrency) (ranges : ℕ) (task : ℕ → Phase) (i : ℕ) : Bool :=
  match mode with
  | .synchronous => (List.range i).all fun j => task j = .finished
  | .globalPool => true
  | .fixed numThreads =>
    (task i).active || decide (((List.range ranges).filter fun j => (task j).active).length < max numThreads 1)

def step (job : RangeJob) (mode : Concurrency) (c : Tasks Shared Phase) (e : ℕ × Move) :
    Option (Tasks Shared Phase) :=
  if admits mode job.ranges.length c.task e.1 then c.move (processOneRange job) e.1 e.2 else none

def allFinished (job : RangeJob) (c : Tasks Shared Phase) : Bool :=
  (List.range job.ranges.length).all fun i => c.task i = .finished

def noneActive (job : RangeJob) (c : Tasks Shared Phase) : Bool :=
  (List.range job.ranges.length).all fun i => !(c.task i).active

/-- What `process_ranges` returns in state `c`, if it returns there: `Ok` once every range is done, and
otherwise the error of a failed range once no range is under way (ranges never started are skipped). -/
def outcome (job : RangeJob) (c : Tasks Shared Phase) (reported : ℕ) :
    Option (Except Panic (Except IoError Unit)) :=
  if allFinished job c then some (.ok (.ok ()))
  else match c.task reported with
    | .panicked p => some (.error p)
    | .failed _ e => if noneActive job c then some (.ok (.error e)) else none
    | _ => none

/-- The environment of one call: the interleaving with the kernel's answers, the range whose error is
reported, and a failure to build a scoped pool. -/
structure Schedule where
  moves : List (ℕ × Move)
  reported : ℕ
  poolError : Option IoError

def start (s : Shared) : Tasks Shared Phase := ⟨s, fun _ => .waiting⟩

/-- `none` when the schedule does not take the call to its return. -/
def processRanges (job : RangeJob) (mode : Concurrency) (schedule : Schedule) (s : Shared) :
    Option (Except Panic (Except IoError Unit) × Shared) :=
  match mode, schedule.poolError with
  | .fixed _, some e => some (.ok (.error e), s)
  | _, _ =>
    (run (step job mode) (start s) schedule.moves).bind fun c =>
      (outcome job c schedule.reported).map fun r => (r, c.shared)

lemma exists_shared {job : RangeJob} {mode : Concurrency} {schedule : Schedule} {s : Shared}
    {r : Except Panic (Except IoError Unit)} (h : (processRanges job mode schedule s).map Prod.fst = some r) :
    ∃ s', processRanges job mode schedule s = some (r, s') := by
  obtain ⟨p, hp, rfl⟩ := Option.map_eq_some_iff.mp h
  exact ⟨p.2, hp⟩

def sampleJob : RangeJob := ⟨⟨0, false⟩, ⟨0, false⟩, sampleEngine, [⟨0, 1⟩], 512, true, true⟩

def sampleStart : Shared := ⟨fun _ => sampleSector, 0, []⟩

/-- The kernel takes the first 200 bytes of the ciphertext and then the rest. -/
def sampleSchedule : Schedule :=
  ⟨[(0, .compute), (0, .kernel (.count 512)), (0, .compute), (0, .kernel (.count 200)), (0, .kernel (.count 512)),
    (0, .compute)], 0, none⟩

def sampleFaultSchedule : Schedule :=
  ⟨[(0, .compute), (0, .kernel (.count 512)), (0, .compute), (0, .kernel (.count 200)),
    (0, .kernel (.fault (.os "No space left on device (os error 28)")))], 0, none⟩

section ThreeRanges

/-- Three ranges deciphered in place: data, data that padding fills up, and padding. -/
def paddedJob : RangeJob := ⟨⟨0, false⟩, ⟨0, false⟩, sampleEngine, [⟨0, 1⟩, ⟨1, 1⟩, ⟨2, 1⟩], 768, false, true⟩

def paddedStart : Shared := ⟨fun _ => resize (List.replicate 48 sampleCipherBlock.toList).flatten 1536, 0, []⟩

def paddedPlaintext : Bytes :=
  sampleSector ++ xorBlock sampleBlock.toList secondIv.toList ++
    (List.replicate 15 (xorBlock sampleBlock.toList sampleCipherBlock.toList)).flatten ++
    xorBlock samplePreimage.toList sampleCipherBlock.toList ++ (List.replicate 15 samplePreimage.toList).flatten ++
    xorBlock samplePreimage.toList thirdIv.toList ++ (List.replicate 31 samplePreimage.toList).flatten

lemma padded_deciphers : sampleEngine.cryptRange false 0 (paddedStart.disk 0) = .ok paddedPlaintext := by
  decide +kernel

/-- No two moves in a row are of one range, and the last range is the first to be written. -/
def interleavedSchedule : Schedule :=
  ⟨[(0, .compute), (2, .compute), (1, .compute), (2, .compute), (1, .kernel (.count 200)), (2, .kernel (.count 512)),
    (0, .kernel (.count 512)), (1, .kernel (.count 512)), (0, .compute), (1, .compute), (0, .kernel (.count 300)),
    (2, .compute), (0, .kernel (.count 512)), (1, .kernel (.count 512)), (0, .compute), (1, .compute)], 0, none⟩

lemma interleaved_returns : ∃ s', processRanges paddedJob .globalPool interleavedSchedule paddedStart =
    some (.ok (.ok ()), s') ∧ s'.ciphered = [(1024, plain64Iv 2), (0, plain64Iv 0), (512, plain64Iv 1)] := by
  have hrun : (processRanges paddedJob .globalPool interleavedSchedule paddedStart).map
      (fun r => (r.1, r.2.ciphered)) =
        some (.ok (.ok ()), [(1024, plain64Iv 2), (0, plain64Iv 0), (512, plain64Iv 1)]) := by decide +kernel
  obtain ⟨⟨r, s'⟩, hret, hr⟩ := Option.map_eq_some_iff.mp hrun
  obtain ⟨rfl, hciphered⟩ := Prod.mk.inj hr
  exact ⟨s', hret, hciphered⟩

/-- One range after the other, until the disk is full in the middle of the second. -/
def midwayFaultSchedule : Schedule :=
  ⟨[(0, .compute), (0, .kernel (.count 512)), (0, .compute), (0, .kernel (.count 512)), (0, .compute),
    (1, .compute), (1, .kernel (.count 256)), (1, .compute), (1, .kernel (.count 200)),
    (1, .kernel (.fault (.os "No space left on device (os error 28)")))], 1, none⟩

end ThreeRanges

end NocapCrypt.Worker
