import NocapCrypt.Core.Engine

/-! Concurrency mode and dispatch size: `crates/nocap-crypt-worker/src/{concurrency,heuristic}.rs`. -/

namespace NocapCrypt.Worker

open NocapCrypt.Core

inductive Concurrency where
  | synchronous
  | globalPool
  | fixed (numThreads : ℕ)
  deriving DecidableEq, Repr

def Concurrency.debug : Concurrency → String
  | .synchronous => "Synchronous"
  | .globalPool => "GlobalPool"
  | .fixed numThreads => s!"Fixed({numThreads})"

def resolve (fileSize smallFileThreshold : ℕ) (pinToSubmissionThread : Bool)
    (maxWorkersOverride : Option ℕ) : Concurrency :=
  if pinToSubmissionThread = true ∨ fileSize < smallFileThreshold then .synchronous
  else match maxWorkersOverride with
    | some n => .fixed (max n 1)
    | none => .globalPool

def chunkDispatchBytes : ℕ := 4096

structure DispatchInfo where
  effectiveCores : ℕ
  diskType : String
  chunkSectors : ℕ
  deriving DecidableEq, Repr

def compute (effectiveCores : ℕ) (diskType : String) : DispatchInfo :=
  ⟨effectiveCores, diskType, chunkDispatchBytes / sectorSize⟩

end NocapCrypt.Worker
