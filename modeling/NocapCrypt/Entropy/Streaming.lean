import NocapCrypt.BlockIo.SectorIo
import NocapCrypt.KeyMgmt.Validate

/-! Windowed entropy of a stream: `crates/nocap-crypt-entropy/src/streaming.rs`. -/

namespace NocapCrypt.Entropy

open NocapCrypt.BlockIo NocapCrypt.KeyMgmt

structure WindowScore where
  windowIndex : ℕ
  offset : ℕ
  len : ℕ
  shannonBitsPerByte : ℚ
  chiSquare : ℚ
  deriving DecidableEq

structure StreamEntropyReport where
  windows : List WindowScore
  overallShannonBitsPerByte : ℚ
  totalBytes : ℕ
  deriving DecidableEq

def StreamEntropyReport.minWindowEntropy (report : StreamEntropyReport) : Option ℚ :=
  (report.windows.map WindowScore.shannonBitsPerByte).foldl (fun acc v => some (acc.elim v fun a => min a v)) none

/-- Every pass but the last takes a whole non-empty window, so one pass more than there are bytes is enough. -/
def analyzeLoop (scores : Scores) (windowSize : ℕ) : ℕ → Bytes → ℕ → ℕ → List WindowScore
  | 0, _, _, _ => []
  | passes + 1, rest, windowIndex, offset =>
    let chunk := rest.take windowSize
    let n := chunk.length
    if n = 0 then []
    else
      ⟨windowIndex, offset, n, scores.shannonEntropy chunk, scores.chiSquareStatistic chunk⟩ ::
        if n < windowSize then []
        else analyzeLoop scores windowSize passes (rest.drop n) (windowIndex + 1) (offset + n)

/-- `reader` is what the reader delivers up to its end, or the error it fails with on the way. -/
def analyzeStream (scores : Scores) (reader : Except IoError Bytes) (windowSize : ℕ) :
    Except Panic (Except IoError StreamEntropyReport) :=
  if windowSize = 0 then .error (.assertion "window_size must be nonzero")
  else .ok (reader.map fun bytes =>
    ⟨analyzeLoop scores windowSize (bytes.length + 1) bytes 0 0, scores.shannonEntropy bytes, bytes.length⟩)

lemma analyzeStream_total (scores : Scores) (reader : Except IoError Bytes) {windowSize : ℕ} (h : windowSize ≠ 0) :
    ∃ r, analyzeStream scores reader windowSize = .ok r := ⟨_, if_neg h⟩

lemma analyzeStream_ok {scores : Scores} {reader : Except IoError Bytes} {windowSize : ℕ}
    {report : StreamEntropyReport}
    (h : analyzeStream scores reader windowSize = .ok (.ok report)) :
    ∃ bytes, reader = .ok bytes ∧ report.totalBytes = bytes.length := by
  unfold analyzeStream at h
  split at h
  · cases h
  · cases reader with
    | error e => cases h
    | ok bytes =>
      cases h
      exact ⟨bytes, rfl, rfl⟩

end NocapCrypt.Entropy
