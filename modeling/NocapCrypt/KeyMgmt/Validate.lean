import NocapCrypt.Core.CipherSpec
import NocapCrypt.Library.Image

/-! Key validation: `crates/nocap-crypt-keymgmt/src/validate.rs`. -/

namespace NocapCrypt.KeyMgmt

open NocapCrypt.Library.Image NocapCrypt.Core

/-- `{:.places}` of a non-negative number, rounding half to even. -/
def fixedPoint (places : ℕ) (q : ℚ) : String :=
  let scaled := q * 10 ^ places
  let low := ⌊scaled⌋₊
  let rest := scaled - low
  let units := if rest < 1 / 2 then low else if 1 / 2 < rest then low + 1 else low + low % 2
  let whole := units / 10 ^ places
  let digits := toString (units % 10 ^ places)
  let zeros := String.ofList (List.replicate (places - digits.length) '0')
  s!"{whole}.{zeros}{digits}"

/-- The `f64` scores of the entropy crate, as rationals. -/
structure Scores where
  shannonEntropy : Bytes → ℚ
  chiSquareStatistic : Bytes → ℚ
  isUniform : Bytes → Bool

def minKeyEntropyBitsPerByte : ℚ := 3

inductive KeyValidationError where
  | lengthMismatch (cipher : String) (expected actual : ℕ)
  | allZero
  | lowEntropy (bitsPerByte minimum : ℚ)
  | repeatingPattern (period : ℕ)
  deriving DecidableEq

def KeyValidationError.text : KeyValidationError → String
  | .lengthMismatch cipher expected actual =>
      s!"key length mismatch: cipher {cipher} requires {expected} bytes, got {actual}"
  | .allZero => "key is all-zero bytes"
  | .lowEntropy bitsPerByte minimum =>
      s!"key entropy too low: {fixedPoint 2 bitsPerByte} bits/byte (minimum {fixedPoint 2 minimum})"
  | .repeatingPattern period =>
      s!"key bytes repeat with period {period} — looks like a repeating pattern, not random key material"

structure KeyValidationReport where
  requiredBytes : ℕ
  actualBytes : ℕ
  shannonBitsPerByte : ℚ
  chiSquareUniform95 : Bool

/-- The smallest proper period that divides the length. -/
def detectRepeatingPattern (key : Bytes) : Option ℕ :=
  let n := key.length
  ((List.range n).drop 1).find? fun period =>
    n % period == 0 && (List.range (n / period)).all fun i => window key (i * period) period == key.take period

def validateKey (scores : Scores) (spec : CipherSpec) (key : Bytes) :
    Except KeyValidationError KeyValidationReport :=
  let expected := spec.requiredKeyBytes
  if key.length ≠ expected then .error (.lengthMismatch spec.asStr expected key.length)
  else if key.all (· == 0) then .error .allZero
  else match detectRepeatingPattern key with
    | some period => .error (.repeatingPattern period)
    | none =>
      let bitsPerByte := scores.shannonEntropy key
      if bitsPerByte < minKeyEntropyBitsPerByte then .error (.lowEntropy bitsPerByte minKeyEntropyBitsPerByte)
      else .ok ⟨expected, key.length, bitsPerByte, scores.isUniform key⟩

lemma validateKey_length {scores : Scores} {spec : CipherSpec} {key : Bytes} {report : KeyValidationReport}
    (h : validateKey scores spec key = .ok report) : key.length = spec.requiredKeyBytes := by
  by_contra hne
  rw [validateKey, if_pos hne] at h
  cases h

lemma detectRepeatingPattern_none {key : Bytes} (h : detectRepeatingPattern key = none) (n : ℕ) (block : Bytes)
    (hb : block.length < key.length) : key ≠ (List.replicate n block).flatten := by
  rintro rfl
  have hlen : (List.replicate n block).flatten.length = n * block.length := by simp
  rw [hlen] at hb
  have hp : 0 < block.length := Nat.pos_of_ne_zero fun h0 => by simp [h0] at hb
  have hmem : block.length ∈ (List.range (n * block.length)).drop 1 := by
    rw [List.mem_drop_iff_getElem]
    exact ⟨block.length - 1, by simp; omega, by simp; omega⟩
  have hwindow : ∀ i < n, window (List.replicate n block).flatten (i * block.length) block.length = block :=
    fun i hi => window_flatten_replicate block hi
  have hn : 0 < n := Nat.pos_of_ne_zero fun h0 => by simp [h0] at hb
  have htake : (List.replicate n block).flatten.take block.length = block := by
    have h0 := hwindow 0 hn
    rwa [Nat.zero_mul, window, List.drop_zero] at h0
  rw [detectRepeatingPattern, hlen, List.find?_eq_none] at h
  apply h _ hmem
  rw [Bool.and_eq_true, beq_iff_eq, Nat.mul_mod_left, Nat.mul_div_cancel _ hp, List.all_eq_true, htake]
  refine ⟨rfl, ?_⟩
  intro i hi
  rw [beq_iff_eq, hwindow i (List.mem_range.mp hi)]

lemma validateKey_pattern {scores : Scores} {spec : CipherSpec} {key : Bytes} {report : KeyValidationReport}
    (h : validateKey scores spec key = .ok report) : detectRepeatingPattern key = none := by
  rw [validateKey] at h
  split at h
  · cases h
  · split at h
    · cases h
    · split at h
      · cases h
      · assumption

end NocapCrypt.KeyMgmt
