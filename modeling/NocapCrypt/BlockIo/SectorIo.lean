import NocapCrypt.Machine
import NocapCrypt.Library.Image

/-! Positioned file access: `crates/nocap-crypt-blockio/src/sectorio.rs`. -/

namespace NocapCrypt.BlockIo

open NocapCrypt.Library.Image

inductive IoError where
  | unexpectedEof
  | writeZero
  | notFound
  | invalidInput (message : String)
  | os (message : String)
  deriving DecidableEq, Repr

def IoError.text : IoError → String
  | .unexpectedEof => "unexpected end of file"
  | .writeZero => "write zero"
  | .notFound => "No such file or directory (os error 2)"
  | .invalidInput message | .os message => message

/-- How the kernel answers one `pread` or `pwrite`: it fails, or it moves at most this many bytes. -/
inductive Answer where
  | fault (error : IoError)
  | count (n : ℕ)
  deriving DecidableEq, Repr

def Answer.Good : Answer → Prop
  | .fault _ => False
  | .count n => 0 < n

instance : DecidablePred Answer.Good
  | .fault _ => inferInstanceAs (Decidable False)
  | .count n => inferInstanceAs (Decidable (0 < n))

namespace Platform

/-- Fewer than `len` bytes arrive at the end of the file or when the kernel stops early. -/
def readAt (file : Bytes) (offset len : ℕ) : Answer → Except IoError Bytes
  | .fault e => .error e
  | .count n => .ok (window file offset (min n len))

def writeAt (file : Bytes) (offset : ℕ) (buf : Bytes) : Answer → Except IoError (ℕ × Bytes)
  | .fault e => .error e
  | .count n => .ok (min n buf.length, overwrite file offset (buf.take n))

end Platform

def directIoAlignment : ℕ := 4096

def nextMultipleOf (len alignment : ℕ) : ℕ := divCeil len alignment * alignment

/-- An open file: which file it is, and whether `O_DIRECT` is active on the handle. -/
structure SectorFile where
  file : ℕ
  directIoActive : Bool
  deriving DecidableEq, Repr

/-- An `O_DIRECT` read asks for a whole number of pages and hands back the requested prefix. -/
def readAt (directIoActive : Bool) (file : Bytes) (offset len : ℕ) (answer : Answer) :
    Except IoError Bytes :=
  if directIoActive = true ∧ len ≠ 0 then do
    let alignedLen := nextMultipleOf len directIoAlignment
    let scratch ← Platform.readAt file offset alignedLen answer
    pure (scratch.take (min scratch.length len))
  else Platform.readAt file offset len answer

/-- Whole pages go through the `O_DIRECT` handle, any other length through a second, buffered handle
on the same path; a failure to open that handle is one of the faults the answer can carry. -/
def writeAt (directIoActive : Bool) (file : Bytes) (offset : ℕ) (buf : Bytes) (answer : Answer) :
    Except IoError (ℕ × Bytes) :=
  if directIoActive = true ∧ buf ≠ [] then
    if buf.length % directIoAlignment = 0 then
      let scratch := resize buf buf.length
      Platform.writeAt file offset scratch answer
    else
      let unbuffered := file
      Platform.writeAt unbuffered offset buf answer
  else Platform.writeAt file offset buf answer

/-- One pass of the loop of `read_at_exact`. -/
def readPass (directIoActive : Bool) (file : Bytes) (offset len : ℕ) (answer : Answer) :
    Except IoError Bytes := do
  let bytes ← readAt directIoActive file offset len answer
  if bytes.length = 0 then .error .unexpectedEof else .ok bytes

def writePass (directIoActive : Bool) (file : Bytes) (offset : ℕ) (buf : Bytes) (answer : Answer) :
    Except IoError (ℕ × Bytes) := do
  let (n, file') ← writeAt directIoActive file offset buf answer
  if n = 0 then .error .writeZero else .ok (n, file')

/-- `read_at_exact` against the kernel's answers; `none` when they run out before it returns. -/
def readAtExact (directIoActive : Bool) (file : Bytes) : ℕ → ℕ → List Answer → Option (Except IoError Bytes)
  | _, 0, _ => some (.ok [])
  | _, _ + 1, [] => none
  | offset, len + 1, answer :: answers =>
    match readPass directIoActive file offset (len + 1) answer with
    | .error e => some (.error e)
    | .ok bytes =>
      (readAtExact directIoActive file (offset + bytes.length) (len + 1 - bytes.length) answers).map
        fun rest => rest.map (bytes ++ ·)

lemma le_nextMultipleOf (len : ℕ) : len ≤ nextMultipleOf len directIoAlignment :=
  le_divCeil_mul len (by decide)

lemma readAt_eq (direct : Bool) (file : Bytes) (offset len : ℕ) (answer : Answer) :
    readAt direct file offset len answer = Platform.readAt file offset len answer := by
  unfold readAt
  split
  · cases answer with
    | fault e => rfl
    | count n =>
      have hl := le_nextMultipleOf len
      simp only [Platform.readAt, bind, Except.bind, pure, Except.pure, window, List.take_take,
        List.length_take, List.length_drop]
      congr 1
      rcases Nat.le_total (file.length - offset) (min n len) with h | h
      · rw [List.take_of_length_le (by simp; omega), List.take_of_length_le (by simp; omega)]
      · congr 1
        omega
  · rfl

lemma writeAt_eq (direct : Bool) (file : Bytes) (offset : ℕ) (buf : Bytes) (answer : Answer) :
    writeAt direct file offset buf answer = Platform.writeAt file offset buf answer := by
  simp only [writeAt, resize_self, ite_self]

lemma readPass_ok {direct : Bool} {file bytes : Bytes} {offset len : ℕ} {answer : Answer}
    (h : readPass direct file offset len answer = .ok bytes) :
    ∃ n, answer = .count n ∧ bytes = window file offset (min n len) ∧ 0 < bytes.length := by
  rw [readPass, readAt_eq] at h
  cases answer with
  | fault e => cases h
  | count n =>
    simp only [Platform.readAt, bind, Except.bind] at h
    split at h
    · cases h
    · rename_i hp
      cases h
      exact ⟨n, rfl, rfl, Nat.pos_of_ne_zero hp⟩

lemma readPass_length {direct : Bool} {file bytes : Bytes} {offset len : ℕ} {answer : Answer}
    (h : readPass direct file offset len answer = .ok bytes) :
    0 < bytes.length ∧ bytes.length ≤ len ∧ offset + bytes.length ≤ file.length := by
  obtain ⟨n, -, hb, hpos⟩ := readPass_ok h
  have hlen := congrArg List.length hb
  rw [window_length] at hlen
  omega

lemma readPass_append {direct : Bool} {file bytes : Bytes} {offset len : ℕ} {answer : Answer}
    (h : readPass direct file offset len answer = .ok bytes) :
    bytes ++ window file (offset + bytes.length) (len - bytes.length) = window file offset len := by
  obtain ⟨n, -, hw, -⟩ := readPass_ok h
  obtain ⟨-, hle, -⟩ := readPass_length h
  have hbytes : bytes = window file offset bytes.length := by
    rw [hw, window_length, window, window, List.take_eq_take_iff, List.length_drop]
    omega
  calc bytes ++ window file (offset + bytes.length) (len - bytes.length)
      = window file offset bytes.length ++ window file (offset + bytes.length) (len - bytes.length) := by
        rw [← hbytes]
    _ = window file offset (bytes.length + (len - bytes.length)) := window_append_window _ _ _ _
    _ = window file offset len := by rw [Nat.add_sub_cancel' hle]

lemma readPass_good (direct : Bool) (file : Bytes) {offset len : ℕ} {answer : Answer} (ha : answer.Good)
    (hl : 0 < len) (ho : offset < file.length) : ∃ bytes, readPass direct file offset len answer = .ok bytes := by
  cases answer with
  | fault e => exact ha.elim
  | count n =>
    have hn : 0 < n := ha
    have hp : (window file offset (min n len)).length ≠ 0 := by rw [window_length]; omega
    refine ⟨window file offset (min n len), ?_⟩
    rw [readPass, readAt_eq]
    simp only [Platform.readAt, bind, Except.bind, if_neg hp]

lemma Platform.writeAt_ok {file file' buf : Bytes} {offset n : ℕ} {answer : Answer}
    (h : Platform.writeAt file offset buf answer = .ok (n, file')) :
    n ≤ buf.length ∧ file' = overwrite file offset (buf.take n) := by
  cases answer with
  | fault e => cases h
  | count m =>
    cases h
    refine ⟨min_le_right _ _, ?_⟩
    rcases Nat.le_total m buf.length with hm | hm
    · rw [min_eq_left hm]
    · rw [min_eq_right hm, List.take_of_length_le hm, List.take_of_length_le (le_refl _)]

lemma writePass_ok {direct : Bool} {file file' buf : Bytes} {offset n : ℕ} {answer : Answer}
    (h : writePass direct file offset buf answer = .ok (n, file')) :
    0 < n ∧ n ≤ buf.length ∧ file' = overwrite file offset (buf.take n) := by
  rw [writePass, writeAt_eq] at h
  cases hw : Platform.writeAt file offset buf answer with
  | error e =>
    rw [hw] at h
    cases h
  | ok r =>
    simp only [hw, bind, Except.bind] at h
    split at h
    · cases h
    · cases h
      exact ⟨Nat.pos_of_ne_zero ‹_›, Platform.writeAt_ok hw⟩

lemma writePass_good (direct : Bool) (file : Bytes) (offset : ℕ) {buf : Bytes} {answer : Answer} (ha : answer.Good)
    (hb : 0 < buf.length) : ∃ r, writePass direct file offset buf answer = .ok r := by
  cases answer with
  | fault e => exact ha.elim
  | count n =>
    have hn : 0 < n := ha
    have hp : min n buf.length ≠ 0 := by omega
    refine ⟨(min n buf.length, overwrite file offset (buf.take n)), ?_⟩
    rw [writePass, writeAt_eq]
    simp only [Platform.writeAt, bind, Except.bind, if_neg hp]

lemma readPass_answer_good {direct : Bool} {file bytes : Bytes} {offset len : ℕ} {answer : Answer}
    (h : readPass direct file offset len answer = .ok bytes) : answer.Good := by
  obtain ⟨n, rfl, rfl, hpos⟩ := readPass_ok h
  rw [window_length] at hpos
  change 0 < n
  omega

lemma writePass_answer_good {direct : Bool} {file buf : Bytes} {offset : ℕ} {answer : Answer} {r : ℕ × Bytes}
    (h : writePass direct file offset buf answer = .ok r) : answer.Good := by
  rw [writePass, writeAt_eq] at h
  cases answer with
  | fault e => cases h
  | count n =>
    simp only [Platform.writeAt, bind, Except.bind] at h
    split at h
    · cases h
    · change 0 < n
      omega

/-- As many answers as bytes are enough, since every answer but the last moves at least one byte. -/
lemma readAtExact_isSome (direct : Bool) (file : Bytes) (offset len : ℕ) (answers : List Answer)
    (h : len ≤ answers.length) : (readAtExact direct file offset len answers).isSome = true := by
  induction answers generalizing offset len with
  | nil =>
    obtain rfl := Nat.le_zero.mp h
    rfl
  | cons answer answers ih =>
    cases len with
    | zero => rfl
    | succ len =>
      rw [readAtExact]
      cases hr : readPass direct file offset (len + 1) answer with
      | error e => rfl
      | ok bytes =>
        obtain ⟨n, -, -, hpos⟩ := readPass_ok hr
        rw [Option.isSome_map]
        apply ih
        rw [List.length_cons] at h
        omega

theorem readAtExact_good (direct : Bool) (file : Bytes) (offset len : ℕ) (answers : List Answer)
    (hg : ∀ a ∈ answers, a.Good) (hf : offset + len ≤ file.length) {r : Except IoError Bytes}
    (h : readAtExact direct file offset len answers = some r) : r = .ok (window file offset len) := by
  induction answers generalizing offset len r with
  | nil =>
    cases len with
    | zero => simpa [readAtExact, window, eq_comm] using h
    | succ len => simp [readAtExact] at h
  | cons answer answers ih =>
    cases len with
    | zero => simpa [readAtExact, window, eq_comm] using h
    | succ len =>
      obtain ⟨bytes, hb⟩ := readPass_good direct file (hg answer List.mem_cons_self)
        (Nat.succ_pos len) (show offset < file.length by omega)
      rw [readAtExact, hb] at h
      obtain ⟨rest, hr, rfl⟩ := Option.map_eq_some_iff.mp h
      have hle : bytes.length ≤ len + 1 := (readPass_length hb).2.1
      rw [ih _ _ (fun a ha => hg a (List.mem_cons_of_mem _ ha)) (by omega) hr]
      exact congrArg Except.ok (readPass_append hb)

/-- One `platform::read_at` or `platform::write_at`: on an `O_DIRECT` handle or not, where, and how long. -/
structure PlatformCall where
  direct : Bool
  offset : ℕ
  len : ℕ
  deriving DecidableEq, Repr

namespace PlatformCall

def ofRead (directIoActive : Bool) (offset len : ℕ) : PlatformCall :=
  if directIoActive = true ∧ len ≠ 0 then ⟨true, offset, nextMultipleOf len directIoAlignment⟩
  else ⟨directIoActive, offset, len⟩

def ofWrite (directIoActive : Bool) (offset : ℕ) (buf : Bytes) : PlatformCall :=
  if directIoActive = true ∧ buf ≠ [] then
    if buf.length % directIoAlignment = 0 then ⟨true, offset, buf.length⟩ else ⟨false, offset, buf.length⟩
  else ⟨directIoActive, offset, buf.length⟩

lemma le_ofRead_len (direct : Bool) (offset len : ℕ) : len ≤ (ofRead direct offset len).len := by
  rw [ofRead]
  split
  · exact le_nextMultipleOf len
  · exact le_refl len

@[simp] lemma ofRead_offset (direct : Bool) (offset len : ℕ) : (ofRead direct offset len).offset = offset := by
  rw [ofRead]
  split <;> rfl

@[simp] lemma ofWrite_offset (direct : Bool) (offset : ℕ) (buf : Bytes) :
    (ofWrite direct offset buf).offset = offset := by
  rw [ofWrite]
  split_ifs <;> rfl

@[simp] lemma ofWrite_len (direct : Bool) (offset : ℕ) (buf : Bytes) :
    (ofWrite direct offset buf).len = buf.length := by
  rw [ofWrite]
  split_ifs <;> rfl

end PlatformCall

lemma readAt_platformCall (direct : Bool) (file : Bytes) (offset len : ℕ) (answer : Answer) :
    readAt direct file offset len answer =
      (Platform.readAt file (PlatformCall.ofRead direct offset len).offset
        (PlatformCall.ofRead direct offset len).len answer).map (·.take len) := by
  rw [PlatformCall.ofRead_offset, readAt, PlatformCall.ofRead]
  split
  · cases answer with
    | fault e => rfl
    | count n =>
      simp only [Platform.readAt, bind, Except.bind, pure, Except.pure, Except.map]
      rw [← List.take_take, List.take_of_length_le (List.length_take_le' _ _)]
  · cases answer with
    | fault e => rfl
    | count n =>
      simp only [Platform.readAt, Except.map]
      rw [List.take_of_length_le]
      rw [window_length]
      omega

lemma writeAt_platformCall (direct : Bool) (file : Bytes) (offset : ℕ) (buf : Bytes) (answer : Answer) :
    writeAt direct file offset buf answer =
      Platform.writeAt file (PlatformCall.ofWrite direct offset buf).offset
        (buf.take (PlatformCall.ofWrite direct offset buf).len) answer := by
  rw [writeAt_eq, PlatformCall.ofWrite_offset, PlatformCall.ofWrite_len, List.take_length]

/-- A read that is answered in full stops short at the end of the file only. -/
lemma readPass_complete {direct : Bool} {file bytes : Bytes} {offset len n : ℕ}
    (hn : (PlatformCall.ofRead direct offset len).len ≤ n)
    (h : readPass direct file offset len (.count n) = .ok bytes) : bytes = window file offset len := by
  obtain ⟨m, hm, rfl, -⟩ := readPass_ok h
  cases hm
  rw [min_eq_right ((PlatformCall.le_ofRead_len direct offset len).trans hn)]

lemma writePass_complete {direct : Bool} {file file' buf : Bytes} {offset n m : ℕ}
    (hn : (PlatformCall.ofWrite direct offset buf).len ≤ n)
    (h : writePass direct file offset buf (.count n) = .ok (m, file')) : m = buf.length := by
  rw [PlatformCall.ofWrite_len] at hn
  rw [writePass, writeAt_eq] at h
  simp only [Platform.writeAt, bind, Except.bind, min_eq_right hn] at h
  split at h
  · cases h
  · cases h
    rfl

end NocapCrypt.BlockIo
