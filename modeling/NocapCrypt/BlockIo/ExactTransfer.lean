import NocapCrypt.BlockIo.SectorIo

/-! The exact transfers `read_at_exact` and `write_at_exact` under short counts, and the aligned scratch buffers
of `crates/nocap-crypt-blockio/src/alignment.rs` that direct I/O goes through. -/

namespace NocapCrypt.BlockIo

open NocapCrypt.Library.Image

section Buffer

/-- `aligned - base` of the first address from `base` on that `!(alignment - 1)` leaves as it is. -/
def alignedStart (base alignment : ℕ) : ℕ := ((base + alignment - 1) &&& (u64Size - alignment)) - base

structure AlignedBuffer where
  data : Bytes
  start : ℕ
  len : ℕ
  fits : start + len = data.length

lemma alignedStart_le (base alignment : ℕ) : alignedStart base alignment ≤ alignment := by
  have h : (base + alignment - 1) &&& (u64Size - alignment) ≤ base + alignment - 1 := Nat.and_le_left
  rw [alignedStart]
  omega

namespace AlignedBuffer

/-- `new` for an allocation that starts at the address `base`. -/
def new (base len alignment : ℕ) : AlignedBuffer where
  data := (List.replicate (len + alignment) 0).take (alignedStart base alignment + len)
  start := alignedStart base alignment
  len := len
  fits := by
    have h := alignedStart_le base alignment
    simp
    omega

def asSlice (buffer : AlignedBuffer) : Bytes := window buffer.data buffer.start buffer.len

/-- A transfer or a copy to the front of `as_mut_slice`. -/
def fill (buffer : AlignedBuffer) (bytes : Bytes) : AlignedBuffer :=
  { buffer with
    data := overwrite buffer.data buffer.start (bytes.take buffer.len)
    fits := by
      have hf := buffer.fits
      rw [overwrite_length_of_le (by rw [List.length_take]; omega)]
      exact hf }

lemma asSlice_length (buffer : AlignedBuffer) : buffer.asSlice.length = buffer.len :=
  window_length_of_le buffer.fits.le

lemma asSlice_fill (buffer : AlignedBuffer) {bytes : Bytes} (h : bytes.length ≤ buffer.len) :
    (buffer.fill bytes).asSlice = overwrite buffer.asSlice 0 bytes := by
  have hf := buffer.fits
  have hfill : (buffer.fill bytes).asSlice =
      window (overwrite buffer.data buffer.start bytes) buffer.start buffer.len := by
    conv_rhs => rw [← List.take_of_length_le h]
    rfl
  apply ext_cell
  · rw [asSlice_length, overwrite_length_of_le (by rw [asSlice_length]; omega), asSlice_length]
    rfl
  · intro i hi
    rw [asSlice_length] at hi
    have hlt : i < buffer.len := hi
    rw [hfill, asSlice, cell_window, if_pos hlt, cell_overwrite, cell_overwrite, cell_window, if_pos hlt]
    by_cases hb : i < bytes.length
    · rw [if_pos (by omega), if_pos (by omega), Nat.add_sub_cancel_left, Nat.sub_zero]
    · rw [if_neg (by omega), if_neg (by omega)]

lemma asSlice_fill_take (buffer : AlignedBuffer) {bytes : Bytes} (h : bytes.length ≤ buffer.len) {n : ℕ}
    (hn : n ≤ bytes.length) : (buffer.fill bytes).asSlice.take n = bytes.take n := by
  have hw := window_overwrite_zero buffer.asSlice bytes
  rw [window, List.drop_zero] at hw
  conv_rhs => rw [← hw]
  rw [asSlice_fill buffer h, List.take_take, min_eq_left hn]

end AlignedBuffer

lemma alignedStart_dvd {base k : ℕ} (hk : k ≤ 64) (hb : base + 2 ^ k - 1 < u64Size) :
    2 ^ k ∣ base + alignedStart base (2 ^ k) := by
  have hmask : u64Size - 2 ^ k = (2 ^ (64 - k) - 1) <<< k := by
    rw [Nat.shiftLeft_eq, Nat.sub_mul, one_mul, ← pow_add, Nat.sub_add_cancel hk]
    rfl
  have hfloor : (base + 2 ^ k - 1) &&& (u64Size - 2 ^ k) = (base + 2 ^ k - 1) / 2 ^ k * 2 ^ k := by
    rw [hmask, ← Nat.shiftLeft_eq, ← Nat.shiftRight_eq_div_pow]
    apply Nat.eq_of_testBit_eq
    intro i
    have hhigh : (base + 2 ^ k - 1).testBit i = true → i < 64 := fun h =>
      (Nat.pow_lt_pow_iff_right (by decide)).mp ((Nat.ge_two_pow_of_testBit h).trans_lt hb)
    simp only [Nat.testBit_and, Nat.testBit_shiftLeft, Nat.testBit_two_pow_sub_one, Nat.testBit_shiftRight]
    by_cases hi : k ≤ i
    · rw [Nat.add_sub_cancel' hi]
      cases ht : (base + 2 ^ k - 1).testBit i with
      | false => simp
      | true =>
        have hlt := hhigh ht
        simp [hi]
        omega
    · simp [hi]
  have hle : base ≤ (base + 2 ^ k - 1) / 2 ^ k * 2 ^ k := by
    have hpos : 0 < 2 ^ k := Nat.two_pow_pos k
    have hmod := Nat.mod_lt (base + 2 ^ k - 1) hpos
    have hdiv := Nat.div_add_mod (base + 2 ^ k - 1) (2 ^ k)
    rw [Nat.mul_comm]
    omega
  rw [alignedStart, hfloor, Nat.add_sub_cancel' hle]
  exact Nat.dvd_mul_left _ _

/-- `&data[lo..hi]`; `none` where the slice panics. -/
def sliceOf (data : Bytes) (lo hi : ℕ) : Option Bytes :=
  if lo ≤ hi ∧ hi ≤ data.length then some (window data lo (hi - lo)) else none

lemma alignedStart_lt (base : ℕ) {alignment : ℕ} (h : 0 < alignment) : alignedStart base alignment < alignment := by
  have hle : (base + alignment - 1) &&& (u64Size - alignment) ≤ base + alignment - 1 := Nat.and_le_left
  rw [alignedStart]
  omega

namespace AlignedBuffer

lemma sliceOf_asSlice (buffer : AlignedBuffer) :
    sliceOf buffer.data buffer.start (buffer.start + buffer.len) = some buffer.asSlice := by
  rw [sliceOf, if_pos ⟨Nat.le_add_right _ _, buffer.fits.le⟩, Nat.add_sub_cancel_left]
  rfl

lemma asSlice_new (base len alignment : ℕ) : (new base len alignment).asSlice = List.replicate len 0 := by
  rw [List.eq_replicate_iff]
  refine ⟨asSlice_length _, ?_⟩
  intro b hb
  have hdata : b ∈ (new base len alignment).data := List.mem_of_mem_drop (List.mem_of_mem_take hb)
  exact List.eq_of_mem_replicate (List.mem_of_mem_take hdata)

end AlignedBuffer

/-- `AlignedBuffer::new` gives an aligned buffer of `len` zeros, and its slices stay inside the allocation
whatever is written to it. -/
theorem alignedBuffer_inBounds (base len alignment : ℕ) (hpow : alignment.isPowerOfTwo)
    (hspace : base + len + alignment ≤ u64Size) :
    let buffer := AlignedBuffer.new base len alignment
    buffer.start < alignment ∧ alignment ∣ base + buffer.start ∧ buffer.start + len ≤ buffer.data.length ∧
      sliceOf buffer.data buffer.start (buffer.start + buffer.len) = some (List.replicate len 0) ∧
      ∀ bytes, ∃ slice, sliceOf (buffer.fill bytes).data (buffer.fill bytes).start
          ((buffer.fill bytes).start + (buffer.fill bytes).len) = some slice ∧ slice.length = len := by
  obtain ⟨k, rfl⟩ := hpow
  have hpos : 0 < 2 ^ k := Nat.two_pow_pos k
  have hk : k ≤ 64 := by
    apply (Nat.pow_le_pow_iff_right (show 1 < 2 by decide)).mp
    change 2 ^ k ≤ u64Size
    omega
  intro buffer
  refine ⟨alignedStart_lt base hpos, alignedStart_dvd hk (by omega), buffer.fits.le, ?_, ?_⟩
  · rw [buffer.sliceOf_asSlice]
    exact congrArg some (AlignedBuffer.asSlice_new base len (2 ^ k))
  · intro bytes
    exact ⟨_, (buffer.fill bytes).sliceOf_asSlice, (buffer.fill bytes).asSlice_length⟩

theorem alignedBuffer_inBounds_odd_base : 4096 ∣ 12345 + (AlignedBuffer.new 12345 100 4096).start ∧
    sliceOf (AlignedBuffer.new 12345 100 4096).data (AlignedBuffer.new 12345 100 4096).start
      ((AlignedBuffer.new 12345 100 4096).start + 100) = some (List.replicate 100 0) := by
  obtain ⟨-, hdvd, -, hslice, -⟩ := alignedBuffer_inBounds 12345 100 4096 ⟨12, rfl⟩ (by decide)
  exact ⟨hdvd, hslice⟩

end Buffer

section Direct

/-- `read_at` on an `O_DIRECT` handle, with its scratch buffer at any address. -/
def readThroughBuffer (base : ℕ) (file : Bytes) (offset len : ℕ) (answer : Answer) : Except IoError Bytes := do
  let alignedLen := nextMultipleOf len directIoAlignment
  let scratch := AlignedBuffer.new base alignedLen directIoAlignment
  let bytes ← Platform.readAt file offset alignedLen answer
  let n := min bytes.length len
  pure ((scratch.fill bytes).asSlice.take n)

/-- `write_at` of whole pages on an `O_DIRECT` handle. -/
def writeThroughBuffer (base : ℕ) (file : Bytes) (offset : ℕ) (buf : Bytes) (answer : Answer) :
    Except IoError (ℕ × Bytes) :=
  let scratch := AlignedBuffer.new base buf.length directIoAlignment
  Platform.writeAt file offset (scratch.fill buf).asSlice answer

lemma readThroughBuffer_eq (base : ℕ) (file : Bytes) (offset : ℕ) {len : ℕ} (hl : len ≠ 0) (answer : Answer) :
    readThroughBuffer base file offset len answer = readAt true file offset len answer := by
  rw [readAt, if_pos ⟨rfl, hl⟩]
  cases answer with
  | fault e => rfl
  | count n =>
    have hb : (window file offset (min n (nextMultipleOf len directIoAlignment))).length ≤
        nextMultipleOf len directIoAlignment := by
      rw [window_length]
      omega
    exact congrArg Except.ok (AlignedBuffer.asSlice_fill_take _ hb (min_le_left _ _))

lemma writeThroughBuffer_eq (base : ℕ) (file : Bytes) (offset : ℕ) (buf : Bytes) (answer : Answer) :
    writeThroughBuffer base file offset buf answer = writeAt true file offset buf answer := by
  let scratch := AlignedBuffer.new base buf.length directIoAlignment
  have hlen : (scratch.fill buf).asSlice.length = buf.length := (scratch.fill buf).asSlice_length
  have hbuf := scratch.asSlice_fill_take (le_refl buf.length) (le_refl buf.length)
  rw [List.take_of_length_le hlen.le, List.take_length] at hbuf
  rw [writeAt_eq, writeThroughBuffer, hbuf]

end Direct

/-- `write_at_exact` against the kernel's answers, with the file as each pass leaves it; `none` when they run
out before it returns. -/
def writeAtExact (directIoActive : Bool) :
    Bytes → ℕ → Bytes → List Answer → Option (Except IoError Unit × Bytes)
  | file, _, [], _ => some (.ok (), file)
  | _, _, _ :: _, [] => none
  | file, offset, byte :: buf, answer :: answers =>
    match writePass directIoActive file offset (byte :: buf) answer with
    | .error e => some (.error e, file)
    | .ok (n, file') => writeAtExact directIoActive file' (offset + n) ((byte :: buf).drop n) answers

section Loops

variable (direct : Bool) {answers : List Answer}

lemma readPass_eof (file : Bytes) {offset : ℕ} (len : ℕ) {answer : Answer} (ha : answer.Good)
    (ho : file.length ≤ offset) : readPass direct file offset len answer = .error .unexpectedEof := by
  cases answer with
  | fault e => exact ha.elim
  | count n =>
    have hp : (window file offset (min n len)).length = 0 := by rw [window_length]; omega
    rw [readPass, readAt_eq]
    simp only [Platform.readAt, bind, Except.bind, if_pos hp]

lemma readAtExact_eof (file : Bytes) (offset len : ℕ) (hg : ∀ a ∈ answers, a.Good) (hl : 0 < len)
    (hf : file.length < offset + len) {r : Except IoError Bytes}
    (h : readAtExact direct file offset len answers = some r) : r = .error .unexpectedEof := by
  induction answers generalizing offset len r with
  | nil =>
    obtain ⟨len, rfl⟩ := Nat.exists_eq_succ_of_ne_zero hl.ne'
    cases h
  | cons answer answers ih =>
    obtain ⟨len, rfl⟩ := Nat.exists_eq_succ_of_ne_zero hl.ne'
    have ha := hg answer List.mem_cons_self
    rw [readAtExact] at h
    rcases Nat.lt_or_ge offset file.length with ho | ho
    · obtain ⟨bytes, hb⟩ := readPass_good direct file ha (Nat.succ_pos len) ho
      obtain ⟨-, -, hfit⟩ := readPass_length hb
      rw [hb] at h
      obtain ⟨rest, hr, rfl⟩ := Option.map_eq_some_iff.mp h
      rw [ih _ _ (fun a hm => hg a (List.mem_cons_of_mem _ hm)) (by omega) (by omega) hr]
      rfl
    · rw [readPass_eof direct file (len + 1) ha ho] at h
      exact (Option.some.inj h).symm

lemma readAtExact_eq (file : Bytes) (offset len : ℕ) (hg : ∀ a ∈ answers, a.Good) (ha : len ≤ answers.length) :
    readAtExact direct file offset len answers =
      some (if len = 0 ∨ offset + len ≤ file.length then .ok (window file offset len) else .error .unexpectedEof) := by
  obtain ⟨r, hr⟩ := Option.isSome_iff_exists.mp (readAtExact_isSome direct file offset len answers ha)
  rw [hr]
  rcases Nat.eq_zero_or_pos len with rfl | hl
  · rw [if_pos (Or.inl rfl)]
    cases answers <;> simpa [readAtExact, window, eq_comm] using hr
  · by_cases hf : offset + len ≤ file.length
    · rw [if_pos (Or.inr hf), readAtExact_good direct file offset len answers hg hf hr]
    · rw [if_neg (by omega), readAtExact_eof direct file offset len hg hl (by omega) hr]

lemma writeAtExact_eq (file : Bytes) (offset : ℕ) (buf : Bytes) (hg : ∀ a ∈ answers, a.Good)
    (ha : buf.length ≤ answers.length) :
    writeAtExact direct file offset buf answers = some (.ok (), overwrite file offset buf) := by
  induction answers generalizing file offset buf with
  | nil =>
    rw [List.length_eq_zero_iff.mp (Nat.le_zero.mp ha), overwrite_nil]
    rfl
  | cons answer answers ih =>
    cases buf with
    | nil =>
      rw [overwrite_nil]
      rfl
    | cons byte buf =>
      obtain ⟨⟨n, file'⟩, hpass⟩ := writePass_good direct file offset (hg answer List.mem_cons_self)
        (show 0 < (byte :: buf).length by simp)
      obtain ⟨hpos, hle, rfl⟩ := writePass_ok hpass
      have htake : ((byte :: buf).take n).length = n := by rw [List.length_take, min_eq_left hle]
      have hleft : ((byte :: buf).drop n).length ≤ answers.length := by
        simp only [List.length_drop, List.length_cons] at ha ⊢
        omega
      have hrest := ih (overwrite file offset ((byte :: buf).take n)) (offset + n) ((byte :: buf).drop n)
        (fun a hm => hg a (List.mem_cons_of_mem _ hm)) hleft
      have hsplit := overwrite_append file offset ((byte :: buf).take n) ((byte :: buf).drop n)
      rw [htake, List.take_append_drop] at hsplit
      rw [writeAtExact, hpass]
      exact hrest.trans (by rw [hsplit])

end Loops

/-- Under every schedule of short counts, with and without `O_DIRECT`, an exact read returns the window of the
file or `UnexpectedEof`, and an exact write changes the window and nothing else; `len` passes are enough. A direct
transfer goes through a scratch buffer at any address with the same result. -/
theorem exact_transfer_correct (direct : Bool) (file : Bytes) (offset : ℕ) (kernel : ℕ → Answer)
    (hk : ∀ k, (kernel k).Good) :
    (∀ len passes, len ≤ passes → readAtExact direct file offset len ((List.range passes).map kernel) =
      some (if len = 0 ∨ offset + len ≤ file.length then .ok (window file offset len) else .error .unexpectedEof)) ∧
    (∀ buf passes, buf.length ≤ passes → ∃ file', writeAtExact direct file offset buf ((List.range passes).map kernel) =
        some (.ok (), file') ∧
      file'.length = (if buf = [] then file.length else max file.length (offset + buf.length)) ∧
      ∀ i, cell file' i = if offset ≤ i ∧ i < offset + buf.length then cell buf (i - offset) else cell file i) ∧
    (∀ base len answer, len ≠ 0 → readThroughBuffer base file offset len answer = readAt true file offset len answer) ∧
    ∀ base buf answer, writeThroughBuffer base file offset buf answer = writeAt true file offset buf answer := by
  have hg : ∀ passes, ∀ a ∈ (List.range passes).map kernel, a.Good := by
    intro passes a hmem
    obtain ⟨k, -, rfl⟩ := List.mem_map.mp hmem
    exact hk k
  have hlen : ∀ passes, ((List.range passes).map kernel).length = passes := by simp
  refine ⟨?_, ?_, ?_, ?_⟩
  · intro len passes h
    exact readAtExact_eq direct file offset len (hg passes) (h.trans (hlen passes).ge)
  · intro buf passes h
    refine ⟨_, writeAtExact_eq direct file offset buf (hg passes) (h.trans (hlen passes).ge), ?_, ?_⟩
    · split
      · rename_i hb
        rw [hb, overwrite_nil]
      · rename_i hb
        exact overwrite_length file offset (List.length_pos_iff.mpr hb)
    · exact cell_overwrite file offset buf
  · exact fun base len answer hl => readThroughBuffer_eq base file offset hl answer
  · exact fun base buf answer => writeThroughBuffer_eq base file offset buf answer

theorem exact_transfer_correct_short_counts :
    readAtExact true [1, 2, 3, 4] 1 3 ((List.range 3).map fun _ => .count 1) = some (.ok [2, 3, 4]) ∧
      readAtExact true [1, 2, 3, 4] 2 3 ((List.range 3).map fun _ => .count 1) = some (.error .unexpectedEof) := by
  obtain ⟨hread, -⟩ := exact_transfer_correct true [1, 2, 3, 4] 1 (fun _ => .count 1) (fun _ => Nat.one_pos)
  obtain ⟨heof, -⟩ := exact_transfer_correct true [1, 2, 3, 4] 2 (fun _ => .count 1) (fun _ => Nat.one_pos)
  exact ⟨hread 3 3 (le_refl 3), heof 3 3 (le_refl 3)⟩

end NocapCrypt.BlockIo
