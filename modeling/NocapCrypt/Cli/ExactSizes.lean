import NocapCrypt.Cli.Image
import NocapCrypt.Worker.CheckedArithmetic

/-! The sizes and offsets of an encryption, from the aligned output size down to the sector indices. -/

namespace NocapCrypt.Cli

open NocapCrypt.Library.Runs NocapCrypt.Core NocapCrypt.BlockIo NocapCrypt.Worker

lemma padding_bounds (n e : ℕ) {b : ℕ} (hb : b ≠ 0) :
    n ≤ (divCeil n b + e) * b ∧ e * b ≤ (divCeil n b + e) * b - n ∧ (divCeil n b + e) * b - n < (e + 1) * b := by
  have hpos : 0 < b := Nat.pos_of_ne_zero hb
  have hle := le_divCeil_mul n hpos
  have hlt := divCeil_mul_lt n hpos
  rw [Nat.add_mul, Nat.add_mul, Nat.one_mul]
  omega

lemma coverage_of_setLen {size : ℕ} (h : size ≤ i64Max) : coverage size + directIoAlignment ≤ u64Size := by
  have hlt := coverage_lt size
  change size ≤ 2 ^ 63 - 1 at h
  change coverage size < size + 512 at hlt
  change coverage size + 4096 ≤ 2 ^ 64
  omega

/-- `aligned_output_size` is exact, and below a size that `set_len` accepts no operation of the transfer
leaves its type: in every state of every interleaving the overflow-checked step is the step. -/
theorem sizes_exact (n b e : ℕ) :
    ((∃ size, alignedOutputSize n b e = .ok size) ↔ b ≠ 0 ∧ (⌈(n : ℚ) / b⌉₊ + e) * b < u64Size) ∧
      ∀ size, alignedOutputSize n b e = .ok size →
        size = (⌈(n : ℚ) / b⌉₊ + e) * b ∧ b ∣ size ∧
        (n ≤ size ∧ e * b ≤ size - n ∧ size - n < (e + 1) * b) ∧
        (size ≤ i64Max → ∀ cores disk, ∃ ranges,
          checkedChunkRanges size (compute cores disk).chunkSectors = .ok (.ok ranges) ∧
          chunkRanges size (compute cores disk).chunkSectors = .ok ranges ∧
          ∀ job s mode moves c, job.ranges = ranges → s.counter = 0 →
            run (step job mode) (start s) moves = some c →
            ∀ move, checkedStep job mode c move = .ok (step job mode c move)) := by
  refine ⟨?_, ?_⟩
  · constructor
    · rintro ⟨size, hsize⟩
      obtain ⟨hb, rfl, hlt⟩ := alignedOutputSize_eq_ok.mp hsize
      rw [← divCeil_eq_ceil n hb]
      exact ⟨hb, hlt⟩
    · rintro ⟨hb, hlt⟩
      rw [← divCeil_eq_ceil n hb] at hlt
      exact ⟨_, alignedOutputSize_eq_ok.mpr ⟨hb, rfl, hlt⟩⟩
  · intro size hsize
    obtain ⟨hb, rfl, hlt⟩ := alignedOutputSize_eq_ok.mp hsize
    rw [← divCeil_eq_ceil n hb]
    refine ⟨rfl, Nat.dvd_mul_left _ _, padding_bounds n e hb, ?_⟩
    intro hset cores disk
    have hchunk : 0 < (compute cores disk).chunkSectors := (by decide : 0 < chunkDispatchBytes / sectorSize)
    obtain ⟨ranges, hranges⟩ : ∃ ranges,
        chunkRanges ((divCeil n b + e) * b) (compute cores disk).chunkSectors = .ok ranges := by
      rw [chunkRanges, if_neg hchunk.ne']
      exact ⟨_, rfl⟩
    refine ⟨ranges, ?_, hranges, ?_⟩
    · rw [checkedChunkRanges_eq hlt, hranges]
    · intro job s mode moves c hjob hs hrun move
      exact checkedStep_eq (hjob ▸ hranges) (coverage_of_setLen hset) hs hrun move

/-- 1000 bytes in blocks of 512, with one extra block. -/
theorem sizes_exact_sample : alignedOutputSize 1000 512 1 = .ok 1536 ∧ 512 ≤ 1536 - 1000 ∧
    ∃ ranges, checkedChunkRanges 1536 8 = .ok (.ok ranges) := by
  obtain ⟨-, h⟩ := sizes_exact 1000 512 1
  have hsize : alignedOutputSize 1000 512 1 = .ok 1536 := by decide
  obtain ⟨-, -, ⟨-, hle, -⟩, hset⟩ := h 1536 hsize
  obtain ⟨ranges, hranges, -, -⟩ := hset (by decide) 1 "ssd"
  exact ⟨hsize, hle, ranges, hranges⟩

end NocapCrypt.Cli
