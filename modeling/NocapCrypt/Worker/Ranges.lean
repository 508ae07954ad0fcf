import NocapCrypt.Worker.Dispatch

/-! The ranges of `chunk_ranges` partition the covered sectors in order. -/

namespace NocapCrypt.Worker

open NocapCrypt.Core

/-- The ranges cut the sectors below `total` into disjoint non-empty pieces. -/
structure Partition (ranges : List SectorRange) (total : ℕ) : Prop where
  nonempty : ∀ (i : ℕ) (r : SectorRange), ranges[i]? = some r → 0 < r.sectorCount
  bounded : ∀ (i : ℕ) (r : SectorRange), ranges[i]? = some r → r.firstSector + r.sectorCount ≤ total
  disjoint : ∀ (i j : ℕ) (r r' : SectorRange), i < j → ranges[i]? = some r → ranges[j]? = some r' →
    r.firstSector + r.sectorCount ≤ r'.firstSector
  covers : ∀ k < total, ∃ (i : ℕ) (r : SectorRange), ranges[i]? = some r ∧
    r.firstSector ≤ k ∧ k < r.firstSector + r.sectorCount

lemma chunkLoop_getElem? {chunk total : ℕ} (hc : 0 < chunk) (passes begin i : ℕ) (hp : total ≤ begin + passes) :
    (chunkLoop chunk total passes begin)[i]? =
      if begin + i * chunk < total then
        some ⟨begin + i * chunk, min chunk (total - (begin + i * chunk))⟩
      else none := by
  induction passes generalizing begin i with
  | zero =>
    rw [if_neg (by omega)]
    rfl
  | succ passes ih =>
    rw [chunkLoop]
    by_cases hb : begin < total
    · rw [if_pos hb]
      cases i with
      | zero => simp [hb]
      | succ i =>
        have hs : (i + 1) * chunk = i * chunk + chunk := Nat.succ_mul i chunk
        rw [List.getElem?_cons_succ, ih _ _ (by omega)]
        rcases Nat.le_total chunk (total - begin) with hle | hle
        · have he : begin + chunk + i * chunk = begin + (i + 1) * chunk := by omega
          rw [min_eq_left hle, he]
        · rw [min_eq_right hle, if_neg (by omega), if_neg (by omega)]
    · rw [if_neg hb, if_neg (by omega)]
      rfl

lemma chunkRanges_ok {dataLen chunk : ℕ} {ranges : List SectorRange} (h : chunkRanges dataLen chunk = .ok ranges) :
    0 < chunk ∧ ranges = chunkLoop chunk (divCeil dataLen sectorSize) (divCeil dataLen sectorSize) 0 := by
  rw [chunkRanges] at h
  split at h
  · cases h
  · rename_i hc
    cases h
    exact ⟨Nat.pos_of_ne_zero hc, rfl⟩

lemma chunkRanges_getElem? {dataLen chunk : ℕ} {ranges : List SectorRange}
    (h : chunkRanges dataLen chunk = .ok ranges) (i : ℕ) :
    ranges[i]? = if i * chunk < divCeil dataLen sectorSize then
      some ⟨i * chunk, min chunk (divCeil dataLen sectorSize - i * chunk)⟩ else none := by
  obtain ⟨hc, rfl⟩ := chunkRanges_ok h
  simpa using chunkLoop_getElem? hc (divCeil dataLen sectorSize) 0 i (by omega)

theorem chunkRanges_partition {dataLen chunk : ℕ} {ranges : List SectorRange}
    (h : chunkRanges dataLen chunk = .ok ranges) : Partition ranges (divCeil dataLen sectorSize) := by
  obtain ⟨hc, -⟩ := chunkRanges_ok h
  have hget := chunkRanges_getElem? h
  have hsome : ∀ i r, ranges[i]? = some r → i * chunk < divCeil dataLen sectorSize ∧
      r = ⟨i * chunk, min chunk (divCeil dataLen sectorSize - i * chunk)⟩ := by
    intro i r hr
    rw [hget] at hr
    split at hr
    · rename_i hi
      exact ⟨hi, (Option.some.inj hr).symm⟩
    · cases hr
  refine ⟨?_, ?_, ?_, ?_⟩
  · intro i r hr
    obtain ⟨hi, rfl⟩ := hsome i r hr
    simp only
    omega
  · intro i r hr
    obtain ⟨hi, rfl⟩ := hsome i r hr
    simp only
    omega
  · intro i j r r' hij hr hr'
    obtain ⟨hi, rfl⟩ := hsome i r hr
    obtain ⟨hj, rfl⟩ := hsome j r' hr'
    have hm := Nat.mul_le_mul_right chunk (Nat.succ_le_of_lt hij)
    rw [Nat.succ_mul] at hm
    simp only
    omega
  · intro k hk
    have hd := Nat.div_add_mod k chunk
    have hlt := Nat.mod_lt k hc
    rw [Nat.mul_comm] at hd
    refine ⟨k / chunk, ⟨k / chunk * chunk, min chunk (divCeil dataLen sectorSize - k / chunk * chunk)⟩, ?_, ?_, ?_⟩
    · rw [hget, if_pos (by omega)]
    · simp only
      omega
    · simp only
      omega

/-- The number of bytes in the sectors that cover `len` bytes. -/
def coverage (len : ℕ) : ℕ := divCeil len sectorSize * sectorSize

lemma le_coverage (len : ℕ) : len ≤ coverage len := le_divCeil_mul len sectorSize_pos

lemma coverage_lt (len : ℕ) : coverage len < len + sectorSize := divCeil_mul_lt len sectorSize_pos

lemma sectorSize_dvd_coverage (len : ℕ) : sectorSize ∣ coverage len := Dvd.intro_left _ rfl

lemma coverage_of_dvd {len : ℕ} (h : sectorSize ∣ len) : coverage len = len := by
  unfold coverage divCeil
  rw [if_pos (Nat.mod_eq_zero_of_dvd h), Nat.add_zero, Nat.div_mul_cancel h]

lemma coverage_mono {a b : ℕ} (h : a ≤ b) : coverage a ≤ coverage b :=
  Nat.mul_le_mul_right _ ((divCeil_le_iff sectorSize_pos).mpr (h.trans (le_coverage b)))

lemma coverage_le_u64Size {len : ℕ} (h : len < u64Size) : coverage len ≤ u64Size := by
  have hd : divCeil len sectorSize ≤ u64Size / sectorSize := (divCeil_le_iff sectorSize_pos).mpr h.le
  exact Nat.mul_le_mul_right sectorSize hd

/-- The byte length of each range fits `u64`: all that it excludes is one range over the whole `2 ^ 64` bytes. -/
def Allocatable (ranges : List SectorRange) : Prop := ∀ r ∈ ranges, r.sectorCount * sectorSize < u64Size

instance (ranges : List SectorRange) : Decidable (Allocatable ranges) :=
  inferInstanceAs (Decidable (∀ r ∈ ranges, r.sectorCount * sectorSize < u64Size))

namespace Partition

variable {ranges : List SectorRange} {total : ℕ} (hp : Partition ranges total)

include hp

lemma byteOffset_eq {i : ℕ} {r : SectorRange} (hr : ranges[i]? = some r) (hfit : total * sectorSize ≤ u64Size) :
    r.byteOffset = r.firstSector * sectorSize := by
  have hlt : r.firstSector < total :=
    (Nat.lt_add_of_pos_right (hp.nonempty i r hr)).trans_le (hp.bounded i r hr)
  exact Nat.mod_eq_of_lt ((Nat.mul_lt_mul_of_pos_right hlt sectorSize_pos).trans_le hfit)

lemma separated {i j : ℕ} {r r' : SectorRange} (hij : i ≠ j) (hr : ranges[i]? = some r)
    (hr' : ranges[j]? = some r') :
    (r.firstSector + r.sectorCount) * sectorSize ≤ r'.firstSector * sectorSize ∨
      (r'.firstSector + r'.sectorCount) * sectorSize ≤ r.firstSector * sectorSize := by
  rcases Nat.lt_or_gt_of_ne hij with h | h
  · exact Or.inl (Nat.mul_le_mul_right _ (hp.disjoint i j r r' h hr hr'))
  · exact Or.inr (Nat.mul_le_mul_right _ (hp.disjoint j i r' r h hr' hr))

lemma owner {b : ℕ} (hb : b < total * sectorSize) :
    ∃ (i : ℕ) (r : SectorRange), ranges[i]? = some r ∧ r.firstSector * sectorSize ≤ b ∧
      b < r.firstSector * sectorSize + r.sectorCount * sectorSize := by
  have hk : b / sectorSize < total := Nat.div_lt_of_lt_mul (by rwa [Nat.mul_comm])
  obtain ⟨i, r, hr, hlo, hhi⟩ := hp.covers _ hk
  refine ⟨i, r, hr, ?_, ?_⟩
  · exact (Nat.mul_le_mul_right _ hlo).trans (Nat.div_mul_le_self _ _)
  · rw [← Nat.add_mul]
    exact (Nat.div_lt_iff_lt_mul sectorSize_pos).mp hhi

end Partition

end NocapCrypt.Worker
