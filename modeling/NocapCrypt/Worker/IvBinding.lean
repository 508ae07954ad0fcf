import NocapCrypt.Worker.Interleaving

/-! The sectors a run enciphers: each under the IV of its own absolute position, none of them twice. -/

namespace NocapCrypt.Worker

open NocapCrypt.Library.Image NocapCrypt.Library.Blockwise NocapCrypt.Library.Runs NocapCrypt.Core
open NocapCrypt.BlockIo

def sectorUse (k : ℕ) : ℕ × Block := (k * sectorSize, plain64Iv k)

lemma ivOf_eq (engine : SectorEngine) (first s : ℕ) : ivOf engine first s = SectorEngine.sectorIv (first + s) := by
  cases engine <;> rfl

variable {job : RangeJob} {total : ℕ} {d₀ : ℕ → Bytes} {mode : Concurrency}

section Indices

/-- Every sector index that `u64` offsets can reach survives the `u128` to `u64` truncation. -/
lemma sector_lt_u64Size (hfit : total * sectorSize ≤ u64Size) {k : ℕ} (hk : k < total) : k < u64Size := by
  have h := Nat.le_mul_of_pos_right k sectorSize_pos
  have hm := Nat.mul_lt_mul_of_pos_right hk sectorSize_pos
  omega

lemma sectorUses_eq {r : SectorRange} (hr : Placed r total) (hfit : total * sectorSize ≤ u64Size) :
    sectorUses job.engine r r.byteLen = (List.range r.sectorCount).map fun s => sectorUse (r.firstSector + s) := by
  have hcount : r.byteLen / sectorSize = r.sectorCount := by rw [hr.len, Nat.mul_div_cancel _ sectorSize_pos]
  rw [sectorUses, hcount]
  apply List.map_congr_left
  intro s hs
  have hfits := hr.fits
  rw [hr.offset, hr.len, ← Nat.add_mul] at hfits
  have hlt : r.firstSector + s < total :=
    (Nat.add_lt_add_left (List.mem_range.mp hs) _).trans_le (Nat.le_of_mul_le_mul_right hfits sectorSize_pos)
  rw [ivOf_eq, SectorEngine.sectorIv_eq (sector_lt_u64Size hfit hlt), hr.offset, ← Nat.add_mul]
  rfl

end Indices

section Log

def Phase.early : Phase → Bool
  | .waiting | .reading _ _ | .transforming _ => true
  | _ => false

def Phase.late : Phase → Bool
  | .writing _ _ | .counting | .finished => true
  | _ => false

def usesAt (job : RangeJob) (i : ℕ) : List (ℕ × Block) :=
  (job.ranges[i]?.map fun r => sectorUses job.engine r r.byteLen).getD []

def Logged (job : RangeJob) (log₀ : List (ℕ × Block)) (c : Tasks Shared Phase) : Prop :=
  ∃ order : List ℕ, order.Nodup ∧ c.shared.ciphered = log₀ ++ order.flatMap (usesAt job) ∧
    (∀ i ∈ order, (c.task i).early = false) ∧ ∀ i, (c.task i).late = true → i ∈ order

lemma rangeStep_ciphered {r : SectorRange} {s s' : Shared} {t t' : Phase} {m : Move} (hr : Placed r total)
    (hi : PhaseInv job total d₀ r s.disk t) (h : RangeStep job r s t m s' t') :
    (s'.ciphered = s.ciphered ++ sectorUses job.engine r r.byteLen ∧ t.early = true ∧ t'.early = false) ∨
      (s'.ciphered = s.ciphered ∧ (t'.early = true → t.early = true) ∧ (t'.late = true → t.late = true)) := by
  have hlen : ∀ {buf : Bytes}, buf = window (padded job total d₀) r.byteOffset r.byteLen →
      buf.length = r.byteLen := by
    rintro buf rfl
    exact window_padded_length hr
  cases h with
  | transform _ _ => exact Or.inl ⟨by rw [hlen hi.2], rfl, rfl⟩
  | transformEmpty _ => exact Or.inl ⟨by rw [hlen hi.2], rfl, rfl⟩
  | count =>
    refine Or.inr ⟨?_, by simp [Phase.early], by simp [Phase.late]⟩
    split <;> rfl
  | _ => exact Or.inr ⟨rfl, by simp [Phase.early], by simp [Phase.late]⟩

lemma logged_start (s : Shared) : Logged job s.ciphered (start s) :=
  ⟨[], List.nodup_nil, by simp [start], by simp, fun i h => by cases h⟩

lemma logged_step (hc : Covers job total) {log₀ : List (ℕ × Block)} {c c' : Tasks Shared Phase} {e : ℕ × Move}
    (hs : Sound job total d₀ c) (hi : Logged job log₀ c) (h : step job mode c e = some c') :
    Logged job log₀ c' := by
  obtain ⟨order, hnodup, hlog, hearly, hlate⟩ := hi
  obtain ⟨-, r, s, t, hr, hstep, rfl⟩ := step_some h
  rcases rangeStep_ciphered (hc.placed hr) (hs.2 e.1 r hr) hstep with ⟨hadd, hold, hnew⟩ | ⟨hsame, hback, hpast⟩
  · have hnot : e.1 ∉ order := by
      intro hm
      rw [hearly _ hm] at hold
      cases hold
    refine ⟨order ++ [e.1], ?_, ?_, ?_, ?_⟩
    · exact List.nodup_append.mpr ⟨hnodup, List.nodup_singleton _, by
        rintro a ha b hb rfl
        exact hnot (List.mem_singleton.mp hb ▸ ha)⟩
    · simp [hadd, hlog, usesAt, hr]
    · intro i hm
      by_cases hie : i = e.1
      · subst hie
        simpa only [Function.update_self] using hnew
      · simpa only [Function.update_of_ne hie] using hearly i (by simpa [hie] using hm)
    · intro i hl
      by_cases hie : i = e.1
      · simp [hie]
      · simp only [Function.update_of_ne hie] at hl
        exact List.mem_append_left _ (hlate i hl)
  · refine ⟨order, hnodup, hsame.trans hlog, ?_, ?_⟩
    · intro i hm
      by_cases hie : i = e.1
      · subst hie
        have ho := hearly _ hm
        simp only [Function.update_self]
        by_contra ht
        rw [hback (by simpa using ht)] at ho
        cases ho
      · simpa only [Function.update_of_ne hie] using hearly i hm
    · intro i hl
      by_cases hie : i = e.1
      · subst hie
        simp only [Function.update_self] at hl
        exact hlate _ (hpast hl)
      · simp only [Function.update_of_ne hie] at hl
        exact hlate i hl

lemma run_logged (hc : Covers job total) {s : Shared} {c : Tasks Shared Phase} {moves : List (ℕ × Move)}
    (h : run (step job mode) (start s) moves = some c) : Logged job s.ciphered c := by
  have hboth : Sound job total s.disk c ∧ Logged job s.ciphered c :=
    run_invariant (I := fun c => Sound job total s.disk c ∧ Logged job s.ciphered c)
      (fun _ _ _ hi he => ⟨sound_step hc hi.1 he, logged_step hc hi.1 hi.2 he⟩)
      ⟨sound_start s, logged_start s⟩ h
  exact hboth.2

end Log

section Distinct

lemma mem_usesAt (hc : Covers job total) {i : ℕ} {p : ℕ × Block} :
    p ∈ usesAt job i ↔ ∃ r, job.ranges[i]? = some r ∧ ∃ k, r.firstSector ≤ k ∧
      k < r.firstSector + r.sectorCount ∧ p = sectorUse k := by
  cases hr : job.ranges[i]? with
  | none => simp [usesAt, hr]
  | some r =>
    simp only [usesAt, hr, Option.map_some, Option.getD_some, Option.some.injEq, exists_eq_left',
      sectorUses_eq (hc.placed hr) hc.fits, List.mem_map, List.mem_range]
    constructor
    · rintro ⟨s, hs, rfl⟩
      exact ⟨_, Nat.le_add_right _ _, Nat.add_lt_add_left hs _, rfl⟩
    · rintro ⟨k, hlo, hhi, rfl⟩
      exact ⟨k - r.firstSector, by omega, by rw [Nat.add_sub_cancel' hlo]⟩

lemma sectorUse_injective : Function.Injective sectorUse := by
  intro a b h
  exact Nat.eq_of_mul_eq_mul_right sectorSize_pos (congrArg Prod.fst h)

lemma nodup_flatMap_usesAt (hc : Covers job total) {order : List ℕ} (h : order.Nodup) :
    (order.flatMap (usesAt job)).Nodup := by
  rw [List.nodup_flatMap]
  refine ⟨?_, h.imp ?_⟩
  · intro i _
    cases hr : job.ranges[i]? with
    | none => simp [usesAt, hr]
    | some r =>
      simp only [usesAt, hr, Option.map_some, Option.getD_some, sectorUses_eq (hc.placed hr) hc.fits]
      exact (List.nodup_range).map fun a b hab => Nat.add_left_cancel (sectorUse_injective hab)
  · intro i j hij p hp hq
    obtain ⟨r, hr, k, hlo, hhi, rfl⟩ := (mem_usesAt hc).mp hp
    obtain ⟨r', hr', k', hlo', hhi', he⟩ := (mem_usesAt hc).mp hq
    have hk := sectorUse_injective he
    rcases Nat.lt_or_gt_of_ne hij with hlt | hgt
    · have hd := hc.partition.disjoint i j r r' hlt hr hr'
      omega
    · have hd := hc.partition.disjoint j i r' r hgt hr' hr
      omega

lemma mem_flatMap_usesAt (hc : Covers job total) {order : List ℕ} {p : ℕ × Block}
    (hp : p ∈ order.flatMap (usesAt job)) : ∃ k < total, p = sectorUse k := by
  obtain ⟨i, -, hp⟩ := List.mem_flatMap.mp hp
  obtain ⟨r, hr, k, -, hhi, rfl⟩ := (mem_usesAt hc).mp hp
  exact ⟨k, hhi.trans_le (hc.partition.bounded i r hr), rfl⟩

lemma flatMap_usesAt_perm (hc : Covers job total) {order : List ℕ} (h : order.Nodup)
    (hall : ∀ i < job.ranges.length, i ∈ order) :
    (order.flatMap (usesAt job)).Perm ((List.range total).map sectorUse) := by
  rw [List.perm_ext_iff_of_nodup (nodup_flatMap_usesAt hc h) (List.nodup_range.map sectorUse_injective)]
  intro p
  constructor
  · intro hp
    obtain ⟨k, hk, rfl⟩ := mem_flatMap_usesAt hc hp
    exact List.mem_map_of_mem (List.mem_range.mpr hk)
  · intro hp
    obtain ⟨k, hk, rfl⟩ := List.mem_map.mp hp
    obtain ⟨i, r, hr, hlo, hhi⟩ := hc.partition.covers k (List.mem_range.mp hk)
    exact List.mem_flatMap.mpr ⟨i, hall i (List.getElem?_eq_some_iff.mp hr).1,
      (mem_usesAt hc).mpr ⟨r, hr, k, hlo, hhi, rfl⟩⟩

end Distinct

lemma nodup_uses (hfit : total * sectorSize ≤ u64Size) {log : List (ℕ × Block)} (hn : log.Nodup)
    (hlog : ∀ p ∈ log, ∃ k < total, p = sectorUse k) (essiv : Equiv.Perm Block) :
    (log.map Prod.fst).Nodup ∧ (log.map fun p => essiv p.2).Nodup := by
  refine ⟨hn.map_on ?_, hn.map_on ?_⟩
  · intro p hp q hq h
    obtain ⟨a, -, rfl⟩ := hlog p hp
    obtain ⟨b, -, rfl⟩ := hlog q hq
    rw [Nat.eq_of_mul_eq_mul_right sectorSize_pos h]
  · intro p hp q hq h
    obtain ⟨a, ha, rfl⟩ := hlog p hp
    obtain ⟨b, hb, rfl⟩ := hlog q hq
    rw [plain64Iv_injective (sector_lt_u64Size hfit ha) (sector_lt_u64Size hfit hb) (essiv.injective h)]

/-- Whatever a run has enciphered, it has enciphered the sector at byte offset `512 * k` under the plain64 IV
of `k`, no sector twice and no two sectors under one IV; a successful run has enciphered every covered sector,
and the output holds each of them as the engine produces it under that IV. -/
theorem processRanges_iv_binding (job : RangeJob) (len chunk : ℕ) (mode : Concurrency) (schedule : Schedule)
    (s s' : Shared) (r : Except Panic (Except IoError Unit)) (hranges : chunkRanges len chunk = .ok job.ranges)
    (hlen : len < u64Size) (halloc : Allocatable job.ranges)
    (h : processRanges job mode schedule s = some (r, s')) :
    ∃ log, s'.ciphered = s.ciphered ++ log ∧
      (∀ p ∈ log, ∃ k < divCeil len sectorSize, k < u64Size ∧ p = (k * sectorSize, plain64Iv k)) ∧
      (log.map Prod.fst).Nodup ∧ (log.map Prod.snd).Nodup ∧
      (∀ essiv : Equiv.Perm Block, (log.map fun p => essiv p.2).Nodup) ∧
      (r = .ok (.ok ()) →
        log.Perm ((List.range (divCeil len sectorSize)).map fun k => (k * sectorSize, plain64Iv k)) ∧
        ∀ k < divCeil len sectorSize,
          window (s'.disk job.output.file) (k * sectorSize) sectorSize =
            job.engine.sectorCipher job.encrypt (plain64Iv k)
              (window (padded job (divCeil len sectorSize) s.disk) (k * sectorSize) sectorSize)) := by
  have hc := covers_of_chunkRanges hranges hlen halloc
  rcases processRanges_cases h with ⟨-, ⟨e, rfl⟩, rfl⟩ | ⟨-, c, hrun, ho, rfl⟩
  · exact ⟨[], by simp, by simp, by simp, by simp, by simp, fun hr => by simp at hr⟩
  · obtain ⟨order, hnodup, hlog, -, hlate⟩ := run_logged hc hrun
    have hmem : ∀ p ∈ order.flatMap (usesAt job), ∃ k < divCeil len sectorSize, p = sectorUse k :=
      fun p => mem_flatMap_usesAt hc
    have hdistinct := nodup_uses hc.fits (nodup_flatMap_usesAt hc hnodup) hmem
    refine ⟨order.flatMap (usesAt job), hlog, ?_, (hdistinct (Equiv.refl _)).1, (hdistinct (Equiv.refl _)).2,
      fun essiv => (hdistinct essiv).2, ?_⟩
    · intro p hp
      obtain ⟨k, hk, rfl⟩ := hmem p hp
      exact ⟨k, hk, sector_lt_u64Size hc.fits hk, rfl⟩
    · rintro rfl
      rcases outcome_cases hc hrun ho with ⟨-, hfin⟩ | ⟨w, e, he, -, -⟩
      · refine ⟨flatMap_usesAt_perm hc hnodup fun i hi => hlate i (by rw [hfin i hi]; rfl), ?_⟩
        intro k hk
        have hfits : k * sectorSize + sectorSize ≤ divCeil len sectorSize * sectorSize := by
          rw [← Nat.succ_mul]
          exact Nat.mul_le_mul_right _ hk
        have hout : window (overwrite (s.disk job.output.file) 0 (reference job (divCeil len sectorSize) s.disk))
            (k * sectorSize) sectorSize =
              window (reference job (divCeil len sectorSize) s.disk) (k * sectorSize) sectorSize := by
          conv_rhs => rw [← window_overwrite_zero (s.disk job.output.file) (reference job _ s.disk)]
          rw [reference_length, window_window _ _ _ _ _ hfits, Nat.zero_add]
        rw [disk_of_allFinished hc hrun hfin, Function.update_self, hout, reference,
          SectorEngine.cryptSectors_sector _ _ _ _ (by rw [padded_length]; exact hfits), Nat.zero_add,
          SectorEngine.sectorIv_eq (sector_lt_u64Size hc.fits hk)]
      · cases he

/-- The three ranges are ciphered in another order than they lie in, the last one first. -/
theorem processRanges_iv_binding_interleaved :
    ∃ s', processRanges paddedJob .globalPool interleavedSchedule paddedStart = some (.ok (.ok ()), s') ∧
      s'.ciphered = [(1024, plain64Iv 2), (0, plain64Iv 0), (512, plain64Iv 1)] ∧
      (s'.ciphered.map fun p => sampleEssiv p.2).Nodup ∧
      s'.ciphered.Perm ((List.range 3).map fun k => (k * sectorSize, plain64Iv k)) ∧
      window (s'.disk 0) 1024 512 = sampleEngine.sectorCipher false (plain64Iv 2) (List.replicate 512 0) := by
  obtain ⟨s', hret, horder⟩ := interleaved_returns
  obtain ⟨log, hlog, -, -, -, hnodup, hall⟩ := processRanges_iv_binding paddedJob 1536 1 .globalPool
    interleavedSchedule paddedStart s' _ rfl (by decide) (by decide) hret
  obtain rfl : s'.ciphered = log := hlog
  obtain ⟨hperm, hsectors⟩ := hall rfl
  refine ⟨s', hret, horder, hnodup sampleEssiv, hperm, ?_⟩
  exact (hsectors 2 (by decide)).trans (congrArg _ (by decide +kernel))

end NocapCrypt.Worker
