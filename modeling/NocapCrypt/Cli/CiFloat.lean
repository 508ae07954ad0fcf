import NocapCrypt.Cli.CiProgress
import NocapCrypt.Library.Rounding

/-! The progress lines of `--ci` mode in the arithmetic of `f64`, as `crates/nocap-crypt-cli/src/ci_progress.rs` has
it: up to 512 TiB the rounding changes no decision. -/

namespace NocapCrypt.Cli.CiProgress

open NocapCrypt.Library.Rounding

/-- An operation of `f64`, where its result is in the range of normal numbers. -/
def f64 (x : ℚ) : ℚ := nearest 53 x

def percent64 (done totalBytes : ℕ) : ℚ := f64 (f64 (f64 done / f64 totalBytes) * 100)

def threshold64 (percent : ℚ) : ℕ := ⌊f64 (percent / 25)⌋₊ * 25

def loop64 (totalBytes : ℕ) (counter : ℕ → ℕ) (isFinished : ℕ → Bool) : ℕ → List CiPoll → Option (List CiStep)
  | _, [] => none
  | lastThreshold, poll :: polls =>
    let finished := isFinished poll.check
    let done := min (counter poll.load) totalBytes
    let percent := percent64 done totalBytes
    let threshold := threshold64 percent
    let reports := finished || decide (lastThreshold < threshold) || (poll.idle && decide (0 < done))
    let step : CiStep := ⟨finished, if reports then some percent else none⟩
    if finished then some [step]
    else (loop64 totalBytes counter isFinished (if reports then max lastThreshold threshold else lastThreshold)
      polls).map (step :: ·)

def run64 (totalBytes : ℕ) (counter : ℕ → ℕ) (isFinished : ℕ → Bool) (polls : List CiPoll) : Option (List CiStep) :=
  if totalBytes = 0 then some [] else loop64 totalBytes counter isFinished 0 polls

section Rounded

variable {done totalBytes : ℕ}

lemma f64_natCast {n : ℕ} (h : n < 2 ^ 53) : f64 n = n := nearest_of_fits (fits_natCast h)

lemma f64_nonneg {x : ℚ} (h : 0 ≤ x) : 0 ≤ f64 x := nearest_nonneg (by decide) h

lemma f64_le {x y : ℚ} (hy : Fits 53 y) (hx : 0 ≤ x) (h : x ≤ y) : f64 x ≤ y := nearest_le (by decide) hy hx h

lemma le_f64 {x y : ℚ} (hy : Fits 53 y) (hpos : 0 < y) (h : y ≤ x) : y ≤ f64 x := le_nearest (by decide) hy hpos h

lemma f64_mono {x y : ℚ} (hx : 0 ≤ x) (h : x ≤ y) : f64 x ≤ f64 y := by
  rcases hx.eq_or_lt with rfl | hpos
  · rw [f64, nearest_zero]
    exact f64_nonneg h
  · exact nearest_mono (by decide) hpos h

lemma f64_near {x : ℚ} (h : 0 ≤ x) : x - x / 2 ^ 53 ≤ f64 x ∧ f64 x ≤ x + x / 2 ^ 53 := by
  have herror := abs_nearest_sub_le 53 h
  rw [abs_le] at herror
  rw [f64]
  exact ⟨by linarith, by linarith⟩

lemma percent64_eq (hle : done ≤ totalBytes) (hsize : totalBytes ≤ 2 ^ 49) :
    percent64 done totalBytes = f64 (f64 (done / totalBytes) * 100) := by
  rw [percent64, f64_natCast (by omega), f64_natCast (by omega)]

lemma ratio_le_one (hle : done ≤ totalBytes) : (done : ℚ) / totalBytes ≤ 1 :=
  div_le_one_of_le₀ (by exact_mod_cast hle) (Nat.cast_nonneg _)

lemma ratio_nonneg (done totalBytes : ℕ) : (0 : ℚ) ≤ done / totalBytes := by positivity

/-- A quarter that has not been reached is missed by more than the three roundings can make up for. -/
lemma percent64_lt {k : ℕ} (hk : k ≤ 4) (htotal : 0 < totalBytes) (hsize : totalBytes ≤ 2 ^ 49)
    (h : 4 * done < k * totalBytes) :
    percent64 done totalBytes ≤ 25 * k - 200 / 2 ^ 53 ∧ f64 (percent64 done totalBytes / 25) < k := by
  have hle : done ≤ totalBytes := by
    have hfour := Nat.mul_le_mul_right totalBytes hk
    omega
  have htotal' : (0 : ℚ) < totalBytes := by exact_mod_cast htotal
  have hk' : (k : ℚ) ≤ 4 := by exact_mod_cast hk
  have hratio : (done : ℚ) / totalBytes ≤ k / 4 - 4 / 2 ^ 53 := by
    have hstrict : (4 * done + 1 : ℚ) ≤ k * totalBytes := by exact_mod_cast h
    have hsize' : (totalBytes : ℚ) ≤ 2 ^ 49 := by exact_mod_cast hsize
    rw [div_le_iff₀ htotal']
    linarith
  have hone : f64 (done / totalBytes) ≤ k / 4 - 3 / 2 ^ 53 := by
    have hnear := (f64_near (ratio_nonneg done totalBytes)).2
    have hbound := ratio_le_one hle
    linarith
  have hone_nonneg := f64_nonneg (ratio_nonneg done totalBytes)
  have htwo : percent64 done totalBytes ≤ 25 * k - 200 / 2 ^ 53 := by
    rw [percent64_eq hle hsize]
    have hnear := (f64_near (mul_nonneg hone_nonneg (show (0 : ℚ) ≤ 100 by norm_num))).2
    linarith
  have htwo_nonneg : 0 ≤ percent64 done totalBytes := by
    rw [percent64_eq hle hsize]
    exact f64_nonneg (mul_nonneg hone_nonneg (by norm_num))
  refine ⟨htwo, ?_⟩
  have hnear := (f64_near (div_nonneg htwo_nonneg (show (0 : ℚ) ≤ 25 by norm_num))).2
  linarith

/-- A quarter that has been reached is a number that `f64` has. -/
lemma le_percent64 {k : ℕ} (hk : k ≤ 4) (hkpos : 0 < k) (hle : done ≤ totalBytes) (htotal : 0 < totalBytes)
    (hsize : totalBytes ≤ 2 ^ 49) (h : k * totalBytes ≤ 4 * done) :
    25 * k ≤ percent64 done totalBytes ∧ k ≤ f64 (percent64 done totalBytes / 25) := by
  have htotal' : (0 : ℚ) < totalBytes := by exact_mod_cast htotal
  have hkpos' : (0 : ℚ) < k := by exact_mod_cast hkpos
  have hquarter : Fits 53 ((k : ℚ) / 4) := ⟨k, by omega, -2, by norm_num; ring⟩
  have hpercent : Fits 53 (25 * k : ℚ) := by
    have hfits := fits_natCast (p := 53) (n := 25 * k) (by omega)
    push_cast at hfits
    exact hfits
  have hratio : (k : ℚ) / 4 ≤ done / totalBytes := by
    have h' : (k : ℚ) * totalBytes ≤ 4 * done := by exact_mod_cast h
    rw [le_div_iff₀ htotal']
    linarith
  have hone := le_f64 hquarter (by linarith) hratio
  have htwo : 25 * k ≤ percent64 done totalBytes := by
    rw [percent64_eq hle hsize]
    exact le_f64 hpercent (by linarith) (by linarith)
  refine ⟨htwo, ?_⟩
  exact le_f64 (fits_natCast (by omega)) hkpos' (by linarith)

lemma percent64_le_hundred (hle : done ≤ totalBytes) (hsize : totalBytes ≤ 2 ^ 49) :
    percent64 done totalBytes ≤ 100 := by
  have hone : f64 (done / totalBytes) ≤ 1 :=
    f64_le ⟨1, by norm_num, 0, by norm_num⟩ (ratio_nonneg _ _) (ratio_le_one hle)
  have hnonneg := f64_nonneg (ratio_nonneg done totalBytes)
  rw [percent64_eq hle hsize]
  exact f64_le ⟨100, by norm_num, 0, by norm_num⟩ (by linarith) (by linarith)

lemma threshold64_percent64 (hle : done ≤ totalBytes) (htotal : 0 < totalBytes) (hsize : totalBytes ≤ 2 ^ 49) :
    threshold64 (percent64 done totalBytes) = threshold (percent done totalBytes) := by
  have htotal' : (0 : ℚ) < totalBytes := by exact_mod_cast htotal
  rw [threshold64, threshold]
  congr 1
  apply eq_of_forall_le_iff
  intro k
  rcases Nat.eq_zero_or_pos k with rfl | hkpos
  · exact iff_of_true (Nat.zero_le _) (Nat.zero_le _)
  rw [Nat.le_floor_iff' hkpos.ne', Nat.le_floor_iff' hkpos.ne', percent]
  have hexact : (k : ℚ) ≤ done / totalBytes * 100 / 25 ↔ k * totalBytes ≤ 4 * done := by
    rw [show (done : ℚ) / totalBytes * 100 / 25 = 4 * done / totalBytes by ring, le_div_iff₀ htotal']
    exact_mod_cast Iff.rfl
  rw [hexact]
  by_cases hk : k ≤ 4
  · constructor
    · intro hfloat
      by_contra hlt
      exact (percent64_lt hk htotal hsize (Nat.lt_of_not_le hlt)).2.not_ge hfloat
    · intro hreached
      exact (le_percent64 hk hkpos hle htotal hsize hreached).2
  · have hfive : 5 ≤ k := by omega
    have hnonneg : 0 ≤ percent64 done totalBytes := by
      rw [percent64_eq hle hsize]
      exact f64_nonneg (mul_nonneg (f64_nonneg (ratio_nonneg _ _)) (by norm_num))
    have hfour : f64 (percent64 done totalBytes / 25) ≤ 4 :=
      f64_le ⟨4, by norm_num, 0, by norm_num⟩ (by linarith)
        (by linarith [percent64_le_hundred hle hsize])
    refine iff_of_false ?_ ?_
    · intro h
      have hfive' : (5 : ℚ) ≤ k := by exact_mod_cast hfive
      linarith
    · intro h
      have hmul := Nat.mul_le_mul_right totalBytes hfive
      omega

lemma percent64_eq_hundred (hle : done ≤ totalBytes) (htotal : 0 < totalBytes) (hsize : totalBytes ≤ 2 ^ 49) :
    percent64 done totalBytes = 100 ↔ percent done totalBytes = 100 := by
  have hpercent := percent_eq_iff htotal done
  rw [min_eq_left hle] at hpercent
  rw [hpercent]
  constructor
  · intro h
    by_contra hlt
    have hmissed : 4 * done < 4 * totalBytes := by omega
    have hless := (percent64_lt le_rfl htotal hsize hmissed).1
    rw [h] at hless
    norm_num at hless
  · intro h
    have hreached : 4 * totalBytes ≤ 4 * done := by omega
    have hmore := (le_percent64 le_rfl (by decide) hle htotal hsize hreached).1
    norm_num at hmore
    exact le_antisymm (percent64_le_hundred hle hsize) hmore

lemma abs_percent64_sub_le (hle : done ≤ totalBytes) (hsize : totalBytes ≤ 2 ^ 49) :
    |percent64 done totalBytes - percent done totalBytes| ≤ 1 / 2 ^ 45 := by
  have hratio := ratio_nonneg done totalBytes
  have hbound := ratio_le_one hle
  obtain ⟨hlo, hhi⟩ := f64_near hratio
  obtain ⟨hlo', hhi'⟩ := f64_near (mul_nonneg (f64_nonneg hratio) (show (0 : ℚ) ≤ 100 by norm_num))
  rw [percent64_eq hle hsize, percent, abs_le]
  constructor <;> linarith

lemma percent64_mono {a b : ℕ} (hab : a ≤ b) (hle : b ≤ totalBytes) (hsize : totalBytes ≤ 2 ^ 49) :
    percent64 a totalBytes ≤ percent64 b totalBytes := by
  rw [percent64_eq (hab.trans hle) hsize, percent64_eq hle hsize]
  have hratio : (a : ℚ) / totalBytes ≤ b / totalBytes := by gcongr
  have hone := f64_mono (ratio_nonneg a totalBytes) hratio
  exact f64_mono (mul_nonneg (f64_nonneg (ratio_nonneg _ _)) (by norm_num)) (by linarith)

end Rounded

/-- The two steps of a poll that has loaded `done`, or no more than the total. -/
def SamePoll (totalBytes : ℕ) (s t : CiStep) : Prop :=
  s.finished = t.finished ∧ ((s.report = none ∧ t.report = none) ∨
    ∃ done ≤ totalBytes, s.report = some (percent64 done totalBytes) ∧ t.report = some (percent done totalBytes))

lemma rel_map {α β γ δ : Type} {R : α → β → Prop} {S : γ → δ → Prop} {f : α → γ} {g : β → δ} {a : Option α}
    {b : Option β} (h : Option.Rel R a b) (hf : ∀ x y, R x y → S (f x) (g y)) : Option.Rel S (a.map f) (b.map g) := by
  cases h with
  | some h => exact .some (hf _ _ h)
  | none => exact .none

section Runs

variable {totalBytes : ℕ} {counter : ℕ → ℕ} {isFinished : ℕ → Bool}

/-- Both loops carry the same threshold from poll to poll. -/
lemma loop64_samePoll (htotal : 0 < totalBytes) (hsize : totalBytes ≤ 2 ^ 49) (last : ℕ) (polls : List CiPoll) :
    Option.Rel (List.Forall₂ (SamePoll totalBytes)) (loop64 totalBytes counter isFinished last polls)
      (loop totalBytes counter isFinished last polls) := by
  induction polls generalizing last with
  | nil => exact .none
  | cons poll polls ih =>
    have hle : min (counter poll.load) totalBytes ≤ totalBytes := min_le_right _ _
    rw [loop64, loop]
    simp only [threshold64_percent64 hle htotal hsize]
    generalize min (counter poll.load) totalBytes = done at hle ⊢
    generalize (isFinished poll.check || decide (last < threshold (percent done totalBytes)) ||
      (poll.idle && decide (0 < done))) = reports
    have hstep : SamePoll totalBytes
        ⟨isFinished poll.check, if reports then some (percent64 done totalBytes) else none⟩
        ⟨isFinished poll.check, if reports then some (percent done totalBytes) else none⟩ := by
      refine ⟨rfl, ?_⟩
      cases reports with
      | true => exact Or.inr ⟨_, hle, rfl, rfl⟩
      | false => exact Or.inl ⟨rfl, rfl⟩
    split
    · exact .some (.cons hstep .nil)
    · exact rel_map (ih _) fun steps64 steps hrest => .cons hstep hrest

lemma run64_samePoll (hsize : totalBytes ≤ 2 ^ 49) (polls : List CiPoll) :
    Option.Rel (List.Forall₂ (SamePoll totalBytes)) (run64 totalBytes counter isFinished polls)
      (run totalBytes counter isFinished polls) := by
  rw [run64, run]
  split
  · exact .some .nil
  · exact loop64_samePoll (Nat.pos_of_ne_zero ‹_›) hsize 0 polls

def SameDone (totalBytes : ℕ) (p q : ℚ) : Prop :=
  ∃ done ≤ totalBytes, p = percent64 done totalBytes ∧ q = percent done totalBytes

lemma sameDone_reports {steps64 steps : List CiStep} (h : List.Forall₂ (SamePoll totalBytes) steps64 steps) :
    List.Forall₂ (SameDone totalBytes) (steps64.filterMap CiStep.report) (steps.filterMap CiStep.report) := by
  refine List.rel_filterMap ?_ h
  rintro s t ⟨-, ⟨hs, ht⟩ | ⟨done, hle, hs, ht⟩⟩
  · rw [hs, ht]
    exact .none
  · rw [hs, ht]
    exact .some ⟨done, hle, rfl, rfl⟩

lemma SameDone.mono (htotal : 0 < totalBytes) (hsize : totalBytes ≤ 2 ^ 49) {p p' q q' : ℚ}
    (h : SameDone totalBytes p q) (h' : SameDone totalBytes p' q') (hq : q ≤ q') : p ≤ p' := by
  obtain ⟨done, hle, rfl, rfl⟩ := h
  obtain ⟨done', hle', rfl, rfl⟩ := h'
  have htotal' : (0 : ℚ) < totalBytes := by exact_mod_cast htotal
  rw [percent, percent, mul_le_mul_iff_left₀ (by norm_num), div_le_div_iff_of_pos_right htotal'] at hq
  exact percent64_mono (by exact_mod_cast hq) hle' hsize

lemma sameDone_sorted (htotal : 0 < totalBytes) (hsize : totalBytes ≤ 2 ^ 49) {ps qs : List ℚ}
    (h : List.Forall₂ (SameDone totalBytes) ps qs) (hq : qs.Pairwise (· ≤ ·)) : ps.Pairwise (· ≤ ·) := by
  induction h with
  | nil => exact .nil
  | @cons p q ps qs hpq h ih =>
    rw [List.pairwise_cons] at hq ⊢
    refine ⟨?_, ih hq.2⟩
    intro p' hp'
    obtain ⟨i, hi, rfl⟩ := List.mem_iff_getElem.mp hp'
    have hi' : i < qs.length := h.length_eq ▸ hi
    exact hpq.mono htotal hsize (h.get hi hi') (hq.1 _ (List.getElem_mem hi'))

end Runs

/-- The reports of two polls, one in the arithmetic of `f64`. -/
structure ReportedAlike (s t : CiStep) : Prop where
  finished : s.finished = t.finished
  report : Option.Rel (fun p q => |p - q| ≤ 1 / 2 ^ 45 ∧ (p = 100 ↔ q = 100)) s.report t.report

/-- Up to 512 TiB the loop over `f64` reports at the same polls as the loop over exact fractions, and 100 for 100, and
its percentages never fall either. -/
theorem run64_agrees (totalBytes : ℕ) (hsize : totalBytes ≤ 2 ^ 49) (counter : ℕ → ℕ) (isFinished : ℕ → Bool)
    (polls : List CiPoll) :
    Option.Rel (List.Forall₂ ReportedAlike) (run64 totalBytes counter isFinished polls)
        (run totalBytes counter isFinished polls) ∧
      (Monotone counter → Ordered polls → ∀ steps, run64 totalBytes counter isFinished polls = some steps →
        (steps.filterMap CiStep.report).Pairwise (· ≤ ·)) := by
  rcases Nat.eq_zero_or_pos totalBytes with rfl | htotal
  · refine ⟨.some .nil, ?_⟩
    rintro - - steps ⟨⟩
    exact .nil
  have hsame : Option.Rel (List.Forall₂ (SamePoll totalBytes)) (run64 totalBytes counter isFinished polls)
      (run totalBytes counter isFinished polls) := run64_samePoll hsize polls
  have halike : ∀ s t, SamePoll totalBytes s t → ReportedAlike s t := by
    rintro s t ⟨hfinished, ⟨hs, ht⟩ | ⟨done, hle, hs, ht⟩⟩
    · exact ⟨hfinished, by rw [hs, ht]; exact .none⟩
    · refine ⟨hfinished, ?_⟩
      rw [hs, ht]
      exact .some ⟨abs_percent64_sub_le hle hsize, percent64_eq_hundred hle htotal hsize⟩
  cases h64 : run64 totalBytes counter isFinished polls with
  | none =>
    rw [h64] at hsame
    cases h : run totalBytes counter isFinished polls with
    | none =>
      refine ⟨.none, ?_⟩
      rintro - - steps ⟨⟩
    | some steps =>
      rw [h] at hsame
      cases hsame
  | some steps64 =>
    rw [h64] at hsame
    cases h : run totalBytes counter isFinished polls with
    | none =>
      rw [h] at hsame
      cases hsame
    | some steps =>
      rw [h] at hsame
      cases hsame with
      | some hsteps =>
        refine ⟨.some (hsteps.imp halike), ?_⟩
        rintro hmono hordered steps' ⟨⟩
        rw [run, if_neg htotal.ne'] at h
        exact sameDone_sorted htotal hsize (sameDone_reports hsteps) (reports_sorted hmono hordered h)

/-- A third and two thirds of 96 bytes have no exact percentage. -/
theorem run64_agrees_sample :
    ∃ steps, run64 96 (fun t => min 96 (8 * t)) (fun t => decide (12 ≤ t))
        [⟨4, 4, false⟩, ⟨8, 8, false⟩, ⟨12, 13, false⟩] = some steps ∧
      List.Forall₂ ReportedAlike steps
        [⟨false, some (100 / 3)⟩, ⟨false, some (200 / 3)⟩, ⟨true, some 100⟩] ∧
      (steps.filterMap CiStep.report).Pairwise (· ≤ ·) := by
  obtain ⟨hagree, hsorted⟩ := run64_agrees 96 (by norm_num) (fun t => min 96 (8 * t)) (fun t => decide (12 ≤ t))
    [⟨4, 4, false⟩, ⟨8, 8, false⟩, ⟨12, 13, false⟩]
  have hrun : run 96 (fun t => min 96 (8 * t)) (fun t => decide (12 ≤ t))
      [⟨4, 4, false⟩, ⟨8, 8, false⟩, ⟨12, 13, false⟩] =
        some [⟨false, some (100 / 3)⟩, ⟨false, some (200 / 3)⟩, ⟨true, some 100⟩] := by decide +kernel
  rw [hrun] at hagree
  have hmono : Monotone fun t => min 96 (8 * t) := fun _ _ h => min_le_min_left _ (Nat.mul_le_mul_left 8 h)
  have hordered : Ordered [⟨4, 4, false⟩, ⟨8, 8, false⟩, ⟨12, 13, false⟩] := by simp [Ordered]
  cases h64 : run64 96 (fun t => min 96 (8 * t)) (fun t => decide (12 ≤ t))
      [⟨4, 4, false⟩, ⟨8, 8, false⟩, ⟨12, 13, false⟩] with
  | none =>
    rw [h64] at hagree
    cases hagree
  | some steps =>
    rw [h64] at hagree
    cases hagree with
    | some halike => exact ⟨steps, rfl, halike, hsorted hmono hordered steps h64⟩

/-- Beyond that the loop can report 100 before the last byte. -/
example : percent64 (2 ^ 53) (2 ^ 53 + 1) = 100 := by decide +kernel

end NocapCrypt.Cli.CiProgress
