import NocapCrypt.KeyMgmt.Readings
import NocapCrypt.Library.Float64
import NocapCrypt.Machine
import NocapCrypt.Worker.DiskInfo

/-! The number of worker threads under a CPU quota: `crates/nocap-crypt-worker/src/{cgroup,heuristic}.rs`. -/

namespace NocapCrypt.Worker

open NocapCrypt.KeyMgmt NocapCrypt.Library NocapCrypt.Library.Decimal NocapCrypt.Library.Rounding
  NocapCrypt.Library.TextEncodings

def cgroupV2CpuMax : String := "/sys/fs/cgroup/cpu.max"

def cgroupV1Quota : String := "/sys/fs/cgroup/cpu/cpu.cfs_quota_us"

def cgroupV1Period : String := "/sys/fs/cgroup/cpu/cpu.cfs_period_us"

/-- `(quota / period).ceil().max(1.0) as usize`. -/
def coresOf (quota period : F64) : ℕ := (((quota.div period).ceil).max (.finite 1)).toNat u64Size

def parseCgroupV2Max (content : String) : Option ℕ :=
  match splitWhitespace content with
  | quotaStr :: periodStr :: _ => do
    let period ← F64.parse periodStr
    if quotaStr = "max" || period.nonpositive then none
    else
      let quota ← F64.parse quotaStr
      if quota.nonpositive then none else some (coresOf quota period)
  | _ => none

/-- `parse::<i64>()`. -/
def parseI64 (s : String) : Option ℤ :=
  match s.toList with
  | '-' :: c :: digits => (parseDigits (2 ^ 63 + 1) 0 (c :: digits)).toOption.map fun n => -(n : ℤ)
  | _ => (parseUnsigned (2 ^ 63) s).toOption.map fun n => (n : ℤ)

def parseCgroupV1 (quotaStr periodStr : String) : Option ℕ := do
  let quota ← parseI64 quotaStr
  let period ← parseI64 periodStr
  if quota ≤ 0 || period ≤ 0 then none else some (coresOf (F64.ofRat quota) (F64.ofRat period))

section Reading

-- `None` when the file cannot be read or is no UTF-8.
variable (readToString : String → Option String)

def cgroupV2Cores : Option ℕ := (readToString cgroupV2CpuMax).bind parseCgroupV2Max

def cgroupV1Cores : Option ℕ := do
  let quota ← readToString cgroupV1Quota
  let period ← readToString cgroupV1Period
  parseCgroupV1 (trim quota) (trim period)

def effectiveQuotaCores : Option ℕ := (cgroupV2Cores readToString).or (cgroupV1Cores readToString)

def effectiveCoreCount (availableParallelism : Option ℕ+) : ℕ :=
  (effectiveQuotaCores readToString).getD (availableParallelism.elim 1 PNat.val)

end Reading

example : ["200000 100000\n", "max 100000\n", "150000 100000\n", "nan 5", "inf 5", "-0 5"].map parseCgroupV2Max =
    [some 2, none, some 2, some 1, some (2 ^ 64 - 1), none] := by
  decide +kernel

example : parseCgroupV1 "200000" "100000" = some 2 ∧ parseCgroupV1 "-1" "100000" = none ∧
    parseCgroupV1 "not-a-number" "100000" = none := by
  decide +kernel

/-- What the kernel keeps for a group: the time that it may use in each period, if that is limited. -/
structure Bandwidth where
  quota : Option ℕ
  period : ℕ
  quota_pos : ∀ n ∈ quota, 0 < n
  quota_lt : ∀ n ∈ quota, n < 2 ^ 53
  period_pos : 0 < period
  period_lt : period < 2 ^ 53

/-- The groups of the two hierarchies that the process is in. -/
structure Cgroups where
  v2 : Option Bandwidth
  v1 : Option Bandwidth

def Cgroups.readToString (groups : Cgroups) (path : String) : Option String :=
  if path = cgroupV2CpuMax then groups.v2.map fun b => b.quota.elim "max" Nat.repr ++ " " ++ b.period.repr ++ "\n"
  else if path = cgroupV1Quota then groups.v1.map fun b => b.quota.elim "-1" Nat.repr ++ "\n"
  else if path = cgroupV1Period then groups.v1.map fun b => b.period.repr ++ "\n"
  else none

/-- The least number of cores that suffices for the quota. -/
def Bandwidth.Cores (b : Bandwidth) (cores : ℕ) : Prop :=
  ∃ quota, b.quota = some quota ∧ IsLeast {n : ℕ | quota ≤ n * b.period} cores

section Numerals

variable {n : ℕ}

lemma repr_digit {c : Char} (hc : c ∈ n.repr.toList) : c.isDigit = true := by
  rw [Nat.toList_repr] at hc
  exact Nat.isDigit_of_mem_toDigits (by decide) (by decide) hc

lemma digit_graphic {c : Char} (hc : c.isDigit = true) : Graphic c := by
  rw [F64.isDigit_iff] at hc
  exact ⟨lt_of_lt_of_le (by decide) hc.1, lt_of_le_of_lt hc.2 (by decide)⟩

lemma repr_isField (n : ℕ) : IsField n.repr := by
  refine ⟨?_, fun c hc => graphic_not_whitespace (digit_graphic (repr_digit hc))⟩
  intro h
  have hlist := congrArg String.toList h
  rw [Nat.toList_repr] at hlist
  exact Nat.toDigits_ne_nil hlist

lemma repr_ne_max (n : ℕ) : n.repr ≠ "max" := by
  intro h
  have hdigit := repr_digit (n := n) (c := 'm') (by rw [h]; decide)
  revert hdigit
  decide

lemma trim_line {line : String} (h : ∀ c ∈ line.toList, Graphic c) : trim (line ++ "\n") = line := by
  have htrim : trim (String.ofList ([] ++ line.toList ++ ['\n'])) = String.ofList line.toList :=
    trim_surrounded (by simp) h (by simp [isWhitespace])
  rw [List.nil_append, String.ofList_append, String.ofList_toList] at htrim
  exact htrim

lemma parseI64_repr (h : n < 2 ^ 63) : parseI64 n.repr = some (n : ℤ) := by
  have hparse : parseUnsigned (2 ^ 63) n.repr = .ok n := (parseUnsigned_ok (by decide)).mpr ⟨h, numeral_repr n⟩
  rw [parseI64]
  split
  · rename_i c digits hminus
    have hdigit : Char.isDigit '-' = true := repr_digit (n := n) (by rw [hminus]; exact List.mem_cons_self)
    exact absurd hdigit (by decide)
  · rw [hparse]
    rfl

end Numerals

section Cores

lemma one_le_coresOf (quota period : F64) : 1 ≤ coresOf quota period := by
  have hsize : 1 ≤ u64Size - 1 := by decide
  rw [coresOf]
  cases (quota.div period).ceil with
  | nan => exact le_min (Nat.le_floor (by norm_num)) hsize
  | infinity negative =>
    cases negative with
    | true => exact le_min (Nat.le_floor (by norm_num)) hsize
    | false => exact hsize
  | finite x => exact le_min (Nat.le_floor (by rw [Nat.cast_one]; exact le_max_right _ _)) hsize

variable {quota period : ℕ}

/-- Neither the division nor the conversions lose or add a core. -/
lemma coresOf_isLeast (hq : 0 < quota) (hqfits : quota < 2 ^ 53) (hp : 0 < period) (hpfits : period < 2 ^ 53) :
    IsLeast {n : ℕ | quota ≤ n * period} (coresOf (.finite quota) (.finite period)) := by
  have hp' : (0 : ℚ) < period := by exact_mod_cast hp
  have hquotient : (0 : ℚ) < quota / period := div_pos (by exact_mod_cast hq) hp'
  have hcores : coresOf (.finite quota) (.finite period) = ⌈(quota : ℚ) / period⌉₊ := by
    have hone : (1 : ℚ) ≤ ⌈(quota : ℚ) / period⌉₊ := by exact_mod_cast Nat.ceil_pos.mpr hquotient
    have hle : ⌈(quota : ℚ) / period⌉₊ ≤ u64Size - 1 := by
      have hbound : ⌈(quota : ℚ) / period⌉₊ ≤ quota :=
        Nat.ceil_le.mpr (div_le_self (by positivity) (by exact_mod_cast hp))
      rw [show u64Size = 2 ^ 64 from rfl]
      omega
    rw [coresOf, F64.div_natCast hq hqfits hp hpfits, F64.ceil, ceil_nearest_div hq hqfits hp, F64.max,
      ← natCast_ceil_eq_intCast_ceil hquotient.le, max_eq_left hone, F64.toNat, Nat.floor_natCast, min_eq_left hle]
  rw [hcores]
  constructor
  · have h := (div_le_iff₀ hp').mp (Nat.le_ceil ((quota : ℚ) / period))
    exact_mod_cast h
  · intro n hn
    rw [Nat.ceil_le, div_le_iff₀ hp']
    exact_mod_cast hn

lemma splitWhitespace_pair {first second : String} (hfirst : IsField first) (hsecond : IsField second) :
    splitWhitespace (first ++ " " ++ second ++ "\n") = [first, second] := by
  have htext : first ++ " " ++ second ++ "\n" =
      String.ofList (first.toList ++ ' ' :: (second.toList ++ '\n' :: ([] : List Char))) := by
    apply String.toList_inj.mp
    simp
  have hsecond' := splitWhitespace_append hsecond (c := '\n') (by decide) []
  rw [htext, splitWhitespace_append hfirst (by decide), hsecond']
  rfl

lemma parse_repr {n : ℕ} (h : n < 2 ^ 53) : F64.parse n.repr = some (.finite n) :=
  F64.parse_numeral (numeral_repr n) h

lemma nonpositive_finite {n : ℕ} (h : 0 < n) : (F64.finite n).nonpositive = false := by
  rw [F64.nonpositive, decide_eq_false_iff_not, not_le]
  exact_mod_cast h

def Bandwidth.cores (b : Bandwidth) : Option ℕ :=
  b.quota.map fun quota : ℕ => coresOf (.finite quota) (.finite b.period)

variable (b : Bandwidth)

lemma parseCgroupV2Max_text :
    parseCgroupV2Max (b.quota.elim "max" Nat.repr ++ " " ++ b.period.repr ++ "\n") = b.cores := by
  have hperiod := parse_repr b.period_lt
  have hpositive := nonpositive_finite b.period_pos
  rw [Bandwidth.cores, parseCgroupV2Max]
  cases hquota : b.quota with
  | none =>
    have hmax : IsField "max" := ⟨by decide, by simp [isWhitespace]⟩
    rw [Option.elim_none, splitWhitespace_pair hmax (repr_isField _)]
    simp [hperiod]
  | some quota =>
    rw [Option.elim_some, splitWhitespace_pair (repr_isField _) (repr_isField _)]
    have hq := parse_repr (b.quota_lt quota hquota)
    have hqpositive := nonpositive_finite (b.quota_pos quota hquota)
    simp [hperiod, hpositive, hq, hqpositive, repr_ne_max]

lemma parseCgroupV1_text :
    parseCgroupV1 (trim (b.quota.elim "-1" Nat.repr ++ "\n")) (trim (b.period.repr ++ "\n")) = b.cores := by
  have hperiod : parseI64 b.period.repr = some (b.period : ℤ) :=
    parseI64_repr (b.period_lt.trans (by decide))
  have hline : ∀ n : ℕ, trim (n.repr ++ "\n") = n.repr := fun n =>
    trim_line fun c hc => digit_graphic (repr_digit hc)
  rw [Bandwidth.cores, parseCgroupV1, hline]
  cases hquota : b.quota with
  | none =>
    have hminus : parseI64 (trim ("-1" ++ "\n")) = some (-1) := by decide +kernel
    rw [Option.elim_none, hminus, hperiod]
    rfl
  | some quota =>
    have hq : parseI64 quota.repr = some (quota : ℤ) := parseI64_repr ((b.quota_lt quota hquota).trans (by decide))
    have hqpos := b.quota_pos quota hquota
    have hppos := b.period_pos
    rw [Option.elim_some, hline, hq, hperiod]
    change (if _ then none else some (coresOf (F64.ofRat ((quota : ℤ) : ℚ)) (F64.ofRat ((b.period : ℤ) : ℚ)))) = _
    rw [Int.cast_natCast, Int.cast_natCast, F64.ofRat_natCast (b.quota_lt quota hquota), F64.ofRat_natCast b.period_lt]
    refine if_neg ?_
    rw [Bool.or_eq_true, decide_eq_true_iff, decide_eq_true_iff]
    omega

lemma effectiveQuotaCores_cgroups (groups : Cgroups) :
    effectiveQuotaCores groups.readToString = (groups.v2.bind Bandwidth.cores).or (groups.v1.bind Bandwidth.cores) := by
  have hv2 : cgroupV2Cores groups.readToString = groups.v2.bind Bandwidth.cores := by
    rw [cgroupV2Cores, Cgroups.readToString, if_pos rfl]
    cases groups.v2 with
    | none => rfl
    | some b => exact parseCgroupV2Max_text b
  have hv1 : cgroupV1Cores groups.readToString = groups.v1.bind Bandwidth.cores := by
    have hquota : groups.readToString cgroupV1Quota = groups.v1.map fun b => b.quota.elim "-1" Nat.repr ++ "\n" := by
      rw [Cgroups.readToString, if_neg (by decide), if_pos rfl]
    have hperiod : groups.readToString cgroupV1Period = groups.v1.map fun b => b.period.repr ++ "\n" := by
      rw [Cgroups.readToString, if_neg (by decide), if_neg (by decide), if_pos rfl]
    rw [cgroupV1Cores, hquota, hperiod]
    cases groups.v1 with
    | none => rfl
    | some b =>
      simp only [Option.map_some, Option.bind_eq_bind, Option.bind_some]
      exact parseCgroupV1_text b
  rw [effectiveQuotaCores, hv2, hv1]

lemma parseCgroupV2Max_cores {content : String} {n : ℕ} (h : parseCgroupV2Max content = some n) :
    ∃ quota period, n = coresOf quota period := by
  rw [parseCgroupV2Max] at h
  split at h
  · obtain ⟨period, -, h⟩ := Option.bind_eq_some_iff.mp h
    split at h
    · cases h
    · obtain ⟨quota, -, h⟩ := Option.bind_eq_some_iff.mp h
      split at h
      · cases h
      · cases h
        exact ⟨quota, period, rfl⟩
  · cases h

lemma parseCgroupV1_cores {quotaStr periodStr : String} {n : ℕ} (h : parseCgroupV1 quotaStr periodStr = some n) :
    ∃ quota period, n = coresOf quota period := by
  obtain ⟨quota, -, h⟩ := Option.bind_eq_some_iff.mp h
  obtain ⟨period, -, h⟩ := Option.bind_eq_some_iff.mp h
  split at h
  · cases h
  · cases h
    exact ⟨_, _, rfl⟩

lemma one_le_effectiveCoreCount (readToString : String → Option String) (available : Option ℕ+) :
    1 ≤ effectiveCoreCount readToString available := by
  rw [effectiveCoreCount]
  cases hcores : effectiveQuotaCores readToString with
  | none =>
    cases available with
    | none => exact le_refl 1
    | some n => exact n.2
  | some n =>
    have hsome : ∃ quota period, n = coresOf quota period := by
      rcases Option.or_eq_some_iff.mp hcores with hv2 | ⟨-, hv1⟩
      · obtain ⟨content, -, h⟩ := Option.bind_eq_some_iff.mp hv2
        exact parseCgroupV2Max_cores h
      · obtain ⟨quota, -, h⟩ := Option.bind_eq_some_iff.mp hv1
        obtain ⟨period, -, h⟩ := Option.bind_eq_some_iff.mp h
        exact parseCgroupV1_cores h
    obtain ⟨quota, period, rfl⟩ := hsome
    exact one_le_coresOf quota period

lemma Bandwidth.cores_isSome {quota : ℕ} (hquota : b.quota = some quota) : ∃ n, b.cores = some n ∧ b.Cores n := by
  refine ⟨coresOf (.finite quota) (.finite b.period), ?_, quota, hquota, ?_⟩
  · rw [Bandwidth.cores, hquota, Option.map_some]
  · exact coresOf_isLeast (b.quota_pos quota hquota) (b.quota_lt quota hquota) b.period_pos b.period_lt

lemma cores_cases (group : Option Bandwidth) :
    (group.filter (·.quota.isSome) = none ∧ group.bind Bandwidth.cores = none) ∨
      ∃ b n, group.filter (·.quota.isSome) = some b ∧ group.bind Bandwidth.cores = some n ∧ b.Cores n := by
  cases group with
  | none => exact Or.inl ⟨rfl, rfl⟩
  | some b =>
    cases hquota : b.quota with
    | none => exact Or.inl ⟨by simp [Option.filter, hquota], by simp [Bandwidth.cores, hquota]⟩
    | some quota =>
      obtain ⟨n, hn, hleast⟩ := b.cores_isSome hquota
      exact Or.inr ⟨b, n, by simp [Option.filter, hquota], hn, hleast⟩

/-- Whatever the files hold there is a thread, and for what the kernel writes to them there are as many as the first
limited group needs, or as many as the machine has. -/
theorem effectiveCoreCount_cgroups (available : Option ℕ+) :
    (∀ readToString, 1 ≤ effectiveCoreCount readToString available) ∧
      ∀ groups : Cgroups,
        match (groups.v2.filter (·.quota.isSome)).or (groups.v1.filter (·.quota.isSome)) with
        | some b => b.Cores (effectiveCoreCount groups.readToString available)
        | none => effectiveCoreCount groups.readToString available = available.elim 1 PNat.val := by
  refine ⟨fun readToString => one_le_effectiveCoreCount readToString available, ?_⟩
  intro groups
  rw [effectiveCoreCount, effectiveQuotaCores_cgroups]
  rcases cores_cases groups.v2 with ⟨hfilter, hbind⟩ | ⟨b, n, hfilter, hbind, hleast⟩
  · rw [hfilter, hbind, Option.none_or, Option.none_or]
    rcases cores_cases groups.v1 with ⟨hfilter, hbind⟩ | ⟨b, n, hfilter, hbind, hleast⟩
    · rw [hfilter, hbind, Option.getD_none]
    · rw [hfilter, hbind, Option.getD_some]
      exact hleast
  · rw [hfilter, hbind, Option.some_or, Option.some_or, Option.getD_some]
    exact hleast

end Cores

end NocapCrypt.Worker
