import NocapCrypt.KeyMgmt.Format

/-! The disk under a file: `crates/nocap-crypt-worker/src/diskinfo.rs`. -/

namespace NocapCrypt.Worker

open NocapCrypt.KeyMgmt

/-- `rfind`: what stands before and after the last `c`. -/
def rsplit (c : Char) : List Char → Option (List Char × List Char)
  | [] => none
  | x :: xs =>
    match rsplit c xs with
    | some (head, tail) => some (x :: head, tail)
    | none => if x = c then some ([], xs) else none

def keepsDigits (name : List Char) : Bool :=
  "nvme".toList.isPrefixOf name || "mmcblk".toList.isPrefixOf name || "loop".toList.isPrefixOf name

def baseChars (name : List Char) : List Char :=
  let whole := if keepsDigits name then name else name.rdropWhile Char.isDigit
  match rsplit 'p' name with
  | some (head, tail) =>
    if head.getLast?.any Char.isDigit && !tail.isEmpty && tail.all Char.isDigit then head else whole
  | none => whole

def baseDeviceName (name : String) : String := String.ofList (baseChars name.toList)

example : ["sda1", "nvme0n1p3", "nvme0n1", "mmcblk0p2"].map baseDeviceName =
    ["sda", "nvme0n1", "nvme0n1", "mmcblk0"] := by
  decide +kernel

section BaseDeviceName

lemma rsplit_some {c : Char} {xs head tail : List Char} (h : rsplit c xs = some (head, tail)) :
    xs = head ++ c :: tail := by
  induction xs generalizing head with
  | nil => cases h
  | cons x xs ih =>
    rw [rsplit] at h
    split at h
    · rename_i hsplit
      cases h
      rw [ih hsplit]
      rfl
    · split at h
      · rename_i hx
        cases h
        rw [hx]
        rfl
      · cases h

lemma rsplit_none {c : Char} {xs : List Char} (h : c ∉ xs) : rsplit c xs = none := by
  cases hr : rsplit c xs with
  | none => rfl
  | some r => exact (h (by rw [rsplit_some hr]; simp)).elim

lemma rsplit_append {c : Char} (head : List Char) {tail : List Char} (h : c ∉ tail) :
    rsplit c (head ++ c :: tail) = some (head, tail) := by
  induction head with
  | nil => simp [rsplit, rsplit_none h]
  | cons x head ih => rw [List.cons_append, rsplit, ih]

/-- `name` is `disk`, a digit at its end, followed by the suffix of a partition. -/
def PartitionOf (disk name : List Char) : Prop :=
  ∃ digits : List Char, name = disk ++ 'p' :: digits ∧ digits ≠ [] ∧ (∀ c ∈ digits, c.isDigit = true) ∧
    disk.getLast?.any Char.isDigit = true

variable {disk name : List Char}

lemma baseChars_partition (h : PartitionOf disk name) : baseChars name = disk := by
  obtain ⟨digits, rfl, hne, hdigits, hlast⟩ := h
  have hp : 'p' ∉ digits := fun hmem => by simpa using hdigits _ hmem
  rw [baseChars, rsplit_append disk hp]
  simp only
  rw [if_pos]
  simpa [hlast, hne] using hdigits

lemma baseChars_whole (h : ∀ disk, ¬ PartitionOf disk name) :
    baseChars name = if keepsDigits name then name else name.rdropWhile Char.isDigit := by
  rw [baseChars]
  split
  · rename_i head tail hsplit
    rw [if_neg]
    intro hc
    simp only [Bool.and_eq_true, Bool.not_eq_true', List.all_eq_true, List.isEmpty_eq_false_iff] at hc
    exact h head ⟨tail, rsplit_some hsplit, hc.1.2, hc.2, hc.1.1⟩
  · rfl

lemma getLast_digit (h : name.getLast?.any Char.isDigit = true) :
    ∃ hne : name ≠ [], (name.getLast hne).isDigit = true := by
  by_cases hne : name = []
  · rw [hne] at h
    cases h
  · rw [List.getLast?_eq_some_getLast hne] at h
    exact ⟨hne, h⟩

lemma PartitionOf.last_digit (h : PartitionOf disk name) : name.getLast?.any Char.isDigit = true := by
  obtain ⟨digits, rfl, hne, hdigits, -⟩ := h
  rw [List.getLast?_append, List.getLast?_cons]
  obtain ⟨x, hx⟩ := Option.ne_none_iff_exists'.mp (show digits.getLast? ≠ none by simpa using hne)
  simp [hx, hdigits x (List.mem_of_getLast? hx)]

lemma not_partitionOf_rdropWhile (disk : List Char) : ¬ PartitionOf disk (name.rdropWhile Char.isDigit) := by
  intro h
  have hlast := h.last_digit
  obtain ⟨hne, hdigit⟩ := getLast_digit hlast
  exact List.rdropWhile_last_not _ _ hne hdigit

lemma baseChars_trimmed : baseChars (name.rdropWhile Char.isDigit) = name.rdropWhile Char.isDigit := by
  rw [baseChars_whole not_partitionOf_rdropWhile]
  split
  · rfl
  · exact List.rdropWhile_idempotent _ _

lemma baseChars_base_partition (h : PartitionOf disk name) : baseChars (baseChars name) = baseChars name ↔
    keepsDigits disk = true ∧ ∀ whole, ¬ PartitionOf whole disk := by
  rw [baseChars_partition h]
  obtain ⟨digits, -, -, -, hlast⟩ := h
  constructor
  · intro hfix
    have hwhole : ∀ whole, ¬ PartitionOf whole disk := by
      rintro whole hw
      rw [baseChars_partition hw] at hfix
      obtain ⟨digits', rfl, -⟩ := hw
      have hlen := congrArg List.length hfix
      simp at hlen
    refine ⟨?_, hwhole⟩
    rw [baseChars_whole hwhole] at hfix
    split at hfix
    · assumption
    · obtain ⟨hne, hdigit⟩ := getLast_digit hlast
      exact (List.rdropWhile_eq_self_iff.mp hfix hne hdigit).elim
  · rintro ⟨hkeeps, hwhole⟩
    rw [baseChars_whole hwhole, if_pos hkeeps]

/-- Stripping twice is stripping once exactly for a name that is no partition, or the partition of a disk whose
name is on the list of exceptions and is no partition itself. -/
theorem baseDeviceName_idempotent_iff (name : String) :
    baseDeviceName (baseDeviceName name) = baseDeviceName name ↔
      ∀ disk, PartitionOf disk name.toList → keepsDigits disk = true ∧ ∀ whole, ¬ PartitionOf whole disk := by
  simp only [baseDeviceName, String.toList_ofList, String.ofList_inj]
  by_cases h : ∃ disk, PartitionOf disk name.toList
  · obtain ⟨disk, hdisk⟩ := h
    rw [baseChars_base_partition hdisk]
    constructor
    · intro hd disk' hdisk'
      rw [← baseChars_partition hdisk', baseChars_partition hdisk]
      exact hd
    · intro hall
      exact hall disk hdisk
  · have hnone : ∀ disk, ¬ PartitionOf disk name.toList := fun disk hd => h ⟨disk, hd⟩
    refine ⟨fun _ disk hd => (hnone disk hd).elim, fun _ => ?_⟩
    rw [baseChars_whole hnone]
    split
    · rename_i hkeeps
      rw [baseChars_whole hnone, if_pos hkeeps]
    · exact baseChars_trimmed

theorem baseDeviceName_nbd : baseDeviceName "nbd0p1" = "nbd0" ∧
    baseDeviceName (baseDeviceName "nbd0p1") ≠ baseDeviceName "nbd0p1" := by
  decide +kernel

end BaseDeviceName

section Mounts

def lines (text : String) : List String :=
  let parts := text.toList.splitOn '\n'
  let ended := parts.dropLast.map fun line => if line.getLast? = some '\r' then line.dropLast else line
  (ended ++ parts.getLast?.toList.filter (· ≠ [])).map String.ofList

def splitWhitespace (line : String) : List String :=
  ((line.toList.splitOnP isWhitespace).filter (· ≠ [])).map String.ofList

def startsWith (text start : String) : Bool := start.toList.isPrefixOf text.toList

def stripPrefix (start text : String) : Option String :=
  if startsWith text start then some (String.ofList (text.toList.drop start.toList.length)) else none

/-- The loop over the lines of `/proc/mounts`; `none` when a line has fewer than two fields. -/
def mountLoop (canonical : String) : List String → Option (ℕ × String) → Option (Option (ℕ × String))
  | [], best => some best
  | line :: rest, best =>
    match splitWhitespace line with
    | device :: mountPoint :: _ =>
      mountLoop canonical rest
        (if startsWith canonical mountPoint && best.all (·.1 < mountPoint.utf8ByteSize) then
          some (mountPoint.utf8ByteSize, device) else best)
    | _ => none

/-- What `diskinfo.rs` reads; `none` where a call fails or gives no UTF-8. -/
structure LinuxFiles where
  canonicalize : String → Option String
  procMounts : Option String
  readToString : String → Option String

def selectedDevice (sys : LinuxFiles) (path : String) : Option String := do
  let canonical ← sys.canonicalize path
  let mounts ← sys.procMounts
  let best ← mountLoop canonical (lines mounts) none
  best.map Prod.snd

def resolveBlockDevice (sys : LinuxFiles) (path : String) : Option String := do
  let device ← selectedDevice sys path
  let name ← stripPrefix "/dev/" device
  pure (baseDeviceName name)

inductive DiskType where
  | ssd
  | rotational
  | unknown
  deriving DecidableEq, Repr

def readRotational (sys : LinuxFiles) (devName : String) : Option DiskType := do
  let content ← sys.readToString s!"/sys/block/{devName}/queue/rotational"
  match trim content with
  | "0" => some .ssd
  | "1" => some .rotational
  | _ => none

def diskTypeForPath (sys : LinuxFiles) (path : String) : DiskType :=
  ((resolveBlockDevice sys path).bind (readRotational sys)).getD .unknown

def IsField (text : String) : Prop := text ≠ "" ∧ ∀ c ∈ text.toList, isWhitespace c = false

/-- A line of `/proc/mounts`; `rest` is the file system and its options. -/
structure Mount where
  device : String
  mountPoint : String
  rest : String
  device_isField : IsField device
  mountPoint_isField : IsField mountPoint
  rest_line : ∀ c ∈ rest.toList, c ≠ '\n' ∧ c ≠ '\r'

def Mount.line (m : Mount) : String := m.device ++ " " ++ m.mountPoint ++ " " ++ m.rest

def mountTable (mounts : List Mount) : String := String.join (mounts.map fun m => m.line ++ "\n")

lemma splitWhitespace_append {field : String} (h : IsField field) {c : Char} (hc : isWhitespace c = true)
    (rest : List Char) :
    splitWhitespace (String.ofList (field.toList ++ c :: rest)) = field :: splitWhitespace (String.ofList rest) := by
  have hne : field.toList ≠ [] := fun h0 => h.1 (String.toList_eq_nil_iff.mp h0)
  rw [splitWhitespace, splitWhitespace, String.toList_ofList, String.toList_ofList,
    List.splitOnP_append_cons_of_forall_mem h.2 c hc, List.filter_cons_of_pos (by simpa using hne), List.map_cons,
    String.ofList_toList]

lemma lines_cons {line : List Char} (h : ∀ c ∈ line, c ≠ '\n') (hr : line.getLast? ≠ some '\r') (rest : List Char) :
    lines (String.ofList (line ++ '\n' :: rest)) = String.ofList line :: lines (String.ofList rest) := by
  have hsplit : (line ++ '\n' :: rest).splitOn '\n' = line :: rest.splitOn '\n' := by
    rw [List.splitOn_eq_splitOnP, List.splitOn_eq_splitOnP]
    exact List.splitOnP_append_cons_of_forall_mem (by simpa using h) '\n' (by simp) rest
  have hne : rest.splitOn '\n' ≠ [] := by
    rw [List.splitOn_eq_splitOnP]
    exact List.splitOnP_ne_nil _ _
  rw [lines, lines, String.toList_ofList, String.toList_ofList, hsplit]
  rw [List.dropLast_cons_of_ne_nil hne, List.getLast?_cons_of_ne_nil hne, List.map_cons, if_neg hr, List.cons_append,
    List.map_cons]

lemma IsField.no_break {field : String} (h : IsField field) : ∀ c ∈ field.toList, c ≠ '\n' ∧ c ≠ '\r' := by
  intro c hc
  have hw := h.2 c hc
  constructor <;> (rintro rfl; revert hw; decide)

lemma Mount.line_no_break (m : Mount) : ∀ c ∈ m.line.toList, c ≠ '\n' ∧ c ≠ '\r' := by
  intro c hc
  simp only [Mount.line, String.toList_append, List.mem_append] at hc
  rcases hc with ((((hc | hc) | hc) | hc) | hc)
  · exact m.device_isField.no_break c hc
  · obtain rfl : c = ' ' := by simpa using hc
    decide
  · exact m.mountPoint_isField.no_break c hc
  · obtain rfl : c = ' ' := by simpa using hc
    decide
  · exact m.rest_line c hc

lemma mountTable_cons (m : Mount) (mounts : List Mount) :
    mountTable (m :: mounts) = String.ofList (m.line.toList ++ '\n' :: (mountTable mounts).toList) := by
  rw [mountTable, List.map_cons, String.join_cons]
  apply String.toList_inj.mp
  simp [mountTable]

def pick (canonical : String) (best : Option (ℕ × String)) (m : Mount) : Option (ℕ × String) :=
  if startsWith canonical m.mountPoint && best.all (·.1 < m.mountPoint.utf8ByteSize) then
    some (m.mountPoint.utf8ByteSize, m.device)
  else best

lemma mountLoop_table (canonical : String) (mounts : List Mount) (best : Option (ℕ × String)) :
    mountLoop canonical (lines (mountTable mounts)) best = some (mounts.foldl (pick canonical) best) := by
  induction mounts generalizing best with
  | nil => rfl
  | cons m mounts ih =>
    have hfields : splitWhitespace m.line =
        m.device :: m.mountPoint :: splitWhitespace (String.ofList m.rest.toList) := by
      rw [← splitWhitespace_append m.mountPoint_isField (c := ' ') (by decide),
        ← splitWhitespace_append m.device_isField (c := ' ') (by decide)]
      congr 1
      apply String.toList_inj.mp
      simp [Mount.line]
    have hline : ∀ c ∈ m.line.toList, c ≠ '\n' := fun c hc => (m.line_no_break c hc).1
    have hend : m.line.toList.getLast? ≠ some '\r' := fun h => (m.line_no_break _ (List.mem_of_getLast? h)).2 rfl
    rw [mountTable_cons, lines_cons hline hend, String.ofList_toList, String.ofList_toList, mountLoop, hfields,
      List.foldl_cons]
    exact ih _

/-- The path is the mount point, or goes on behind it at a component boundary. -/
def Contains (mountPoint path : String) : Prop :=
  startsWith path mountPoint = true ∧ (mountPoint = path ∨ mountPoint.toList.getLast? = some '/' ∨
    (path.toList.drop mountPoint.toList.length).head? = some '/')

instance (mountPoint path : String) : Decidable (Contains mountPoint path) :=
  inferInstanceAs (Decidable (_ ∧ (_ ∨ _ ∨ _)))

lemma startsWith_iff {text start : String} : startsWith text start = true ↔ start.toList <+: text.toList :=
  List.isPrefixOf_iff_prefix

lemma eq_of_startsWith {path a b : String} (ha : startsWith path a = true) (hb : startsWith path b = true)
    (h : a.utf8ByteSize = b.utf8ByteSize) : a = b := by
  have key : ∀ a b : String, a.toList <+: b.toList → a.utf8ByteSize = b.utf8ByteSize → a = b := by
    rintro a b ⟨t, ht⟩ hsize
    have hb : b = a ++ String.ofList t := String.toList_inj.mp (by simp [ht])
    rw [hb, String.utf8ByteSize_append] at hsize
    have ht : String.ofList t = "" := String.utf8ByteSize_eq_zero_iff.mp (by omega)
    rw [hb, ht, String.append_empty]
  rw [startsWith_iff] at ha hb
  rcases List.prefix_or_prefix_of_prefix ha hb with hab | hba
  · exact key a b hab h
  · exact (key b a hba h.symm).symm

/-- The first of the mounts at the longest mount point that the text of the path starts with. -/
def FirstLongest (mounts : List Mount) (path : String) (m : Mount) : Prop :=
  ∃ before after, mounts = before ++ m :: after ∧ startsWith path m.mountPoint = true ∧
    (∀ m' ∈ before, startsWith path m'.mountPoint = true → m'.mountPoint.utf8ByteSize < m.mountPoint.utf8ByteSize) ∧
    ∀ m' ∈ after, startsWith path m'.mountPoint = true → m'.mountPoint.utf8ByteSize ≤ m.mountPoint.utf8ByteSize

/-- What the loop carries: the first longest of the mounts seen so far. -/
def Best (mounts : List Mount) (path : String) : Option (ℕ × String) → Prop
  | none => ∀ m ∈ mounts, startsWith path m.mountPoint = false
  | some best => ∃ m, FirstLongest mounts path m ∧ best = (m.mountPoint.utf8ByteSize, m.device)

lemma FirstLongest.mem {mounts : List Mount} {path : String} {m : Mount} (h : FirstLongest mounts path m) :
    m ∈ mounts := by
  obtain ⟨before, after, rfl, -⟩ := h
  simp

lemma FirstLongest.start {mounts : List Mount} {path : String} {m : Mount} (h : FirstLongest mounts path m) :
    startsWith path m.mountPoint = true := by
  obtain ⟨before, after, -, hs, -⟩ := h
  exact hs

lemma FirstLongest.longest {mounts : List Mount} {path : String} {m m' : Mount} (h : FirstLongest mounts path m)
    (hm : m' ∈ mounts) (hs : startsWith path m'.mountPoint = true) :
    m'.mountPoint.utf8ByteSize ≤ m.mountPoint.utf8ByteSize := by
  obtain ⟨before, after, rfl, -, hbefore, hafter⟩ := h
  rcases List.mem_append.mp hm with hb | hc
  · exact (hbefore m' hb hs).le
  · rcases List.mem_cons.mp hc with rfl | ha
    · exact le_refl _
    · exact hafter m' ha hs

lemma FirstLongest.unique {mounts : List Mount} {path : String} {m m' : Mount} (h : FirstLongest mounts path m)
    (h' : FirstLongest mounts path m') : m = m' := by
  have hle := h.longest h'.mem h'.start
  have hle' := h'.longest h.mem h.start
  obtain ⟨before, after, rfl, hs, hbefore, -⟩ := h
  obtain ⟨before', after', hsplit, hs', hbefore', -⟩ := h'
  -- whichever comes first would be shorter
  rcases List.append_eq_append_iff.mp hsplit with ⟨c, rfl, hc⟩ | ⟨c, rfl, hc⟩
  · cases c with
    | nil => exact (List.cons.inj hc).1
    | cons x c =>
      obtain ⟨rfl, -⟩ := List.cons.inj hc
      exact absurd (hbefore' m (by simp) hs) (by omega)
  · cases c with
    | nil => exact (List.cons.inj hc).1.symm
    | cons x c =>
      obtain ⟨rfl, -⟩ := List.cons.inj hc
      exact absurd (hbefore m' (by simp) hs') (by omega)

lemma foldl_pick (mounts : List Mount) (path : String) : Best mounts path (mounts.foldl (pick path) none) := by
  induction mounts using List.reverseRecOn with
  | nil => exact fun m hm => by cases hm
  | append_singleton mounts m ih =>
    rw [List.foldl_append, List.foldl_cons, List.foldl_nil, pick]
    generalize mounts.foldl (pick path) none = best at ih
    split
    · rename_i hc
      rw [Bool.and_eq_true] at hc
      refine ⟨m, ⟨mounts, [], rfl, hc.1, ?_, fun m' hm' => by cases hm'⟩, rfl⟩
      intro m' hm' hs
      cases best with
      | none => simp [ih m' hm'] at hs
      | some best =>
        obtain ⟨l, hl, rfl⟩ := ih
        exact (hl.longest hm' hs).trans_lt (by simpa using hc.2)
    · rename_i hc
      rw [Bool.and_eq_true, not_and] at hc
      cases best with
      | none =>
        intro m' hm'
        rcases List.mem_append.mp hm' with hm' | hm'
        · exact ih m' hm'
        · cases List.mem_singleton.mp hm'
          simpa using fun h => hc h rfl
      | some best =>
        obtain ⟨l, ⟨before, after, rfl, hl, hbefore, hafter⟩, rfl⟩ := ih
        refine ⟨l, ⟨before, after ++ [m], by simp, hl, hbefore, ?_⟩, rfl⟩
        intro m' hm' hs
        rcases List.mem_append.mp hm' with hm' | hm'
        · exact hafter m' hm' hs
        · cases List.mem_singleton.mp hm'
          simpa using hc hs

/-- `device` is mounted at the longest mount point that contains the path; of several mounts at that mount point any
will do. -/
def DeviceOf (mounts : List Mount) (path device : String) : Prop :=
  ∃ m ∈ mounts, m.device = device ∧ Contains m.mountPoint path ∧
    ∀ m' ∈ mounts, Contains m'.mountPoint path → m'.mountPoint.utf8ByteSize ≤ m.mountPoint.utf8ByteSize

/-- The lookup finds the device of the file system that holds the path, or nothing where there is none. -/
def FindsDevice (mounts : List Mount) (path : String) : Option String → Prop
  | some device => DeviceOf mounts path device
  | none => ∀ m ∈ mounts, ¬ Contains m.mountPoint path

instance (mounts : List Mount) (path device : String) : Decidable (DeviceOf mounts path device) :=
  inferInstanceAs (Decidable (∃ m ∈ mounts, _ ∧ _ ∧ ∀ m' ∈ mounts, Contains m'.mountPoint path → _))

instance (mounts : List Mount) (path : String) : DecidablePred (FindsDevice mounts path)
  | some device => inferInstanceAs (Decidable (DeviceOf mounts path device))
  | none => inferInstanceAs (Decidable (∀ m ∈ mounts, ¬ Contains m.mountPoint path))

/-- The path does not run into the name of a sibling: every mount point that it starts with, but that does not
contain it, is shorter than one that does. -/
def NoSibling (mounts : List Mount) (path : String) : Prop :=
  ∀ m ∈ mounts, startsWith path m.mountPoint = true → ¬ Contains m.mountPoint path →
    ∃ m' ∈ mounts, Contains m'.mountPoint path ∧ m.mountPoint.utf8ByteSize < m'.mountPoint.utf8ByteSize

lemma deviceOf_firstLongest {mounts : List Mount} {path : String} {m : Mount} (h : FirstLongest mounts path m)
    (hc : Contains m.mountPoint path) : DeviceOf mounts path m.device :=
  ⟨m, h.mem, rfl, hc, fun _ hm' hc' => h.longest hm' hc'.1⟩

lemma noSibling_iff {mounts : List Mount} {path : String} {m : Mount} (h : FirstLongest mounts path m) :
    NoSibling mounts path ↔ Contains m.mountPoint path := by
  constructor
  · intro hn
    by_contra hc
    obtain ⟨m', hm', hc', hlt⟩ := hn m h.mem h.start hc
    exact absurd (h.longest hm' hc'.1) (by omega)
  · intro hc m' hm' hs hnot
    refine ⟨m, h.mem, hc, (h.longest hm' hs).lt_of_ne ?_⟩
    intro he
    rw [eq_of_startsWith hs h.start he] at hnot
    exact hnot hc

/-- The device is that of the file system that holds the path exactly if the path runs into no sibling's name, or
the device mounted there happens to be that of the file system as well. Of several mounts at one mount point any
counts as the one that holds the path. -/
theorem selectedDevice_containing_iff (sys : LinuxFiles) (path canonical : String) (mounts : List Mount)
    (hc : sys.canonicalize path = some canonical) (hm : sys.procMounts = some (mountTable mounts)) :
    FindsDevice mounts canonical (selectedDevice sys path) ↔
      NoSibling mounts canonical ∨ ∃ m, FirstLongest mounts canonical m ∧ ¬ Contains m.mountPoint canonical ∧
        DeviceOf mounts canonical m.device := by
  have hbest := foldl_pick mounts canonical
  have hselected : selectedDevice sys path = (mounts.foldl (pick canonical) none).map Prod.snd := by
    simp only [selectedDevice, hc, hm, Option.bind_eq_bind, Option.bind_some, mountLoop_table]
  rw [hselected]
  generalize mounts.foldl (pick canonical) none = best at hbest
  cases best with
  | none =>
    have hnone : NoSibling mounts canonical := by
      intro m hm hs
      rw [hbest m hm] at hs
      cases hs
    refine ⟨fun _ => Or.inl hnone, fun _ m hm hcontains => ?_⟩
    have hs := hcontains.1
    rw [hbest m hm] at hs
    cases hs
  | some best =>
    obtain ⟨m, hfirst, rfl⟩ := hbest
    rw [noSibling_iff hfirst]
    constructor
    · intro hdevice
      by_cases hcontains : Contains m.mountPoint canonical
      · exact Or.inl hcontains
      · exact Or.inr ⟨m, hfirst, hcontains, hdevice⟩
    · rintro (hcontains | ⟨m', hfirst', -, hdevice⟩)
      · exact deviceOf_firstLongest hfirst hcontains
      · rw [← hfirst.unique hfirst'] at hdevice
        exact hdevice

def rootMount : Mount where
  device := "/dev/sda1"
  mountPoint := "/"
  rest := "ext4 rw 0 0"
  device_isField := ⟨by decide, by simp [isWhitespace]⟩
  mountPoint_isField := ⟨by decide, by simp [isWhitespace]⟩
  rest_line := by simp

def dataMount : Mount where
  device := "/dev/sdb1"
  mountPoint := "/data"
  rest := "ext4 rw 0 0"
  device_isField := ⟨by decide, by simp [isWhitespace]⟩
  mountPoint_isField := ⟨by decide, by simp [isWhitespace]⟩
  rest_line := by simp

def sampleFiles : LinuxFiles := ⟨some, some (mountTable [rootMount, dataMount]), fun _ => none⟩

theorem selectedDevice_containing_data :
    FindsDevice [rootMount, dataMount] "/data/file" (selectedDevice sampleFiles "/data/file") := by
  apply (selectedDevice_containing_iff sampleFiles "/data/file" "/data/file" [rootMount, dataMount] rfl rfl).mpr
  left
  unfold NoSibling
  decide +kernel

/-- `/data2/file` is on the root file system, next to a mount point `/data`. -/
theorem selectedDevice_sibling : resolveBlockDevice sampleFiles "/data2/file" = some "sdb" ∧
    ¬ FindsDevice [rootMount, dataMount] "/data2/file" (selectedDevice sampleFiles "/data2/file") := by
  decide +kernel

end Mounts

end NocapCrypt.Worker
