import NocapCrypt.Cli.Secrecy
import NocapCrypt.Cli.Validate

/-! What `validate` looks at of a file: its length and two of its sectors. -/

namespace NocapCrypt.Cli

open NocapCrypt.Library.Image NocapCrypt.Library.Commands NocapCrypt.Library.Relational NocapCrypt.Core
  NocapCrypt.BlockIo NocapCrypt.KeyMgmt NocapCrypt.Worker NocapCrypt.Luks Cmd

/-- The same length, and the same sectors with the superblocks: the first one and the third one. -/
structure SameHead (data data' : Bytes) : Prop where
  length : data.length = data'.length
  first : window data (0 * sectorSize) sectorSize = window data' (0 * sectorSize) sectorSize
  third : window data (2 * sectorSize) sectorSize = window data' (2 * sectorSize) sectorSize

section Detection

variable {data data' : Bytes}

lemma SameHead.detectFsMagic_eq (h : SameHead data data') : detectFsMagic data = detectFsMagic data' := by
  have htake : data.take 4 = data'.take 4 := by
    have hfour := congrArg (List.take 4) h.first
    have hmin : min 4 sectorSize = 4 := rfl
    simpa only [window, Nat.zero_mul, List.drop_zero, List.take_take, hmin] using hfour
  have hcell : ∀ i < sectorSize, cell data (2 * sectorSize + i) = cell data' (2 * sectorSize + i) := by
    intro i hi
    have hthird := congrArg (fun sector => cell sector i) h.third
    simpa only [cell_window, if_pos hi] using hthird
  have hlow : cell data 0x438 = cell data' 0x438 := hcell 0x38 (by decide)
  have hhigh : cell data (0x438 + 1) = cell data' (0x438 + 1) := hcell 0x39 (by decide)
  rw [detectFsMagic, detectFsMagic, h.length, htake, hlow, hhigh]

lemma window_of_head (data : Bytes) (len off n : ℕ) :
    window (window data 0 len) off n = (window data off n).take (len - off) := by
  simp only [window, List.drop_zero, List.drop_take, List.take_take, min_comm]

lemma SameHead.cut (h : SameHead data data') (len : ℕ) : SameHead (window data 0 len) (window data' 0 len) where
  length := by rw [window_length, window_length, h.length]
  first := by rw [window_of_head, window_of_head, h.first]
  third := by rw [window_of_head, window_of_head, h.third]

lemma cryptSectors_sameSector (engine : SectorEngine) (hlen : data.length = data'.length)
    (hd : sectorSize ∣ data.length) {k : ℕ}
    (h : window data (k * sectorSize) sectorSize = window data' (k * sectorSize) sectorSize) :
    window (engine.cryptSectors false 0 data) (k * sectorSize) sectorSize =
      window (engine.cryptSectors false 0 data') (k * sectorSize) sectorSize := by
  rcases Nat.lt_or_ge (k * sectorSize) data.length with hlt | hge
  · have hfit : k * sectorSize + sectorSize ≤ data.length := by
      obtain ⟨n, hn⟩ := hd
      rw [hn, Nat.mul_comm] at hlt ⊢
      have hk : k + 1 ≤ n := Nat.lt_of_mul_lt_mul_left hlt
      calc sectorSize * k + sectorSize = sectorSize * (k + 1) := rfl
        _ ≤ sectorSize * n := Nat.mul_le_mul_left _ hk
    rw [engine.cryptSectors_sector false 0 k hfit, engine.cryptSectors_sector false 0 k (hlen ▸ hfit), h]
  · have hshort : (engine.cryptSectors false 0 data).length ≤ k * sectorSize := by
      rwa [SectorEngine.cryptSectors_length]
    have hshort' : (engine.cryptSectors false 0 data').length ≤ k * sectorSize := by
      rwa [SectorEngine.cryptSectors_length, ← hlen]
    rw [window, List.drop_eq_nil_of_le hshort, window,
      List.drop_eq_nil_of_le hshort']

lemma SameHead.decryptRange_cases (h : SameHead data data') (engine : SectorEngine) :
    (∃ panic, engine.decryptRange 0 data = .error panic ∧ engine.decryptRange 0 data' = .error panic) ∨
      ∃ out out', engine.decryptRange 0 data = .ok out ∧ engine.decryptRange 0 data' = .ok out' ∧
        detectFsMagic out = detectFsMagic out' := by
  by_cases hd : sectorSize ∣ data.length
  · have hd' : sectorSize ∣ data'.length := h.length ▸ hd
    refine Or.inr ⟨_, _, engine.cryptRange_eq false 0 hd, engine.cryptRange_eq false 0 hd', ?_⟩
    refine SameHead.detectFsMagic_eq ⟨?_, ?_, ?_⟩
    · rw [SectorEngine.cryptSectors_length, SectorEngine.cryptSectors_length, h.length]
    · exact cryptSectors_sameSector engine h.length hd h.first
    · exact cryptSectors_sameSector engine h.length hd h.third
  · have hm : data.length % sectorSize ≠ 0 := fun hm => hd (Nat.dvd_of_mod_eq_zero hm)
    have hm' : data'.length % sectorSize ≠ 0 := h.length ▸ hm
    exact Or.inl ⟨.assertion "buffer must be sector-aligned", if_pos hm, if_pos hm'⟩

end Detection

section Reading

variable {file file' : Bytes}

/-- Whatever the kernel answers, a read of exactly `len` bytes takes the same course on both files. -/
lemma readAtExact_lengths (direct : Bool) (h : file.length = file'.length) (offset len : ℕ) (answers : List Answer) :
    (BlockIo.readAtExact direct file offset len answers = none ∧
        BlockIo.readAtExact direct file' offset len answers = none) ∨
      (∃ e, BlockIo.readAtExact direct file offset len answers = some (.error e) ∧
        BlockIo.readAtExact direct file' offset len answers = some (.error e)) ∨
      (BlockIo.readAtExact direct file offset len answers = some (.ok (window file offset len)) ∧
        BlockIo.readAtExact direct file' offset len answers = some (.ok (window file' offset len))) := by
  induction answers generalizing offset len with
  | nil =>
    cases len with
    | zero => exact Or.inr (Or.inr ⟨rfl, rfl⟩)
    | succ len => exact Or.inl ⟨rfl, rfl⟩
  | cons answer answers ih =>
    cases len with
    | zero => exact Or.inr (Or.inr ⟨rfl, rfl⟩)
    | succ len =>
      rw [BlockIo.readAtExact, BlockIo.readAtExact]
      rcases readPass_lengths direct h offset (len + 1) answer with ⟨e, hs, ht⟩ | ⟨bytes, bytes', hs, ht, hbytes⟩
      · rw [hs, ht]
        exact Or.inr (Or.inl ⟨e, rfl, rfl⟩)
      · rw [hs, ht]
        dsimp only
        rw [← hbytes]
        rcases ih (offset + bytes.length) (len + 1 - bytes.length) with ⟨hn, hn'⟩ | ⟨e, he, he'⟩ | ⟨hok, hok'⟩
        · rw [hn, hn']
          exact Or.inl ⟨rfl, rfl⟩
        · rw [he, he']
          exact Or.inr (Or.inl ⟨e, rfl, rfl⟩)
        · rw [hok, hok']
          refine Or.inr (Or.inr ⟨?_, ?_⟩)
          · exact congrArg (fun out => some (Except.ok out)) (readPass_append hs)
          · rw [hbytes]
            exact congrArg (fun out => some (Except.ok out)) (readPass_append ht)

end Reading

section Swapped

/-- The same world but for one file, which holds `data'`. -/
def Swapped (fs : Fs) (i : ℕ) (data' : Bytes) (w w' : World) : Prop :=
  w.fs = fs ∧ w' = { w with fs := fs.store i data' }

variable (X : Externals) (os : Os) {fs : Fs} {i : ℕ} {data data' : Bytes}

lemma store_sameShape (hnode : fs.node i = .regular data) (hlen : data.length = data'.length) :
    SameShape fs (fs.store i data') := by
  have hself : SameShape fs fs := ⟨rfl, rfl, fun _ => rfl⟩
  have hstore := hself.store i hlen
  rwa [Fs.store_self hnode] at hstore

lemma store_read {path : Path} (hpath : fs.lookup path ≠ some i) : (fs.store i data').read path = fs.read path := by
  rw [Fs.read, Fs.read, Fs.store_lookup]
  cases hlookup : fs.lookup path with
  | none => rfl
  | some j =>
    have hj : j ≠ i := fun hj => hpath (hj ▸ hlookup)
    dsimp only
    rw [Fs.disk, Fs.disk, Fs.store_node_of_ne fs data' hj]

lemma store_sameHead (hnode : fs.node i = .regular data) (h : SameHead data data') (j : ℕ) :
    SameHead (fs.disk j) ((fs.store i data').disk j) := by
  by_cases hj : j = i
  · rw [hj, Fs.disk, Fs.disk, Fs.store_node_self, hnode]
    exact h
  · rw [Fs.disk, Fs.disk, Fs.store_node_of_ne fs data' hj]
    exact ⟨rfl, rfl, rfl⟩

lemma keepsReports_swapped : KeepsReports (Swapped fs i data') := by
  intro event
  apply Agree.modify
  rintro w w' ⟨rfl, rfl⟩
  exact ⟨trivial, rfl, rfl⟩

lemma swapped_buildEngine (spec : CipherSpec) (key : Bytes) :
    Paired (Swapped fs i data') (buildEngine X spec key) (buildEngine X spec key) fun engine engine' =>
      engine = engine' := by
  refine (paired_orPanic _).bind fun built _ hbuilt => ?_
  obtain rfl := hbuilt.1
  exact keepsReports_swapped.orFail _ (verdicts_self _ built)

lemma swapped_loadKeyFile {path : Path} (hpath : fs.lookup path ≠ some i) (format : KeyFormatArg) :
    Paired (Swapped fs i data') (loadKeyFile X os path format) (loadKeyFile X os path format) fun r r' => r = r' := by
  apply Agree.query
  rintro w w' ⟨rfl, rfl⟩
  refine ⟨_, _, loadKeyFile_eq_keyRead X os path format w, loadKeyFile_eq_keyRead X os path format _, ?_, rfl, rfl⟩
  rw [keyRead, keyRead, store_read hpath]

variable (hnode : fs.node i = .regular data) (hhead : SameHead data data')

include hnode hhead

lemma swapped_metadataLen (path : Path) :
    Paired (Swapped fs i data') (os.metadataLen path) (os.metadataLen path) fun r r' => r = r' := by
  apply Agree.query
  rintro w w' ⟨rfl, rfl⟩
  refine ⟨_, _, rfl, rfl, ?_, rfl, rfl⟩
  rw [(store_sameShape hnode hhead.length).metadataLen]

lemma swapped_openRead (path : Path) :
    Paired (Swapped fs i data') (os.openRead path) (os.openRead path) fun r r' => r = r' := by
  apply Agree.query
  rintro w w' ⟨rfl, rfl⟩
  refine ⟨_, _, rfl, rfl, ?_, rfl, rfl⟩
  rw [(store_sameShape hnode hhead.length).openRead]

lemma swapped_readAtExact (kernel : ℕ → Answer) (file : SectorFile) (len : ℕ) :
    Paired (Swapped fs i data') (Os.readAtExact kernel file 0 len) (Os.readAtExact kernel file 0 len)
      (Verdicts SameHead IoError.text) := by
  rintro w w' ⟨rfl, rfl⟩
  have hfile := store_sameHead hnode hhead file.file
  rw [Os.readAtExact, Os.readAtExact]
  rcases readAtExact_lengths file.directIoActive hfile.length 0 len ((List.range len).map kernel) with
    ⟨hs, ht⟩ | ⟨e, hs, ht⟩ | ⟨hs, ht⟩
  · rw [hs, ht]
    exact ⟨rfl, rfl, rfl⟩
  · rw [hs, ht]
    exact ⟨rfl, rfl, rfl⟩
  · rw [hs, ht]
    exact ⟨hfile.cut len, rfl, rfl⟩

variable (args : ValidateArgs) (kernel : ℕ → Answer)

lemma swapped_roundTripCheck (spec : CipherSpec) (fileSize : ℕ) {keyPath : Path}
    (hkey : fs.lookup keyPath ≠ some i) :
    Paired (Swapped fs i data') (roundTripCheck X os args kernel spec fileSize keyPath)
      (roundTripCheck X os args kernel spec fileSize keyPath) fun code code' => code = code' := by
  have hreports : KeepsReports (Swapped fs i data') := keepsReports_swapped
  refine (swapped_loadKeyFile X os hkey args.keyFormat).bind fun loaded _ hloaded => ?_
  subst hloaded
  refine (hreports.orFail .io (verdicts_self _ loaded)).bind fun key _ hsame => ?_
  subst hsame
  refine (swapped_buildEngine X spec key).bind fun engine _ hengine => ?_
  subst hengine
  refine Agree.ite (fun _ => (hreports _).bind fun _ _ _ => Paired.pure rfl) fun _ => ?_
  refine (swapped_openRead os hnode hhead args.input).bind fun opened _ hopened => ?_
  subst hopened
  refine (hreports.orFail .io (verdicts_self _ opened)).bind fun file _ hfile => ?_
  subst hfile
  refine (swapped_readAtExact hnode hhead kernel file _).bind fun read read' hread => ?_
  refine (hreports.orFail .io hread).bind fun head head' hsectors => ?_
  have hdecrypted : Paired (Swapped fs i data') (orPanic (engine.decryptRange 0 head))
      (orPanic (engine.decryptRange 0 head')) fun out out' => detectFsMagic out = detectFsMagic out' := by
    rcases hsectors.decryptRange_cases engine with ⟨panic, hs, ht⟩ | ⟨out, out', hs, ht, hmagic⟩
    · rw [hs, ht]
      exact Paired.throw _
    · rw [hs, ht]
      exact Paired.pure hmagic
  refine hdecrypted.bind fun out out' hmagic => ?_
  rw [hmagic]
  cases detectFsMagic out' with
  | some fs => exact (hreports _).bind fun _ _ _ => Paired.pure rfl
  | none => exact hreports.fail _ _

lemma swapped_runValidateImpl (hkey : ∀ path, args.keyFile = some path → fs.lookup path ≠ some i) :
    Paired (Swapped fs i data') (runValidateImpl X os args kernel) (runValidateImpl X os args kernel)
      fun code code' => code = code' := by
  have hreports : KeepsReports (Swapped fs i data') := keepsReports_swapped
  refine (swapped_metadataLen os hnode hhead args.input).bind fun len _ hlen => ?_
  subst hlen
  refine (hreports.orFail .io (verdicts_self _ len)).bind fun fileSize _ hsize => ?_
  subst hsize
  refine (hreports.orFail .unsupportedCipher (verdicts_self _ _)).bind fun spec _ hspec => ?_
  subst hspec
  refine (hreports _).bind fun _ _ _ => ?_
  refine Agree.ite (fun _ => ?_) fun _ => hreports.fail _ _
  cases hkeyFile : args.keyFile with
  | none => exact Paired.pure rfl
  | some keyPath => exact swapped_roundTripCheck X os hnode hhead args kernel spec fileSize (hkey keyPath hkeyFile)

end Swapped

/-- `validate` looks at the length of a file and at the two sectors where superblocks are: whatever becomes of the
rest of it, the run ends the same way and reports the same. So an image that it accepts may be damaged anywhere else. -/
theorem runValidate_head (X : Externals) (os : Os) (args : ValidateArgs) (kernel : ℕ → Answer) (w : World) (i : ℕ)
    (data data' : Bytes) (hnode : w.fs.node i = .regular data) (hhead : SameHead data data')
    (hkey : ∀ path, args.keyFile = some path → w.fs.lookup path ≠ some i) :
    runValidate X os args kernel { w with fs := w.fs.store i data' } =
      ((runValidate X os args kernel w).1, { (runValidate X os args kernel w).2 with fs := w.fs.store i data' }) := by
  have hends := finish_paired (swapped_runValidateImpl X os hnode hhead args kernel hkey)
    (⟨rfl, rfl⟩ : Swapped w.fs i data' w { w with fs := w.fs.store i data' })
  exact Prod.ext hends.1.symm hends.2.2

section Sample

/-- Four sectors, the second and the last of which are lost in the copy. -/
def sampleVolume : Bytes := squashfsMagic ++ List.replicate (4 * sectorSize - 4) 7

def damagedVolume : Bytes :=
  sampleVolume.take sectorSize ++ List.replicate sectorSize 0 ++ List.replicate sectorSize 7 ++
    List.replicate sectorSize 0

def sampleValidateArgs : ValidateArgs := ⟨"plain.img", .aesCbcEssivSha256, none, some "key.bin", .raw⟩

def volumeWorld : World := { sampleWorld with fs := sampleFs.store 0 sampleVolume }

theorem runValidate_head_sample :
    sampleVolume ≠ damagedVolume ∧
      runValidate sampleExternals sampleOs sampleValidateArgs (fun _ => .count 4096)
          { volumeWorld with fs := volumeWorld.fs.store 0 damagedVolume } =
        ((runValidate sampleExternals sampleOs sampleValidateArgs (fun _ => .count 4096) volumeWorld).1,
          { (runValidate sampleExternals sampleOs sampleValidateArgs (fun _ => .count 4096) volumeWorld).2 with
            fs := volumeWorld.fs.store 0 damagedVolume }) := by
  have hdamaged : sampleVolume ≠ damagedVolume := by decide +kernel
  have hhead : SameHead sampleVolume damagedVolume := ⟨by decide +kernel, by decide +kernel, by decide +kernel⟩
  refine ⟨hdamaged, runValidate_head sampleExternals sampleOs sampleValidateArgs (fun _ => .count 4096) volumeWorld 0
    sampleVolume damagedVolume rfl hhead ?_⟩
  intro path hpath
  cases hpath
  decide

end Sample

end NocapCrypt.Cli
