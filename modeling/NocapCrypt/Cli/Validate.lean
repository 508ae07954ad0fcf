import NocapCrypt.Cli.ImageRuns
import NocapCrypt.Luks.Structural

/-! `validate`: `crates/nocap-crypt-cli/src/cmd/validate.rs`. It accepts what `image encrypt` makes of a file
system image. -/

namespace NocapCrypt.Cli

open NocapCrypt.Library.Image NocapCrypt.Library.Commands NocapCrypt.Core NocapCrypt.BlockIo NocapCrypt.KeyMgmt
  NocapCrypt.Worker NocapCrypt.Luks Cmd

structure ValidateArgs where
  input : Path
  cipher : CipherArg
  keySize : Option UInt16
  keyFile : Option Path
  keyFormat : KeyFormatArg

def squashfsMagic : Bytes := [0x68, 0x73, 0x71, 0x73]

def detectFsMagic (data : Bytes) : Option String :=
  if 4 ≤ data.length ∧ data.take 4 = squashfsMagic then some "squashfs"
  else if 0x438 + 2 ≤ data.length ∧ (cell data 0x438).toNat + 256 * (cell data (0x438 + 1)).toNat = 0xEF53 then
    some "ext2/ext3/ext4"
  else none

def sizeNote (structural : StructuralReport) : String :=
  let fileSize := structural.fileSize
  let leftover := fileSize % sectorSize
  let plural := if leftover = 1 then "" else "s"
  if structural.sizeIsSectorMultiple then
    s!"file size {fileSize} bytes is a whole multiple of the {sectorSize}-byte sector " ++
      "size (required: headerless plain dm-crypt has no header to record a partial " ++
      "trailing sector, so the file itself has to land exactly on a sector boundary)"
  else
    s!"file size {fileSize} bytes is NOT a whole multiple of the {sectorSize}-byte " ++
      s!"sector size ({leftover} leftover byte{plural}) — this can't be a valid plain dm-crypt volume"

def cipherNote (structural : StructuralReport) (specStr : String) : String :=
  if structural.cipherSpecRoundTrips then
    s!"cipher spec \"{specStr}\" is recognized and round-trips through the same parser " ++
      "this tool would use to mount it — matches what real cryptsetup accepts"
  else s!"cipher spec \"{specStr}\" was not recognized by the plain dm-crypt cipher-spec parser"

def structuralMessage (fileSize : ℕ) (spec : CipherSpec) : String :=
  let structural := validatePlainStructural fileSize spec.asStr
  s!"structural check: {sizeNote structural}; {cipherNote structural spec.asStr}"

def roundTripMessage (fs : String) : String :=
  s!"round-trip check: detected {fs} superblock magic — key+cipher+IV scheme consistent"

/-- `SectorFile::read_at_exact`, where `kernel k` answers the `k`-th `pread`. -/
def Os.readAtExact (kernel : ℕ → Answer) (file : SectorFile) (offset len : ℕ) : Cmd (Except IoError Bytes) := fun w =>
  match BlockIo.readAtExact file.directIoActive (w.fs.disk file.file) offset len ((List.range len).map kernel) with
  | none => .error .unscheduled w
  | some r => .ok r w

section Run

variable (X : Externals) (os : Os) (args : ValidateArgs) (kernel : ℕ → Answer)

def roundTripCheck (spec : CipherSpec) (fileSize : ℕ) (keyPath : Path) : Cmd ExitCode := do
  let loaded ← loadKeyFile X os keyPath args.keyFormat
  let key ← orFail KeyLoadError.text .io loaded
  let engine ← buildEngine X spec key
  let headSectors := min (fileSize / sectorSize) 8
  if headSectors = 0 then do
    report (.message "round-trip check skipped: file too short for even one sector")
    pure .success
  else do
    let opened ← os.openRead args.input
    let file ← orFail IoError.text .io opened
    let read ← Os.readAtExact kernel file 0 (headSectors * sectorSize)
    let head ← orFail IoError.text .io read
    let head ← orPanic (engine.decryptRange 0 head)
    match detectFsMagic head with
    | some fs => do
      report (.message (roundTripMessage fs))
      pure .success
    | none => fail "round-trip check: no known filesystem magic detected at expected offsets" .luksCompat

def runValidateImpl : Cmd ExitCode := do
  let len ← os.metadataLen args.input
  let fileSize ← orFail (fun e => s!"stat {args.input}: {e.text}") .io len
  let spec ← orFail CipherSpecError.text .unsupportedCipher (resolveCipherSpec args.cipher args.keySize)
  report (.message (structuralMessage fileSize spec))
  if (validatePlainStructural fileSize spec.asStr).passes then
    match args.keyFile with
    | none => pure .success
    | some keyPath => roundTripCheck X os args kernel spec fileSize keyPath
  else fail "structural validation failed" .luksCompat

def runValidate : World → Outcome × World := finish (runValidateImpl X os args kernel)

end Run

lemma detectFsMagic_length {data : Bytes} {fs : String} (h : detectFsMagic data = some fs) : 4 ≤ data.length := by
  by_contra hlt
  rw [detectFsMagic, if_neg (fun hc => hlt hc.1), if_neg (fun hc => hlt (by omega))] at h
  cases h

lemma detectFsMagic_resize {data : Bytes} {fs : String} {len : ℕ} (h : detectFsMagic data = some fs) (hmin : 4 ≤ len)
    (hlen : 0x438 + 2 ≤ data.length → 0x438 + 2 ≤ len) : detectFsMagic (resize data len) = some fs := by
  have hdata := detectFsMagic_length h
  have htake : (resize data len).take 4 = data.take 4 := by
    rw [take_resize data hmin, resize, Nat.sub_eq_zero_of_le hdata, List.replicate_zero, List.append_nil]
  unfold detectFsMagic at h ⊢
  rw [htake, resize_length]
  by_cases hsq : data.take 4 = squashfsMagic
  · rw [if_pos ⟨hdata, hsq⟩] at h
    rw [if_pos ⟨hmin, hsq⟩, h]
  · rw [if_neg (fun hc => hsq hc.2)] at h ⊢
    by_cases hext : 0x438 + 2 ≤ data.length ∧ (cell data 0x438).toNat + 256 * (cell data (0x438 + 1)).toNat = 0xEF53
    · have hl := hlen hext.1
      have hlow : cell (resize data len) 0x438 = cell data 0x438 := by rw [cell_resize, if_pos (by omega)]
      have hhigh : cell (resize data len) (0x438 + 1) = cell data (0x438 + 1) := by
        rw [cell_resize, if_pos (by omega)]
      rw [if_pos hext] at h
      rw [hlow, hhigh, if_pos ⟨hl, hext.2⟩, h]
    · rw [if_neg hext] at h
      cases h

lemma decryptRange_head (engine : SectorEngine) (data : Bytes) {size len : ℕ} (hd : sectorSize ∣ len)
    (hle : len ≤ coverage size) :
    engine.decryptRange 0 ((engine.cryptSectors true 0 (resize data (coverage size))).take len) =
      .ok (resize data len) := by
  have hlen : len ≤ (resize data (coverage size)).length := by rwa [resize_length]
  have hwhole : sectorSize ∣ (engine.cryptSectors true 0 (resize data len)).length := by simpa using hd
  have hrange := engine.cryptRange_eq false 0 hwhole
  rw [show false = !true from rfl, SectorEngine.cryptSectors_inverse] at hrange
  rw [engine.cryptSectors_take true hd hlen, take_resize data hle]
  exact hrange

section Accepted

variable {X : Externals} {os : Os} {args : ValidateArgs} {kernel : ℕ → Answer} {w : World}

lemma metadataLen_run {path : Path} {n : ℕ} (hos : ∀ call, os.fault call = none) (h : w.fs.metadataLen path = .ok n) :
    os.metadataLen path w = .ok (.ok n) w := by
  rw [Os.metadataLen, Os.refuses, hos, h]

lemma openRead_run {path : Path} {i : ℕ} (hos : ∀ call, os.fault call = none) (h : w.fs.lookup path = some i) :
    os.openRead path w = .ok (.ok ⟨i, os.direct .openInput⟩) w := by
  rw [Os.openRead, Os.refuses, hos, Fs.openRead, h]
  rfl

lemma loadKeyFile_run {path : Path} {format : KeyFormatArg} {key : Bytes} (hos : ∀ call, os.fault call = none)
    (h : keyIn X w.fs path format = .ok key) : loadKeyFile X os path format w = .ok (.ok key) w := by
  rw [keyIn] at h
  cases hr : w.fs.read path with
  | error e =>
    rw [hr] at h
    cases h
  | ok raw =>
    rw [hr] at h
    have hread : os.read .readKeyFile path w = .ok (.ok raw) w := by rw [Os.read, Os.refuses, hos, hr]
    rw [loadKeyFile, bind_ok hread]
    exact congrArg (fun r => EStateM.Result.ok r w) h

lemma buildEngine_run {spec : CipherSpec} {key : Bytes} {engine : SectorEngine}
    (h : SectorEngine.new X.primitives spec key = .ok (.ok engine)) : buildEngine X spec key w = .ok engine w := by
  rw [buildEngine, h]
  rfl

lemma readAtExact_run {file : SectorFile} {len : ℕ} (hk : ∀ k, (kernel k).Good)
    (h : len ≤ (w.fs.disk file.file).length) :
    Os.readAtExact kernel file 0 len w = .ok (.ok ((w.fs.disk file.file).take len)) w := by
  have hsome := readAtExact_isSome file.directIoActive (w.fs.disk file.file) 0 len ((List.range len).map kernel)
    (by simp)
  obtain ⟨r, hr⟩ := Option.isSome_iff_exists.mp hsome
  have hgood := readAtExact_good file.directIoActive (w.fs.disk file.file) 0 len ((List.range len).map kernel)
    (by simpa using fun k _ => hk k) (by omega) hr
  rw [Os.readAtExact, hr, hgood]
  rfl

lemma roundTripCheck_run {spec : CipherSpec} {key data : Bytes} {engine : SectorEngine} {keyPath : Path} {i size : ℕ}
    {fs : String} (hos : ∀ call, os.fault call = none) (hk : ∀ k, (kernel k).Good)
    (hkey : keyIn X w.fs keyPath args.keyFormat = .ok key)
    (hengine : SectorEngine.new X.primitives spec key = .ok (.ok engine)) (hi : w.fs.lookup args.input = some i)
    (hdisk : w.fs.disk i = engine.cryptSectors true 0 (resize data (coverage size))) (hsize : data.length ≤ size)
    (hmagic : detectFsMagic data = some fs) :
    roundTripCheck X os args kernel spec (coverage size) keyPath w =
      .ok .success { w with events := w.events ++ [.message (roundTripMessage fs)] } := by
  have hdata := detectFsMagic_length hmagic
  have hpos : 0 < coverage size / sectorSize := by
    apply Nat.div_pos _ sectorSize_pos
    apply Nat.le_of_dvd _ (sectorSize_dvd_coverage size)
    exact (by omega : 0 < size).trans_le (le_coverage size)
  have hheads : min (coverage size / sectorSize) 8 ≠ 0 := by omega
  have hfit : min (coverage size / sectorSize) 8 * sectorSize ≤ coverage size :=
    (Nat.mul_le_mul_right _ (min_le_left _ _)).trans (Nat.div_mul_le_self _ _)
  have hlen : min (coverage size / sectorSize) 8 * sectorSize ≤ (w.fs.disk i).length := by
    rw [hdisk, SectorEngine.cryptSectors_length, resize_length]
    exact hfit
  have hhead : detectFsMagic (resize data (min (coverage size / sectorSize) 8 * sectorSize)) = some fs := by
    have hcov := le_coverage size
    have hdiv := Nat.div_mul_cancel (sectorSize_dvd_coverage size)
    apply detectFsMagic_resize hmagic
    · change 4 ≤ _ * 512
      omega
    · intro hext
      change 0x438 + 2 ≤ _ * 512
      change _ * 512 = _ at hdiv
      rcases Nat.le_total (coverage size / sectorSize) 8 with h | h
      · rw [min_eq_left h, hdiv]
        omega
      · rw [min_eq_right h]
        omega
  rw [roundTripCheck, bind_ok (loadKeyFile_run hos hkey), orFail_bind, bind_ok (buildEngine_run hengine),
    if_neg hheads, bind_ok (openRead_run hos hi), orFail_bind, bind_ok (readAtExact_run hk hlen), orFail_bind, hdisk,
    decryptRange_head engine data (Dvd.intro_left _ rfl) hfit, orPanic_bind]
  simp only [hhead]
  rfl

end Accepted

/-- `validate` finds on the output of `encrypt` the file system that was in the plaintext, for every alignment
and concurrency; the key may be kept in another file or format. -/
theorem validate_accepts_encrypted (X : Externals) (os os' : Os) (reporter : Reporter) (args : EncryptArgs)
    (args' : ValidateArgs) (keyPath : Path) (showProgress : Bool) (env : Environment) (kernel : ℕ → Answer)
    (w w₁ w₂ : World) (plaintext : Bytes) (fs : String) (hinput : w.fs.Regular args.input plaintext)
    (hmagic : detectFsMagic plaintext = some fs)
    (hencrypt : runEncrypt X os reporter args showProgress env w = (.exit .success, w₁))
    (houtput : ∀ ciphertext, w₁.fs.Regular args.output ciphertext → w₂.fs.Regular args'.input ciphertext)
    (hspec : resolveCipherSpec args'.cipher args'.keySize = resolveCipherSpec args.cipher args.keySize)
    (hkeyFile : args'.keyFile = some keyPath)
    (hkey : keyIn X w₂.fs keyPath args'.keyFormat = keyIn X w.fs args.keyFile args.keyFormat)
    (hos : ∀ call, os'.fault call = none) (hkernel : ∀ k, (kernel k).Good) :
    ∃ size spec,
      alignedOutputSize plaintext.length args.alignBlockSize.toNat args.alignExtraBlock.toNat = .ok size ∧
      runValidate X os' args' kernel w₂ = (.exit .success,
        { w₂ with events := w₂.events ++ [.message (structuralMessage (coverage size) spec)] ++
            [.message (roundTripMessage fs)] }) := by
  obtain ⟨spec, key, engine, i, n, size, haccepted, hi, hn, hsize, -, hciphertext⟩ := runEncrypt_success hencrypt
  obtain ⟨rfl, hread⟩ := regular_input hinput hi hn
  rw [hread] at hciphertext
  have hfile := houtput _ hciphertext
  obtain ⟨j, hj, hnode⟩ := id hfile
  have hlen : w₂.fs.metadataLen args'.input = .ok (coverage size) := by
    rw [hfile.metadataLen, SectorEngine.cryptSectors_length, resize_length]
  have hdisk : w₂.fs.disk j = engine.cryptSectors true 0 (resize plaintext (coverage size)) := by
    rw [Fs.disk, hnode]
    rfl
  refine ⟨size, spec, hsize, ?_⟩
  have hrun : runValidateImpl X os' args' kernel w₂ = .ok .success
      { w₂ with events := w₂.events ++ [.message (structuralMessage (coverage size) spec)] ++
          [.message (roundTripMessage fs)] } := by
    rw [runValidateImpl, bind_ok (metadataLen_run hos hlen)]
    rw [orFail_bind, hspec, haccepted.spec_eq, orFail_bind, report_bind,
      if_pos ((validatePlainStructural_passes _ spec).mpr (sectorSize_dvd_coverage size)), hkeyFile]
    exact roundTripCheck_run hos hkernel (hkey.trans haccepted.key_eq) haccepted.engine_eq hj hdisk
      (le_alignedOutputSize hsize) hmagic
  rw [runValidate, finish, hrun]

theorem validate_accepts_encrypted_squashfs :
    ∃ w₃ size spec, runValidate sampleExternals sampleOs
        ⟨"cipher.img", .aesCbcEssivSha256, none, some "key.bin", .raw⟩ (fun _ => .count 4096) sampleEncryption.2 =
          (.exit .success, w₃) ∧
      w₃.events = sampleEncryption.2.events ++ [.message (structuralMessage (coverage size) spec)] ++
        [.message (roundTripMessage "squashfs")] := by
  obtain ⟨size, spec, -, hrun⟩ := validate_accepts_encrypted sampleExternals sampleOs sampleOs
    { progressFlavor := .sterile } sampleEncryptArgs ⟨"cipher.img", .aesCbcEssivSha256, none, some "key.bin", .raw⟩ "key.bin" false sampleEnv
    (fun _ => .count 4096) sampleWorld sampleEncryption.2 sampleEncryption.2 sampleSector "squashfs" ⟨0, rfl, rfl⟩
    (by decide +kernel) sampleEncryption_succeeds (fun _ h => h) rfl rfl (by decide +kernel) (fun _ => rfl)
    (fun _ => by decide)
  exact ⟨_, size, spec, hrun, rfl⟩

end NocapCrypt.Cli
