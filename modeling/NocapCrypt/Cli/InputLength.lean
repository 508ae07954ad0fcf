import NocapCrypt.Cli.ImageRuns

/-! How much of its input an `image` command processes: as much as `stat` reports, which for a block device
is nothing. -/

namespace NocapCrypt.Cli

open NocapCrypt.Library.Image NocapCrypt.Core NocapCrypt.BlockIo NocapCrypt.Worker

variable (engine : SectorEngine) (encrypt : Bool)

/-- The ciphertext (or plaintext) of `contents` alone, filled up with zeros to a whole number of sectors. -/
def referenceOf (contents : Bytes) : Bytes :=
  engine.cryptSectors encrypt 0 (resize contents (coverage contents.length))

lemma cryptRange_referenceOf (contents : Bytes) :
    engine.cryptRange encrypt 0 (contents ++ List.replicate (coverage contents.length - contents.length) 0) =
      .ok (referenceOf engine encrypt contents) := by
  rw [← resize_of_le (le_coverage contents.length)]
  exact engine.cryptRange_eq encrypt 0 (by rw [resize_length]; exact sectorSize_dvd_coverage _)

lemma take_padded_output {contents : Bytes} {size : ℕ} (h : contents.length ≤ size) :
    (engine.cryptSectors encrypt 0 (resize contents (coverage size))).take contents.length =
      (referenceOf engine encrypt contents).take contents.length := by
  have hcov := coverage_mono h
  rw [referenceOf, ← take_resize contents hcov, ← engine.cryptSectors_take encrypt (sectorSize_dvd_coverage _)
    (by rw [resize_length]; exact hcov), List.take_take, min_eq_left (le_coverage _)]

lemma take_zero_output_iff {contents : Bytes} (size : ℕ) (h : sectorSize ∣ contents.length) :
    (engine.cryptSectors encrypt 0 (List.replicate (coverage size) 0)).take contents.length =
        (referenceOf engine encrypt contents).take contents.length ↔
      (∀ byte ∈ contents, byte = 0) ∧ contents.length ≤ coverage size := by
  have hwhole : resize contents (coverage contents.length) = contents := by rw [coverage_of_dvd h, resize_self]
  have href : (referenceOf engine encrypt contents).take contents.length = engine.cryptSectors encrypt 0 contents := by
    rw [referenceOf, hwhole, List.take_of_length_le (by simp)]
  have hzero : contents.length ≤ coverage size →
      (engine.cryptSectors encrypt 0 (List.replicate (coverage size) 0)).take contents.length =
        engine.cryptSectors encrypt 0 (List.replicate contents.length 0) := by
    intro hle
    rw [engine.cryptSectors_take encrypt h (by simpa using hle), List.take_replicate, min_eq_left hle]
  rw [href]
  constructor
  · intro he
    have hle : contents.length ≤ coverage size := by
      have hl := congrArg List.length he
      simp only [List.length_take, SectorEngine.cryptSectors_length, List.length_replicate] at hl
      omega
    rw [hzero hle] at he
    have hcontents := congrArg (engine.cryptSectors (!encrypt) 0) he
    rw [SectorEngine.cryptSectors_inverse, SectorEngine.cryptSectors_inverse] at hcontents
    refine ⟨?_, hle⟩
    intro byte hbyte
    rw [← hcontents] at hbyte
    exact List.eq_of_mem_replicate hbyte
  · rintro ⟨hbytes, hle⟩
    rw [hzero hle, ← List.eq_replicate_of_mem hbytes]

/-- A successful `encrypt` or `decrypt` has processed everything that its input holds exactly if the input is a
regular file or, an accident of the padding, a device of zeros no longer than that (`decrypt`: an empty one). -/
theorem image_processes_input_iff (X : Externals) (os : Os) (reporter : Reporter) (showProgress : Bool)
    (env : Environment) (w w' : World) :
    (∀ args i, w.fs.lookup args.input = some i →
      runEncrypt X os reporter args showProgress env w = (.exit .success, w') →
      ∃ spec key engine output reference,
        Accepted X w.fs args.cipher args.keySize args.keyFile args.keyFormat spec key engine ∧
        w'.fs.Regular args.output output ∧
        engine.encryptRange 0 (w.fs.disk i ++
          List.replicate (coverage (w.fs.disk i).length - (w.fs.disk i).length) 0) = .ok reference ∧
        (output.take (w.fs.disk i).length = reference.take (w.fs.disk i).length ↔
          (w.fs.node i).IsRegular ∨ (∀ byte ∈ w.fs.disk i, byte = 0) ∧
            (w.fs.disk i).length ≤ coverage (args.alignExtraBlock.toNat * args.alignBlockSize.toNat))) ∧
    (∀ args i, w.fs.lookup args.input = some i →
      runDecrypt X os reporter args showProgress env w = (.exit .success, w') →
      ∃ spec key engine output reference,
        Accepted X w.fs args.cipher args.keySize args.keyFile args.keyFormat spec key engine ∧
        w'.fs.Regular args.output output ∧
        engine.decryptRange 0 (w.fs.disk i ++
          List.replicate (coverage (w.fs.disk i).length - (w.fs.disk i).length) 0) = .ok reference ∧
        (output.take (w.fs.disk i).length = reference.take (w.fs.disk i).length ↔
          (w.fs.node i).IsRegular ∨ (w.fs.disk i).length = 0)) := by
  constructor
  · intro args i hi hrun
    obtain ⟨spec, key, engine, j, n, size, haccepted, hj, hn, hsize, -, hout⟩ := runEncrypt_success hrun
    rw [hi] at hj
    cases hj
    refine ⟨spec, key, engine, _, _, haccepted, hout, cryptRange_referenceOf engine true (w.fs.disk i), ?_⟩
    by_cases hreg : (w.fs.node i).IsRegular
    · obtain rfl : n = (w.fs.disk i).length := hn.trans hreg.metadataLen
      rw [window_all]
      exact iff_of_true (take_padded_output engine true (le_alignedOutputSize hsize)) (Or.inl hreg)
    · obtain ⟨hzero, hwhole⟩ := Node.not_isRegular hreg
      have hdvd : sectorSize ∣ (w.fs.disk i).length := hwhole
      obtain rfl : n = 0 := hn.trans hzero
      obtain ⟨-, rfl, -⟩ := alignedOutputSize_eq_ok.mp hsize
      have hsize0 : divCeil 0 args.alignBlockSize.toNat = 0 := by simp [divCeil]
      rw [hsize0, Nat.zero_add, show window (w.fs.disk i) 0 0 = [] from List.take_zero, resize_nil]
      rw [take_zero_output_iff engine true _ hdvd, or_iff_right hreg]
  · intro args i hi hrun
    obtain ⟨spec, key, engine, j, n, haccepted, hj, hn, -, hout⟩ := runDecrypt_success hrun
    rw [hi] at hj
    cases hj
    refine ⟨spec, key, engine, _, _, haccepted, hout, cryptRange_referenceOf engine false (w.fs.disk i), ?_⟩
    by_cases hreg : (w.fs.node i).IsRegular
    · obtain rfl : n = (w.fs.disk i).length := hn.trans hreg.metadataLen
      rw [window_all]
      exact iff_of_true rfl (Or.inl hreg)
    · obtain ⟨hzero, hwhole⟩ := Node.not_isRegular hreg
      have hdvd : sectorSize ∣ (w.fs.disk i).length := hwhole
      obtain rfl : n = 0 := hn.trans hzero
      rw [show window (w.fs.disk i) 0 0 = [] from List.take_zero, resize_nil,
        take_zero_output_iff engine false _ hdvd, or_iff_right hreg, show coverage 0 = 0 from rfl]
      constructor
      · rintro ⟨-, hle⟩
        exact Nat.le_zero.mp hle
      · intro hlen
        rw [List.length_eq_zero_iff] at hlen
        simp [hlen]

def idleEnv : Environment := fun _ _ => ⟨⟨[], 0, none⟩, [], []⟩

def deviceEncryption : Outcome × World :=
  runEncrypt sampleExternals sampleOs { progressFlavor := .sterile } { sampleEncryptArgs with input := "/dev/sdb" }
    false idleEnv sampleWorld

lemma deviceEncryption_succeeds : deviceEncryption = (.exit .success, deviceEncryption.2) :=
  eq_success (by decide +kernel)

theorem image_processes_input_iff_device :
    (∃ output reference, deviceEncryption.2.fs.Regular "cipher.img" output ∧
      output.take 512 ≠ (reference : Bytes).take 512) ∧
    ∃ output reference, (sampleDecryption "/dev/sdb" idleEnv sampleWorld).2.fs.Regular "output.img" output ∧
      output.take 512 ≠ (reference : Bytes).take 512 := by
  have hlen : (sampleWorld.fs.disk 3).length = 512 := by decide +kernel
  have hnonzero : ¬ ((∀ byte ∈ sampleWorld.fs.disk 3, byte = 0) ∧
      (sampleWorld.fs.disk 3).length ≤ coverage (sampleEncryptArgs.alignExtraBlock.toNat * 512)) := by decide +kernel
  have hdevice : ¬ (sampleWorld.fs.node 3).IsRegular := id
  constructor
  · obtain ⟨hencrypt, -⟩ := image_processes_input_iff sampleExternals sampleOs { progressFlavor := .sterile } false
      idleEnv sampleWorld deviceEncryption.2
    obtain ⟨spec, key, engine, output, reference, -, hout, -, hiff⟩ := hencrypt _ 3 rfl deviceEncryption_succeeds
    rw [hlen] at hiff
    exact ⟨output, reference, hout, fun h => (hiff.mp h).elim hdevice (hlen ▸ hnonzero)⟩
  · have hsuccess := eq_success (show (sampleDecryption "/dev/sdb" idleEnv sampleWorld).1 = .exit .success by
      decide +kernel)
    obtain ⟨-, hdecrypt⟩ := image_processes_input_iff sampleExternals sampleOs { progressFlavor := .sterile } false
      idleEnv sampleWorld (sampleDecryption "/dev/sdb" idleEnv sampleWorld).2
    obtain ⟨spec, key, engine, output, reference, -, hout, -, hiff⟩ := hdecrypt _ 3 rfl hsuccess
    rw [hlen] at hiff
    exact ⟨output, reference, hout, fun h => (hiff.mp h).elim hdevice (by decide)⟩

theorem encrypt_device_writes_nothing :
    sampleWorld.fs.openRead "/dev/sdb" = .ok 3 ∧ (sampleWorld.fs.disk 3).length = 512 ∧
      deviceEncryption.1 = .exit .success ∧ deviceEncryption.2.fs.Regular "cipher.img" [] ∧
      ∀ (engine : SectorEngine) (reference : Bytes), engine.encryptRange 0 (sampleWorld.fs.disk 3) = .ok reference →
        ([] : Bytes).take 512 ≠ reference.take 512 := by
  have hlen : (sampleWorld.fs.disk 3).length = 512 := by decide +kernel
  refine ⟨rfl, hlen, by decide +kernel, ?_, ?_⟩
  · obtain ⟨spec, key, engine, i, n, size, -, hi, hn, hsize, -, hout⟩ := runEncrypt_success deviceEncryption_succeeds
    obtain rfl : i = 3 := (Option.some.inj hi).symm
    obtain rfl : n = 0 := hn
    obtain ⟨-, rfl, -⟩ := alignedOutputSize_eq_ok.mp hsize
    exact hout
  · intro engine reference href h
    have hl := congrArg List.length h
    have hwhole : sectorSize ∣ (sampleWorld.fs.disk 3).length := hlen.symm ▸ dvd_refl sectorSize
    rw [List.take_nil, List.length_take, engine.encryptRange_length 0 hwhole href, hlen] at hl
    exact absurd hl (by decide)

end NocapCrypt.Cli
