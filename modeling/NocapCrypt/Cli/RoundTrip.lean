import NocapCrypt.Cli.ImageRuns

/-! `image decrypt` undoes `image encrypt`, and only fails to invert on a ciphertext that ends inside a sector. -/

namespace NocapCrypt.Cli

open NocapCrypt.Library.Image NocapCrypt.Core NocapCrypt.BlockIo NocapCrypt.KeyMgmt NocapCrypt.Worker

lemma Accepted.engine_unique {X : Externals} {fs fs' : Fs} {cipher cipher' : CipherArg}
    {keySize keySize' : Option UInt16} {keyFile keyFile' : Path} {keyFormat keyFormat' : KeyFormatArg}
    {spec spec' : CipherSpec} {key key' : Bytes} {engine engine' : SectorEngine}
    (h : Accepted X fs cipher keySize keyFile keyFormat spec key engine)
    (h' : Accepted X fs' cipher' keySize' keyFile' keyFormat' spec' key' engine')
    (hspec : resolveCipherSpec cipher' keySize' = resolveCipherSpec cipher keySize)
    (hkey : keyIn X fs' keyFile' keyFormat' = keyIn X fs keyFile keyFormat) : engine' = engine := by
  have hs : spec' = spec := Except.ok.inj (h'.spec_eq.symm.trans (hspec.trans h.spec_eq))
  have hk : key' = key := Except.ok.inj (h'.key_eq.symm.trans (hkey.trans h.key_eq))
  have he := h'.engine_eq
  rw [hs, hk, h.engine_eq] at he
  exact (Except.ok.inj (Except.ok.inj he)).symm

lemma resize_coverage_of_dvd {bytes : Bytes} (h : sectorSize ∣ bytes.length) :
    resize bytes (coverage bytes.length) = bytes := by
  rw [coverage_of_dvd h, resize_self]

/-- Decrypting the output of a successful encryption restores the plaintext, followed by zeros up to the
end of the last sector, for every plaintext, key, alignment and concurrency, and also in place. -/
theorem decrypt_encrypt_roundtrip (X : Externals) (os os' : Os) (reporter reporter' : Reporter) (args : EncryptArgs)
    (args' : DecryptArgs) (showProgress showProgress' : Bool) (env env' : Environment) (w w₁ w₂ w₃ : World)
    (plaintext : Bytes) (hinput : w.fs.Regular args.input plaintext)
    (hencrypt : runEncrypt X os reporter args showProgress env w = (.exit .success, w₁))
    (houtput : ∀ ciphertext, w₁.fs.Regular args.output ciphertext → w₂.fs.Regular args'.input ciphertext)
    (hspec : resolveCipherSpec args'.cipher args'.keySize = resolveCipherSpec args.cipher args.keySize)
    (hkey : keyIn X w₂.fs args'.keyFile args'.keyFormat = keyIn X w.fs args.keyFile args.keyFormat)
    (hdecrypt : runDecrypt X os' reporter' args' showProgress' env' w₂ = (.exit .success, w₃)) :
    ∃ size decrypted,
      alignedOutputSize plaintext.length args.alignBlockSize.toNat args.alignExtraBlock.toNat = .ok size ∧
      w₃.fs.Regular args'.output decrypted ∧ decrypted.length = 512 * divCeil size 512 ∧
      decrypted.take plaintext.length = plaintext ∧ ∀ byte ∈ decrypted.drop plaintext.length, byte = 0 := by
  obtain ⟨spec, key, engine, i, n, size, haccepted, hi, hn, hsize, -, hciphertext⟩ := runEncrypt_success hencrypt
  obtain ⟨rfl, hread⟩ := regular_input hinput hi hn
  rw [hread] at hciphertext
  obtain ⟨spec', key', engine', j, m, haccepted', hj, hm, -, hdecrypted⟩ := runDecrypt_success hdecrypt
  obtain ⟨rfl, hread'⟩ := regular_input (houtput _ hciphertext) hj hm
  obtain rfl := haccepted.engine_unique haccepted' hspec hkey
  have hdvd : sectorSize ∣ (engine'.cryptSectors true 0 (resize plaintext (coverage size))).length := by
    rw [SectorEngine.cryptSectors_length, resize_length]
    exact sectorSize_dvd_coverage size
  have hle := (le_alignedOutputSize hsize).trans (le_coverage size)
  rw [hread', resize_coverage_of_dvd hdvd, show false = !true from rfl, SectorEngine.cryptSectors_inverse] at hdecrypted
  refine ⟨size, _, hsize, hdecrypted, ?_, ?_, ?_⟩
  · rw [resize_length, Nat.mul_comm]
    rfl
  · rw [resize_of_le hle, List.take_left]
  · rw [resize_of_le hle, List.drop_left]
    exact fun byte hbyte => List.eq_of_mem_replicate hbyte

section Sample

/-- Two sectors but for their last sixteen bytes. -/
def unpaddedPlaintext : Bytes :=
  sampleSector ++ xorBlock sampleBlock.toList secondIv.toList ++
    (List.replicate 30 (xorBlock sampleBlock.toList sampleCipherBlock.toList)).flatten

def extraBlockArgs : EncryptArgs := { sampleEncryptArgs with alignBlockSize := 16, alignExtraBlock := 1 }

def unpaddedWorld : World :=
  { sampleWorld with
    fs := { sampleFs with node := fun i => if i = 0 then .regular unpaddedPlaintext else sampleFs.node i } }

/-- Each of the two transfers reads in two parts, and writes in two parts. -/
def extraBlockEnv : Environment := fun _ _ =>
  ⟨⟨[(0, .compute), (0, .kernel (.count 700)), (0, .kernel (.count 512)), (0, .compute), (0, .kernel (.count 600)),
    (0, .kernel (.count 512)), (0, .compute)], 0, none⟩, [], []⟩

def extraBlockEncryption : Outcome × World :=
  runEncrypt sampleExternals sampleOs { progressFlavor := .sterile } extraBlockArgs false extraBlockEnv unpaddedWorld

/-- The plaintext ends inside a sector, and the extra block fills this sector. -/
theorem decrypt_encrypt_roundtrip_extra_block :
    ∃ decrypted,
      (sampleDecryption "cipher.img" extraBlockEnv extraBlockEncryption.2).2.fs.Regular "output.img" decrypted ∧
      unpaddedPlaintext.length = 1008 ∧ decrypted.length = 1024 ∧ decrypted.take 1008 = unpaddedPlaintext ∧
      ∀ byte ∈ decrypted.drop 1008, byte = 0 := by
  have hlen : unpaddedPlaintext.length = 1008 := by decide +kernel
  obtain ⟨size, decrypted, hsize, hout, hlength, htake, hdrop⟩ := decrypt_encrypt_roundtrip sampleExternals sampleOs
    sampleOs { progressFlavor := .sterile } { progressFlavor := .sterile } extraBlockArgs
    (sampleDecryptArgs "cipher.img") false false extraBlockEnv extraBlockEnv unpaddedWorld extraBlockEncryption.2 extraBlockEncryption.2
    (sampleDecryption "cipher.img" extraBlockEnv extraBlockEncryption.2).2 unpaddedPlaintext ⟨0, rfl, rfl⟩
    (eq_success (by decide +kernel)) (fun _ h => h) rfl (by decide +kernel) (eq_success (by decide +kernel))
  rw [hlen] at hsize htake hdrop
  obtain rfl : 1024 = size := Except.ok.inj ((by decide : alignedOutputSize 1008 16 1 = .ok 1024).symm.trans hsize)
  exact ⟨decrypted, hout, hlen, hlength, htake, hdrop⟩

end Sample

/-- A successful decryption of `ciphertext` leaves a file of its length that encrypts back to it exactly if
the ciphertext is a whole number of sectors. A short last sector is filled up with zero ciphertext bytes. -/
theorem decrypt_inverts_iff (X : Externals) (os : Os) (reporter : Reporter) (args : DecryptArgs)
    (showProgress : Bool) (env : Environment) (w w' : World) (ciphertext : Bytes)
    (hinput : w.fs.Regular args.input ciphertext)
    (hdecrypt : runDecrypt X os reporter args showProgress env w = (.exit .success, w')) :
    ∃ spec key engine decrypted, Accepted X w.fs args.cipher args.keySize args.keyFile args.keyFormat spec key engine ∧
      w'.fs.Regular args.output decrypted ∧
      (decrypted.length = ciphertext.length ∧ engine.encryptRange 0 decrypted = .ok ciphertext ↔
        512 ∣ ciphertext.length) := by
  obtain ⟨spec, key, engine, i, n, haccepted, hi, hn, -, hdecrypted⟩ := runDecrypt_success hdecrypt
  obtain ⟨rfl, hread⟩ := regular_input hinput hi hn
  rw [hread] at hdecrypted
  refine ⟨spec, key, engine, _, haccepted, hdecrypted, ?_⟩
  rw [SectorEngine.cryptSectors_length, resize_length]
  constructor
  · rintro ⟨hlen, -⟩
    exact hlen ▸ sectorSize_dvd_coverage ciphertext.length
  · intro hdvd
    refine ⟨coverage_of_dvd hdvd, ?_⟩
    have hwhole : sectorSize ∣ (engine.cryptSectors false 0 ciphertext).length := by
      rw [SectorEngine.cryptSectors_length]
      exact hdvd
    rw [resize_coverage_of_dvd hdvd]
    have hrange := engine.cryptRange_eq true 0 hwhole
    rw [show true = !false from rfl, SectorEngine.cryptSectors_inverse] at hrange
    exact hrange

/-- The kernel delivers the one byte and takes the whole sector. -/
def shortEnv : Environment := fun _ _ =>
  ⟨⟨[(0, .compute), (0, .kernel (.count 1)), (0, .compute), (0, .kernel (.count 512)), (0, .compute)], 0, none⟩, [], []⟩

theorem decrypt_inverts_iff_short :
    ∃ engine : SectorEngine, ∃ decrypted,
      (sampleDecryption "short.img" shortEnv sampleWorld).2.fs.Regular "output.img" decrypted ∧
      ¬ (decrypted.length = 1 ∧ engine.encryptRange 0 decrypted = .ok [0]) := by
  obtain ⟨spec, key, engine, decrypted, -, hout, hiff⟩ := decrypt_inverts_iff sampleExternals sampleOs
    { progressFlavor := .sterile } (sampleDecryptArgs "short.img") false shortEnv sampleWorld
    (sampleDecryption "short.img" shortEnv sampleWorld).2 [0] ⟨2, rfl, rfl⟩ (eq_success (by decide +kernel))
  exact ⟨engine, decrypted, hout, fun h => absurd (hiff.mp h) (by decide)⟩

theorem decrypt_fabricates_sector :
    sampleWorld.fs.Regular "short.img" [0] ∧
      (sampleDecryption "short.img" shortEnv sampleWorld).1 = .exit .success ∧
      ∃ decrypted, (sampleDecryption "short.img" shortEnv sampleWorld).2.fs.Regular "output.img" decrypted ∧
        decrypted.length = 512 ∧
        ∀ engine : SectorEngine, ¬ (decrypted.length = 1 ∧ engine.encryptRange 0 decrypted = .ok [0]) := by
  have hrun : (sampleDecryption "short.img" shortEnv sampleWorld).1 = .exit .success := by decide +kernel
  have hshort : sampleWorld.fs.Regular "short.img" [0] := ⟨2, rfl, rfl⟩
  have hsuccess := eq_success hrun
  obtain ⟨spec, key, engine, i, n, -, hi, hn, -, hout⟩ := runDecrypt_success hsuccess
  obtain ⟨rfl, hread⟩ := regular_input hshort hi hn
  have hlen : ∀ bytes : Bytes, (engine.cryptSectors false 0 (resize bytes (coverage 1))).length = 512 := by
    intro bytes
    rw [SectorEngine.cryptSectors_length, resize_length]
    rfl
  refine ⟨hshort, hrun, _, hout, hlen _, ?_⟩
  rintro engine' ⟨h, -⟩
  rw [List.length_singleton, hlen] at h
  exact absurd h (by decide)

end NocapCrypt.Cli
