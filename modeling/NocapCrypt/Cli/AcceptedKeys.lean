import NocapCrypt.Cli.EarlyExit

/-! A key that `validate_key` accepts makes an engine, whose ciphers are AES under it: in XTS mode under
its two halves, which differ. -/

namespace NocapCrypt.Cli

open NocapCrypt.Library.Commands NocapCrypt.Core NocapCrypt.KeyMgmt NocapCrypt.Worker Cmd

/-- The ciphers of an engine under a key: the data unit key and the tweak key of XTS are the two halves
of the key, the ESSIV key of CBC is its digest. -/
inductive Keyed (P : Primitives) (key : Bytes) : CipherSpec → SectorEngine → Prop
  | xts128 (k1 k2 : Vector UInt8 16) (first : k1.toList = key.take (key.length / 2))
      (second : k2.toList = key.drop (key.length / 2)) :
      Keyed P key ⟨.xtsPlain64, .bits128⟩ (.xts (.aes128 (P.xts (P.aes128 k1) (P.aes128 k2))))
  | xts192 (k1 k2 : Vector UInt8 24) (first : k1.toList = key.take (key.length / 2))
      (second : k2.toList = key.drop (key.length / 2)) :
      Keyed P key ⟨.xtsPlain64, .bits192⟩ (.xts (.aes192 (P.xts (P.aes192 k1) (P.aes192 k2))))
  | xts256 (k1 k2 : Vector UInt8 32) (first : k1.toList = key.take (key.length / 2))
      (second : k2.toList = key.drop (key.length / 2)) :
      Keyed P key ⟨.xtsPlain64, .bits256⟩ (.xts (.aes256 (P.xts (P.aes256 k1) (P.aes256 k2))))
  | cbcEssiv (main : Vector UInt8 32) (whole : main.toList = key) :
      Keyed P key ⟨.cbcEssivSha256, .bits256⟩ (.cbcEssiv (.aes256 (P.aes256 main) (P.aes256 (P.sha256 key))))

/-- An engine made of a key that no shorter block repeats. Its ciphers are keyed by that key, and where
the mode is XTS the two halves that key them differ. -/
structure SoundEngine (P : Primitives) (spec : CipherSpec) (key : Bytes) (engine : SectorEngine) : Prop where
  built : SectorEngine.new P spec key = .ok (.ok engine)
  keyed : Keyed P key spec engine
  aperiodic : ∀ n block, block.length < key.length → key ≠ (List.replicate n block).flatten
  halves : spec.mode = .xtsPlain64 → key.take (key.length / 2) ≠ key.drop (key.length / 2)

section Keys

variable {P : Primitives} {scores : Scores} {spec : CipherSpec} {key : Bytes} {report : KeyValidationReport}

lemma halves_ne (hm : spec.mode = .xtsPlain64) (hk : key.length = spec.requiredKeyBytes)
    (hp : ∀ n block, block.length < key.length → key ≠ (List.replicate n block).flatten) :
    key.take (key.length / 2) ≠ key.drop (key.length / 2) := by
  intro he
  have hpos : 0 < key.length := by
    rw [hk, CipherSpec.requiredKeyBytes, hm]
    cases spec.aesBits <;> decide
  apply hp 2 (key.take (key.length / 2))
  · rw [List.length_take]
    omega
  · calc key = key.take (key.length / 2) ++ key.drop (key.length / 2) := (List.take_append_drop _ _).symm
      _ = key.take (key.length / 2) ++ key.take (key.length / 2) := by rw [← he]
      _ = (List.replicate 2 (key.take (key.length / 2))).flatten := by simp [List.replicate_succ]

lemma tryInto_eq_ok {n : ℕ} {message : String} {v : Vector UInt8 n} (h : tryInto n message key = .ok v) :
    v.toList = key := by
  rw [tryInto] at h
  split at h
  · cases h
    rfl
  · cases h

lemma halves_of_new {n : ℕ} {message : String} {mk : Vector UInt8 n → Vector UInt8 n → XtsVariant}
    {engine : SectorEngine}
    (h : (do
      let a ← tryInto n message (key.take (key.length / 2))
      let b ← tryInto n message (key.drop (key.length / 2))
      let variant ← pure (mk a b)
      pure (.ok (.xts variant)) : Except Panic (Except KeyError SectorEngine)) = .ok (.ok engine)) :
    ∃ k1 k2, k1.toList = key.take (key.length / 2) ∧ k2.toList = key.drop (key.length / 2) ∧
      engine = .xts (mk k1 k2) := by
  cases ha : tryInto n message (key.take (key.length / 2)) with
  | error p =>
    rw [ha] at h
    cases h
  | ok k1 =>
    cases hb : tryInto n message (key.drop (key.length / 2)) with
    | error p =>
      rw [ha, hb] at h
      cases h
    | ok k2 =>
      rw [ha, hb] at h
      cases h
      exact ⟨k1, k2, tryInto_eq_ok ha, tryInto_eq_ok hb, rfl⟩

lemma keyed_of_new {engine : SectorEngine} (h : SectorEngine.new P spec key = .ok (.ok engine)) :
    Keyed P key spec engine := by
  obtain ⟨mode, bits⟩ := spec
  have hlen : key.length = CipherSpec.requiredKeyBytes ⟨mode, bits⟩ := by
    by_contra hk
    rw [SectorEngine.new, if_pos hk] at h
    cases h
  rw [SectorEngine.new, if_neg (not_not.mpr hlen)] at h
  cases mode with
  | xtsPlain64 =>
    cases bits with
    | bits128 =>
      obtain ⟨k1, k2, first, second, rfl⟩ := halves_of_new h
      exact .xts128 k1 k2 first second
    | bits192 =>
      obtain ⟨k1, k2, first, second, rfl⟩ := halves_of_new h
      exact .xts192 k1 k2 first second
    | bits256 =>
      obtain ⟨k1, k2, first, second, rfl⟩ := halves_of_new h
      exact .xts256 k1 k2 first second
  | cbcEssivSha256 =>
    cases bits with
    | bits128 => cases h
    | bits192 => cases h
    | bits256 =>
      cases ha : tryInto 32 "key length validated above" key with
      | error p =>
        simp only [ha] at h
        cases h
      | ok main =>
        cases hb : tryInto 32 "SHA-256 digest is always 32 bytes" (P.sha256 key).toList with
        | error p =>
          simp only [ha, hb] at h
          cases h
        | ok essiv =>
          simp only [ha, hb] at h
          cases h
          have hessiv : essiv = P.sha256 key := Vector.toList_inj.mp (tryInto_eq_ok hb)
          rw [hessiv]
          exact .cbcEssiv main (tryInto_eq_ok ha)

lemma soundEngine_of_valid {engine : SectorEngine} (h : validateKey scores spec key = .ok report)
    (he : SectorEngine.new P spec key = .ok (.ok engine)) : SoundEngine P spec key engine := by
  have hp := fun n block => detectRepeatingPattern_none (validateKey_pattern h) n block
  exact ⟨he, keyed_of_new he, hp, fun hm => halves_ne hm (validateKey_length h) hp⟩

end Keys

theorem accepted_keys_sound (X : Externals) :
    (∀ spec : CipherSpec, spec.Obtained → ∀ key,
      (∃ result, SectorEngine.new X.primitives spec key = .ok result) ∧
        ((∃ engine, SectorEngine.new X.primitives spec key = .ok (.ok engine)) ↔
          key.length = spec.requiredKeyBytes)) ∧
    (∀ spec : CipherSpec, spec.Obtained → ∀ key report, validateKey X.scores spec key = .ok report →
      ∃ engine, SoundEngine X.primitives spec key engine) ∧
    (∀ os reporter showProgress env fs (args : EncryptArgs),
      Reaches (Untouched fs) (Orderly true) (runEncryptImpl X os reporter args showProgress env)
        fun rest => ∃ spec key engine n size info concurrency inputFile, SoundEngine X.primitives spec key engine ∧
          rest = writeEncrypted X os reporter args showProgress env spec key engine n size info concurrency
            inputFile) ∧
    ∀ os reporter showProgress env fs (args : DecryptArgs),
      Reaches (Untouched fs) (Orderly true) (runDecryptImpl X os reporter args showProgress env)
        fun rest => ∃ spec key engine n info concurrency inputFile, SoundEngine X.primitives spec key engine ∧
          rest = writeDecrypted os reporter args showProgress env engine n info concurrency inputFile := by
  refine ⟨?_, ?_, ?_, ?_⟩
  · intro spec hspec key
    exact ⟨SectorEngine.new_total X.primitives hspec.supported key,
      SectorEngine.new_ok_iff X.primitives hspec.supported key⟩
  · intro spec hspec key report hvalid
    obtain ⟨engine, he⟩ := SectorEngine.new_ok X.primitives hspec.supported (validateKey_length hvalid)
    exact ⟨engine, soundEngine_of_valid hvalid he⟩
  · intro os reporter showProgress env fs args
    apply (reaches_writeEncrypted X os reporter fs args showProgress env).imp
    rintro rest ⟨spec, key, engine, n, size, info, concurrency, inputFile, hchecked, -, -, hrest⟩
    obtain ⟨report, hvalid⟩ := hchecked.valid
    exact ⟨spec, key, engine, n, size, info, concurrency, inputFile,
      soundEngine_of_valid hvalid hchecked.engine_eq, hrest⟩
  · intro os reporter showProgress env fs args
    apply (reaches_writeDecrypted X os reporter fs args showProgress env).imp
    rintro rest ⟨spec, key, engine, n, info, concurrency, inputFile, hchecked, -, hrest⟩
    obtain ⟨report, hvalid⟩ := hchecked.valid
    exact ⟨spec, key, engine, n, info, concurrency, inputFile, soundEngine_of_valid hvalid hchecked.engine_eq, hrest⟩

theorem accepted_keys_sound_xts128 :
    ∃ engine, SoundEngine samplePrimitives ⟨.xtsPlain64, .bits128⟩ sampleKey engine := by
  have hparse : CipherSpec.parse "aes-xts-plain64" = .ok ⟨.xtsPlain64, .bits256⟩ := by decide
  have hbits : CipherSpec.withAesBits ⟨.xtsPlain64, .bits256⟩ 128 = .ok ⟨.xtsPlain64, .bits128⟩ := by decide
  have hok : (validateKey sampleExternals.scores ⟨.xtsPlain64, .bits128⟩ sampleKey).isOk = true := by decide +kernel
  cases hvalid : validateKey sampleExternals.scores ⟨.xtsPlain64, .bits128⟩ sampleKey with
  | error e =>
    rw [hvalid] at hok
    cases hok
  | ok report =>
    exact (accepted_keys_sound sampleExternals).2.1 _ (.withAesBits (.parse hparse) hbits) sampleKey report hvalid

end NocapCrypt.Cli
