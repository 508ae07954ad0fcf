import NocapCrypt.Cli.EarlyExit
import NocapCrypt.Cli.RoundTrip

/-! The `image` commands as makers of artifacts: what they change, what the output shows of the input, and what becomes
of a command that is run again. -/

namespace NocapCrypt.Cli

open NocapCrypt.Library.Image NocapCrypt.Library.Commands NocapCrypt.Core NocapCrypt.BlockIo NocapCrypt.KeyMgmt
  NocapCrypt.Worker Cmd

/-- From `fs` to `fs'` nothing has changed but what `output` names: it may have been created, and if it was a
regular file its contents may be others. -/
structure OnlyAt (output : Path) (fs fs' : Fs) : Prop where
  lookup_ne : ∀ path, path ≠ output → fs'.lookup path = fs.lookup path
  lookup_output : ∀ i, fs.lookup output = some i → fs'.lookup output = some i
  lookup_new : ∀ i, fs.lookup output = none → fs'.lookup output = some i → fs.next ≤ i
  next_le : fs.next ≤ fs'.next
  node_ne : ∀ i < fs.next, fs.lookup output ≠ some i → fs'.node i = fs.node i
  device : ∀ i < fs.next, ∀ sectors, fs.node i = .blockDevice sectors → fs'.node i = .blockDevice sectors

/-- A file that `output` names, or a new one where it names none. -/
def Target (output : Path) (fs : Fs) (i : ℕ) : Prop :=
  fs.lookup output = some i ∨ fs.lookup output = none ∧ fs.next ≤ i

namespace OnlyAt

variable {output : Path} {fs fs₁ fs₂ : Fs}

lemma refl (output : Path) (fs : Fs) : OnlyAt output fs fs where
  lookup_ne _ _ := rfl
  lookup_output _ h := h
  lookup_new i hnone hi := by
    rw [hnone] at hi
    cases hi
  next_le := le_refl _
  node_ne _ _ _ := rfl
  device _ _ _ h := h

lemma trans (h : OnlyAt output fs fs₁) (h' : OnlyAt output fs₁ fs₂) : OnlyAt output fs fs₂ where
  lookup_ne path hne := (h'.lookup_ne path hne).trans (h.lookup_ne path hne)
  lookup_output i hi := h'.lookup_output i (h.lookup_output i hi)
  lookup_new i hnone hi := by
    cases hl : fs₁.lookup output with
    | none => exact h.next_le.trans (h'.lookup_new i hl hi)
    | some j =>
      have hj := h'.lookup_output j hl
      rw [hi] at hj
      cases hj
      exact h.lookup_new i hnone hl
  next_le := h.next_le.trans h'.next_le
  node_ne i hi hne := by
    rw [h'.node_ne i (hi.trans_le h.next_le), h.node_ne i hi hne]
    intro hl
    cases hold : fs.lookup output with
    | none => exact (h.lookup_new i hold hl).not_gt hi
    | some j =>
      have hj := h.lookup_output j hold
      rw [hl] at hj
      cases hj
      exact hne hold
  device i hi sectors hs := h'.device i (hi.trans_le h.next_le) sectors (h.device i hi sectors hs)

lemma store (h : OnlyAt output fs fs₁) {i : ℕ} (htarget : Target output fs i)
    (hfile : ∀ sectors, i < fs.next → fs.node i ≠ .blockDevice sectors) (bytes : Bytes) :
    OnlyAt output fs (fs₁.store i bytes) where
  lookup_ne := h.lookup_ne
  lookup_output := h.lookup_output
  lookup_new := h.lookup_new
  next_le := h.next_le
  node_ne j hj hne := by
    rw [Fs.store_node_of_ne, h.node_ne j hj hne]
    rintro rfl
    rcases htarget with hi | ⟨-, hi⟩
    · exact hne hi
    · exact hi.not_gt hj
  device j hj sectors hs := by
    rw [Fs.store_node_of_ne, h.device j hj sectors hs]
    rintro rfl
    exact hfile sectors hj hs

lemma openWrite (h : OnlyAt output fs fs₁) {create : Bool} {i : ℕ} (ho : fs₁.openWrite output create = .ok (i, fs₂)) :
    OnlyAt output fs fs₂ ∧ Target output fs i := by
  rw [Fs.openWrite] at ho
  split at ho
  · rename_i hl
    cases ho
    refine ⟨h, ?_⟩
    cases hold : fs.lookup output with
    | none => exact Or.inr ⟨hold, h.lookup_new i hold hl⟩
    | some j =>
      have hj := h.lookup_output j hold
      rw [hl] at hj
      cases hj
      exact Or.inl hold
  · rename_i hl
    split at ho
    · cases ho
      have hnone : fs.lookup output = none := by
        cases hold : fs.lookup output with
        | none => rfl
        | some j =>
          rw [h.lookup_output j hold] at hl
          cases hl
      have hfresh : ∀ j < fs.next, j ≠ fs₁.next := fun j hj => (hj.trans_le h.next_le).ne
      refine ⟨⟨?_, ?_, ?_, h.next_le.trans (Nat.le_succ _), ?_, ?_⟩, Or.inr ⟨hnone, h.next_le⟩⟩
      · intro path hne
        exact (Function.update_of_ne hne _ _).trans (h.lookup_ne path hne)
      · intro j hj
        rw [hnone] at hj
        cases hj
      · intro j _ hj
        rw [show (fs₁.create output).lookup output = some fs₁.next from Function.update_self _ _ _] at hj
        cases hj
        exact h.next_le
      · intro j hj hne
        exact (Function.update_of_ne (hfresh j hj) _ _).trans (h.node_ne j hj hne)
      · intro j hj sectors hs
        exact (Function.update_of_ne (hfresh j hj) _ _).trans (h.device j hj sectors hs)
    · cases ho

lemma setLen (h : OnlyAt output fs fs₁) {i len : ℕ} (htarget : Target output fs i)
    (hs : fs₁.setLen i len = .ok fs₂) :
    OnlyAt output fs fs₂ ∧ ∀ sectors, i < fs.next → fs.node i ≠ .blockDevice sectors := by
  obtain ⟨-, bytes, hnode, rfl⟩ := Fs.setLen_ok hs
  have hfile : ∀ sectors, i < fs.next → fs.node i ≠ .blockDevice sectors := by
    intro sectors hi hdevice
    rw [h.device i hi sectors hdevice] at hnode
    cases hnode
  exact ⟨h.store htarget hfile _, hfile⟩

end OnlyAt

namespace ImageAction

def input : ImageAction → Path
  | .encrypt args => args.input
  | .decrypt args => args.input

def output : ImageAction → Path
  | .encrypt args => args.output
  | .decrypt args => args.output

def keyFile : ImageAction → Path
  | .encrypt args => args.keyFile
  | .decrypt args => args.keyFile

def keyFormat : ImageAction → KeyFormatArg
  | .encrypt args => args.keyFormat
  | .decrypt args => args.keyFormat

def cipher : ImageAction → CipherArg
  | .encrypt args => args.cipher
  | .decrypt args => args.cipher

def keySize : ImageAction → Option UInt16
  | .encrypt args => args.keySize
  | .decrypt args => args.keySize

def encrypts : ImageAction → Bool
  | .encrypt _ => true
  | .decrypt _ => false

def outputSize (inputLen : ℕ) : ImageAction → Except String ℕ
  | .encrypt args => alignedOutputSize inputLen args.alignBlockSize.toNat args.alignExtraBlock.toNat
  | .decrypt _ => .ok inputLen

lemma le_outputSize {n size : ℕ} {action : ImageAction} (h : action.outputSize n = .ok size) : n ≤ size := by
  cases action with
  | encrypt args => exact le_alignedOutputSize h
  | decrypt args =>
    cases h
    exact le_refl n

end ImageAction

section Frame

variable (X : Externals) (os : Os) (reporter : Reporter) (output : Path) (fs : Fs)

def ChangedAt (w : World) : Prop := OnlyAt output fs w.fs

/-- A target that is no block device. -/
def RegularTarget (i : ℕ) : Prop := Target output fs i ∧ ∀ sectors, i < fs.next → fs.node i ≠ .blockDevice sectors

lemma eventBlind_changedAt : EventBlind (ChangedAt output fs) := fun _ _ h => h

lemma ensures_target (size : ℕ) : Ensures (ChangedAt output fs) (fun _ => True) (openOutputFile os output size)
    fun file => RegularTarget output fs file.file := by
  have hopen : Ensures (ChangedAt output fs) (fun _ => True) (os.openWrite output true)
      fun opened => ∀ file, opened = .ok file → Target output fs file.file := by
    intro w hw
    rw [Os.openWrite]
    cases hr : os.refuses .openOutput (w.fs.openWrite output true) with
    | error e => exact ⟨hw, fun file h => by cases h⟩
    | ok r =>
      obtain ⟨hchanged, htarget⟩ := OnlyAt.openWrite hw (Os.refuses_ok hr).2
      refine ⟨hchanged, ?_⟩
      intro file h
      cases h
      exact htarget
  have hcreate : Ensures (ChangedAt output fs) (fun _ => True) (os.createSparseOutput output size)
      fun created => ∀ file, created = .ok file → RegularTarget output fs file.file := by
    refine hopen.bind fun opened htarget => ?_
    cases opened with
    | error e => exact Ensures.pure fun file h => by cases h
    | ok file =>
      have hset : Ensures (ChangedAt output fs) (fun _ => True) (os.setLen file size)
          fun resized => resized = .ok () → RegularTarget output fs file.file := by
        intro w hw
        rw [Os.setLen]
        cases hr : os.refuses .setLen (w.fs.setLen file.file size) with
        | error e => exact ⟨hw, fun h => by cases h⟩
        | ok fs' =>
          obtain ⟨hchanged, hfile⟩ := OnlyAt.setLen hw (htarget file rfl) (Os.refuses_ok hr).2
          exact ⟨hchanged, fun _ => ⟨htarget file rfl, hfile⟩⟩
      refine hset.bind fun resized hresized => ?_
      cases resized with
      | error e => exact Ensures.pure fun file h => by cases h
      | ok u =>
        apply Ensures.pure
        intro file' h
        cases h
        exact hresized rfl
  refine hcreate.bind fun created hcreated => ?_
  exact (@ensures_orFail _ true _ (eventBlind_changedAt output fs) _ _ _ (by decide) created).anyhow.imp
    fun file hfile => hcreated file hfile

lemma ensures_stored (job : TransferJob) (hjob : RegularTarget output fs job.outputFile.file) (phase : String)
    (showProgress : Bool) (env : Environment) :
    Ensures (ChangedAt output fs) (fun _ => True) (transferAndReportTiming reporter job phase showProgress env)
      fun _ => True := by
  have hdispatch : Ensures (ChangedAt output fs) (fun _ => True) (dispatch reporter job showProgress env)
      fun _ => True := by
    intro w hw
    rw [dispatch]
    cases dispatchWithProgress reporter job showProgress (env job w.fs.disk) w.fs.disk with
    | error stopped => exact ⟨OnlyAt.store hw hjob.1 hjob.2 _, trivial⟩
    | ok t => exact ⟨OnlyAt.store hw hjob.1 hjob.2 _, trivial⟩
  have hI := eventBlind_changedAt output fs
  refine hdispatch.bind fun result _ => ?_
  refine (@ensures_orFail _ true _ hI _ _ _ (by decide) result).anyhow.bind fun _ _ => ?_
  exact (@ensures_report true _ hI _).anyhow

lemma ensures_writeEncrypted (args : EncryptArgs) (showProgress : Bool) (env : Environment) (spec : CipherSpec)
    (key : Bytes) (engine : SectorEngine) (n size : ℕ) (info : DispatchInfo) (hinfo : 0 < info.chunkSectors)
    (concurrency : Concurrency) (inputFile : SectorFile) :
    Ensures (ChangedAt args.output fs) (fun _ => True)
      (writeEncrypted X os reporter args showProgress env spec key engine n size info concurrency inputFile)
      fun _ => True := by
  have hI := eventBlind_changedAt args.output fs
  refine (ensures_target os args.output fs size).bind fun outputFile hfile => ?_
  refine (@ensures_reportAll true _ hI _).anyhow.bind fun _ _ => ?_
  refine (@ensures_orPanic _ true _ _ (chunkRanges_total _ hinfo)).anyhow.bind fun ranges _ => ?_
  refine (ensures_stored reporter args.output fs _ hfile _ showProgress env).bind fun _ _ => ?_
  have hscore : Ensures (ChangedAt args.output fs) (Orderly true) (scoreCiphertext X os reporter args.output n)
      fun _ => True := by
    refine Ensures.ite (fun _ => ?_) (fun _ => Ensures.pure trivial)
    refine (ensures_read os .readOutput args.output).bind fun ciphertext _ => ?_
    cases ciphertext with
    | ok bytes => exact (ensures_report hI _).bind fun _ _ => ensures_reportAll hI _
    | error e => exact Ensures.pure trivial
  refine hscore.anyhow.bind fun _ _ => ?_
  refine Ensures.ite (fun _ => ?_) (fun _ => Ensures.pure trivial)
  exact (@ensures_report true _ hI _).anyhow.bind fun _ _ => Ensures.pure trivial

lemma ensures_writeDecrypted (args : DecryptArgs) (showProgress : Bool) (env : Environment) (engine : SectorEngine)
    (n : ℕ) (info : DispatchInfo) (hinfo : 0 < info.chunkSectors) (concurrency : Concurrency)
    (inputFile : SectorFile) :
    Ensures (ChangedAt args.output fs) (fun _ => True)
      (writeDecrypted os reporter args showProgress env engine n info concurrency inputFile) fun _ => True := by
  refine (ensures_target os args.output fs n).bind fun outputFile hfile => ?_
  refine (@ensures_reportAll true _ (eventBlind_changedAt args.output fs) _).anyhow.bind fun _ _ => ?_
  refine (@ensures_orPanic _ true _ _ (chunkRanges_total _ hinfo)).anyhow.bind fun ranges _ => ?_
  refine (ensures_stored reporter args.output fs _ hfile _ showProgress env).bind fun _ _ => ?_
  exact Ensures.pure trivial

end Frame

lemma onlyAt_of_reaches {output : Path} {c : Cmd ExitCode} {D : Cmd ExitCode → Prop} {w : World}
    (h : Reaches (Untouched w.fs) (Orderly true) c D)
    (hD : ∀ rest, D rest → Ensures (ChangedAt output w.fs) (fun _ => True) rest fun _ => True) :
    OnlyAt output w.fs (finish c w).2.fs := by
  rcases h w rfl with ⟨outcome, w', hc, hw', -⟩ | ⟨rest, w', hrest, hw', hc⟩
  · rw [finish, hc]
    exact (show w'.fs = w.fs from hw') ▸ OnlyAt.refl output w.fs
  · have hstart : ChangedAt output w.fs w' := (show w'.fs = w.fs from hw').symm ▸ OnlyAt.refl output w.fs
    have hend := hD rest hrest w' hstart
    rw [finish, hc]
    cases hr : rest w' with
    | ok code w₁ =>
      rw [hr] at hend
      exact hend.1
    | error outcome w₁ =>
      rw [hr] at hend
      exact hend.1

lemma runImage_onlyAt (X : Externals) (os : Os) (reporter : Reporter) (action : ImageAction) (showProgress : Bool)
    (env : Environment) (w : World) :
    OnlyAt action.output w.fs (runImage X os reporter action showProgress env w).2.fs := by
  cases action with
  | encrypt args =>
    apply onlyAt_of_reaches (reaches_writeEncrypted X os reporter w.fs args showProgress env)
    rintro rest ⟨spec, key, engine, n, size, info, concurrency, inputFile, -, -, hinfo, rfl⟩
    exact ensures_writeEncrypted X os reporter w.fs args showProgress env spec key engine n size info hinfo concurrency
      inputFile
  | decrypt args =>
    apply onlyAt_of_reaches (reaches_writeDecrypted X os reporter w.fs args showProgress env)
    rintro rest ⟨spec, key, engine, n, info, concurrency, inputFile, -, hinfo, rfl⟩
    exact ensures_writeDecrypted os reporter w.fs args showProgress env engine n info hinfo concurrency inputFile

/-- What one attempt at a command does not share with the next. -/
structure Attempt where
  os : Os
  reporter : Reporter
  showProgress : Bool
  env : Environment

def attempt (X : Externals) (action : ImageAction) (w : World) (a : Attempt) : World :=
  (runImage X a.os a.reporter action a.showProgress a.env w).2

def attempts (X : Externals) (action : ImageAction) (w : World) (as : List Attempt) : World :=
  as.foldl (attempt X action) w

/-- However many attempts at an `image` command are made, and however they end, they change nothing but the file at
its output path, they never write to a block device, and the files that other paths name stay as they are. -/
theorem attempts_frame (X : Externals) (action : ImageAction) (w : World) (as : List Attempt) :
    OnlyAt action.output w.fs (attempts X action w as).fs := by
  induction as generalizing w with
  | nil => exact OnlyAt.refl action.output w.fs
  | cons a as ih =>
    have hfirst : OnlyAt action.output w.fs (attempt X action w a).fs :=
      runImage_onlyAt X a.os a.reporter action a.showProgress a.env w
    exact hfirst.trans (ih (attempt X action w a))

section Success

variable {X : Externals} {w w' : World} {action : ImageAction} {a : Attempt}

lemma runImage_success (h : runImage X a.os a.reporter action a.showProgress a.env w = (.exit .success, w')) :
    ∃ spec key engine i n size,
      Accepted X w.fs action.cipher action.keySize action.keyFile action.keyFormat spec key engine ∧
      w.fs.lookup action.input = some i ∧ n = (w.fs.node i).metadataLen ∧ action.outputSize n = .ok size ∧
      w'.fs.Regular action.output
        (engine.cryptSectors action.encrypts 0 (resize (window (w.fs.disk i) 0 n) (coverage size))) := by
  cases action with
  | encrypt args =>
    obtain ⟨spec, key, engine, i, n, size, haccepted, hi, hn, hsize, -, hout⟩ := runEncrypt_success h
    exact ⟨spec, key, engine, i, n, size, haccepted, hi, hn, hsize, hout⟩
  | decrypt args =>
    obtain ⟨spec, key, engine, i, n, haccepted, hi, hn, -, hout⟩ := runDecrypt_success h
    exact ⟨spec, key, engine, i, n, n, haccepted, hi, hn, rfl, hout⟩

lemma cryptSectors_sector_inj (engine : SectorEngine) (encrypt : Bool) {buf buf' : Bytes} (s : ℕ)
    (h : s * sectorSize + sectorSize ≤ buf.length) (h' : s * sectorSize + sectorSize ≤ buf'.length) :
    window (engine.cryptSectors encrypt 0 buf) (s * sectorSize) sectorSize =
        window (engine.cryptSectors encrypt 0 buf') (s * sectorSize) sectorSize ↔
      window buf (s * sectorSize) sectorSize = window buf' (s * sectorSize) sectorSize := by
  rw [engine.cryptSectors_sector encrypt 0 s h, engine.cryptSectors_sector encrypt 0 s h']
  constructor
  · intro heq
    have hback := congrArg (engine.sectorCipher (!encrypt) (SectorEngine.sectorIv (0 + s))) heq
    rwa [engine.sectorCipher_inverse encrypt _ (window_length_of_le h),
      engine.sectorCipher_inverse encrypt _ (window_length_of_le h')] at hback
  · intro heq
    rw [heq]

/-- Sector `s` of the zero-extended data. -/
def sectorOf (data : Bytes) (s : ℕ) : Bytes := window (resize data ((s + 1) * sectorSize)) (s * sectorSize) sectorSize

lemma sectorOf_resize (data : Bytes) {size s : ℕ} (hs : (s + 1) * sectorSize ≤ size) :
    window (resize data size) (s * sectorSize) sectorSize = sectorOf data s := by
  rw [Nat.succ_mul] at hs
  apply ext_cell
  · rw [sectorOf, window_length_of_le (by rwa [resize_length]),
      window_length_of_le (by rw [resize_length, Nat.succ_mul])]
  · intro b hb
    rw [window_length_of_le (by rwa [resize_length])] at hb
    rw [sectorOf, cell_window, cell_window, if_pos hb, if_pos hb, cell_resize, cell_resize, if_pos (by omega),
      if_pos (by rw [Nat.succ_mul]; omega)]

/-- What two outputs under one key show: a sector is the same in both exactly if it is the same in the inputs, which
zeros follow. Alignment, key format, workers, modes, schedules and what was there before leave no trace. -/
theorem runImage_sectors_iff (X : Externals) (action action' : ImageAction) (a a' : Attempt) (w w₁ w' w₁' : World)
    (data data' : Bytes) (hdirection : action.encrypts = action'.encrypts)
    (hspec : resolveCipherSpec action'.cipher action'.keySize = resolveCipherSpec action.cipher action.keySize)
    (hkey : keyIn X w'.fs action'.keyFile action'.keyFormat = keyIn X w.fs action.keyFile action.keyFormat)
    (hinput : w.fs.Regular action.input data) (hinput' : w'.fs.Regular action'.input data')
    (hrun : runImage X a.os a.reporter action a.showProgress a.env w = (.exit .success, w₁))
    (hrun' : runImage X a'.os a'.reporter action' a'.showProgress a'.env w' = (.exit .success, w₁')) :
    ∃ out out', w₁.fs.Regular action.output out ∧ w₁'.fs.Regular action'.output out' ∧
      sectorSize ∣ out.length ∧ sectorSize ∣ out'.length ∧ data.length ≤ out.length ∧ data'.length ≤ out'.length ∧
      ∀ s, (s + 1) * sectorSize ≤ out.length → (s + 1) * sectorSize ≤ out'.length →
        (window out (s * sectorSize) sectorSize = window out' (s * sectorSize) sectorSize ↔
          sectorOf data s = sectorOf data' s) := by
  obtain ⟨spec, key, engine, i, n, size, haccepted, hi, hn, hsize, hout⟩ := runImage_success hrun
  obtain ⟨spec', key', engine', j, m, size', haccepted', hj, hm, hsize', hout'⟩ := runImage_success hrun'
  obtain ⟨rfl, hread⟩ := regular_input hinput hi hn
  obtain ⟨rfl, hread'⟩ := regular_input hinput' hj hm
  obtain rfl := haccepted.engine_unique haccepted' hspec hkey
  rw [hread] at hout
  rw [hread', ← hdirection] at hout'
  have hle := (ImageAction.le_outputSize hsize).trans (le_coverage size)
  have hle' := (ImageAction.le_outputSize hsize').trans (le_coverage size')
  refine ⟨_, _, hout, hout', ?_⟩
  rw [SectorEngine.cryptSectors_length, SectorEngine.cryptSectors_length, resize_length, resize_length]
  refine ⟨sectorSize_dvd_coverage size, sectorSize_dvd_coverage size', hle, hle', ?_⟩
  intro s hs hs'
  have hfit : s * sectorSize + sectorSize ≤ (resize data (coverage size)).length := by
    rw [resize_length]
    exact Nat.succ_mul s sectorSize ▸ hs
  have hfit' : s * sectorSize + sectorSize ≤ (resize data' (coverage size')).length := by
    rw [resize_length]
    exact Nat.succ_mul s sectorSize ▸ hs'
  rw [cryptSectors_sector_inj engine' action.encrypts s hfit hfit', sectorOf_resize data hs, sectorOf_resize data' hs']

lemma OnlyAt.file {output path : Path} {fs fs' : Fs} (h : OnlyAt output fs fs') {i : ℕ}
    (hi : fs.lookup path = some i) (hne : fs.lookup output ≠ some i) :
    fs'.lookup path = some i ∧ fs'.node i = fs.node i := by
  refine ⟨?_, h.node_ne i (fs.lookup_lt path i hi) hne⟩
  rw [h.lookup_ne path, hi]
  rintro rfl
  exact hne hi

lemma keyIn_eq_ok {fs : Fs} {path : Path} {format : KeyFormatArg} {key : Bytes} :
    keyIn X fs path format = .ok key ↔ ∃ i, fs.lookup path = some i ∧ keyOf X.codecs format (fs.disk i) = .ok key := by
  rw [keyIn, Fs.read]
  cases fs.lookup path with
  | none =>
    constructor
    · intro h
      cases h
    · rintro ⟨i, hi, -⟩
      cases hi
  | some i =>
    constructor
    · intro h
      exact ⟨i, rfl, h⟩
    · rintro ⟨j, hj, h⟩
      cases hj
      exact h

/-- A command that is run again, after any number of attempts that ended in any way, makes the output that it makes
at once, provided neither its input nor its key file is the file that it writes. -/
theorem attempts_then_success (X : Externals) (action : ImageAction) (as : List Attempt) (again a : Attempt)
    (w w₁ w₂ : World)
    (hinput : ∀ i, w.fs.lookup action.input = some i → w.fs.lookup action.output ≠ some i)
    (hkey : ∀ i, w.fs.lookup action.keyFile = some i → w.fs.lookup action.output ≠ some i)
    (hagain : runImage X again.os again.reporter action again.showProgress again.env (attempts X action w as) =
      (.exit .success, w₁))
    (hrun : runImage X a.os a.reporter action a.showProgress a.env w = (.exit .success, w₂)) :
    ∃ out, w₁.fs.Regular action.output out ∧ w₂.fs.Regular action.output out := by
  obtain ⟨spec, key, engine, i, n, size, haccepted, hi, rfl, hsize, hout⟩ := runImage_success hrun
  obtain ⟨spec', key', engine', j, m, size', haccepted', hj, rfl, hsize', hout'⟩ := runImage_success hagain
  have hframe := attempts_frame X action w as
  obtain ⟨hi', hnode⟩ := hframe.file hi (hinput i hi)
  rw [hi'] at hj
  cases hj
  obtain ⟨k, hk, hkeyOf⟩ := keyIn_eq_ok.mp haccepted.key_eq
  obtain ⟨hk', hnode'⟩ := hframe.file hk (hkey k hk)
  have hsame : keyIn X (attempts X action w as).fs action.keyFile action.keyFormat = .ok key := by
    refine keyIn_eq_ok.mpr ⟨k, hk', ?_⟩
    rwa [Fs.disk, hnode']
  obtain rfl := haccepted.engine_unique haccepted' rfl (hsame.trans haccepted.key_eq.symm)
  rw [hnode] at hsize'
  obtain rfl : size = size' := Except.ok.inj (hsize.symm.trans hsize')
  refine ⟨_, ?_, hout⟩
  rwa [Fs.disk, hnode] at hout'

end Success

section Sample

def sampleAttempt (env : Environment) : Attempt := ⟨sampleOs, { progressFlavor := .sterile }, false, env⟩

def fullDiskAttempt (showProgress : Bool) : Attempt :=
  ⟨sampleOs, { progressFlavor := .sterile }, showProgress, fun _ _ => diskFullEnv⟩

/-- A full disk stops two attempts after part of the ciphertext is written; the display of the first never ends. -/
theorem attempts_then_success_sample :
    (runImage sampleExternals sampleOs { progressFlavor := .sterile } (.encrypt sampleEncryptArgs) true
        (fun _ _ => diskFullEnv) sampleWorld).1 = .hang ∧
      ((attempt sampleExternals (.encrypt sampleEncryptArgs) sampleWorld (fullDiskAttempt true)).fs.disk 4).take 200 =
        sampleCiphertext.take 200 ∧
      ∃ out, (attempts sampleExternals (.encrypt sampleEncryptArgs) sampleWorld
          [fullDiskAttempt true, fullDiskAttempt false, sampleAttempt sampleEnv]).fs.Regular "cipher.img" out ∧
        sampleEncryption.2.fs.Regular "cipher.img" out := by
  refine ⟨by decide +kernel, by decide +kernel, ?_⟩
  obtain ⟨out, hagain, hrun⟩ := attempts_then_success sampleExternals (.encrypt sampleEncryptArgs)
    [fullDiskAttempt true, fullDiskAttempt false] (sampleAttempt sampleEnv) (sampleAttempt sampleEnv) sampleWorld
    (attempts sampleExternals (.encrypt sampleEncryptArgs) sampleWorld
      [fullDiskAttempt true, fullDiskAttempt false, sampleAttempt sampleEnv]) sampleEncryption.2
    (fun i _ h => by cases h) (fun i _ h => by cases h) (eq_success (by decide +kernel)) sampleEncryption_succeeds
  exact ⟨out, hagain, hrun⟩

def alignedAction : ImageAction := .encrypt { sampleEncryptArgs with output := "aligned.img", alignBlockSize := 1024 }

def alignedEnv : Environment := fun _ _ =>
  ⟨⟨[(0, .compute), (0, .kernel (.count 512)), (0, .compute), (0, .kernel (.count 1024)), (0, .compute)], 0, none⟩,
    [], []⟩

def alignedEncryption : Outcome × World :=
  runImage sampleExternals sampleOs { progressFlavor := .sterile } alignedAction false alignedEnv sampleWorld

/-- A larger block size only adds sectors. -/
theorem runImage_sectors_iff_aligned :
    ∃ out out', sampleEncryption.2.fs.Regular "cipher.img" out ∧
      alignedEncryption.2.fs.Regular "aligned.img" out' ∧ window out 0 512 = window out' 0 512 := by
  have hlen : sampleSector.length = 512 := by decide +kernel
  obtain ⟨out, out', hout, hout', -, -, hle, hle', hiff⟩ := runImage_sectors_iff sampleExternals
    (.encrypt sampleEncryptArgs) alignedAction (sampleAttempt sampleEnv) (sampleAttempt alignedEnv) sampleWorld
    sampleEncryption.2 sampleWorld alignedEncryption.2 sampleSector sampleSector rfl rfl rfl ⟨0, rfl, rfl⟩ ⟨0, rfl, rfl⟩
    sampleEncryption_succeeds (eq_success (by decide +kernel))
  rw [hlen] at hle hle'
  exact ⟨out, out', hout, hout', (hiff 0 hle hle').mpr rfl⟩

end Sample

end NocapCrypt.Cli
