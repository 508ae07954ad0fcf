import NocapCrypt.Cli.ImageRuns
import NocapCrypt.Worker.FailureContainment

/-! What `create_sparse_output` makes of an existing file, and what is left of it after a failed transfer. -/

namespace NocapCrypt.Cli

open NocapCrypt.Library.Image NocapCrypt.Core NocapCrypt.BlockIo NocapCrypt.Worker

/-- No file at `path` has a nonzero byte below `len`. -/
def Blank (fs : Fs) (path : Path) (len : ℕ) : Prop :=
  ∀ bytes, fs.Regular path bytes → ∀ b < len, cell bytes b = 0

/-- The new output at `path` is zero, and a transfer to it, however it ends, leaves zeros and bytes of its
result only. -/
structure Fresh (path : Path) (len : ℕ) (file : SectorFile) (w w₁ : World) : Prop where
  zeros : w₁.fs.Regular path (List.replicate len 0)
  transfers : ∀ input inputFile engine ranges n chunk concurrency encrypt progress schedule r s,
    w.fs.lookup input = some inputFile.file → n ≤ len → n ≤ (w.fs.disk inputFile.file).length →
    chunkRanges len chunk = .ok ranges →
    processRanges (TransferJob.rangeJob ⟨inputFile, file, engine, ranges, n, len, concurrency, encrypt⟩ progress)
      concurrency schedule (workerStart w₁.fs.disk) = some (r, s) →
    ∀ b < (s.disk file.file).length, cell (s.disk file.file) b = 0 ∨
      cell (s.disk file.file) b =
        cell (engine.cryptSectors encrypt 0 (resize (window (w.fs.disk inputFile.file) 0 n) (coverage len))) b

variable {os : Os} {path : Path} {len : ℕ} {file : SectorFile} {w w₁ : World}

lemma resize_eq_replicate {bytes : Bytes} :
    resize bytes len = List.replicate len 0 ↔ ∀ b < len, cell bytes b = 0 := by
  constructor
  · intro h b hb
    have hc := congrArg (fun xs => cell xs b) h
    simpa only [cell_resize, if_pos hb, cell_replicate] using hc
  · intro h
    apply ext_cell
    · simp
    · intro b hb
      rw [resize_length] at hb
      rw [cell_resize, if_pos hb, cell_replicate, h b hb]

lemma createSparseOutput_disk (h : os.createSparseOutput path len w = .ok (.ok file) w₁) :
    ∃ old, w₁.fs.Regular path (resize old len) ∧ w₁.fs.disk file.file = resize old len ∧
      ((∀ b < len, cell old b = 0) ↔ Blank w.fs path len) := by
  obtain ⟨fs₁, ho, hs, -⟩ := Os.createSparseOutput_ok h
  obtain ⟨-, hlook, hnode, hkeep, hreg⟩ := Fs.openWrite_setLen ho hs
  refine ⟨fs₁.disk file.file, ⟨file.file, hlook, hnode⟩, by rw [Fs.disk, hnode]; rfl, ?_⟩
  cases hl : w.fs.lookup path with
  | none =>
    have hold : fs₁.disk file.file = [] := by
      rw [Fs.openWrite, hl, if_pos rfl, Except.ok.injEq, Prod.mk.injEq] at ho
      obtain ⟨hfile, rfl⟩ := ho
      rw [← hfile]
      simp [Fs.disk, Fs.create, Node.contents]
    rw [hold]
    constructor
    · rintro - bytes ⟨i, hi, -⟩
      rw [hl] at hi
      cases hi
    · intro _ b _
      exact cell_of_le (Nat.zero_le b)
  | some i =>
    have hi : i = file.file ∧ fs₁ = w.fs := by
      rw [Fs.openWrite, hl] at ho
      cases ho
      exact ⟨rfl, rfl⟩
    obtain ⟨rfl, rfl⟩ := hi
    obtain ⟨bytes, hbytes⟩ := hreg path hl
    have hold : w.fs.disk file.file = bytes := by
      rw [Fs.disk, hbytes]
      rfl
    rw [hold]
    constructor
    · rintro hz bytes' ⟨j, hj, hnode'⟩
      rw [hl] at hj
      cases hj
      rw [hbytes] at hnode'
      cases hnode'
      exact hz
    · intro hb
      exact hb bytes ⟨file.file, hl, hbytes⟩

/-- The output is fresh exactly if no earlier file reads as anything but zeros up to its length. -/
theorem createSparseOutput_fresh_iff (os : Os) (path : Path) (len : ℕ) (file : SectorFile) (w w₁ : World)
    (h : os.createSparseOutput path len w = .ok (.ok file) w₁) :
    Fresh path len file w w₁ ↔ Blank w.fs path len := by
  obtain ⟨old, hreg, hdisk, hblank⟩ := createSparseOutput_disk h
  rw [← hblank, ← resize_eq_replicate]
  constructor
  · intro hfresh
    obtain ⟨i, hi, hn⟩ := hreg
    obtain ⟨j, hj, hz⟩ := hfresh.zeros
    rw [hi] at hj
    cases hj
    rw [hn] at hz
    exact Node.regular.inj hz
  · intro hzero
    rw [hzero] at hreg hdisk
    refine ⟨hreg, ?_⟩
    intro input inputFile engine ranges n chunk concurrency encrypt progress schedule r s hin hn hheld hranges hret b _
    have hdata := input_of_createSparseOutput hin h hn hheld
    obtain ⟨fs₁, ho, hs, -⟩ := Os.createSparseOutput_ok h
    obtain ⟨hlen, -⟩ := Fs.openWrite_setLen ho hs
    have hc := covers_of_coverage (TransferJob.rangeJob ⟨inputFile, file, engine, ranges, n, len, concurrency,
      encrypt⟩ progress) hranges (coverage_lt_u64Size hlen)
    obtain ⟨done, hcontained⟩ : ∃ done, Contained _ len concurrency schedule (workerStart w₁.fs.disk) s done := by
      rcases processRanges_cases hret with ⟨-, -, rfl⟩ | ⟨-, c, hrun, -, rfl⟩
      · exact ⟨∅, contained_refl _⟩
      · exact ⟨_, contained_of_run hc hrun⟩
    rcases hcontained.cells b with hkeep | ⟨-, href⟩
    · left
      calc cell (s.disk file.file) b = cell (w₁.fs.disk file.file) b := hkeep
        _ = 0 := by rw [hdisk, cell_replicate]
    · right
      rw [← hdata]
      exact href

theorem createSparseOutput_fresh_new :
    ∃ w₁, sampleOs.createSparseOutput "cipher.img" 512 sampleWorld = .ok (.ok ⟨4, false⟩) w₁ ∧
      Fresh "cipher.img" 512 ⟨4, false⟩ sampleWorld w₁ := by
  refine ⟨_, rfl, (createSparseOutput_fresh_iff sampleOs "cipher.img" 512 ⟨4, false⟩ sampleWorld _ rfl).mpr ?_⟩
  rintro bytes ⟨i, hi, -⟩
  cases hi

section Leftover

def overKeyJob : TransferJob :=
  ⟨⟨0, false⟩, ⟨1, false⟩, sampleEngine, [⟨0, 1⟩], 512, 512, .synchronous, true⟩

def readFaultSchedule : Schedule :=
  ⟨[(0, .compute), (0, .kernel (.fault (.os "Input/output error (os error 5)")))], 0, none⟩

/-- An encryption over an existing file that cannot read its input leaves the old bytes, here those of a key. -/
theorem createSparseOutput_keeps_bytes :
    ∃ w₁ e s, sampleOs.createSparseOutput "key.bin" 512 sampleWorld = .ok (.ok ⟨1, false⟩) w₁ ∧
      w₁.fs.Regular "key.bin" (sampleKey ++ List.replicate 480 0) ∧
      processRanges (overKeyJob.rangeJob false) .synchronous readFaultSchedule (workerStart w₁.fs.disk) =
        some (.ok (.error e), s) ∧
      (s.disk 1)[1]? = some 1 ∧
      sampleEngine.encryptRange 0 sampleSector = .ok sampleCiphertext ∧ sampleCiphertext[1]? = some 217 ∧
      ¬ Fresh "key.bin" 512 ⟨1, false⟩ sampleWorld w₁ := by
  have hrun : (processRanges (overKeyJob.rangeJob false) .synchronous readFaultSchedule
      (workerStart (sampleFs.store 1 (resize sampleKey 512)).disk)).map (fun p => (p.1, (p.2.disk 1)[1]?)) =
        some (.ok (.error (.os "Input/output error (os error 5)")), some 1) := by decide +kernel
  obtain ⟨⟨r, s⟩, hret, hp⟩ := Option.map_eq_some_iff.mp hrun
  obtain ⟨rfl, hold⟩ := Prod.mk.inj hp
  refine ⟨⟨sampleFs.store 1 (resize sampleKey 512), [], false⟩, _, s, rfl, ⟨1, rfl, by rfl⟩, hret, hold,
    by decide +kernel, by decide +kernel, ?_⟩
  intro hfresh
  obtain ⟨i, hi, hn⟩ := hfresh.zeros
  cases hi
  have hbyte := congrArg (fun node : Node => node.contents[1]?) hn
  exact absurd hbyte (by decide +kernel)

end Leftover

end NocapCrypt.Cli
