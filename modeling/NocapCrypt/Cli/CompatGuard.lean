import NocapCrypt.Cli.CryptsetupCompat

/-! What a dry run leaves behind and what its verdict rests on, whatever fails on the way. -/

namespace NocapCrypt.Cli.CryptsetupCompat

open NocapCrypt.Library.Runs NocapCrypt.Library.Commands NocapCrypt.Core NocapCrypt.BlockIo NocapCrypt.KeyMgmt

variable (call : CompatCall)

def findCommand : String × List Bytes := ("losetup", [utf8 "--find", utf8 "--show", call.backingPath])

def openCommand (keyFile loopDev : String) : String × List Bytes := ("cryptsetup", call.openArgs keyFile loopDev)

/-- The commands up to the guard's, with the loop device and the mapping that they have left to it. -/
inductive Acquired : Option String → Option String → List (String × List Bytes) → Prop
  | nothing : Acquired none none []
  | refused : Acquired none none [findCommand call]
  | attached (dev : String) : Acquired (some dev) none [findCommand call]
  | unopened (dev keyFile : String) : Acquired (some dev) none [findCommand call, openCommand call keyFile dev]
  | opened (dev keyFile : String) :
    Acquired (some dev) (some call.mapName) [findCommand call, openCommand call keyFile dev]

/-- `Guard::drop` runs `cryptsetup close` for the mapping, and after that `losetup -d` for the loop device. What they
answer is ignored. -/
def closes (mapName : Option String) : List (String × List Bytes) :=
  mapName.toList.map fun name => ("cryptsetup", [utf8 "close", utf8 name])

def detaches (loopDev : Option String) : List (String × List Bytes) :=
  loopDev.toList.map fun dev => ("losetup", [utf8 "-d", utf8 dev])

def Closed (s : CompatState) : Prop :=
  ∃ acquired, Acquired call s.loopDev s.mapName acquired ∧ s.commands = acquired ++ closes s.mapName

def Released (s : CompatState) : Prop :=
  ∃ acquired, Acquired call s.loopDev s.mapName acquired ∧
    s.commands = acquired ++ closes s.mapName ++ detaches s.loopDev

/-- A verdict is the comparison of our ciphertext with what the mapping has left in the backing file. -/
def Judged (ours : Bytes) (moves : List CompatMove) (result : Except String Bool) : Prop :=
  ∀ same, result = .ok same → ∃ before backing after,
    moves = before ++ .mapping none backing :: .file none :: after ∧ fixtureLen ≤ backing.length ∧
      same = (backing.take fixtureLen == ours)

/-- What holds of the state after these moves, by its phase. -/
def GuardInv (ours : Bytes) (moves : List CompatMove) (s : CompatState) : Prop :=
  s.ours = ours ∧ match s.phase with
  | .createBacking | .sizeBacking | .openKey | .writeKey | .losetup =>
    s.loopDev = none ∧ s.mapName = none ∧ s.commands = []
  | .openMapping dev _ => s.loopDev = some dev ∧ s.mapName = none ∧ s.commands = [findCommand call]
  | .writeMapping => s.mapName = some call.mapName ∧ Acquired call s.loopDev s.mapName s.commands
  | .readBacking => Acquired call s.loopDev s.mapName s.commands ∧
    ∃ before backing, moves = before ++ [.mapping none backing] ∧ s.backing = some backing
  | .closing name result =>
    s.mapName = some name ∧ Acquired call s.loopDev s.mapName s.commands ∧ Judged ours moves result
  | .detaching dev result => s.loopDev = some dev ∧ Closed call s ∧ Judged ours moves result
  | .removingBacking result => Released call s ∧ Judged ours moves result
  | .removingKey result => Released call s ∧ Judged ours moves result ∧
    ∃ before fault, moves = before ++ [.file fault] ∧ (fault = none → s.backing = none)
  | .returned result => Released call s ∧ Judged ours moves result ∧ (moves = [] ∨
    ∃ before fault fault', moves = before ++ [.file fault, .file fault'] ∧ (fault = none → s.backing = none) ∧
      (fault' = none → s.keyFile = none))

section Guard

variable {call} {ours : Bytes} {moves : List CompatMove} {s s' : CompatState} {result : Except String Bool}

lemma Judged.snoc (h : Judged ours moves result) (move : CompatMove) : Judged ours (moves ++ [move]) result := by
  intro same hsame
  obtain ⟨before, backing, after, rfl, hlong, heq⟩ := h same hsame
  exact ⟨before, backing, after ++ [move], by simp, hlong, heq⟩

lemma judged_error (detail : String) : Judged ours moves (.error detail) := by
  rintro same ⟨⟩

lemma guardInv_afterClose (hours : s.ours = ours) (hphase : s.phase = s.afterClose result) (hclosed : Closed call s)
    (hjudged : Judged ours moves result) : GuardInv call ours moves s := by
  refine ⟨hours, ?_⟩
  rw [hphase, CompatState.afterClose]
  cases hdev : s.loopDev with
  | some dev => exact ⟨rfl, hclosed, hjudged⟩
  | none =>
    obtain ⟨acquired, hacquired, hcommands⟩ := hclosed
    refine ⟨⟨acquired, hacquired, ?_⟩, hjudged⟩
    rw [hcommands, hdev]
    exact (List.append_nil _).symm

lemma guardInv_drop (hours : s.ours = ours) (hacquired : Acquired call s.loopDev s.mapName s.commands)
    (hjudged : Judged ours moves result) : GuardInv call ours moves (s.drop result) := by
  cases hname : s.mapName with
  | some name =>
    have hphase : (s.drop result).phase = .closing name result := by rw [CompatState.drop, hname]
    refine ⟨hours, ?_⟩
    rw [hphase]
    exact ⟨hname, hacquired, hjudged⟩
  | none =>
    have hphase : (s.drop result).phase = (s.drop result).afterClose result := by
      rw [CompatState.drop, hname]
      rfl
    refine guardInv_afterClose hours hphase ⟨s.commands, hacquired, ?_⟩ hjudged
    change s.commands = s.commands ++ closes s.mapName
    rw [hname]
    exact (List.append_nil _).symm

lemma guardInv_fail (hours : s.ours = ours) (hacquired : Acquired call s.loopDev s.mapName s.commands)
    (detail : String) : GuardInv call ours moves (s.fail detail) :=
  guardInv_drop hours hacquired (judged_error detail)

/-- Before `losetup` has succeeded the guard holds nothing. -/
lemma acquired_nothing (h : s.loopDev = none ∧ s.mapName = none ∧ s.commands = []) :
    Acquired call s.loopDev s.mapName s.commands := by
  rw [h.1, h.2.1, h.2.2]
  exact .nothing

lemma guardInv_writeKeyPass {file : KeyFile} {written : ℕ} (answer : Answer) (hours : s.ours = ours)
    (hp : s.phase = .writeKey) (hi : s.loopDev = none ∧ s.mapName = none ∧ s.commands = []) :
    GuardInv call ours moves (writeKeyPass call s file written answer) := by
  rw [writeKeyPass]
  split
  · exact guardInv_fail hours (acquired_nothing hi) _
  · dsimp only
    split
    · refine guardInv_fail ?_ ?_ _
      · exact hours
      · exact acquired_nothing hi
    · split
      · refine ⟨hours, ?_⟩
        rw [hp]
        exact hi
      · exact ⟨hours, hi⟩

lemma guardInv_afterLosetup {output : CommandOutput} (hours : s.ours = ours)
    (hi : s.loopDev = none ∧ s.mapName = none ∧ s.commands = [findCommand call]) :
    GuardInv call ours moves (afterLosetup call s output) := by
  obtain ⟨hdev, hname, hcommands⟩ := hi
  rw [afterLosetup]
  split
  · refine guardInv_fail hours ?_ _
    rw [hdev, hname, hcommands]
    exact .refused
  · dsimp only
    split
    · refine guardInv_fail ?_ ?_ _
      · exact hours
      · change Acquired call (some _) s.mapName s.commands
        rw [hname, hcommands]
        exact .attached _
    · exact ⟨hours, rfl, hname, hcommands⟩

lemma guardInv_step {move : CompatMove} (hi : GuardInv call ours moves s) (h : compatStep call s move = some s') :
    GuardInv call ours (moves ++ [move]) s' := by
  obtain ⟨hours, hi⟩ := hi
  rw [compatStep.eq_def] at h
  split at h
  · rename_i hp
    rw [hp] at hi
    cases h
    exact guardInv_fail hours (acquired_nothing hi) _
  · rename_i hp
    rw [hp] at hi
    cases h
    exact ⟨hours, hi⟩
  · rename_i hp
    rw [hp] at hi
    cases h
    exact guardInv_fail hours (acquired_nothing hi) _
  · rename_i hp
    rw [hp] at hi
    cases h
    exact ⟨hours, hi⟩
  · rename_i hp
    rw [hp] at hi
    cases h
    exact guardInv_fail hours (acquired_nothing hi) _
  · rename_i hp
    rw [hp] at hi
    cases h
    split
    · exact ⟨hours, hi⟩
    · exact ⟨hours, hi⟩
  · rename_i hp
    rw [hp] at hi
    split at h
    · cases h
      exact guardInv_writeKeyPass _ hours hp hi
    · cases h
  · rename_i hp
    rw [hp] at hi
    obtain ⟨hdev, hname, hcommands⟩ := hi
    have hran : (s.ran "losetup" [utf8 "--find", utf8 "--show", call.backingPath]).commands = [findCommand call] := by
      rw [CompatState.ran, hcommands]
      rfl
    dsimp only at h
    split at h
    · cases h
      refine guardInv_fail ?_ ?_ _
      · exact hours
      · rw [hran]
        change Acquired call s.loopDev s.mapName _
        rw [hdev, hname]
        exact .refused
    · cases h
      exact guardInv_afterLosetup hours ⟨hdev, hname, hran⟩
  · rename_i dev keyFile _ hp
    rw [hp] at hi
    obtain ⟨hdev, hname, hcommands⟩ := hi
    have hran : (s.ran "cryptsetup" (call.openArgs keyFile dev)).commands =
        [findCommand call, openCommand call keyFile dev] := by
      rw [CompatState.ran, hcommands]
      rfl
    have hunopened : Acquired call s.loopDev s.mapName (s.ran "cryptsetup" (call.openArgs keyFile dev)).commands := by
      rw [hran, hdev, hname]
      exact .unopened dev keyFile
    dsimp only at h
    split at h
    · cases h
      refine guardInv_fail ?_ ?_ _
      · exact hours
      · exact hunopened
    · cases h
      split
      · refine guardInv_fail ?_ ?_ _
        · exact hours
        · exact hunopened
      · refine ⟨hours, rfl, ?_⟩
        change Acquired call s.loopDev (some call.mapName) (s.ran "cryptsetup" (call.openArgs keyFile dev)).commands
        rw [hran, hdev]
        exact .opened dev keyFile
  · rename_i fault backing hp
    rw [hp] at hi
    dsimp only at h
    split at h
    · cases h
      refine guardInv_fail ?_ ?_ _
      · exact hours
      · exact hi.2
    · cases h
      exact ⟨hours, hi.2, moves, backing, rfl, rfl⟩
  · rename_i hp
    rw [hp] at hi
    cases h
    exact guardInv_fail hours hi.1 _
  · rename_i hp
    rw [hp] at hi
    obtain ⟨hacquired, before, backing, rfl, hbacking⟩ := hi
    rw [hbacking] at h
    cases h
    split
    · exact guardInv_fail hours hacquired _
    · rename_i hlong
      refine guardInv_drop hours hacquired ?_
      rintro same ⟨⟩
      exact ⟨before, backing, [], by simp, Nat.le_of_not_lt hlong, by rw [hours]⟩
  · rename_i name result _ hp
    rw [hp] at hi
    obtain ⟨hname, hacquired, hjudged⟩ := hi
    cases h
    refine guardInv_afterClose hours rfl ⟨s.commands, hacquired, ?_⟩ (hjudged.snoc _)
    change s.commands ++ _ = s.commands ++ closes s.mapName
    rw [hname]
    rfl
  · rename_i dev result _ hp
    rw [hp] at hi
    obtain ⟨hdev, ⟨acquired, hacquired, hcommands⟩, hjudged⟩ := hi
    cases h
    refine ⟨hours, ⟨acquired, hacquired, ?_⟩, hjudged.snoc _⟩
    change s.commands ++ _ = acquired ++ closes s.mapName ++ detaches s.loopDev
    rw [hcommands, hdev]
    rfl
  · rename_i result fault hp
    rw [hp] at hi
    cases h
    refine ⟨hours, hi.1, hi.2.snoc _, moves, fault, rfl, fun hfault => ?_⟩
    exact if_pos hfault
  · rename_i result fault' hp
    rw [hp] at hi
    obtain ⟨hreleased, hjudged, before, fault, rfl, hbacking⟩ := hi
    cases h
    refine ⟨hours, hreleased, hjudged.snoc _, Or.inr ⟨before, fault, fault', by simp, hbacking, fun hfault => ?_⟩⟩
    exact if_pos hfault
  · cases h

lemma guardInv_run (hi : GuardInv call ours [] s) (hrun : run (compatStep call) s moves = some s') :
    GuardInv call ours moves s' := by
  induction moves using List.reverseRecOn generalizing s' with
  | nil =>
    cases hrun
    exact hi
  | append_singleton moves move ih =>
    obtain ⟨u, hu, hmove⟩ := run_concat_some _ hrun
    exact guardInv_step (ih hu) hmove

lemma run_returned (h : s.phase = .returned result) (hrun : run (compatStep call) s moves = some s') : moves = [] := by
  cases moves with
  | nil => rfl
  | cons move moves =>
    have hstuck : compatStep call s move = none := by
      rw [compatStep.eq_def, h]
    rw [run_cons, hstuck] at hrun
    cases hrun

lemma start_engine (P : Primitives) (call : CompatCall) (backing : Option Bytes) (before : Option KeyFile) :
    Yields (fun _ => True) (CompatState.start P call backing before) fun s => GuardInv call s.ours [] s ∧
      ((∃ text, s.phase = .returned (.error text)) ∨ ∃ engine,
        SectorEngine.new P call.spec call.key = .ok (.ok engine) ∧
          engine.encryptRange fixtureSkipSectors plaintext = .ok s.ours) := by
  have hnew : Yields (fun _ => True) (SectorEngine.new P call.spec call.key) fun built =>
      SectorEngine.new P call.spec call.key = .ok built := by
    cases hbuilt : SectorEngine.new P call.spec call.key with
    | error e => trivial
    | ok built => rfl
  refine hnew.bind fun built hbuilt => ?_
  cases built with
  | error e =>
    exact ⟨⟨rfl, ⟨[], .nothing, rfl⟩, judged_error _, Or.inl rfl⟩, Or.inl ⟨_, rfl⟩⟩
  | ok engine =>
    dsimp only
    generalize hours : engine.encryptRange fixtureSkipSectors plaintext = ours
    cases ours with
    | error e => trivial
    | ok ours => exact ⟨⟨rfl, rfl, rfl, rfl⟩, Or.inr ⟨engine, hbuilt, hours⟩⟩

lemma compat_isFailure {found : Bool} : (platformRun found result).compat.isFailure = true ↔
    found = true ∧ result = .ok false := by
  cases found with
  | false => simp [platformRun, Outcome.compat, Outcome.isFailure]
  | true => rcases result with detail | _ | _ <;> simp [platformRun, Outcome.compat, Outcome.isFailure]

end Guard

/-- What is left when a dry run has returned. -/
structure Settled (P : Primitives) (call : CompatCall) (moves : List CompatMove) (s : CompatState)
    (result : Except String Bool) : Prop where
  /-- The commands that give back what was acquired have been run, once each and in the opposite order. -/
  released : Released call s
  /-- There is a verdict only over a comparison with our ciphertext. -/
  judged : ∀ same, result = .ok same → ∃ engine ours before backing after,
    SectorEngine.new P call.spec call.key = .ok (.ok engine) ∧
      engine.encryptRange fixtureSkipSectors plaintext = .ok ours ∧
      moves = before ++ .mapping none backing :: .file none :: after ∧ fixtureLen ≤ backing.length ∧
      same = (backing.take fixtureLen == ours)
  /-- `image encrypt` fails over a dry run only where the ciphertexts differ. -/
  failure : ∀ found, (platformRun found result).compat.isFailure = true → ∃ engine ours backing,
    SectorEngine.new P call.spec call.key = .ok (.ok engine) ∧
      engine.encryptRange fixtureSkipSectors plaintext = .ok ours ∧ .mapping none backing ∈ moves ∧
      backing.take fixtureLen ≠ ours
  /-- The last things that happen are the removals of the two files, if they have been touched at all. -/
  removed : moves = [] ∨ ∃ before fault fault', moves = before ++ [.file fault, .file fault'] ∧
    (fault = none → s.backing = none) ∧ (fault' = none → s.keyFile = none)

/-- However a dry run goes, it has run `cryptsetup close` for its mapping and `losetup -d` for its loop device when it
returns, and its temporary files are gone as far as their removal succeeds. A verdict it returns only where the backing
file was read and compared. -/
theorem compat_settled (P : Primitives) (call : CompatCall) (backing : Option Bytes) (before : Option KeyFile)
    {s₀ s : CompatState} {moves : List CompatMove} {result : Except String Bool}
    (hstart : CompatState.start P call backing before = .ok s₀) (hrun : run (compatStep call) s₀ moves = some s)
    (hp : s.phase = .returned result) : Settled P call moves s result := by
  obtain ⟨hinv, hengine⟩ := (start_engine P call backing before).of_ok hstart
  obtain ⟨-, hi⟩ := guardInv_run hinv hrun
  rw [hp] at hi
  obtain ⟨hreleased, hjudged, hremoved⟩ := hi
  have hverdict : ∀ same, result = .ok same → ∃ engine ours before backing after,
      SectorEngine.new P call.spec call.key = .ok (.ok engine) ∧
        engine.encryptRange fixtureSkipSectors plaintext = .ok ours ∧
        moves = before ++ .mapping none backing :: .file none :: after ∧ fixtureLen ≤ backing.length ∧
        same = (backing.take fixtureLen == ours) := by
    intro same hsame
    obtain ⟨first, written, after, hmoves, hlong, heq⟩ := hjudged same hsame
    rcases hengine with ⟨text, htext⟩ | ⟨engine, hnew, hours⟩
    · -- a verdict takes two moves
      rw [run_returned htext hrun] at hmoves
      simp at hmoves
    · exact ⟨engine, s₀.ours, first, written, after, hnew, hours, hmoves, hlong, heq⟩
  refine ⟨hreleased, hverdict, ?_, hremoved⟩
  intro found hfailure
  obtain ⟨engine, ours, first, written, after, hnew, hours, hmoves, -, heq⟩ :=
    hverdict false (compat_isFailure.mp hfailure).2
  refine ⟨engine, ours, written, hnew, hours, by rw [hmoves]; simp, ?_⟩
  intro hsame
  rw [hsame, beq_self_eq_true] at heq
  cases heq

section Sample

def CompatPhase.failure : CompatPhase → Option String
  | .returned (.error text) => some text
  | _ => none

lemma CompatPhase.failure_eq_some {phase : CompatPhase} {text : String} :
    phase.failure = some text ↔ phase = .returned (.error text) := by
  constructor
  · intro h
    rw [CompatPhase.failure.eq_def] at h
    split at h
    · cases h
      rfl
    · cases h
  · rintro rfl
    rfl

/-- Root can attach a loop device, but `dm-crypt` is missing. -/
def sampleUnopened : List CompatMove :=
  sampleMoves ++ [.command (.ok ⟨true, "exit status: 0", "/dev/loop0\n", ""⟩),
    .command (.ok ⟨false, "exit status: 1", "", "device-mapper: reload ioctl failed"⟩),
    .command (.ok ⟨true, "exit status: 0", "", ""⟩), .file none, .file none]

theorem compat_settled_unopened :
    ∃ s₀ s, CompatState.start samplePrimitives (sampleCall 0o077) none none = .ok s₀ ∧
      run (compatStep (sampleCall 0o077)) s₀ sampleUnopened = some s ∧
      Settled samplePrimitives (sampleCall 0o077) sampleUnopened s
        (.error "cryptsetup open exited with exit status: 1") := by
  have hend : ((CompatState.start samplePrimitives (sampleCall 0o077) none none).toOption.bind fun s =>
      (run (compatStep (sampleCall 0o077)) s sampleUnopened).bind fun s => s.phase.failure) =
        some "cryptsetup open exited with exit status: 1" := by decide +kernel
  obtain ⟨s₀, hstart, hrun⟩ := Option.bind_eq_some_iff.mp hend
  obtain ⟨s, hrun, hphase⟩ := Option.bind_eq_some_iff.mp hrun
  have hok : CompatState.start samplePrimitives (sampleCall 0o077) none none = .ok s₀ := by
    cases hr : CompatState.start samplePrimitives (sampleCall 0o077) none none with
    | error p =>
      rw [hr] at hstart
      cases hstart
    | ok t =>
      rw [hr] at hstart
      exact congrArg Except.ok (Option.some.inj hstart)
  exact ⟨s₀, s, hok, hrun, compat_settled samplePrimitives (sampleCall 0o077) none none hok hrun
    (CompatPhase.failure_eq_some.mp hphase)⟩

end Sample

end NocapCrypt.Cli.CryptsetupCompat
