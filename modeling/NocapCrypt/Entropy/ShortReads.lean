import NocapCrypt.Entropy.Shannon
import NocapCrypt.Entropy.Streaming

/-! `analyze_stream` over a reader that hands its bytes out in pieces: the refill loop of
`crates/nocap-crypt-entropy/src/streaming.rs`, and the windows of the whole data that it comes to. -/

namespace NocapCrypt.Entropy.Stream

open NocapCrypt.BlockIo NocapCrypt.Library.Image

/-- The bytes not yet handed out, and how the coming calls of `read` end. -/
structure Reader where
  rest : Bytes
  answers : List Answer

/-- One `read` into a slice of `len` bytes. -/
def read (rest : Bytes) (len : ℕ) : Answer → Except IoError Bytes
  | .fault e => .error e
  | .count n => .ok (rest.take (min n len))

/-- What `read_full` returns, the buffer it was lent and the reader it leaves. -/
structure Filled where
  filled : ℕ
  buf : Bytes
  reader : Reader

/-- `read_full` from the pass that has filled `filled` bytes; `none` where the answers run out first. -/
def readFull (rest buf : Bytes) (filled : ℕ) : List Answer → Option (Except IoError Filled)
  | [] => if filled < buf.length then none else some (.ok ⟨filled, buf, rest, []⟩)
  | answer :: answers =>
    if filled < buf.length then
      match read rest (buf.length - filled) answer with
      | .error e => some (.error e)
      | .ok bytes =>
        let n := bytes.length
        if n = 0 then some (.ok ⟨filled, buf, rest, answers⟩)
        else readFull (rest.drop n) (overwrite buf filled bytes) (filled + n) answers
    else some (.ok ⟨filled, buf, rest, answer :: answers⟩)

structure WindowScore (S : Type) where
  windowIndex : ℕ
  offset : ℕ
  len : ℕ
  shannonBitsPerByte : S
  chiSquare : S
  deriving DecidableEq

structure StreamEntropyReport (S : Type) where
  windows : List (WindowScore S)
  overallShannonBitsPerByte : S
  totalBytes : ℕ
  deriving DecidableEq

structure Locals (S : Type) where
  buf : Bytes
  windows : List (WindowScore S)
  offset : ℕ
  globalCounts : Counts
  totalBytes : ℕ
  windowIndex : ℕ

section Analyze

variable {S : Type} (A : Arithmetic S)

def Locals.start (windowSize : ℕ) : Locals S := ⟨List.replicate windowSize 0, [], 0, noCounts, 0, 0⟩

/-- The body of the loop for the `n` bytes at the front of `buf`. -/
def Locals.window (locals : Locals S) (buf : Bytes) (n : ℕ) : Locals S :=
  let chunk := buf.take n
  { buf := buf
    windows := locals.windows ++
      [⟨locals.windowIndex, locals.offset, n, shannonEntropy A chunk, chiSquareStatistic A chunk⟩]
    offset := locals.offset + n
    globalCounts := tally locals.globalCounts chunk
    totalBytes := locals.totalBytes + n
    windowIndex := locals.windowIndex + 1 }

def Locals.report (locals : Locals S) : StreamEntropyReport S where
  windows := locals.windows
  overallShannonBitsPerByte :=
    if locals.totalBytes = 0 then A.ofNat 0 else bitsPerByte A locals.globalCounts locals.totalBytes
  totalBytes := locals.totalBytes

/-- Every pass takes at least one answer, so as many passes as there are answers are enough. -/
def windowLoop (windowSize : ℕ) : ℕ → Locals S → Reader → Option (Except IoError (Locals S))
  | 0, _, _ => none
  | passes + 1, locals, reader =>
    match readFull reader.rest locals.buf 0 reader.answers with
    | none => none
    | some (.error e) => some (.error e)
    | some (.ok full) =>
      if full.filled = 0 then some (.ok locals)
      else
        let locals' := locals.window A full.buf full.filled
        if full.filled < windowSize then some (.ok locals')
        else windowLoop windowSize passes locals' full.reader

/-- `analyze_stream`; `none` where the reader's answers run out before it returns. -/
def analyzeStream (reader : Reader) (windowSize : ℕ) :
    Except Panic (Option (Except IoError (StreamEntropyReport S))) :=
  if windowSize = 0 then .error (.assertion "window_size must be nonzero")
  else .ok ((windowLoop A windowSize reader.answers.length (Locals.start windowSize) reader).map
    fun result => result.map (Locals.report A))

end Analyze

def minWindowEntropy {S : Type} [Min S] (report : StreamEntropyReport S) : Option S :=
  (report.windows.map WindowScore.shannonBitsPerByte).foldl (fun acc v => some (acc.elim v fun a => min a v)) none

section ReadFull

variable {answers : List Answer}

lemma take_overwrite {buf : Bytes} {filled : ℕ} (h : filled ≤ buf.length) (bytes : Bytes) :
    (overwrite buf filled bytes).take (filled + bytes.length) = buf.take filled ++ bytes := by
  by_cases hb : bytes = []
  · rw [hb, overwrite_nil, List.length_nil, Nat.add_zero, List.append_nil]
  · have hlen : (buf.take filled ++ bytes).length = filled + bytes.length := by
      rw [List.length_append, List.length_take, min_eq_left h]
    rw [overwrite, if_neg hb, resize, Nat.sub_eq_zero_of_le h, List.replicate_zero, List.append_nil,
      List.take_left' hlen]

lemma read_good (rest : Bytes) {len : ℕ} {answer : Answer} (h : answer.Good) (hl : 0 < len) :
    ∃ n, 0 < n ∧ n ≤ len ∧ read rest len answer = .ok (rest.take n) := by
  cases answer with
  | fault e => exact h.elim
  | count n => exact ⟨min n len, Nat.lt_min.mpr ⟨h, hl⟩, min_le_right _ _, rfl⟩

/-- Whatever pieces the bytes come in, `read_full` moves the front of them to the buffer: as many as are missing,
or all there are. -/
lemma readFull_eq (rest buf : Bytes) {filled : ℕ} (hf : filled ≤ buf.length) (hg : ∀ a ∈ answers, a.Good)
    (ha : rest.length + 1 ≤ answers.length) :
    ∃ full, readFull rest buf filled answers = some (.ok full) ∧
      full.filled = filled + min (buf.length - filled) rest.length ∧ full.buf.length = buf.length ∧
      full.buf.take full.filled = buf.take filled ++ rest.take (buf.length - filled) ∧
      full.reader.rest = rest.drop (buf.length - filled) ∧ (∀ a ∈ full.reader.answers, a.Good) ∧
      (buf.length - filled ≤ rest.length → full.reader.rest.length + 1 ≤ full.reader.answers.length) := by
  induction answers generalizing rest buf filled with
  | nil => exact absurd ha (by simp)
  | cons answer answers ih =>
    rw [readFull]
    split
    · rename_i hlt
      have hmiss : 0 < buf.length - filled := Nat.sub_pos_of_lt hlt
      obtain ⟨n, hpos, hle, hread⟩ := read_good rest (hg answer List.mem_cons_self) hmiss
      have hg' : ∀ a ∈ answers, a.Good := fun a hm => hg a (List.mem_cons_of_mem _ hm)
      have hbytes : (rest.take n).length = min n rest.length := List.length_take
      rw [hread]
      dsimp only
      split
      · rename_i hzero
        have hrest : rest = [] := List.length_eq_zero_iff.mp (by omega)
        refine ⟨_, rfl, ?_, rfl, ?_, ?_, hg', ?_⟩
        · rw [hrest, List.length_nil, Nat.min_zero, Nat.add_zero]
        · rw [hrest, List.take_nil, List.append_nil]
        · rw [hrest, List.drop_nil]
        · intro hle'
          rw [hrest, List.length_nil] at hle'
          omega
      · rename_i hsome
        have hfit : filled + (rest.take n).length ≤ buf.length := by omega
        have hlen : (overwrite buf filled (rest.take n)).length = buf.length := overwrite_length_of_le hfit
        have hleft : (rest.drop (rest.take n).length).length + 1 ≤ answers.length := by
          rw [List.length_drop]
          rw [List.length_cons] at ha
          omega
        have hmissing : buf.length - (filled + (rest.take n).length) = buf.length - filled - (rest.take n).length := by
          omega
        have hsplit : rest.take (buf.length - filled) = rest.take n ++
            (rest.drop (rest.take n).length).take (buf.length - filled - (rest.take n).length) := by
          conv_lhs => rw [← Nat.add_sub_of_le (show (rest.take n).length ≤ buf.length - filled by omega), List.take_add]
          congr 1
          rw [List.take_eq_take_iff]
          omega
        obtain ⟨full, hfull, hcount, hbuf, htake, hdrop, hgood, hmore⟩ :=
          ih (rest.drop (rest.take n).length) (overwrite buf filled (rest.take n)) (hfit.trans hlen.ge) hg' hleft
        rw [hlen, hmissing] at hcount htake hdrop hmore
        refine ⟨full, hfull, ?_, hbuf.trans hlen, ?_, ?_, hgood, ?_⟩
        · rw [hcount, List.length_drop]
          omega
        · rw [htake, take_overwrite hf, List.append_assoc, ← hsplit]
        · rw [hdrop, List.drop_drop]
          congr 1
          omega
        · intro hle'
          rw [List.length_drop] at hmore
          exact hmore (Nat.sub_le_sub_right hle' _)
    · rename_i hge
      have hfull : buf.length - filled = 0 := Nat.sub_eq_zero_of_le (Nat.le_of_not_lt hge)
      refine ⟨_, rfl, ?_, rfl, ?_, ?_, hg, fun _ => ha⟩
      · rw [hfull, Nat.zero_min, Nat.add_zero]
      · rw [hfull, List.take_zero, List.append_nil]
      · rw [hfull, List.drop_zero]

end ReadFull

section Windows

variable {S : Type} (A : Arithmetic S) {data : Bytes} {windowSize : ℕ}

def windowOf (data : Bytes) (windowSize i : ℕ) : WindowScore S :=
  let chunk := window data (i * windowSize) windowSize
  ⟨i, i * windowSize, chunk.length, shannonEntropy A chunk, chiSquareStatistic A chunk⟩

def batchReport (data : Bytes) (windowSize : ℕ) : StreamEntropyReport S where
  windows := (List.range (divCeil data.length windowSize)).map (windowOf A data windowSize)
  overallShannonBitsPerByte := shannonEntropy A data
  totalBytes := data.length

/-- The locals after the first `k` windows, which are the first `done` bytes. -/
structure After (data : Bytes) (windowSize k done : ℕ) (locals : Locals S) : Prop where
  buf : locals.buf.length = windowSize
  windows : locals.windows = (List.range k).map (windowOf A data windowSize)
  offset : locals.offset = done
  globalCounts : locals.globalCounts = tally noCounts (data.take done)
  totalBytes : locals.totalBytes = done
  windowIndex : locals.windowIndex = k

lemma After.start : After A data windowSize 0 (0 * windowSize) (Locals.start windowSize) where
  buf := List.length_replicate
  windows := rfl
  offset := (Nat.zero_mul windowSize).symm
  globalCounts := by rw [Nat.zero_mul]; rfl
  totalBytes := (Nat.zero_mul windowSize).symm
  windowIndex := rfl

variable {A} {k : ℕ} {locals : Locals S}

lemma After.window (h : After A data windowSize k (k * windowSize) locals) {buf : Bytes} {n : ℕ}
    (hbuf : buf.length = windowSize) (hn : n = min windowSize (data.length - k * windowSize))
    (htake : buf.take n = Library.Image.window data (k * windowSize) windowSize) :
    After A data windowSize (k + 1) (k * windowSize + n) (locals.window A buf n) where
  buf := hbuf
  windows := by
    rw [List.range_succ, List.map_append, ← h.windows, Locals.window, htake, h.offset, h.windowIndex, hn,
      ← window_length data (k * windowSize) windowSize]
    rfl
  offset := congrArg (· + n) h.offset
  globalCounts := by
    have hn' : Library.Image.window data (k * windowSize) windowSize = (data.drop (k * windowSize)).take n := by
      rw [Library.Image.window, List.take_eq_take_iff, List.length_drop]
      omega
    rw [Locals.window, htake, h.globalCounts, ← tally_append, hn', ← List.take_add]
  totalBytes := congrArg (· + n) h.totalBytes
  windowIndex := congrArg (· + 1) h.windowIndex

lemma After.report (h : After A data windowSize k data.length locals) (hk : divCeil data.length windowSize = k) :
    locals.report A = batchReport A data windowSize := by
  rw [Locals.report, batchReport, h.windows, h.totalBytes, h.globalCounts, List.take_length, hk, shannonEntropy]
  congr 1
  exact if_congr List.length_eq_zero_iff rfl rfl

/-- The refill loop hands each pass of the window loop the next chunk of the data, so the passes score the chunks
in order; they end after the last one, short or not. -/
lemma windowLoop_eq (hw : 0 < windowSize) {passes : ℕ} (reader : Reader)
    (h : After A data windowSize k (k * windowSize) locals) (hle : k * windowSize ≤ data.length)
    (hrest : reader.rest = data.drop (k * windowSize)) (hg : ∀ a ∈ reader.answers, a.Good)
    (ha : reader.rest.length + 1 ≤ reader.answers.length) (hp : reader.rest.length + 1 ≤ passes) :
    ∃ locals', windowLoop A windowSize passes locals reader = some (.ok locals') ∧
      After A data windowSize (divCeil data.length windowSize) data.length locals' := by
  induction passes generalizing k locals reader with
  | zero => exact absurd hp (by simp)
  | succ passes ih =>
    obtain ⟨full, hfull, hcount, hbuf, htake, hdrop, hgood, hmore⟩ :=
      readFull_eq reader.rest locals.buf (Nat.zero_le _) hg ha
    rw [h.buf, Nat.sub_zero] at hcount htake hdrop hmore
    rw [List.take_zero, List.nil_append, hrest] at htake
    rw [hrest, List.length_drop] at hcount
    rw [Nat.zero_add] at hcount
    have hnext := h.window (hbuf.trans h.buf) hcount htake
    rw [windowLoop, hfull]
    dsimp only
    split
    · rename_i hzero
      have hend : k * windowSize = data.length := by omega
      have hk : divCeil data.length windowSize = k := divCeil_eq (by omega) hend.ge
      refine ⟨locals, rfl, ?_⟩
      rwa [hk, ← hend]
    · split
      · rename_i hsome hshort
        have hend : k * windowSize + full.filled = data.length := by omega
        have hk : divCeil data.length windowSize = k + 1 := by
          apply divCeil_eq <;> rw [Nat.succ_mul] <;> omega
        refine ⟨_, rfl, ?_⟩
        rwa [hk, ← hend]
      · rename_i hsome hwhole
        have hfilled : full.filled = windowSize := by omega
        rw [hfilled, ← Nat.succ_mul] at hnext
        have hlen : reader.rest.length = data.length - k * windowSize := by rw [hrest, List.length_drop]
        have hleft : full.reader.rest.length = data.length - k * windowSize - windowSize := by
          rw [hdrop, List.length_drop, hlen]
        rw [hfilled]
        apply ih full.reader hnext
        · rw [Nat.succ_mul]
          omega
        · rw [hdrop, hrest, List.drop_drop, Nat.succ_mul]
        · exact hgood
        · exact hmore (by omega)
        · omega

lemma analyzeStream_eq (A : Arithmetic S) (data : Bytes) (hw : 0 < windowSize) {answers : List Answer}
    (hg : ∀ a ∈ answers, a.Good) (ha : data.length + 1 ≤ answers.length) :
    analyzeStream A ⟨data, answers⟩ windowSize = .ok (some (.ok (batchReport A data windowSize))) := by
  obtain ⟨locals, hloop, hafter⟩ := windowLoop_eq hw ⟨data, answers⟩ (After.start A) (by omega)
    (by rw [Nat.zero_mul, List.drop_zero]) hg ha ha
  rw [analyzeStream, if_neg hw.ne', hloop]
  change Except.ok (some (Except.ok (locals.report A))) = _
  rw [hafter.report rfl]

lemma windowOf_offset_lt {i : ℕ} (hw : 0 < windowSize) (hi : i < divCeil data.length windowSize) :
    i * windowSize < data.length := by
  by_contra h
  exact absurd ((divCeil_le_iff hw).mpr (Nat.le_of_not_lt h)) (Nat.not_le_of_lt hi)

end Windows

section Minimum

variable {S : Type} [LinearOrder S]

lemma minWindowEntropy_eq (report : StreamEntropyReport S) :
    minWindowEntropy report = (report.windows.map WindowScore.shannonBitsPerByte).min? := by
  have hfold : ∀ (scores : List S) (a : S),
      scores.foldl (fun acc v => some (acc.elim v fun a => min a v)) (some a) = some (scores.foldl min a) := by
    intro scores
    induction scores with
    | nil => exact fun a => rfl
    | cons v scores ih => exact fun a => ih (min a v)
  rw [minWindowEntropy]
  cases report.windows.map WindowScore.shannonBitsPerByte with
  | nil => rfl
  | cons v scores => exact hfold scores v

lemma minWindowEntropy_some {report : StreamEntropyReport S} {m : S} (h : minWindowEntropy report = some m) :
    (∃ score ∈ report.windows, score.shannonBitsPerByte = m) ∧
      ∀ score ∈ report.windows, m ≤ score.shannonBitsPerByte := by
  rw [minWindowEntropy_eq, List.min?_eq_some_iff] at h
  exact ⟨List.mem_map.mp h.1, fun score hscore => h.2 _ (List.mem_map_of_mem hscore)⟩

lemma minWindowEntropy_none (report : StreamEntropyReport S) :
    minWindowEntropy report = none ↔ report.windows = [] := by
  rw [minWindowEntropy_eq, List.min?_eq_none_iff, List.map_eq_nil_iff]

end Minimum

/-- However the reader cuts the data up, the report scores the data's consecutive chunks. -/
theorem analyzeStream_chunks {S : Type} [LinearOrder S] (A : Arithmetic S) (data : Bytes) (windowSize : ℕ)
    (hw : 1 ≤ windowSize) (kernel : ℕ → Answer) (hk : ∀ k, (kernel k).Good) :
    ∃ report,
      (∀ passes, data.length + 1 ≤ passes →
        analyzeStream A ⟨data, (List.range passes).map kernel⟩ windowSize = .ok (some (.ok report))) ∧
      report.windows.length = divCeil data.length windowSize ∧
      (∀ i (hi : i < report.windows.length),
        let chunk := window data (i * windowSize) windowSize
        chunk ≠ [] ∧ report.windows[i] =
          ⟨i, i * windowSize, chunk.length, shannonEntropy A chunk, chiSquareStatistic A chunk⟩) ∧
      ((report.windows.map fun score => window data score.offset windowSize).flatten = data) ∧
      report.totalBytes = data.length ∧ report.overallShannonBitsPerByte = shannonEntropy A data ∧
      (minWindowEntropy report = none ↔ data = []) ∧
      (∀ m, minWindowEntropy report = some m →
        (∃ score ∈ report.windows, score.shannonBitsPerByte = m) ∧
          ∀ score ∈ report.windows, m ≤ score.shannonBitsPerByte) ∧
      ∀ other : ℕ → Answer, (∀ k, (other k).Good) → ∀ passes, data.length + 1 ≤ passes →
        analyzeStream A ⟨data, (List.range passes).map other⟩ windowSize = .ok (some (.ok report)) := by
  have hrun : ∀ schedule : ℕ → Answer, (∀ k, (schedule k).Good) → ∀ passes, data.length + 1 ≤ passes →
      analyzeStream A ⟨data, (List.range passes).map schedule⟩ windowSize =
        .ok (some (.ok (batchReport A data windowSize))) := by
    intro schedule hs passes hp
    apply analyzeStream_eq A data hw
    · intro a ha
      obtain ⟨k, -, rfl⟩ := List.mem_map.mp ha
      exact hs k
    · rwa [List.length_map, List.length_range]
  have hlen : (batchReport A data windowSize).windows.length = divCeil data.length windowSize := by
    rw [batchReport, List.length_map, List.length_range]
  refine ⟨_, hrun kernel hk, hlen, ?_, ?_, rfl, rfl, ?_, fun m => minWindowEntropy_some, hrun⟩
  · intro i hi
    have hlt := windowOf_offset_lt hw (hi.trans_eq hlen)
    refine ⟨?_, ?_⟩
    · rw [← List.length_pos_iff, window_length]
      omega
    · simp only [batchReport, List.getElem_map, List.getElem_range]
      rfl
  · rw [batchReport, List.map_map]
    exact (flatten_windows data windowSize _).trans (List.take_of_length_le (le_divCeil_mul _ hw))
  · rw [minWindowEntropy_none, ← List.length_eq_zero_iff, hlen, ← Nat.le_zero, divCeil_le_iff hw, Nat.zero_mul,
      Nat.le_zero, List.length_eq_zero_iff]

theorem analyzeStream_chunks_byte_by_byte : ∃ report,
    analyzeStream exact ⟨[7, 7, 9], (List.range 4).map fun _ => .count 1⟩ 2 = .ok (some (.ok report)) ∧
      report.windows.length = 2 ∧ report.totalBytes = 3 ∧
      analyzeStream exact ⟨[7, 7, 9], (List.range 4).map fun _ => .count 2⟩ 2 = .ok (some (.ok report)) := by
  obtain ⟨report, hrun, hlen, -, -, htotal, -, -, -, hother⟩ :=
    analyzeStream_chunks exact [7, 7, 9] 2 (by decide) (fun _ => .count 1) fun _ => Nat.one_pos
  exact ⟨report, hrun 4 (by decide), hlen, htotal, hother (fun _ => .count 2) (fun _ => Nat.two_pos) 4 (by decide)⟩

section Batch

def WindowScore.rational (score : WindowScore ℚ) : Entropy.WindowScore :=
  ⟨score.windowIndex, score.offset, score.len, score.shannonBitsPerByte, score.chiSquare⟩

def StreamEntropyReport.rational (report : StreamEntropyReport ℚ) : Entropy.StreamEntropyReport :=
  ⟨report.windows.map WindowScore.rational, report.overallShannonBitsPerByte, report.totalBytes⟩

variable {A : Arithmetic ℚ} {scores : KeyMgmt.Scores} {windowSize : ℕ}

lemma analyzeLoop_eq (hs : scores.shannonEntropy = shannonEntropy A)
    (hc : scores.chiSquareStatistic = chiSquareStatistic A) (hw : 0 < windowSize) (data : Bytes) (passes k : ℕ)
    (hle : k * windowSize ≤ data.length) (hp : data.length - k * windowSize < passes) :
    ((List.range k).map (windowOf A data windowSize)).map WindowScore.rational ++
        analyzeLoop scores windowSize passes (data.drop (k * windowSize)) k (k * windowSize) =
      (batchReport A data windowSize).rational.windows := by
  induction passes generalizing k with
  | zero => exact absurd hp (by simp)
  | succ passes ih =>
    have hn : ((data.drop (k * windowSize)).take windowSize).length =
        min windowSize (data.length - k * windowSize) := by
      rw [List.length_take, List.length_drop]
    have hnext : ((List.range (k + 1)).map (windowOf A data windowSize)).map WindowScore.rational =
        ((List.range k).map (windowOf A data windowSize)).map WindowScore.rational ++
          [⟨k, k * windowSize, ((data.drop (k * windowSize)).take windowSize).length,
            shannonEntropy A ((data.drop (k * windowSize)).take windowSize),
            chiSquareStatistic A ((data.drop (k * windowSize)).take windowSize)⟩] := by
      rw [List.range_succ, List.map_append, List.map_append]
      rfl
    have hwhole : (batchReport A data windowSize).rational.windows =
        ((List.range (divCeil data.length windowSize)).map (windowOf A data windowSize)).map WindowScore.rational := rfl
    rw [analyzeLoop, hwhole, hs, hc]
    split
    · rename_i hzero
      have hk : divCeil data.length windowSize = k := divCeil_eq (by omega) (by omega)
      rw [List.append_nil, hk]
    · rename_i hsome
      rw [← List.singleton_append, ← List.append_assoc, ← hnext]
      split
      · rename_i hshort
        have hk : divCeil data.length windowSize = k + 1 := by
          apply divCeil_eq <;> rw [Nat.succ_mul] <;> omega
        rw [List.append_nil, hk]
      · rename_i hfull
        rw [hn, min_eq_left (by omega), List.drop_drop, ← Nat.succ_mul, ← hwhole]
        apply ih <;> rw [Nat.succ_mul] <;> omega

/-- The report of the whole data is the one the commands work with. -/
theorem analyzeStream_batch (hs : scores.shannonEntropy = shannonEntropy A)
    (hc : scores.chiSquareStatistic = chiSquareStatistic A) (hw : 0 < windowSize) (data : Bytes) :
    Entropy.analyzeStream scores (.ok data) windowSize = .ok (.ok (batchReport A data windowSize).rational) ∧
      (batchReport A data windowSize).rational.minWindowEntropy = minWindowEntropy (batchReport A data windowSize) := by
  refine ⟨?_, ?_⟩
  · have hloop := analyzeLoop_eq hs hc hw data (data.length + 1) 0 (by omega) (by omega)
    rw [Nat.zero_mul, List.drop_zero] at hloop
    rw [Entropy.analyzeStream, if_neg hw.ne', Except.map, hs]
    congr 3
  · rw [Entropy.StreamEntropyReport.minWindowEntropy, minWindowEntropy, StreamEntropyReport.rational, List.map_map]
    rfl

end Batch

end NocapCrypt.Entropy.Stream
