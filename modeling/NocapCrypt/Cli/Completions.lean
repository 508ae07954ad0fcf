import NocapCrypt.BlockIo.SectorIo
import NocapCrypt.KeyMgmt.Format

/-! `completions`: `crates/nocap-crypt-cli/src/cmd/completions.rs`. -/

namespace NocapCrypt.Cli.Completions

open NocapCrypt.BlockIo NocapCrypt.KeyMgmt List

inductive Shell where
  | bash
  | elvish
  | fish
  | powerShell
  | zsh
  deriving DecidableEq, Repr

/-- `split_inclusive('\n')`. -/
def splitInclusive : List Char → List (List Char)
  | [] => []
  | c :: cs =>
    if c = '\n' then [c] :: splitInclusive cs
    else match splitInclusive cs with
      | [] => [[c]]
      | line :: lines => (c :: line) :: lines

def isLineEnd (c : Char) : Bool := c == '\n' || c == '\r'

def trimLineEnd (line : List Char) : List Char := line.rdropWhile isLineEnd

/-- A line that registers a completion function for `name`. -/
def Registers (name line : List Char) : Prop :=
  "complete -F".toList <+: (trimLineEnd line).dropWhile isWhitespace ∧ name <:+ trimLineEnd line

instance (name line : List Char) : Decidable (Registers name line) := inferInstanceAs (Decidable (_ ∧ _))

def fixLine (safeName binName line : List Char) : List Char :=
  let trimmed := trimLineEnd line
  if Registers safeName line then
    let lineEnding := line.drop trimmed.length
    let before := trimmed.take (trimmed.length - safeName.length)
    before ++ binName ++ lineEnding
  else line

def safeChar (c : Char) : Char := if c = '-' then '_' else c

def safeName (binName : List Char) : List Char := binName.map safeChar

def fixScript (binName script : List Char) : List Char :=
  ((splitInclusive script).map (fixLine (safeName binName) binName)).flatten

/-- What `generate` writes to a standard output that fails with `fault`, if it does. The generator of the library
unwraps the result of its own writes. -/
def generate (clapComplete : Shell → String → String) (fault : Option IoError) (shell : Shell) (binName : String) :
    Except Panic (Except IoError String) :=
  if shell = .bash ∧ '-' ∈ binName.toList then
    let script := clapComplete .bash (String.ofList (safeName binName.toList))
    let fixed := String.ofList (fixScript binName.toList script.toList)
    match fault with
    | some e => .ok (.error e)
    | none => .ok (.ok fixed)
  else match fault with
    | some _ => .error (.expect "failed to write completion file")
    | none => .ok (.ok (clapComplete shell binName))

section Pointwise

variable {R : Char → Char → Prop} {xs ys : List Char}

lemma flatten_splitInclusive (cs : List Char) : (splitInclusive cs).flatten = cs := by
  induction cs with
  | nil => rfl
  | cons c cs ih =>
    rw [splitInclusive]
    split
    · rw [flatten_cons, ih, singleton_append]
    · split
      · rename_i h
        rw [h] at ih
        rw [← ih]
        rfl
      · rename_i line lines h
        rw [h] at ih
        rw [← ih]
        rfl

/-- The cutting into lines follows the line feeds and nothing else. -/
lemma forall₂_splitInclusive (hR : ∀ c d, R c d → (c = '\n' ↔ d = '\n')) (h : Forall₂ R xs ys) :
    Forall₂ (Forall₂ R) (splitInclusive xs) (splitInclusive ys) := by
  induction h with
  | nil => exact .nil
  | @cons c d xs ys hcd h ih =>
    rw [splitInclusive, splitInclusive]
    by_cases hc : c = '\n'
    · rw [if_pos hc, if_pos ((hR c d hcd).mp hc)]
      exact .cons (.cons hcd .nil) ih
    · rw [if_neg hc, if_neg fun hd => hc ((hR c d hcd).mpr hd)]
      cases hx : splitInclusive xs with
      | nil =>
        rw [hx, forall₂_nil_left_iff] at ih
        rw [ih]
        exact .cons (.cons hcd .nil) .nil
      | cons line lines =>
        rw [hx] at ih
        obtain ⟨line', lines', hline, hlines, hy⟩ := forall₂_cons_left_iff.mp ih
        rw [hy]
        exact .cons (.cons hcd hline) hlines

lemma forall₂_dropWhile {p : Char → Bool} (hp : ∀ c d, R c d → p c = p d) (h : Forall₂ R xs ys) :
    Forall₂ R (xs.dropWhile p) (ys.dropWhile p) := by
  induction h with
  | nil => exact .nil
  | @cons c d xs ys hcd h ih =>
    rw [dropWhile_cons, dropWhile_cons, hp c d hcd]
    split
    · exact ih
    · exact .cons hcd h

lemma forall₂_rdropWhile {p : Char → Bool} (hp : ∀ c d, R c d → p c = p d) (h : Forall₂ R xs ys) :
    Forall₂ R (xs.rdropWhile p) (ys.rdropWhile p) := by
  rw [rdropWhile, rdropWhile, forall₂_reverse_iff]
  exact forall₂_dropWhile hp (forall₂_reverse_iff.mpr h)

lemma prefix_of_forall₂ {before : List Char} (hR : ∀ c ∈ before, ∀ d, R c d → d = c) (h : Forall₂ R xs ys)
    (hx : before <+: xs) : before <+: ys := by
  induction before generalizing xs ys with
  | nil => exact nil_prefix
  | cons c before ih =>
    obtain ⟨rest, rfl⟩ := hx
    obtain ⟨d, ys', hcd, hrest, rfl⟩ := forall₂_cons_left_iff.mp h
    rw [hR c mem_cons_self d hcd, cons_prefix_cons]
    exact ⟨rfl, ih (fun c hc => hR c (mem_cons_of_mem _ hc)) hrest (prefix_append before rest)⟩

end Pointwise

/-- An underscore may have become a hyphen. -/
def Hyphened (c d : Char) : Prop := d = c ∨ c = '_' ∧ d = '-'

section Workaround

variable {binName line script : List Char}

lemma hyphened_safeName (binName : List Char) : Forall₂ Hyphened (safeName binName) binName := by
  induction binName with
  | nil => exact .nil
  | cons c cs ih =>
    refine .cons ?_ ih
    rw [safeChar]
    split
    · exact Or.inr ⟨rfl, ‹_›⟩
    · exact Or.inl rfl

lemma hyphened_refl (cs : List Char) : Forall₂ Hyphened cs cs := by
  induction cs with
  | nil => exact .nil
  | cons c cs ih => exact .cons (Or.inl rfl) ih

lemma hyphened_respects {p : Char → Bool} (hp : p '_' = p '-') (c d : Char) (h : Hyphened c d) : p c = p d := by
  rcases h with rfl | ⟨rfl, rfl⟩
  · rfl
  · exact hp

lemma hyphened_newline (c d : Char) (h : Hyphened c d) : c = '\n' ↔ d = '\n' := by
  rcases h with rfl | ⟨rfl, rfl⟩
  · rfl
  · decide

lemma fixLine_of_not (h : ¬ Registers (safeName binName) line) : fixLine (safeName binName) binName line = line :=
  if_neg h

lemma fixLine_of_registers (h : Registers (safeName binName) line) : ∃ before lineEnding,
    trimLineEnd line = before ++ safeName binName ∧ line = before ++ safeName binName ++ lineEnding ∧
      fixLine (safeName binName) binName line = before ++ binName ++ lineEnding := by
  obtain ⟨before, hbefore⟩ := h.2
  obtain ⟨lineEnding, hline⟩ : trimLineEnd line <+: line := rdropWhile_prefix _ _
  have hdrop : line.drop (trimLineEnd line).length = lineEnding := by
    have h : (trimLineEnd line ++ lineEnding).drop (trimLineEnd line).length = lineEnding := drop_left
    rwa [hline] at h
  have htake : (trimLineEnd line).take ((trimLineEnd line).length - (safeName binName).length) = before := by
    rw [← hbefore, length_append, Nat.add_sub_cancel, take_left]
  refine ⟨before, lineEnding, hbefore.symm, ?_, ?_⟩
  · rw [hbefore, hline]
  · rw [fixLine, if_pos h, htake, hdrop]

lemma hyphened_fixLine (binName line : List Char) :
    Forall₂ Hyphened line (fixLine (safeName binName) binName line) := by
  by_cases h : Registers (safeName binName) line
  · obtain ⟨before, lineEnding, -, hline, hfix⟩ := fixLine_of_registers h
    rw [hfix]
    conv_lhs => rw [hline]
    exact rel_append (rel_append (hyphened_refl before) (hyphened_safeName binName)) (hyphened_refl lineEnding)
  · rw [fixLine_of_not h]
    exact hyphened_refl line

lemma trimLineEnd_fixLine {before lineEnding : List Char} (htrim : trimLineEnd line = before ++ safeName binName)
    (hfix : fixLine (safeName binName) binName line = before ++ binName ++ lineEnding) :
    trimLineEnd (fixLine (safeName binName) binName line) = before ++ binName := by
  have hlength : (trimLineEnd (fixLine (safeName binName) binName line)).length = (before ++ binName).length := by
    have h := (forall₂_rdropWhile (hyphened_respects (p := isLineEnd) rfl) (hyphened_fixLine binName line)).length_eq
    change (trimLineEnd line).length = _ at h
    rw [htrim, length_append, safeName, length_map] at h
    rw [length_append]
    exact h.symm
  have hprefix : trimLineEnd (fixLine (safeName binName) binName line) <+: before ++ binName ++ lineEnding :=
    hfix ▸ rdropWhile_prefix _ _
  exact (prefix_of_prefix_length_le hprefix (prefix_append _ _) hlength.le).eq_of_length hlength

/-- The line registers the real name now. -/
lemma fixLine_registers (h : Registers (safeName binName) line) :
    Registers binName (fixLine (safeName binName) binName line) := by
  obtain ⟨before, lineEnding, htrim, -, hfix⟩ := fixLine_of_registers h
  constructor
  · refine prefix_of_forall₂ ?_ (forall₂_dropWhile (hyphened_respects (p := isWhitespace) rfl)
      (forall₂_rdropWhile (hyphened_respects (p := isLineEnd) rfl) (hyphened_fixLine binName line))) h.1
    intro c hc d hcd
    rcases hcd with rfl | ⟨rfl, -⟩
    · rfl
    · exact absurd hc (by decide)
  · rw [trimLineEnd_fixLine htrim hfix]
    exact suffix_append before binName

lemma fixLine_not_registers (hhyphen : '-' ∈ binName) (line : List Char) :
    ¬ Registers (safeName binName) (fixLine (safeName binName) binName line) := by
  by_cases h : Registers (safeName binName) line
  · obtain ⟨before, lineEnding, htrim, -, hfix⟩ := fixLine_of_registers h
    intro hsafe
    have hsuffix := hsafe.2
    rw [trimLineEnd_fixLine htrim hfix] at hsuffix
    have heq : safeName binName = binName :=
      (suffix_of_suffix_length_le hsuffix (suffix_append before binName) (by simp [safeName])).eq_of_length
        (by simp [safeName])
    rw [← heq] at hhyphen
    obtain ⟨c, -, hc⟩ := mem_map.mp hhyphen
    rw [safeChar] at hc
    split at hc
    · exact absurd hc (by decide)
    · exact absurd hc ‹_›
  · rwa [fixLine_of_not h]

end Workaround

/-- What becomes of a line: the internal name at the end of one that registers it gives way to the real name, which
that line registers then, and any other line stays. -/
def Rewritten (binName line line' : List Char) : Prop :=
  if Registers (safeName binName) line then ∃ before lineEnding, trimLineEnd line = before ++ safeName binName ∧
    line = before ++ safeName binName ++ lineEnding ∧ line' = before ++ binName ++ lineEnding ∧
      Registers binName line'
  else line' = line

lemma rewritten_fixLine (binName line : List Char) :
    Rewritten binName line (fixLine (safeName binName) binName line) := by
  rw [Rewritten]
  split
  · rename_i h
    obtain ⟨before, lineEnding, htrim, hline, hfix⟩ := fixLine_of_registers h
    exact ⟨before, lineEnding, htrim, hline, hfix, fixLine_registers h⟩
  · exact fixLine_of_not ‹_›

/-- Both scripts are cut into lines at the same places. -/
lemma splitInclusive_fixScript (binName script : List Char) :
    splitInclusive (fixScript binName script) =
      (splitInclusive script).map (fixLine (safeName binName) binName) := by
  have hlines : Forall₂ (Forall₂ Hyphened) (splitInclusive script)
      ((splitInclusive script).map (fixLine (safeName binName) binName)) := by
    rw [forall₂_map_right_iff, forall₂_same]
    exact fun line _ => hyphened_fixLine binName line
  have hscript : Forall₂ Hyphened script (fixScript binName script) := by
    have h := rel_flatten hlines
    rwa [flatten_splitInclusive] at h
  rw [eq_iff_flatten_eq]
  refine ⟨flatten_splitInclusive _, ?_⟩
  have hcut := forall₂_splitInclusive hyphened_newline hscript
  have hlengths : ∀ lines, Forall₂ (Forall₂ Hyphened) (splitInclusive script) lines →
      lines.map length = (splitInclusive script).map length := by
    intro lines h
    rw [← forall₂_eq_eq_eq, forall₂_map_left_iff, forall₂_map_right_iff]
    exact h.flip.imp fun _ _ h => h.length_eq.symm
  rw [hlengths _ hcut, hlengths _ hlines]

/-- Line by line, the bash script is the generator's but for the name at the end of the lines that register the
completion function: each of them registers the real name now, and none the internal one. -/
theorem fixScript_lines (binName : List Char) (hhyphen : '-' ∈ binName) (script : List Char) :
    Forall₂ (Rewritten binName) (splitInclusive script) (splitInclusive (fixScript binName script)) ∧
      ∀ line ∈ splitInclusive (fixScript binName script), ¬ Registers (safeName binName) line := by
  rw [splitInclusive_fixScript, forall₂_map_right_iff, forall₂_same]
  refine ⟨fun line _ => rewritten_fixLine binName line, ?_⟩
  intro line hline
  obtain ⟨line, -, rfl⟩ := mem_map.mp hline
  exact fixLine_not_registers hhyphen line

def sampleLine : String := "    complete -F _nocap_crypt -o nosort -o bashdefault nocap_crypt\r\n"

def sampleScript : String := "cmd=\"nocap_crypt__subcmd__keygen\"\n" ++ sampleLine ++ "fi\n"

theorem fixScript_lines_sample :
    Forall₂ (Rewritten "nocap-crypt".toList) (splitInclusive sampleScript.toList)
        (splitInclusive (fixScript "nocap-crypt".toList sampleScript.toList)) ∧
      Registers "nocap_crypt".toList sampleLine.toList ∧
      ¬ Registers "nocap_crypt".toList (fixLine "nocap_crypt".toList "nocap-crypt".toList sampleLine.toList) := by
  obtain ⟨hlines, hnone⟩ := fixScript_lines "nocap-crypt".toList (by decide) sampleScript.toList
  exact ⟨hlines, by decide, hnone _ (by decide +kernel)⟩

end NocapCrypt.Cli.Completions
