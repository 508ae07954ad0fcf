import Mathlib

/-! Hexadecimal and padded base64 text of byte strings, with decoders. -/

namespace NocapCrypt.Library.TextEncodings

/-- Printable ASCII, the space excluded. -/
def Graphic (c : Char) : Prop := 0x20 < c.toNat ∧ c.toNat < 0x7F

lemma utf8ByteSize_ofList {cs : List Char} (h : ∀ c ∈ cs, Graphic c) :
    (String.ofList cs).utf8ByteSize = cs.length := by
  induction cs with
  | nil => rfl
  | cons c cs ih =>
    have hc : c.utf8Size = 1 := by
      rw [Char.utf8Size_eq_one_iff, UInt32.le_iff_toNat_le]
      exact (h c List.mem_cons_self).2.le
    have hs := ih fun d hd => h d (List.mem_cons_of_mem c hd)
    rw [← List.singleton_append, String.ofList_append, String.utf8ByteSize_append, hs, List.length_append,
      ← String.singleton_eq_ofList, String.utf8ByteSize_singleton, hc]
    rfl

section Hex

def hexDigit (upper : Bool) (n : ℕ) : Char :=
  if n < 10 then Char.ofNat (48 + n) else if upper then Char.ofNat (55 + n) else Char.ofNat (87 + n)

def hexChars (upper : Bool) : List UInt8 → List Char
  | [] => []
  | b :: bs => hexDigit upper (b.toNat / 16) :: hexDigit upper (b.toNat % 16) :: hexChars upper bs

def hexValue (c : Char) : Option ℕ :=
  if '0' ≤ c ∧ c ≤ '9' then some (c.toNat - 48)
  else if 'A' ≤ c ∧ c ≤ 'F' then some (c.toNat - 55)
  else if 'a' ≤ c ∧ c ≤ 'f' then some (c.toNat - 87)
  else none

def hexBytes : List Char → Option (List UInt8)
  | [] => some []
  | [_] => none
  | a :: b :: rest => do
    let high ← hexValue a
    let low ← hexValue b
    let bytes ← hexBytes rest
    some (UInt8.ofNat (16 * high + low) :: bytes)

lemma hexValue_hexDigit (upper : Bool) : ∀ n < 16, hexValue (hexDigit upper n) = some n := by
  cases upper <;> decide

lemma hexValue_graphic {c : Char} {n : ℕ} (h : hexValue c = some n) : Graphic c := by
  have hle : ∀ {a b : Char}, a ≤ b → a.toNat ≤ b.toNat := fun h => h
  rw [hexValue] at h
  split at h
  · rename_i hc
    exact ⟨Nat.lt_of_lt_of_le (by decide) (hle hc.1), Nat.lt_of_le_of_lt (hle hc.2) (by decide)⟩
  · split at h
    · rename_i hc
      exact ⟨Nat.lt_of_lt_of_le (by decide) (hle hc.1), Nat.lt_of_le_of_lt (hle hc.2) (by decide)⟩
    · split at h
      · rename_i hc
        exact ⟨Nat.lt_of_lt_of_le (by decide) (hle hc.1), Nat.lt_of_le_of_lt (hle hc.2) (by decide)⟩
      · cases h

lemma hexChars_length (upper : Bool) (bytes : List UInt8) : (hexChars upper bytes).length = 2 * bytes.length := by
  induction bytes with
  | nil => rfl
  | cons b bs ih => rw [hexChars, List.length_cons, List.length_cons, ih, List.length_cons, Nat.mul_succ]

lemma mem_hexChars {upper : Bool} {bytes : List UInt8} {c : Char} (h : c ∈ hexChars upper bytes) :
    ∃ n < 16, c = hexDigit upper n := by
  induction bytes with
  | nil => cases h
  | cons b bs ih =>
    have hb := b.toNat_lt
    rcases List.mem_cons.mp h with rfl | h
    · exact ⟨_, by omega, rfl⟩
    · rcases List.mem_cons.mp h with rfl | h
      · exact ⟨_, by omega, rfl⟩
      · exact ih h

lemma hexChars_graphic {upper : Bool} {bytes : List UInt8} {c : Char} (h : c ∈ hexChars upper bytes) : Graphic c := by
  obtain ⟨n, hn, rfl⟩ := mem_hexChars h
  exact hexValue_graphic (hexValue_hexDigit upper n hn)

lemma hexBytes_hexChars (upper : Bool) (bytes : List UInt8) : hexBytes (hexChars upper bytes) = some bytes := by
  induction bytes with
  | nil => rfl
  | cons b bs ih =>
    have hb := b.toNat_lt
    have hv : UInt8.ofNat (16 * (b.toNat / 16) + b.toNat % 16) = b := by
      rw [Nat.div_add_mod, UInt8.ofNat_toNat]
    rw [hexChars, hexBytes, hexValue_hexDigit upper _ (by omega), hexValue_hexDigit upper _ (by omega), ih]
    simp only [Option.bind_eq_bind, Option.bind_some, hv]

lemma hexBytes_some {cs : List Char} {bytes : List UInt8} (h : hexBytes cs = some bytes) :
    cs.length = 2 * bytes.length ∧ ∀ c ∈ cs, Graphic c := by
  fun_induction hexBytes cs generalizing bytes with
  | case1 =>
    cases h
    exact ⟨rfl, by simp⟩
  | case2 => cases h
  | case3 a b rest ih =>
    simp only [Option.bind_eq_bind, Option.bind_eq_some_iff] at h
    obtain ⟨high, ha, low, hb, bytes', hr, h⟩ := h
    cases h
    obtain ⟨hl, hg⟩ := ih hr
    refine ⟨by rw [List.length_cons, List.length_cons, hl, List.length_cons, Nat.mul_succ], ?_⟩
    intro c hc
    rcases List.mem_cons.mp hc with rfl | hc
    · exact hexValue_graphic ha
    · rcases List.mem_cons.mp hc with rfl | hc
      · exact hexValue_graphic hb
      · exact hg c hc

end Hex

section Base64

def base64Symbol (n : ℕ) : Char :=
  if n < 26 then Char.ofNat (65 + n) else if n < 52 then Char.ofNat (71 + n) else if n < 62 then Char.ofNat (n - 4)
  else if n = 62 then '+' else '/'

def base64Chars : List UInt8 → List Char
  | [] => []
  | [a] => [base64Symbol (a.toNat / 4), base64Symbol (a.toNat % 4 * 16), '=', '=']
  | [a, b] => [base64Symbol (a.toNat / 4), base64Symbol (a.toNat % 4 * 16 + b.toNat / 16),
      base64Symbol (b.toNat % 16 * 4), '=']
  | a :: b :: c :: rest => base64Symbol (a.toNat / 4) :: base64Symbol (a.toNat % 4 * 16 + b.toNat / 16) ::
      base64Symbol (b.toNat % 16 * 4 + c.toNat / 64) :: base64Symbol (c.toNat % 64) :: base64Chars rest

def base64Value (c : Char) : Option ℕ :=
  if 'A' ≤ c ∧ c ≤ 'Z' then some (c.toNat - 65)
  else if 'a' ≤ c ∧ c ≤ 'z' then some (c.toNat - 71)
  else if '0' ≤ c ∧ c ≤ '9' then some (c.toNat + 4)
  else if c = '+' then some 62
  else if c = '/' then some 63
  else none

/-- The last group with padding: the bits that it does not use are zero. -/
def base64Padded (a b c : Char) : Option (List UInt8) := do
  let x ← base64Value a
  let y ← base64Value b
  if c = '=' then if y % 16 = 0 then some [UInt8.ofNat (4 * x + y / 16)] else none
  else do
    let z ← base64Value c
    if z % 4 = 0 then some [UInt8.ofNat (4 * x + y / 16), UInt8.ofNat (16 * (y % 16) + z / 4)] else none

def base64Bytes : List Char → Option (List UInt8)
  | [] => some []
  | a :: b :: c :: d :: rest =>
    if d = '=' then if rest = [] then base64Padded a b c else none
    else do
      let x ← base64Value a
      let y ← base64Value b
      let z ← base64Value c
      let t ← base64Value d
      let bytes ← base64Bytes rest
      some (UInt8.ofNat (4 * x + y / 16) :: UInt8.ofNat (16 * (y % 16) + z / 4) :: UInt8.ofNat (64 * (z % 4) + t) ::
        bytes)
  | _ => none

lemma base64Value_symbol : ∀ n < 64, base64Value (base64Symbol n) = some n := by decide

lemma base64Symbol_ne_pad : ∀ n < 64, base64Symbol n ≠ '=' := by decide

lemma base64Value_graphic {c : Char} {n : ℕ} (h : base64Value c = some n) : Graphic c := by
  have hle : ∀ {a b : Char}, a ≤ b → a.toNat ≤ b.toNat := fun h => h
  rw [base64Value] at h
  split at h
  · rename_i hc
    exact ⟨Nat.lt_of_lt_of_le (by decide) (hle hc.1), Nat.lt_of_le_of_lt (hle hc.2) (by decide)⟩
  · split at h
    · rename_i hc
      exact ⟨Nat.lt_of_lt_of_le (by decide) (hle hc.1), Nat.lt_of_le_of_lt (hle hc.2) (by decide)⟩
    · split at h
      · rename_i hc
        exact ⟨Nat.lt_of_lt_of_le (by decide) (hle hc.1), Nat.lt_of_le_of_lt (hle hc.2) (by decide)⟩
      · split at h
        · subst_vars
          exact ⟨by decide, by decide⟩
        · split at h
          · subst_vars
            exact ⟨by decide, by decide⟩
          · cases h

lemma base64Symbol_graphic {n : ℕ} (h : n < 64) : Graphic (base64Symbol n) :=
  base64Value_graphic (base64Value_symbol n h)

lemma pad_graphic : Graphic '=' := ⟨by decide, by decide⟩

lemma base64Chars_length (bytes : List UInt8) : (base64Chars bytes).length = 4 * ((bytes.length + 2) / 3) := by
  fun_induction base64Chars bytes with
  | case1 => rfl
  | case2 a => simp only [List.length_cons, List.length_nil]
  | case3 a b => simp only [List.length_cons, List.length_nil]
  | case4 a b c rest ih =>
    simp only [List.length_cons, ih]
    omega

lemma base64Chars_graphic {bytes : List UInt8} {c : Char} (h : c ∈ base64Chars bytes) : Graphic c := by
  have hb : ∀ b : UInt8, b.toNat < 256 := UInt8.toNat_lt
  fun_induction base64Chars bytes with
  | case1 => cases h
  | case2 a =>
    have ha := hb a
    simp only [List.mem_cons, List.not_mem_nil, or_false] at h
    rcases h with rfl | rfl | rfl | rfl
    any_goals exact pad_graphic
    all_goals exact base64Symbol_graphic (by omega)
  | case3 a b =>
    have ha := hb a
    have hb' := hb b
    simp only [List.mem_cons, List.not_mem_nil, or_false] at h
    rcases h with rfl | rfl | rfl | rfl
    any_goals exact pad_graphic
    all_goals exact base64Symbol_graphic (by omega)
  | case4 a b c rest ih =>
    have ha := hb a
    have hb' := hb b
    have hc := hb c
    simp only [List.mem_cons] at h
    rcases h with rfl | rfl | rfl | rfl | h
    · exact base64Symbol_graphic (by omega)
    · exact base64Symbol_graphic (by omega)
    · exact base64Symbol_graphic (by omega)
    · exact base64Symbol_graphic (by omega)
    · exact ih h

lemma pad_mem_base64Chars {bytes : List UInt8} (h : bytes.length % 3 ≠ 0) : '=' ∈ base64Chars bytes := by
  fun_induction base64Chars bytes with
  | case1 => exact (h rfl).elim
  | case2 a => simp
  | case3 a b => simp
  | case4 a b c rest ih =>
    simp only [List.length_cons] at h
    simp only [List.mem_cons]
    exact Or.inr (Or.inr (Or.inr (Or.inr (ih (by omega)))))

lemma base64Bytes_base64Chars (bytes : List UInt8) : base64Bytes (base64Chars bytes) = some bytes := by
  have hb : ∀ b : UInt8, b.toNat < 256 := UInt8.toNat_lt
  have hv : ∀ {b : UInt8} {n : ℕ}, n = b.toNat → UInt8.ofNat n = b := by
    rintro b n rfl
    exact UInt8.ofNat_toNat
  fun_induction base64Chars bytes with
  | case1 => rfl
  | case2 a =>
    have ha := hb a
    rw [base64Bytes, if_pos rfl, if_pos rfl, base64Padded, base64Value_symbol _ (by omega),
      base64Value_symbol _ (by omega)]
    simp only [Option.bind_eq_bind, Option.bind_some, if_true]
    rw [if_pos (by omega), hv (b := a) (by omega)]
  | case3 a b =>
    have ha := hb a
    have hb' := hb b
    rw [base64Bytes, if_pos rfl, if_pos rfl, base64Padded, base64Value_symbol _ (by omega),
      base64Value_symbol _ (by omega), base64Value_symbol _ (by omega)]
    simp only [Option.bind_eq_bind, Option.bind_some]
    rw [if_neg (base64Symbol_ne_pad _ (by omega)), if_pos (by omega), hv (b := a) (by omega), hv (b := b) (by omega)]
  | case4 a b c rest ih =>
    have ha := hb a
    have hb' := hb b
    have hc := hb c
    rw [base64Bytes, if_neg (base64Symbol_ne_pad _ (by omega)), base64Value_symbol _ (by omega),
      base64Value_symbol _ (by omega), base64Value_symbol _ (by omega), base64Value_symbol _ (by omega), ih]
    simp only [Option.bind_eq_bind, Option.bind_some]
    rw [hv (b := a) (by omega), hv (b := b) (by omega), hv (b := c) (by omega)]

lemma base64Padded_some {a b c : Char} {bytes : List UInt8} (h : base64Padded a b c = some bytes) :
    (bytes.length = 1 ∨ bytes.length = 2) ∧ Graphic a ∧ Graphic b ∧ Graphic c := by
  simp only [base64Padded, Option.bind_eq_bind, Option.bind_eq_some_iff] at h
  obtain ⟨x, ha, y, hb, h⟩ := h
  split at h
  · split at h
    · cases h
      subst_vars
      exact ⟨Or.inl rfl, base64Value_graphic ha, base64Value_graphic hb, pad_graphic⟩
    · cases h
  · rw [Option.bind_eq_some_iff] at h
    obtain ⟨z, hc, h⟩ := h
    split at h
    · cases h
      exact ⟨Or.inr rfl, base64Value_graphic ha, base64Value_graphic hb, base64Value_graphic hc⟩
    · cases h

lemma base64Bytes_some {cs : List Char} {bytes : List UInt8} (h : base64Bytes cs = some bytes) :
    cs.length = 4 * ((bytes.length + 2) / 3) ∧ ∀ c ∈ cs, Graphic c := by
  fun_induction base64Bytes cs generalizing bytes with
  | case1 =>
    cases h
    exact ⟨rfl, by simp⟩
  | case2 a b c =>
    obtain ⟨hl, ha, hb, hc⟩ := base64Padded_some h
    refine ⟨by simp only [List.length_cons, List.length_nil]; omega, ?_⟩
    intro e he
    simp only [List.mem_cons, List.not_mem_nil, or_false] at he
    rcases he with rfl | rfl | rfl | rfl
    · exact ha
    · exact hb
    · exact hc
    · exact pad_graphic
  | case3 => cases h
  | case4 a b c d rest hd ih =>
    simp only [Option.bind_eq_bind, Option.bind_eq_some_iff] at h
    obtain ⟨x, ha, y, hb, z, hc, t, hd, bytes', hr, h⟩ := h
    cases h
    obtain ⟨hl, hg⟩ := ih hr
    refine ⟨by simp only [List.length_cons, hl]; omega, ?_⟩
    intro e he
    simp only [List.mem_cons] at he
    rcases he with rfl | rfl | rfl | rfl | he
    · exact base64Value_graphic ha
    · exact base64Value_graphic hb
    · exact base64Value_graphic hc
    · exact base64Value_graphic hd
    · exact hg e he
  | case5 => cases h

end Base64

end NocapCrypt.Library.TextEncodings
