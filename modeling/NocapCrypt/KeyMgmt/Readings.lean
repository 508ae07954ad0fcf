import NocapCrypt.KeyMgmt.Format
import NocapCrypt.Library.TextEncodings

/-! The readings of one key file as raw bytes, hex and base64: their lengths tell them apart. -/

namespace NocapCrypt.KeyMgmt

open NocapCrypt.Library.TextEncodings

/-- The texts that the encoders of the two crates write. -/
inductive Spelling where
  | hex (upper : Bool)
  | base64
  deriving DecidableEq, Repr

def Spelling.chars : Spelling → Bytes → List Char
  | .hex upper => hexChars upper
  | .base64 => base64Chars

/-- What the decoders document: they invert the encoders, and the length of a text that they accept is
that of the encoded bytes, for base64 with its canonical padding. -/
structure Codecs.Documented (codecs : Codecs) : Prop where
  hexInverts : ∀ upper key, codecs.hexDecode (String.ofList (hexChars upper key)) = .ok key
  base64Inverts : ∀ key, codecs.base64Decode (String.ofList (base64Chars key)) = .ok key
  hexLength : ∀ text key, codecs.hexDecode text = .ok key → text.utf8ByteSize = 2 * key.length
  base64Length : ∀ text key, codecs.base64Decode text = .ok key → text.utf8ByteSize = 4 * ((key.length + 2) / 3)

def utf8 (text : String) : Bytes := text.toByteArray.data.toList

section Text

lemma fromUtf8_utf8 (text : String) : fromUtf8 (utf8 text) = some text := by
  rw [fromUtf8, utf8, Array.toArray_toList, String.fromUTF8?, dif_pos text.isValidUTF8]
  rfl

lemma fromUtf8_length {data : Bytes} {text : String} (h : fromUtf8 data = some text) :
    text.utf8ByteSize = data.length := by
  rw [fromUtf8, String.fromUTF8?] at h
  split at h
  · cases h
    rfl
  · cases h

lemma utf8ByteSize_trim_le (text : String) : (trim text).utf8ByteSize ≤ text.utf8ByteSize := by
  let cs := text.toList
  let rest := cs.dropWhile isWhitespace
  have hcs : cs = cs.takeWhile isWhitespace ++ rest := (List.takeWhile_append_dropWhile).symm
  have hrest : rest = rest.rdropWhile isWhitespace ++ rest.rtakeWhile isWhitespace :=
    List.rdropWhile_append_rtakeWhile.symm
  have htext : text = String.ofList (cs.takeWhile isWhitespace) ++
      (trim text ++ String.ofList (rest.rtakeWhile isWhitespace)) := by
    rw [trim, ← String.ofList_append, ← hrest, ← String.ofList_append, ← hcs, String.ofList_toList]
  have hsize := congrArg String.utf8ByteSize htext
  rw [String.utf8ByteSize_append, String.utf8ByteSize_append] at hsize
  omega

lemma graphic_not_whitespace {c : Char} (h : Graphic c) : isWhitespace c = false := by
  obtain ⟨hlo, hhi⟩ := h
  simp only [isWhitespace, Bool.or_eq_false_iff, Bool.and_eq_false_iff, decide_eq_false_iff_not, beq_eq_false_iff_ne]
  omega

lemma trim_surrounded {before cs after : List Char} (hb : ∀ c ∈ before, isWhitespace c = true)
    (hc : ∀ c ∈ cs, Graphic c) (ha : ∀ c ∈ after, isWhitespace c = true) :
    trim (String.ofList (before ++ cs ++ after)) = String.ofList cs := by
  have hfirst : (before ++ cs ++ after).dropWhile isWhitespace = (cs ++ after).dropWhile isWhitespace := by
    rw [List.append_assoc, List.dropWhile_append_of_pos hb]
  have hlast : (cs ++ after).rdropWhile isWhitespace = cs.rdropWhile isWhitespace := by
    rw [List.rdropWhile, List.rdropWhile, List.reverse_append, List.dropWhile_append_of_pos]
    intro c hmem
    exact ha c (List.mem_reverse.mp hmem)
  rw [trim, String.toList_ofList, hfirst]
  cases cs with
  | nil =>
    rw [List.nil_append, List.dropWhile_eq_nil_iff.mpr ha]
    rfl
  | cons c cs =>
    have hkeep : (c :: cs).rdropWhile isWhitespace = c :: cs := by
      rw [List.rdropWhile_eq_self_iff]
      intro hne
      rw [graphic_not_whitespace (hc _ (List.getLast_mem hne))]
      exact Bool.false_ne_true
    rw [List.cons_append, List.dropWhile_cons_of_neg (by simp [graphic_not_whitespace (hc c List.mem_cons_self)]),
      ← List.cons_append, hlast, hkeep]

end Text

section Readings

variable {codecs : Codecs} {data key : Bytes}

/-- The number of characters that a key of `n` bytes takes. -/
def KeyFormat.textLength : KeyFormat → ℕ → ℕ
  | .raw, n => n
  | .hex, n => 2 * n
  | .base64, n => 4 * ((n + 2) / 3)

lemma decoded_eq_ok {decode : String → Except String Bytes} {wrap : String → KeyParseError} {format : KeyFormat} :
    ((fromUtf8 data).elim (Except.error (KeyParseError.notUtf8 format)) Except.ok >>= fun text =>
        (decode (trim text)).mapError wrap) = .ok key ↔
      ∃ text, fromUtf8 data = some text ∧ decode (trim text) = .ok key := by
  cases ht : fromUtf8 data with
  | none =>
    constructor
    · intro h
      cases h
    · rintro ⟨text, h, -⟩
      cases h
  | some text =>
    change (decode (trim text)).mapError wrap = _ ↔ _
    constructor
    · intro h
      refine ⟨text, rfl, ?_⟩
      cases hd : decode (trim text) with
      | error e =>
        rw [hd] at h
        cases h
      | ok k =>
        rw [hd] at h
        cases h
        rfl
    · rintro ⟨text', he, hd⟩
      cases he
      rw [hd]
      rfl

lemma parseKey_hex :
    parseKey codecs data .hex = .ok key ↔ ∃ text, fromUtf8 data = some text ∧ codecs.hexDecode (trim text) = .ok key :=
  decoded_eq_ok

lemma parseKey_base64 :
    parseKey codecs data .base64 = .ok key ↔
      ∃ text, fromUtf8 data = some text ∧ codecs.base64Decode (trim text) = .ok key :=
  decoded_eq_ok

lemma parseKey_length (hc : codecs.Documented) {format : KeyFormat} (hf : format ≠ .raw)
    (h : parseKey codecs data format = .ok key) :
    ∃ text, fromUtf8 data = some text ∧ (trim text).utf8ByteSize = format.textLength key.length := by
  cases format with
  | raw => exact (hf rfl).elim
  | hex =>
    obtain ⟨text, ht, hd⟩ := parseKey_hex.mp h
    exact ⟨text, ht, hc.hexLength _ _ hd⟩
  | base64 =>
    obtain ⟨text, ht, hd⟩ := parseKey_base64.mp h
    exact ⟨text, ht, hc.base64Length _ _ hd⟩

/-- Decoding a text never yields as many bytes as the file holds. -/
lemma parseKey_lt (hc : codecs.Documented) {format : KeyFormat} (hf : format ≠ .raw)
    (h : parseKey codecs data format = .ok key) (hk : 0 < key.length) : key.length < data.length := by
  obtain ⟨text, ht, hl⟩ := parseKey_length hc hf h
  have hle := utf8ByteSize_trim_le text
  rw [hl, fromUtf8_length ht] at hle
  cases format with
  | raw => exact (hf rfl).elim
  | hex =>
    simp only [KeyFormat.textLength] at hle
    omega
  | base64 =>
    simp only [KeyFormat.textLength] at hle
    omega

theorem parseKey_unique (hc : codecs.Documented) {f g : KeyFormat} {a b : Bytes} {r : ℕ} (hr : r = 32 ∨ r = 64)
    (hf : parseKey codecs data f = .ok a) (hg : parseKey codecs data g = .ok b) (ha : a.length = r)
    (hb : b.length = r) : f = g := by
  have hraw : ∀ {format : KeyFormat} {key : Bytes}, parseKey codecs data format = .ok key → key.length = r →
      (format = .raw ↔ data.length = r) := by
    intro format key h hk
    constructor
    · rintro rfl
      cases h
      exact hk
    · intro hd
      by_contra hne
      have hlt := parseKey_lt hc hne h (by omega)
      omega
  by_cases hd : data.length = r
  · rw [(hraw hf ha).mpr hd, (hraw hg hb).mpr hd]
  · obtain ⟨t, ht, hlt⟩ := parseKey_length hc (mt (hraw hf ha).mp hd) hf
    obtain ⟨u, hu, hlu⟩ := parseKey_length hc (mt (hraw hg hb).mp hd) hg
    rw [ht] at hu
    cases hu
    rw [hlt, ha, hb] at hlu
    rcases hr with rfl | rfl <;> cases f <;> cases g <;> first | rfl | cases hlu

end Readings

section Detection

variable {codecs : Codecs} {key : Bytes} {before after : List Char}

def Spelling.format : Spelling → KeyFormat
  | .hex _ => .hex
  | .base64 => .base64

/-- A key file that holds a spelled key between two stretches of whitespace. -/
def spelled (spelling : Spelling) (key : Bytes) (before after : List Char) : Bytes :=
  utf8 (String.ofList (before ++ spelling.chars key ++ after))

lemma spelling_graphic (spelling : Spelling) {c : Char} (h : c ∈ spelling.chars key) : Graphic c := by
  cases spelling with
  | hex upper => exact hexChars_graphic h
  | base64 => exact base64Chars_graphic h

lemma hexDigit_isAsciiHexdigit : ∀ upper, ∀ n < 16, isAsciiHexdigit (hexDigit upper n) = true := by decide

lemma parseKey_spelled (hc : codecs.Documented) (spelling : Spelling) (key : Bytes)
    (hb : ∀ c ∈ before, isWhitespace c = true) (ha : ∀ c ∈ after, isWhitespace c = true) :
    parseKey codecs (spelled spelling key before after) spelling.format = .ok key := by
  have htext := fromUtf8_utf8 (String.ofList (before ++ spelling.chars key ++ after))
  have htrim := trim_surrounded hb (fun c (h : c ∈ spelling.chars key) => spelling_graphic spelling h) ha
  cases spelling with
  | hex upper => exact parseKey_hex.mpr ⟨_, htext, by rw [htrim]; exact hc.hexInverts upper key⟩
  | base64 => exact parseKey_base64.mpr ⟨_, htext, by rw [htrim]; exact hc.base64Inverts key⟩

lemma utf8ByteSize_spelling (spelling : Spelling) (key : Bytes) :
    (String.ofList (spelling.chars key)).utf8ByteSize = spelling.format.textLength key.length := by
  rw [utf8ByteSize_ofList fun c h => spelling_graphic spelling h]
  cases spelling with
  | hex upper => exact hexChars_length upper key
  | base64 => exact base64Chars_length key

lemma detectFormat_spelled (hc : codecs.Documented) (spelling : Spelling) {key : Bytes} (hk : key.length % 3 ≠ 0)
    (hb : ∀ c ∈ before, isWhitespace c = true) (ha : ∀ c ∈ after, isWhitespace c = true) :
    detectFormat codecs (spelled spelling key before after) = spelling.format := by
  have htrim := trim_surrounded hb (fun c (h : c ∈ spelling.chars key) => spelling_graphic spelling h) ha
  have hsize := utf8ByteSize_spelling spelling key
  have hne : 0 < key.length := Nat.pos_of_ne_zero fun h => hk (by rw [h])
  have hempty : (String.ofList (spelling.chars key)).isEmpty = false := by
    rw [String.isEmpty_eq_utf8ByteSize_beq_zero, beq_eq_false_iff_ne, hsize]
    cases spelling <;> simp only [Spelling.format, KeyFormat.textLength] <;> omega
  rw [detectFormat, spelled, fromUtf8_utf8]
  simp only [htrim, hempty, Bool.not_false, Bool.true_and]
  cases spelling with
  | hex upper =>
    have heven : ((String.ofList ((Spelling.hex upper).chars key)).utf8ByteSize % 2 == 0) = true := by
      rw [hsize]
      exact beq_iff_eq.mpr (Nat.mul_mod_right _ _)
    have hall : (String.ofList ((Spelling.hex upper).chars key)).toList.all isAsciiHexdigit = true := by
      rw [String.toList_ofList, List.all_eq_true]
      intro c hmem
      obtain ⟨n, hn, rfl⟩ := mem_hexChars hmem
      exact hexDigit_isAsciiHexdigit upper n hn
    rw [heven, hall]
    rfl
  | base64 =>
    -- The padding of the last group is no hex digit.
    have hall : (String.ofList (Spelling.base64.chars key)).toList.all isAsciiHexdigit = false := by
      rw [String.toList_ofList, List.all_eq_false]
      exact ⟨'=', pad_mem_base64Chars hk, by decide⟩
    have hdecode : codecs.base64Decode (String.ofList (Spelling.base64.chars key)) = .ok key := hc.base64Inverts key
    rw [hall, Bool.and_false, hdecode]
    rfl

end Detection

section Sample

def sampleCodecs : Codecs where
  hexDecode text := (hexBytes text.toList).elim (.error "Odd number of digits") .ok
  base64Decode text := (base64Bytes text.toList).elim (.error "Invalid padding") .ok

lemma elim_eq_ok {α : Type} {x : Option α} {e : String} {a : α} :
    x.elim (.error e) .ok = (.ok a : Except String α) ↔ x = some a := by
  cases x with
  | none => simp
  | some b => simp

lemma sampleCodecs_documented : sampleCodecs.Documented where
  hexInverts upper key := by simp only [sampleCodecs, String.toList_ofList, hexBytes_hexChars, Option.elim_some]
  base64Inverts key := by simp only [sampleCodecs, String.toList_ofList, base64Bytes_base64Chars, Option.elim_some]
  hexLength text key h := by
    obtain ⟨hl, hg⟩ := hexBytes_some (elim_eq_ok.mp h)
    rw [← hl, ← utf8ByteSize_ofList hg, String.ofList_toList]
  base64Length text key h := by
    obtain ⟨hl, hg⟩ := base64Bytes_some (elim_eq_ok.mp h)
    rw [← hl, ← utf8ByteSize_ofList hg, String.ofList_toList]

end Sample

end NocapCrypt.KeyMgmt
