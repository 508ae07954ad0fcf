import NocapCrypt.Machine

/-! Key material formats: `crates/nocap-crypt-keymgmt/src/format.rs`. -/

namespace NocapCrypt.KeyMgmt

inductive KeyFormat where
  | raw
  | hex
  | base64
  deriving DecidableEq, Repr

def KeyFormat.debug : KeyFormat → String
  | .raw => "Raw"
  | .hex => "Hex"
  | .base64 => "Base64"

/-- The decoders of the `hex` and `base64` crates, with the texts of their errors. -/
structure Codecs where
  hexDecode : String → Except String Bytes
  base64Decode : String → Except String Bytes

inductive KeyParseError where
  | notUtf8 (format : KeyFormat)
  | invalidHex (reason : String)
  | invalidBase64 (reason : String)
  deriving DecidableEq, Repr

def KeyParseError.text : KeyParseError → String
  | .notUtf8 format => s!"key material is not valid UTF-8 text, required to decode as {format.debug}"
  | .invalidHex reason => s!"invalid hex key material: {reason}"
  | .invalidBase64 reason => s!"invalid base64 key material: {reason}"

/-- `char::is_whitespace`: the Unicode property White_Space. -/
def isWhitespace (c : Char) : Bool :=
  let n := c.toNat
  (0x9 ≤ n && n ≤ 0xD) || n == 0x20 || n == 0x85 || n == 0xA0 || n == 0x1680 || (0x2000 ≤ n && n ≤ 0x200A) ||
    n == 0x2028 || n == 0x2029 || n == 0x202F || n == 0x205F || n == 0x3000

def trim (text : String) : String :=
  String.ofList ((text.toList.dropWhile isWhitespace).rdropWhile isWhitespace)

def isAsciiHexdigit (c : Char) : Bool :=
  ('0' ≤ c && c ≤ '9') || ('a' ≤ c && c ≤ 'f') || ('A' ≤ c && c ≤ 'F')

def fromUtf8 (data : Bytes) : Option String := String.fromUTF8? ⟨data.toArray⟩

variable (codecs : Codecs)

def parseKey (data : Bytes) (format : KeyFormat) : Except KeyParseError Bytes :=
  match format with
  | .raw => .ok data
  | .hex => do
    let text ← (fromUtf8 data).elim (.error (.notUtf8 format)) .ok
    (codecs.hexDecode (trim text)).mapError .invalidHex
  | .base64 => do
    let text ← (fromUtf8 data).elim (.error (.notUtf8 format)) .ok
    (codecs.base64Decode (trim text)).mapError .invalidBase64

def detectFormat (data : Bytes) : KeyFormat :=
  match fromUtf8 data with
  | none => .raw
  | some text =>
    let trimmed := trim text
    if !trimmed.isEmpty && trimmed.utf8ByteSize % 2 == 0 && trimmed.toList.all isAsciiHexdigit then .hex
    else if !trimmed.isEmpty && (codecs.base64Decode trimmed).isOk then .base64
    else .raw

end NocapCrypt.KeyMgmt
