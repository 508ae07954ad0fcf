import NocapCrypt.Core.Engine
import NocapCrypt.Library.TextEncodings

/-! How a key is shown: `crates/nocap-crypt-keymgmt/src/represent.rs`. -/

namespace NocapCrypt.KeyMgmt

open NocapCrypt.Library.Image NocapCrypt.Library.TextEncodings NocapCrypt.Core

/-- `slice::chunks`. -/
def chunks (n : ℕ) (key : Bytes) : List Bytes :=
  (List.range (divCeil key.length n)).map fun i => window key (i * n) n

def hexEncode (bytes : Bytes) : String := String.ofList (hexChars false bytes)

def hexGrouped (key : Bytes) : String := " ".intercalate ((chunks 4 key).map hexEncode)

def fingerprint (P : Primitives) (key : Bytes) : String :=
  let digest := P.sha256 key
  hexEncode (digest.toList.take 4)

def redacted (P : Primitives) (key : Bytes) : String := s!"<{key.length} bytes, fingerprint {fingerprint P key}>"

example : hexGrouped [0x00, 0x11, 0x22, 0x33, 0x44, 0x55] = "00112233 4455" := by decide

section Groups

lemma chunks_flatten {n : ℕ} (hn : 0 < n) (key : Bytes) : (chunks n key).flatten = key := by
  rw [chunks, flatten_windows, List.take_of_length_le (le_divCeil_mul key.length hn)]

lemma hexChars_append (upper : Bool) (a b : Bytes) :
    hexChars upper (a ++ b) = hexChars upper a ++ hexChars upper b := by
  induction a with
  | nil => rfl
  | cons x a ih => rw [List.cons_append, hexChars, hexChars, ih, List.cons_append, List.cons_append]

lemma filter_hexChars (upper : Bool) (bytes : Bytes) :
    (hexChars upper bytes).filter (· ≠ ' ') = hexChars upper bytes := by
  rw [List.filter_eq_self]
  intro c hc
  have hgraphic := hexChars_graphic hc
  apply decide_eq_true
  rintro rfl
  exact absurd hgraphic.1 (by decide)

lemma filter_intercalate (groups : List Bytes) :
    ([' '].intercalate (groups.map fun group => hexChars false group)).filter (· ≠ ' ') =
      hexChars false groups.flatten := by
  induction groups with
  | nil => rfl
  | cons group groups ih =>
    cases groups with
    | nil =>
      rw [List.map_singleton, List.intercalate_singleton, filter_hexChars, List.flatten_singleton]
    | cons next groups =>
      have hspace : [' '].filter (· ≠ ' ') = [] := rfl
      rw [List.map_cons, List.map_cons, List.intercalate_cons_cons, ← List.map_cons, List.filter_append,
        List.filter_append, ih, filter_hexChars, hspace, List.append_nil, ← hexChars_append, ← List.flatten_cons]

lemma hexBytes_hexGrouped (key : Bytes) : hexBytes ((hexGrouped key).toList.filter (· ≠ ' ')) = some key := by
  have hchars : (hexGrouped key).toList = [' '].intercalate ((chunks 4 key).map fun group => hexChars false group) := by
    rw [hexGrouped, String.toList_intercalate, List.map_map]
    congr 1
    apply List.map_congr_left
    intro group _
    rw [Function.comp_apply, hexEncode, String.toList_ofList]
  rw [hchars, filter_intercalate, chunks_flatten (by decide), hexBytes_hexChars]

end Groups

end NocapCrypt.KeyMgmt
