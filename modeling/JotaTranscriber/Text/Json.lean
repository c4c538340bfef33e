import Mathlib.Data.Rat.Init
import Mathlib.Data.String.Basic

/-! # Strings, JSON values and exceptions

A `std::string` is a list of bytes, so that text which is not UTF-8 can be
stated. JSON values are those of the library the server parses with: reading
a member at a type it does not have throws, and the exceptions are told apart
by type because each handler catches its own.
-/

namespace JotaTranscriber

/-- A `std::string`. -/
abbrev Bytes := List UInt8

/-- The bytes of a string literal. -/
def lit (s : String) : Bytes := s.toUTF8.data.toList

/-- Whether a string is UTF-8, which `dump` insists on. -/
def isUtf8 (s : Bytes) : Bool := ByteArray.validateUTF8 ⟨s.toArray⟩

section Utf8

variable {b : Bytes}

theorem isUtf8_iff : isUtf8 b = true ↔ ByteArray.IsValidUTF8 ⟨b.toArray⟩ :=
  ByteArray.validateUTF8_eq_true_iff

theorem isValidUTF8_utf8Encode_append_iff {l : List Char} {a : ByteArray} :
    ByteArray.IsValidUTF8 (l.utf8Encode ++ a) ↔ ByteArray.IsValidUTF8 a := by
  induction l with
  | nil => simp
  | cons c l ih =>
    rw [List.utf8Encode_cons, ByteArray.append_assoc,
      ByteArray.isValidUTF8_utf8Encode_singleton_append_iff, ih]

/-- A literal in front of a text spoils nothing and repairs nothing. -/
theorem isUtf8_lit_append (s : String) (b : Bytes) : isUtf8 (lit s ++ b) = isUtf8 b := by
  have hbytes : (⟨(lit s ++ b).toArray⟩ : ByteArray) = s.toList.utf8Encode ++ ⟨b.toArray⟩ := by
    ext1
    simp [lit]
  rw [Bool.eq_iff_iff, isUtf8_iff, isUtf8_iff, hbytes, isValidUTF8_utf8Encode_append_iff]

theorem isUtf8_lit (s : String) : isUtf8 (lit s) = true := by
  have h := isUtf8_lit_append s []
  rw [List.append_nil] at h
  rw [h]
  rfl

end Utf8

/-- The exceptions thrown under `StreamingSession::run`, with their `what()`. -/
inductive Exn where
  | parseError (what : Bytes)
  | outOfRange (what : Bytes)
  | typeError (what : Bytes)
  | runtimeError (what : Bytes)
  deriving DecidableEq, Repr

def Exn.what : Exn → Bytes
  | .parseError w | .outOfRange w | .typeError w | .runtimeError w => w

inductive Json where
  | null
  | boolean (b : Bool)
  | number (q : ℚ)
  | string (s : Bytes)
  | array (elements : List Json)
  | object (members : List (Bytes × Json))

namespace Json

def typeName : Json → Bytes
  | null => lit "null"
  | boolean _ => lit "boolean"
  | number _ => lit "number"
  | string _ => lit "string"
  | array _ => lit "array"
  | object _ => lit "object"

/-- The member of an object under a key; nothing for other values. -/
def find? : Json → Bytes → Option Json
  | object members, key => (members.find? fun m => m.1 = key).map Prod.snd
  | _, _ => none

/-- Conversion to `std::string`. -/
def getString : Json → Except Exn Bytes
  | string s => .ok s
  | j => .error (.typeError
      (lit "[json.exception.type_error.302] type must be string, but is " ++ j.typeName))

/-- `value(key, default)` at type `bool`. -/
def valueBool (j : Json) (key : Bytes) (default : Bool) : Except Exn Bool :=
  match j with
  | object _ =>
    match j.find? key with
    | none => .ok default
    | some (boolean b) => .ok b
    | some v => .error (.typeError
        (lit "[json.exception.type_error.302] type must be boolean, but is " ++ v.typeName))
  | _ => .error (.typeError
      (lit "[json.exception.type_error.306] cannot use value() with " ++ j.typeName))

theorem getString_eq_ok {j : Json} {s : Bytes} : j.getString = .ok s ↔ j = string s := by
  cases j <;> simp [getString]

/-- `value` answers true only for an object whose member is the boolean true. -/
theorem valueBool_false_eq_true {j : Json} {key : Bytes} :
    j.valueBool key false = .ok true ↔ j.find? key = some (boolean true) := by
  cases j with
  | object members =>
    simp only [valueBool]
    split <;> simp_all
  | _ => simp [valueBool, find?]

end Json

end JotaTranscriber
