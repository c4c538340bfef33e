import Mathlib.Data.List.Range
import Mathlib.Tactic.Ring

/-! # Words in memory

A vector of words of one width lies in memory as the bytes of one word after
the other, and bytes copied over it become its words. A copy is defined only
within the two objects it goes between.
-/

namespace JotaTranscriber.Memory

/-- The destination after `count` bytes of the source were copied over its first ones, byte by
byte; none if one of them would be past the end of either. -/
def memcpy : (dest src : List UInt8) → (count : ℕ) → Option (List UInt8)
  | dest, _, 0 => some dest
  | _ :: dest, byte :: src, count + 1 => (memcpy dest src count).map (byte :: ·)
  | _, _, _ + 1 => none

theorem memcpy_eq_some {dest src out : List UInt8} {count : ℕ} :
    memcpy dest src count = some out ↔
      count ≤ dest.length ∧ count ≤ src.length ∧ out = src.take count ++ dest.drop count := by
  induction count generalizing dest src out with
  | zero => simp [memcpy, eq_comm]
  | succ count ih =>
    match dest, src with
    | [], _ => simp [memcpy]
    | _ :: _, [] => simp [memcpy]
    | _ :: dest, byte :: src =>
      rw [memcpy, Option.map_eq_some_iff]
      constructor
      · rintro ⟨rest, hrest, rfl⟩
        obtain ⟨hdest, hsrc, rfl⟩ := ih.mp hrest
        exact ⟨Nat.succ_le_succ hdest, Nat.succ_le_succ hsrc, rfl⟩
      · rintro ⟨hdest, hsrc, rfl⟩
        exact ⟨_, ih.mpr ⟨Nat.le_of_succ_le_succ hdest, Nat.le_of_succ_le_succ hsrc, rfl⟩, rfl⟩

/-- How words of a type lie in memory. -/
structure WordFormat (α : Type*) where
  width : ℕ
  encode : α → List UInt8
  decode : List UInt8 → α
  width_pos : 0 < width
  length_encode (a : α) : (encode a).length = width
  decode_encode (a : α) : decode (encode a) = a

namespace WordFormat

variable {α : Type*} (F : WordFormat α)

/-- The bytes of a vector. -/
def store (words : List α) : List UInt8 := words.flatMap F.encode

/-- The words whose bytes are all there. -/
def load (bytes : List UInt8) : List α :=
  (List.range (bytes.length / F.width)).map fun i =>
    F.decode ((bytes.drop (F.width * i)).take F.width)

variable {bytes rest : List UInt8} {words : List α} {i : ℕ}

@[simp] theorem length_store : (F.store words).length = F.width * words.length := by
  induction words with
  | nil => rfl
  | cons a words ih =>
    rw [store, List.flatMap_cons, List.length_append, F.length_encode, ← store, ih,
      List.length_cons]
    ring

@[simp] theorem length_load : (F.load bytes).length = bytes.length / F.width := by
  simp [load]

theorem getElem?_load (h : i < bytes.length / F.width) :
    (F.load bytes)[i]? = some (F.decode ((bytes.drop (F.width * i)).take F.width)) := by
  rw [load, List.getElem?_map, List.getElem?_range h, Option.map_some]

theorem load_append (h : bytes.length = F.width) :
    F.load (bytes ++ rest) = F.decode bytes :: F.load rest := by
  have hcount : (bytes ++ rest).length / F.width = rest.length / F.width + 1 := by
    rw [List.length_append, h, Nat.add_div_left _ F.width_pos]
  rw [load, hcount, List.range_succ_eq_map, List.map_cons, List.map_map, load]
  congr 1
  · simp [← h]
  · apply List.map_congr_left
    intro i _
    have hnext : F.width * (i + 1) = bytes.length + F.width * i := by
      rw [h]
      ring
    change F.decode (((bytes ++ rest).drop (F.width * (i + 1))).take F.width) = _
    rw [hnext, List.drop_length_add_append]

/-- What was stored is loaded again. -/
theorem load_store : F.load (F.store words) = words := by
  induction words with
  | nil => simp [store, load]
  | cons a words ih =>
    rw [store, List.flatMap_cons, F.load_append (F.length_encode a), F.decode_encode, ← store, ih]

end WordFormat

end JotaTranscriber.Memory
