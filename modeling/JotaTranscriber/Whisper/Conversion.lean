import Mathlib.Data.Rat.Lemmas
import Mathlib.Tactic.Linarith
import JotaTranscriber.Memory.Words
import JotaTranscriber.Text.Json

/-! # From PCM bytes to samples

The 16-bit samples of a byte vector are copied into a vector made for the whole
ones among them, and scaled into [-1, 1). The copy takes all the bytes, so it
leaves its destination when the last byte belongs to no sample.
-/

namespace JotaTranscriber

open Memory

namespace StreamingWhisperEngine

/-- An `int16_t` in the memory of a little-endian machine. -/
def int16 : WordFormat Int16 where
  width := 2
  encode x := [x.toUInt16.toUInt8, (x.toUInt16 >>> 8).toUInt8]
  decode
    | [lo, hi] => Int16.ofNat (lo.toNat + 256 * hi.toNat)
    | _ => 0
  width_pos := by decide
  length_encode _ := rfl
  decode_encode x := by
    have hvalue : x.toUInt16.toUInt8.toNat + 256 * (x.toUInt16 >>> 8).toUInt8.toNat =
        x.toUInt16.toNat := by
      have := x.toUInt16.toNat_lt
      simp
      omega
    change Int16.ofNat (_ + 256 * _) = x
    rw [hvalue]
    exact congrArg UInt16.toInt16 UInt16.ofNat_toNat

def convertInt16ToFloat32 (pcm16 : List Int16) : List ℚ :=
  pcm16.map fun x => (x.toInt : ℚ) / 32768

/-- None if the copy runs past the end of the vector it fills. -/
def convertBytesToFloat32 (bytes : Bytes) : Option (List ℚ) := do
  let pcm16 := int16.store (List.replicate (bytes.length / 2) 0)
  let pcm16 ← memcpy pcm16 bytes bytes.length
  return convertInt16ToFloat32 (int16.load pcm16)

variable {bytes : Bytes} {pcm16 : List Int16} {samples : List ℚ}

theorem convertInt16ToFloat32_range : ∀ x ∈ convertInt16ToFloat32 pcm16, -1 ≤ x ∧ x < 1 := by
  intro x hx
  obtain ⟨v, -, rfl⟩ := List.mem_map.mp hx
  have hlow : (-32768 : ℚ) ≤ v.toInt := by exact_mod_cast v.le_toInt
  have hhigh : (v.toInt : ℚ) < 32768 := by exact_mod_cast v.toInt_lt
  constructor <;> linarith

theorem convertInt16ToFloat32_mul :
    (convertInt16ToFloat32 pcm16).map (· * 32768) = pcm16.map fun x => (x.toInt : ℚ) := by
  rw [convertInt16ToFloat32, List.map_map]
  apply List.map_congr_left
  intro x _
  simp only [Function.comp]
  ring

/-- The copy fits exactly if every byte belongs to a sample; then the samples are those of the
bytes. -/
theorem convertBytesToFloat32_eq_some : convertBytesToFloat32 bytes = some samples ↔
    bytes.length % 2 = 0 ∧ samples = convertInt16ToFloat32 (int16.load bytes) := by
  have hsize : (int16.store (List.replicate (bytes.length / 2) 0)).length =
      2 * (bytes.length / 2) := by
    rw [WordFormat.length_store, List.length_replicate]
    rfl
  rw [convertBytesToFloat32, Option.bind_eq_bind, Option.bind_eq_some_iff]
  simp only [memcpy_eq_some, hsize, List.take_length]
  constructor
  · rintro ⟨copied, ⟨hfits, -, rfl⟩, hsamples⟩
    rw [List.drop_eq_nil_of_le (hsize.trans_le (by omega)), List.append_nil] at hsamples
    exact ⟨by omega, (Option.some.inj hsamples).symm⟩
  · rintro ⟨heven, rfl⟩
    refine ⟨bytes, ⟨by omega, le_rfl, ?_⟩, rfl⟩
    rw [List.drop_eq_nil_of_le (hsize.trans_le (by omega)), List.append_nil]

/-- The word made of two bytes, as a number. -/
theorem getElem?_load_int16 {i : ℕ} {lo hi : UInt8} (hlo : bytes[2 * i]? = some lo)
    (hhi : bytes[2 * i + 1]? = some hi) :
    (int16.load bytes)[i]? = some (Int16.ofNat (lo.toNat + 256 * hi.toNat)) := by
  obtain ⟨hlt, rfl⟩ := List.getElem?_eq_some_iff.mp hlo
  obtain ⟨hlt', rfl⟩ := List.getElem?_eq_some_iff.mp hhi
  rw [int16.getElem?_load (show i < bytes.length / 2 by omega)]
  change some (int16.decode ((bytes.drop (2 * i)).take 2)) = _
  rw [List.drop_eq_getElem_cons hlt, List.drop_eq_getElem_cons hlt']
  rfl

/-- A byte vector is converted as it should be, with no byte copied past the end of the vector of
its samples, if and only if its length is even; and samples written as bytes are always read back
as they were. -/
theorem convertBytesToFloat32_iff (bytes : Bytes) :
    ((∃ samples, convertBytesToFloat32 bytes = some samples ∧
        samples.length = bytes.length / 2 ∧
        (∀ i lo hi, bytes[2 * i]? = some lo → bytes[2 * i + 1]? = some hi →
          samples[i]? = some ((((lo.toNat + 256 * hi.toNat : ℤ).bmod 65536 : ℤ) : ℚ) / 32768)) ∧
        ∀ x ∈ samples, -1 ≤ x ∧ x < 1) ↔ bytes.length % 2 = 0) ∧
      ∀ pcm16 : List Int16, ∃ samples, convertBytesToFloat32 (int16.store pcm16) = some samples ∧
        samples.map (· * 32768) = pcm16.map fun x => (x.toInt : ℚ) := by
  simp only [convertBytesToFloat32_eq_some]
  constructor
  · constructor
    · rintro ⟨samples, ⟨heven, -⟩, -⟩
      exact heven
    · intro heven
      refine ⟨_, ⟨heven, rfl⟩, ?_, ?_, convertInt16ToFloat32_range⟩
      · rw [convertInt16ToFloat32, List.length_map, WordFormat.length_load]
        rfl
      · intro i lo hi hlo hhi
        rw [convertInt16ToFloat32, List.getElem?_map, getElem?_load_int16 hlo hhi, Option.map_some,
          Int16.toInt_ofNat', Int16.size]
        push_cast
        rfl
  · intro pcm16
    refine ⟨convertInt16ToFloat32 pcm16, ?_, convertInt16ToFloat32_mul⟩
    rw [WordFormat.load_store, WordFormat.length_store]
    exact ⟨Nat.mul_mod_right 2 _, rfl⟩

end StreamingWhisperEngine

namespace Demo

/-- One byte is copied into a vector of no samples. -/
theorem convertBytesToFloat32_of_one_byte :
    ¬ ∀ bytes : Bytes, ∃ samples,
        StreamingWhisperEngine.convertBytesToFloat32 bytes = some samples ∧
          samples.length = bytes.length / 2 := by
  intro hall
  obtain ⟨samples, hcopied, -⟩ := hall [7]
  have hoverrun : StreamingWhisperEngine.convertBytesToFloat32 [7] = none := by decide
  rw [hoverrun] at hcopied
  cases hcopied

end Demo

end JotaTranscriber
