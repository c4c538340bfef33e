import Mathlib.Algebra.Order.Field.Rat
import Mathlib.Algebra.Order.Group.Unbundled.Abs

/-! # The audio preprocessor

A first-order high-pass filter followed by a gain on the chunk, in exact
arithmetic. The filter state is carried from chunk to chunk; the gain is not.
-/

namespace JotaTranscriber.AudioPreprocessor

def alpha : ℚ := 969 / 1000

/-- The loop of `process`: the filtered samples, the filter state and the peak. -/
def filterLoop (prevRaw prevFiltered peak : ℚ) : List ℚ → List ℚ × ℚ × ℚ × ℚ
  | [] => ([], prevRaw, prevFiltered, peak)
  | raw :: pcm =>
    let filtered := alpha * (prevFiltered + raw - prevRaw)
    let rest := filterLoop raw filtered (max peak |filtered|) pcm
    (filtered :: rest.1, rest.2)

/-- The chunk that leaves the preprocessor, with the filter state after it. -/
def process (pcm : List ℚ) (prevRaw prevFiltered : ℚ) : List ℚ × ℚ × ℚ :=
  let (filtered, prevRaw, prevFiltered, peak) := filterLoop prevRaw prevFiltered 0 pcm
  if 2 / 100 < peak ∧ peak < 9 / 10 then
    let gain := min (9 / 10 / peak) 4
    (filtered.map (· * gain), prevRaw, prevFiltered)
  else (filtered, prevRaw, prevFiltered)

@[simp] theorem length_filterLoop (prevRaw prevFiltered peak : ℚ) (pcm : List ℚ) :
    (filterLoop prevRaw prevFiltered peak pcm).1.length = pcm.length := by
  induction pcm generalizing prevRaw prevFiltered peak with
  | nil => rfl
  | cons raw pcm ih => simp [filterLoop, ih]

/-- The preprocessor neither adds nor removes samples. -/
@[simp] theorem length_process (pcm : List ℚ) (prevRaw prevFiltered : ℚ) :
    (process pcm prevRaw prevFiltered).1.length = pcm.length := by
  simp only [process]
  split <;> simp

end JotaTranscriber.AudioPreprocessor
