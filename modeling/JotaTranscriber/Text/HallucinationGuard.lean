import JotaTranscriber.Text.Json

/-! # The hallucination guard

One pass over the words of a text, with the previous word, the length of the
run of equal words it ends and a table of how often each bigram was seen. The
pass stops at the fourth equal word in a row and at the fourth occurrence of a
bigram; a text of more than 500 bytes is rejected unread.
-/

namespace JotaTranscriber

/-- `std::isspace` in the classic locale. -/
def isSpace (c : UInt8) : Bool := c = 32 || (9 ≤ c && c ≤ 13)

/-- What the extractions `ss >> cur` yield one after the other: the maximal runs of bytes that
are not white space. -/
def words (text : Bytes) : List Bytes := (text.splitOnP isSpace).filter fun w => !w.isEmpty

/-- The loop over the words, from the previous word, its run and the bigram table. -/
def hallucinationLoop (prev : Bytes) (consec : ℕ) (bigrams : Bytes → ℕ) : List Bytes → Bool
  | [] => false
  | cur :: rest =>
    let consec := if cur = prev then consec + 1 else 1
    if cur = prev ∧ 4 ≤ consec then true
    else if prev = [] then hallucinationLoop cur consec bigrams rest
    else
      let key := prev ++ 32 :: cur
      let seen := bigrams key + 1
      if 4 ≤ seen then true
      else hallucinationLoop cur consec (Function.update bigrams key seen) rest

def isHallucination (text : Bytes) : Bool :=
  if 500 < text.length then true else hallucinationLoop [] 0 (fun _ => 0) (words text)

example : isHallucination (lit "hola hola hola hola") = true := by decide
example : isHallucination (lit "la verdad la verdad la verdad") = false := by decide

end JotaTranscriber
