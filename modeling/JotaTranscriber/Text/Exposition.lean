import JotaTranscriber.Text.Lines

/-! # The text format of metrics

A line is a comment, or the name of a metric and its value with a space
between them. Names and values that hold no separator are read back from the
text they are written in.
-/

namespace JotaTranscriber.Exposition

/-- A line of a text of metrics. -/
inductive Entry where
  | comment (text : List UInt8)
  | sample (name value : List UInt8)

namespace Entry

/-- A comment starts with a number sign. -/
def render : Entry → List UInt8
  | comment text => 35 :: text
  | sample name value => name ++ 32 :: value

def value? : Entry → Option (List UInt8 × List UInt8)
  | comment _ => none
  | sample name value => some (name, value)

/-- The entry stays on its line, and is what it looks like. -/
def Plain : Entry → Prop
  | comment text => 10 ∉ text
  | sample name value => name.head? ≠ some 35 ∧ 32 ∉ name ∧ 10 ∉ name ∧ 10 ∉ value

end Entry

def render (entries : List Entry) : List UInt8 := Lines.unlines 10 (entries.map Entry.render)

theorem render_append (l r : List Entry) : render (l ++ r) = render l ++ render r := by
  simp [render, Lines.unlines]

/-- The sample on a line, if there is one. -/
def readLine (line : List UInt8) : Option (List UInt8 × List UInt8) :=
  if line.head? = some 35 ∨ 32 ∉ line then none
  else some (line.takeWhile (· ≠ 32), (line.dropWhile (· ≠ 32)).drop 1)

/-- The samples of a text. -/
def scrape (text : List UInt8) : List (List UInt8 × List UInt8) :=
  (Lines.getlines 10 text).filterMap readLine

variable {e : Entry} {entries : List Entry}

theorem readLine_render (h : e.Plain) : readLine e.render = e.value? := by
  cases e with
  | comment text => rfl
  | sample name value =>
    obtain ⟨hhead, hspace, -, -⟩ := h
    obtain ⟨hname, hvalue⟩ := Lines.cut_at hspace value
    have hsample : ¬ ((name ++ 32 :: value).head? = some 35 ∨ 32 ∉ name ++ 32 :: value) := by
      rintro (hcomment | hnot)
      · cases name with
        | nil => cases hcomment
        | cons c name => exact hhead hcomment
      · simp at hnot
    rw [Entry.render, readLine, if_neg hsample, hname, hvalue]
    rfl

theorem newline_notMem_render (h : e.Plain) : 10 ∉ e.render := by
  cases e with
  | comment text =>
    have htext : 10 ∉ text := h
    simp [Entry.render, htext]
  | sample name value =>
    obtain ⟨-, -, hname, hvalue⟩ := h
    simp [Entry.render, hname, hvalue]

/-- What was written is read back. -/
theorem scrape_render (h : ∀ e ∈ entries, e.Plain) :
    scrape (render entries) = entries.filterMap Entry.value? := by
  have hlines : ∀ l ∈ entries.map Entry.render, 10 ∉ l := by
    intro l hl
    obtain ⟨e, he, rfl⟩ := List.mem_map.mp hl
    exact newline_notMem_render (h e he)
  have hread : Lines.getlines 10 (render entries) = _ := Lines.getlines_unlines hlines
  rw [scrape, hread, List.filterMap_map]
  exact List.filterMap_congr fun e he => readLine_render (h e he)

end JotaTranscriber.Exposition
