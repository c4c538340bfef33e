import Mathlib.Data.List.TakeWhile
import Mathlib.Logic.Function.Basic
import JotaTranscriber.Text.Json
import JotaTranscriber.Text.Lines

/-! # The file of defaults

Before anything else the server reads a file of assignments into its
environment. A variable that is set keeps its value, and of the lines that
assign to one that is not, the first counts. A file in which every value is
quoted gives back what was written, whatever the values hold.
-/

namespace JotaTranscriber

/-- What `getenv` answers. -/
abbrev Environment := Bytes → Option Bytes

/-- What a function of C sees of a string. -/
def cStr (s : Bytes) : Bytes := s.takeWhile (· ≠ 0)

/-- `setenv`, told not to overwrite. It refuses a name that is empty or has an equals sign. -/
def setenv (environ : Environment) (name value : Bytes) : Environment :=
  if name = [] ∨ 61 ∈ name ∨ environ name ≠ none then environ
  else Function.update environ name (some value)

/-- A value between two quotes of one kind is what stands between them. -/
def unquote (value : Bytes) : Bytes :=
  match value.head?, value.getLast? with
  | some q, some q' =>
    if 2 ≤ value.length ∧ (q = 34 ∨ q = 39) ∧ q' = q then (value.drop 1).take (value.length - 2)
    else value
  | _, _ => value

/-- The key and the value of a line, unless it is empty, a comment or no assignment. -/
def assignment (line : Bytes) : Option (Bytes × Bytes) :=
  let line := if line.getLast? = some 13 then line.dropLast else line
  if line = [] ∨ line.head? = some 35 ∨ 61 ∉ line then none
  else some (line.takeWhile (· ≠ 61), unquote ((line.dropWhile (· ≠ 61)).drop 1))

/-- One turn of the loop over the lines. -/
def loadLine (environ : Environment) (line : Bytes) : Environment :=
  match assignment line with
  | some (key, value) =>
    if key ≠ [] ∧ environ (cStr key) = none then setenv environ (cStr key) (cStr value)
    else environ
  | none => environ

/-- Nothing is read from a file that cannot be opened. -/
def loadDotEnv (file : Option Bytes) (environ : Environment) : Environment :=
  match file with
  | none => environ
  | some content => (Lines.getlines 10 content).foldl loadLine environ

/-! ## What is loaded -/

/-- The value that a line assigns to a variable. -/
def lineValue (var line : Bytes) : Option Bytes :=
  match assignment line with
  | some (key, value) => if cStr key = var then some (cStr value) else none
  | none => none

/-- The value that the first line of a file to do so assigns to a variable. A variable has a
name. -/
def fileValue (file : Option Bytes) (var : Bytes) : Option Bytes :=
  match file with
  | none => none
  | some content =>
    if var = [] then none else (Lines.getlines 10 content).findSome? (lineValue var)

variable {environ : Environment} {text key value var : Bytes}

theorem notMem_key (h : assignment text = some (key, value)) : 61 ∉ key := by
  simp only [assignment] at h
  generalize (if text.getLast? = some 13 then text.dropLast else text) = trimmed at h
  split at h
  · cases h
  · obtain ⟨rfl, -⟩ := Prod.mk.inj (Option.some.inj h)
    intro hmem
    simpa using List.mem_takeWhile_imp hmem

/-- A line gives its value to a variable that has none. -/
theorem loadLine_apply (hvar : var ≠ []) :
    loadLine environ text var = (environ var).or (lineValue var text) := by
  unfold loadLine lineValue
  cases h : assignment text with
  | none => simp
  | some p =>
    obtain ⟨key, value⟩ := p
    have heq : 61 ∉ cStr key := fun hmem =>
      notMem_key h (List.takeWhile_subset _ hmem)
    by_cases hkey : cStr key = var
    · subst hkey
      have hne : key ≠ [] := by
        rintro rfl
        exact hvar rfl
      cases hold : environ (cStr key) with
      | none => simp [hne, hold, setenv, hvar, heq]
      | some old => simp [hold]
    · simp only [hkey, if_false, Option.or_none]
      split
      · unfold setenv
        split
        · rfl
        · rw [Function.update_of_ne (Ne.symm hkey)]
      · rfl

/-- No line sets a variable without a name. -/
theorem loadLine_nil : loadLine environ text [] = environ [] := by
  unfold loadLine
  cases assignment text with
  | none => rfl
  | some p =>
    dsimp only
    split
    · unfold setenv
      split
      · rfl
      · rename_i h
        rw [Function.update_of_ne]
        exact fun heq => h (.inl heq.symm)
    · rfl

theorem foldl_loadLine (ls : List Bytes) : ls.foldl loadLine environ var =
    (environ var).or (if var = [] then none else ls.findSome? (lineValue var)) := by
  induction ls generalizing environ with
  | nil => simp
  | cons text ls ih =>
    rw [List.foldl_cons, ih]
    by_cases hvar : var = []
    · subst hvar
      simp [loadLine_nil]
    · rw [loadLine_apply hvar, if_neg hvar, if_neg hvar, List.findSome?_cons, Option.or_assoc]
      cases lineValue var text <;> rfl

/-- Every variable keeps its value, or gets that of the first line that assigns to it. -/
theorem loadDotEnv_apply (file : Option Bytes) (environ : Environment) (var : Bytes) :
    loadDotEnv file environ var = (environ var).or (fileValue file var) := by
  cases file with
  | none => simp [loadDotEnv, fileValue]
  | some content => exact foldl_loadLine _

/-! ## Writing a file -/

/-- A variable with its value, as a file can hold it. -/
structure DotEnvEntry where
  key : Bytes
  value : Bytes
  key_ne_nil : key ≠ []
  key_no_comment : key.head? ≠ some 35
  key_plain : 61 ∉ key ∧ 10 ∉ key ∧ 0 ∉ key
  value_plain : 10 ∉ value ∧ 0 ∉ value

/-- The line of an entry, between quotes `q` and with a carriage return or not. -/
def DotEnvEntry.line (q : UInt8) (crlf : Bool) (e : DotEnvEntry) : Bytes :=
  e.key ++ 61 :: q :: (e.value ++ q :: if crlf then [13] else [])

def writeDotEnv (q : UInt8) (crlf : Bool) (entries : List DotEnvEntry) : Bytes :=
  Lines.unlines 10 (entries.map (DotEnvEntry.line q crlf))

variable {q : UInt8} {crlf : Bool} {e : DotEnvEntry} {entries : List DotEnvEntry}

theorem unquote_quoted (hq : q = 34 ∨ q = 39) (value : Bytes) :
    unquote (q :: (value ++ [q])) = value := by
  have hlast : (q :: (value ++ [q])).getLast? = some q := by
    rw [← List.cons_append, List.getLast?_concat]
  simp [unquote, hlast, hq]

theorem cStr_of_notMem (h : 0 ∉ value) : cStr value = value := by
  rw [cStr, List.takeWhile_eq_self_iff]
  intro c hc
  simp only [decide_eq_true_eq]
  rintro rfl
  exact h hc

/-- The line of an entry assigns its value to its variable. -/
theorem assignment_line (hq : q = 34 ∨ q = 39) (e : DotEnvEntry) :
    assignment (e.line q crlf) = some (e.key, e.value) := by
  obtain ⟨hkeys, hrest⟩ := Lines.cut_at e.key_plain.1 (q :: (e.value ++ [q]))
  -- the carriage return is taken off, and a quote is none
  have htrim : (if (e.line q crlf).getLast? = some 13 then (e.line q crlf).dropLast
      else e.line q crlf) = e.key ++ 61 :: q :: (e.value ++ [q]) := by
    cases crlf with
    | true =>
      have hline : e.line q true = (e.key ++ 61 :: q :: (e.value ++ [q])) ++ [13] := by
        simp [DotEnvEntry.line]
      rw [hline, List.getLast?_concat, if_pos rfl, List.dropLast_concat]
    | false =>
      have hline : e.line q false = (e.key ++ 61 :: q :: e.value) ++ [q] := by
        simp [DotEnvEntry.line]
      have hquote : some q ≠ some 13 := by
        rcases hq with rfl | rfl <;> decide
      rw [hline, List.getLast?_concat, if_neg hquote]
      simp
  have hhead : (e.key ++ 61 :: q :: (e.value ++ [q])).head? ≠ some 35 := by
    rw [List.head?_append_of_ne_nil _ e.key_ne_nil]
    exact e.key_no_comment
  have hassigns : ¬ (e.key ++ 61 :: q :: (e.value ++ [q]) = [] ∨
      (e.key ++ 61 :: q :: (e.value ++ [q])).head? = some 35 ∨
      61 ∉ e.key ++ 61 :: q :: (e.value ++ [q])) := by
    rintro (hnil | hcomment | hnot)
    · exact e.key_ne_nil (List.append_eq_nil_iff.mp hnil).1
    · exact hhead hcomment
    · simp at hnot
  simp only [assignment]
  rw [htrim, if_neg hassigns, hkeys, hrest, List.drop_one, List.tail_cons, unquote_quoted hq]

theorem notMem_line (hq : q = 34 ∨ q = 39) (e : DotEnvEntry) : 10 ∉ e.line q crlf := by
  have hquote : 10 ≠ q := by
    rcases hq with rfl | rfl <;> decide
  cases crlf <;> simp [DotEnvEntry.line, e.key_plain.2.1, e.value_plain.1, hquote]

theorem lineValue_line (hq : q = 34 ∨ q = 39) (e : DotEnvEntry) (var : Bytes) :
    lineValue var (e.line q crlf) = if e.key = var then some e.value else none := by
  have hkey : cStr e.key = e.key := cStr_of_notMem e.key_plain.2.2
  have hvalue : cStr e.value = e.value := cStr_of_notMem e.value_plain.2
  rw [lineValue, assignment_line hq]
  simp only [hkey, hvalue]

/-- The value that the first of some entries has for a variable. -/
def entryValue (entries : List DotEnvEntry) (var : Bytes) : Option Bytes :=
  (entries.find? fun e => e.key = var).map DotEnvEntry.value

theorem findSome?_line (hq : q = 34 ∨ q = 39) (entries : List DotEnvEntry) (var : Bytes) :
    (entries.map (DotEnvEntry.line q crlf)).findSome? (lineValue var) = entryValue entries var := by
  induction entries with
  | nil => rfl
  | cons e entries ih =>
    rw [List.map_cons, List.findSome?_cons, lineValue_line hq, entryValue, List.find?_cons]
    by_cases hkey : e.key = var
    · simp [hkey]
    · simpa [hkey, entryValue] using ih

theorem entryValue_nil (entries : List DotEnvEntry) : entryValue entries [] = none := by
  have hnone : entries.find? (fun e => e.key = []) = none := by
    rw [List.find?_eq_none]
    intro e _
    simpa using e.key_ne_nil
  rw [entryValue, hnone, Option.map_none]

theorem fileValue_writeDotEnv (hq : q = 34 ∨ q = 39) (entries : List DotEnvEntry) (var : Bytes) :
    fileValue (some (writeDotEnv q crlf entries)) var = entryValue entries var := by
  have hplain : ∀ l ∈ entries.map (DotEnvEntry.line q crlf), 10 ∉ l := by
    intro l hl
    obtain ⟨e, -, rfl⟩ := List.mem_map.mp hl
    exact notMem_line hq e
  have hread : Lines.getlines 10 (writeDotEnv q crlf entries) = _ := Lines.getlines_unlines hplain
  rw [fileValue, hread, findSome?_line hq]
  split
  · rename_i hvar
    rw [hvar, entryValue_nil]
  · rfl

/-- A file whose values are all quoted, ended in either way, gives every variable that is not set
the value it was written with. -/
theorem loadDotEnv_writeDotEnv (hq : q = 34 ∨ q = 39) (entries : List DotEnvEntry)
    (environ : Environment) (var : Bytes) :
    loadDotEnv (some (writeDotEnv q crlf entries)) environ var =
      (environ var).or (entryValue entries var) := by
  rw [loadDotEnv_apply, fileValue_writeDotEnv hq]

namespace Demo

/-- A secret with quotes, an equals sign and a carriage return at its end. -/
def secretEntry : DotEnvEntry where
  key := lit "AUTH_API_SECRET"
  value := 39 :: lit "a=b\"" ++ [13]
  key_ne_nil := by decide
  key_no_comment := by decide
  key_plain := by decide
  value_plain := by decide

/-- The secret is read back from a file of lines that end in carriage returns. -/
theorem secret_read_back :
    loadDotEnv (some (writeDotEnv 34 true [secretEntry])) (fun _ => none) (lit "AUTH_API_SECRET") =
      some (39 :: lit "a=b\"" ++ [13]) :=
  loadDotEnv_writeDotEnv (.inl rfl) [secretEntry] (fun _ => none) (lit "AUTH_API_SECRET")

end Demo

end JotaTranscriber
