import JotaTranscriber.Server.ConfigValues

/-! # The grammar of the command line

A command line is a sequence of options, words and requests for help, and it
can be read in one way only: an option takes the argument after it whatever
that is, and only one at the end of the line is a word. The loop over the
arguments does what they say, one after the other.
-/

namespace JotaTranscriber

/-- An argument, with the value it takes. -/
inductive Argument where
  | option (o : CommandOption)
  | help
  | word (arg : Bytes)

namespace Argument

def tokens : Argument → List Bytes
  | option o => o.tokens
  | help => [lit "--help"]
  | word arg => [arg]

/-- What an argument does to the configuration. -/
def apply (stof : Bytes → Except ConfigFailure ℚ) (config : ServerConfig) :
    Argument → Except ConfigFailure ServerConfig
  | option o => o.apply stof config
  | help => .error (.exit 0 none)
  | word arg =>
    if ¬ lit "--" <+: arg ∧
        config.modelPath = lit "third_party/whisper.cpp/models/ggml-base.bin" then
      .ok { config with modelPath := arg }
    else .error (.exit 1 (some (lit "Unknown argument: " ++ arg)))

/-- The option that takes the argument after it. -/
def withValue (arg value : Bytes) : Option CommandOption :=
  if arg = lit "--env-file" then some (.envFile value)
  else (optionSetting arg).map fun s => .setting s value

/-- An argument that takes no value. -/
def alone (arg : Bytes) : Argument :=
  if arg = lit "--help" then help
  else if arg = lit "--thread-safe" then option .threadSafe
  else word arg

/-- The reading of a command line. -/
def lex : List Bytes → List Argument
  | [] => []
  | [arg] => [alone arg]
  | arg :: value :: rest =>
    match withValue arg value with
    | some o => option o :: lex rest
    | none => alone arg :: lex (value :: rest)

/-- Where an argument can stand: a word is none of the arguments that have a meaning, and one that
would take a value has none only at the end. -/
def Stands (a : Argument) (rest : List Argument) : Prop :=
  match a with
  | word arg => arg ≠ lit "--help" ∧ arg ≠ lit "--thread-safe" ∧
      (takesValue arg = true → rest = [])
  | _ => True

inductive Grammatical : List Argument → Prop where

  | nil : Grammatical []

  | cons {a : Argument} {rest : List Argument} : a.Stands rest → Grammatical rest →
      Grammatical (a :: rest)

variable {stof : Bytes → Except ConfigFailure ℚ} {config : ServerConfig} {arg value : Bytes}
  {rest : List Bytes} {items : List Argument} {a : Argument} {o : CommandOption}

theorem withValue_eq_some (h : withValue arg value = some o) : o.tokens = [arg, value] := by
  unfold withValue at h
  split at h
  · rename_i harg
    cases h
    rw [harg]
    rfl
  · obtain ⟨s, hs, rfl⟩ := Option.map_eq_some_iff.mp h
    have harg : s.option = arg := by
      simpa using List.find?_some hs
    rw [← harg]
    rfl

theorem withValue_eq_none : withValue arg value = none ↔ takesValue arg = false := by
  unfold withValue takesValue
  by_cases hfile : arg = lit "--env-file"
  · simp [hfile]
  · simp [hfile]

theorem tokens_alone (arg : Bytes) : (alone arg).tokens = [arg] := by
  unfold alone
  split
  · rename_i harg
    rw [harg]
    rfl
  split
  · rename_i harg
    rw [harg]
    rfl
  · rfl

theorem stands_alone (h : takesValue arg = true → items = []) : (alone arg).Stands items := by
  unfold alone
  split
  · trivial
  split
  · trivial
  · rename_i hhelp hsafe
    exact ⟨hhelp, hsafe, h⟩

/-- A command line is read as the arguments that it is made of. -/
theorem flatMap_tokens_lex (args : List Bytes) : (lex args).flatMap tokens = args := by
  induction args using lex.induct with
  | case1 => rfl
  | case2 arg => simp [lex, tokens_alone]
  | case3 arg value rest o h ih =>
    have htokens : (option o).tokens = [arg, value] := withValue_eq_some h
    simp [lex, h, htokens, ih]
  | case4 arg value rest h ih => simp [lex, h, tokens_alone, ih]

theorem grammatical_lex (args : List Bytes) : Grammatical (lex args) := by
  induction args using lex.induct with
  | case1 => exact .nil
  | case2 arg => exact .cons (stands_alone fun _ => rfl) .nil
  | case3 arg value rest o h ih =>
    simp only [lex, h]
    exact .cons trivial ih
  | case4 arg value rest h ih =>
    simp only [lex, h]
    refine .cons (stands_alone fun htakes => ?_) ih
    rw [withValue_eq_none.mp h] at htakes
    cases htakes

/-- An argument that takes no value is read alone. -/
theorem lex_alone (h : takesValue arg = true → rest = []) :
    lex (arg :: rest) = alone arg :: lex rest := by
  cases rest with
  | nil => rfl
  | cons value rest =>
    have htakes : takesValue arg = false := by
      cases htakes : takesValue arg with
      | false => rfl
      | true => cases h htakes
    rw [lex, withValue_eq_none.mpr htakes]

theorem lex_option (o : CommandOption) : lex (o.tokens ++ rest) = option o :: lex rest := by
  cases o with
  | setting s value =>
    have hfile : s.option ≠ lit "--env-file" := by cases s <;> decide
    have htakes : withValue s.option value = some (.setting s value) := by
      simp [withValue, hfile, s.optionSetting_option]
    change lex (s.option :: value :: rest) = _
    rw [lex, htakes]
  | envFile path =>
    have htakes : withValue (lit "--env-file") path = some (.envFile path) := if_pos rfl
    change lex (lit "--env-file" :: path :: rest) = _
    rw [lex, htakes]
  | threadSafe =>
    have htakes : takesValue (lit "--thread-safe") = false := by decide
    exact lex_alone fun h => absurd (htakes.symm.trans h) (by decide)

theorem lex_tokens (h : a.Stands items) :
    lex (a.tokens ++ items.flatMap tokens) = a :: lex (items.flatMap tokens) := by
  cases a with
  | option o => exact lex_option o
  | help =>
    have htakes : takesValue (lit "--help") = false := by decide
    exact lex_alone fun h => absurd (htakes.symm.trans h) (by decide)
  | word arg =>
    obtain ⟨hhelp, hsafe, hlast⟩ := h
    have hword : alone arg = word arg := by
      rw [alone, if_neg hhelp, if_neg hsafe]
    have hread : lex (arg :: items.flatMap tokens) = _ := lex_alone fun htakes => by
      rw [hlast htakes, List.flatMap_nil]
    rw [hword] at hread
    exact hread

/-- The arguments that a command line is made of are those it is read as. -/
theorem lex_flatMap_tokens (h : Grammatical items) : lex (items.flatMap tokens) = items := by
  induction h with
  | nil => rfl
  | cons ha _ ih => rw [List.flatMap_cons, lex_tokens ha, ih]

/-! ## What the loop does with them -/

theorem parseArg_word {next : Option Bytes} (hhelp : arg ≠ lit "--help")
    (hsafe : arg ≠ lit "--thread-safe") (hnext : takesValue arg = true → next = none) :
    parseArg stof arg next config =
      ((word arg).apply stof config).map fun config => (config, false) := by
  have hfile : ¬ (arg = lit "--env-file" ∧ next ≠ none) := by
    rintro ⟨rfl, hvalue⟩
    exact hvalue (hnext (by decide))
  -- either the argument is no option, or no value follows it
  have hword : optionSetting arg = none ∨ next = none := by
    cases htakes : takesValue arg with
    | true => exact .inr (hnext htakes)
    | false =>
      left
      simp only [takesValue, Bool.or_eq_false_iff] at htakes
      exact Option.isNone_iff_eq_none.mp (by simpa using htakes.2)
  unfold parseArg
  rw [if_neg hhelp, if_neg hfile]
  simp only [if_neg hsafe, apply]
  rcases hword with hword | rfl
  · rw [hword]
    dsimp only
    split <;> rfl
  · cases optionSetting arg <;> dsimp only <;> split <;> rfl

theorem parseLoop_argument (h : a.Stands items) :
    parseLoop stof false (a.tokens ++ items.flatMap tokens) config =
      (a.apply stof config).bind (parseLoop stof false (items.flatMap tokens)) := by
  cases a with
  | option o => exact CommandOption.parseLoop_tokens o
  | help => rfl
  | word arg =>
    obtain ⟨hhelp, hsafe, hlast⟩ := h
    have hnext : takesValue arg = true → (items.flatMap tokens).head? = none := fun htakes => by
      rw [hlast htakes, List.flatMap_nil, List.head?_nil]
    change parseLoop stof false (arg :: items.flatMap tokens) config = _
    rw [parseLoop, parseArg_word hhelp hsafe hnext]
    cases (word arg).apply stof config <;> rfl

theorem parseLoop_of_grammatical (h : Grammatical items) :
    parseLoop stof false (items.flatMap tokens) config = items.foldlM (apply stof) config := by
  induction h generalizing config with
  | nil => rfl
  | @cons a rest ha _ ih =>
    rw [List.flatMap_cons, parseLoop_argument ha, List.foldlM_cons]
    cases a.apply stof config with
    | error e => rfl
    | ok config₁ => exact ih

/-- The loop over the arguments does what they are read as. -/
theorem parseLoop_eq_foldlM (args : List Bytes) :
    parseLoop stof false args config = (lex args).foldlM (apply stof) config := by
  have hloop := @parseLoop_of_grammatical stof config _ (grammatical_lex args)
  rwa [flatMap_tokens_lex] at hloop

/-- Every command line is made of arguments in exactly one way, and the loop over it does what
they say one after the other. -/
theorem existsUnique_arguments (stof : Bytes → Except ConfigFailure ℚ) (args : List Bytes) :
    ∃ items, (∀ items', Grammatical items' ∧ items'.flatMap tokens = args ↔ items' = items) ∧
      ∀ config, parseLoop stof false args config = items.foldlM (apply stof) config := by
  refine ⟨lex args, fun items' => ⟨?_, ?_⟩, fun config => parseLoop_eq_foldlM args⟩
  · rintro ⟨hitems, rfl⟩
    exact (lex_flatMap_tokens hitems).symm
  · rintro rfl
    exact ⟨grammatical_lex args, flatMap_tokens_lex args⟩

end Argument

end JotaTranscriber
