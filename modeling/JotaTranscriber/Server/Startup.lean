import Mathlib.Data.List.Induction
import JotaTranscriber.Server.Arguments
import JotaTranscriber.Server.DotEnv

/-! # How the server is configured

The file of defaults is looked for on the command line before that is parsed,
and is read into the environment; then the environment is read, and the
command line. So a field has the value of the last argument for it, or else of
its variable, or else of the file, or else its default, and the server is
configured exactly where each value that is given can be converted, the
overridden ones too.
-/

namespace JotaTranscriber

/-- The loop over the arguments that looks for the file. -/
def findEnvFile : List Bytes → Bytes
  | arg :: value :: rest => if arg = lit "--env-file" then value else findEnvFile (value :: rest)
  | _ => lit ".env"

def extractEnvFile (argv : List Bytes) : Bytes := findEnvFile argv.tail

/-- What `main` does first; `files` are the files that can be opened. -/
def startup (stof : Bytes → Except ConfigFailure ℚ) (files : Bytes → Option Bytes)
    (environ : Environment) (argv : List Bytes) : Except ConfigFailure ServerConfig :=
  parseArgs stof (loadDotEnv (files (extractEnvFile argv)) environ) argv

namespace Setting

variable {stof : Bytes → Except ConfigFailure ℚ} {s : Setting}
  {config₀ config config' : ServerConfig}

/-- A configuration is its fields. -/
theorem get_injective (h : ∀ s : Setting, s.get config = s.get config') : config = config' := by
  cases config
  cases config'
  rw [ServerConfig.mk.injEq]
  exact ⟨h .modelPath, h .bindAddress, h .port, h .certPath, h .keyPath, h .maxConnections,
    h .maxConnectionsPerIp, h .sessionTimeoutSec, h .authToken, h .authApiUrl, h .authApiSecret,
    h .authCacheTtl, h .authApiTimeout, h .whisperBeamSize, h .whisperThreads,
    h .maxConcurrentInference, h .modelCacheTtl, h .whisperInitialPrompt, h .whisperTemperature,
    h .whisperTemperatureInc, h .whisperNoSpeechThold, h .whisperLogprobThold,
    h .shutdownTimeoutSec⟩

/-- The values that are given determine the configuration. -/
theorem eq_of_takenFrom {text : Setting → Option Bytes}
    (h : ∀ s : Setting, s.TakenFrom stof (text s) config₀ config)
    (h' : ∀ s : Setting, s.TakenFrom stof (text s) config₀ config') : config = config' := by
  refine get_injective fun s => ?_
  have hs := h s
  have hs' := h' s
  unfold TakenFrom at hs hs'
  cases htext : text s with
  | none =>
    rw [htext] at hs hs'
    exact Eq.trans hs hs'.symm
  | some value =>
    rw [htext] at hs hs'
    exact Except.ok.inj (hs.symm.trans hs')

theorem modelPath_of_takenFrom {text : Option Bytes}
    (h : Setting.modelPath.TakenFrom stof text config₀ config) :
    config.modelPath = text.getD config₀.modelPath := by
  cases text with
  | none => exact h
  | some path => exact (Except.ok.inj h).symm

end Setting

namespace Argument

/-- The value that an argument gives to a field. -/
def value (s : Setting) : Argument → Option Bytes
  | option (.setting t text) => if t = s then some text else none
  | word arg => if s = .modelPath then some arg else none
  | _ => none

/-- The value that the last of some arguments to give one gives to a field. -/
def lastValue (s : Setting) (items : List Argument) : Option Bytes :=
  (items.filterMap (value s)).getLast?

/-- The condition on which an argument is accepted, after others that leave the model at `model`:
its value can be converted, or else it is a word in the place of the model compared with. -/
def Accepted (stof : Bytes → Except ConfigFailure ℚ) (model : Bytes) : Argument → Prop
  | option (.setting s text) => ∃ v, s.convert stof text = .ok v
  | option _ => True
  | help => False
  | word arg => ¬ lit "--" <+: arg ∧ model = lit "third_party/whisper.cpp/models/ggml-base.bin"

variable {stof : Bytes → Except ConfigFailure ℚ} {config config' : ServerConfig} {s : Setting}
  {items : List Argument} {a : Argument}

theorem lastValue_concat : lastValue s (items ++ [a]) = (a.value s).or (lastValue s items) := by
  rw [lastValue, List.filterMap_append, List.getLast?_append, lastValue]
  cases h : a.value s <;> simp [h]

theorem apply_ok_iff :
    (∃ config', a.apply stof config = .ok config') ↔ a.Accepted stof config.modelPath := by
  cases a with
  | option o =>
    cases o with
    | setting s text =>
      constructor
      · rintro ⟨config', h⟩
        obtain ⟨v, hv, -⟩ := Setting.set_eq_ok.mp h
        exact ⟨v, hv⟩
      · rintro ⟨v, hv⟩
        exact ⟨s.put v config, Setting.set_eq_ok.mpr ⟨v, hv, rfl⟩⟩
    | envFile path => exact ⟨fun _ => trivial, fun _ => ⟨config, rfl⟩⟩
    | threadSafe => exact ⟨fun _ => trivial, fun _ => ⟨config, rfl⟩⟩
  | help =>
    refine ⟨?_, False.elim⟩
    rintro ⟨config', h⟩
    cases h
  | word arg =>
    simp only [apply, Accepted]
    split
    · rename_i h
      exact ⟨fun _ => h, fun _ => ⟨_, rfl⟩⟩
    · rename_i h
      refine ⟨?_, fun hword => absurd hword h⟩
      rintro ⟨config', hconfig⟩
      cases hconfig

/-- An argument sets the field it gives a value to, and no other. -/
theorem takenFrom_of_apply (h : a.apply stof config = .ok config') (s : Setting) :
    s.TakenFrom stof (a.value s) config config' := by
  cases a with
  | option o =>
    cases o with
    | setting t text => exact Setting.takenFrom_of_set h
    | envFile path =>
      cases h
      exact Setting.takenFrom_refl
    | threadSafe =>
      cases h
      exact Setting.takenFrom_refl
  | help => cases h
  | word arg =>
    simp only [apply] at h
    split at h
    · cases h
      have hset : Setting.modelPath.set stof arg config = .ok { config with modelPath := arg } :=
        rfl
      simpa only [value, eq_comm] using Setting.takenFrom_of_set (s := s) hset
    · cases h

/-- Arguments set the fields they give values to. -/
theorem takenFrom_of_foldlM (h : items.foldlM (apply stof) config = .ok config') (s : Setting) :
    s.TakenFrom stof (lastValue s items) config config' := by
  induction items using List.reverseRecOn generalizing config' with
  | nil =>
    cases h
    exact Setting.takenFrom_refl
  | append_singleton items a ih =>
    rw [List.foldlM_append] at h
    obtain ⟨config₁, hitems, hlast⟩ := bind_eq_ok.mp h
    rw [List.foldlM_cons] at hlast
    obtain ⟨config₂, ha, hnil⟩ := bind_eq_ok.mp hlast
    cases hnil
    rw [lastValue_concat]
    exact (ih hitems).trans (takenFrom_of_apply ha s)

/-- Arguments are accepted one after the other. -/
theorem foldlM_ok_iff : (∃ config', items.foldlM (apply stof) config = .ok config') ↔
    ∀ before a after, items = before ++ a :: after →
      a.Accepted stof ((lastValue .modelPath before).getD config.modelPath) := by
  induction items using List.reverseRecOn with
  | nil => simp [pure, Except.pure]
  | append_singleton items a ih =>
    constructor
    · rintro ⟨config', h⟩ before a' after hsplit
      rw [List.foldlM_append] at h
      obtain ⟨config₁, hitems, hlast⟩ := bind_eq_ok.mp h
      rcases List.eq_nil_or_concat after with rfl | ⟨after', b, rfl⟩
      · obtain ⟨rfl, ha⟩ := List.append_inj' hsplit rfl
        cases ha
        rw [List.foldlM_cons] at hlast
        obtain ⟨config₂, ha, -⟩ := bind_eq_ok.mp hlast
        rw [← Setting.modelPath_of_takenFrom (takenFrom_of_foldlM hitems .modelPath)]
        exact apply_ok_iff.mp ⟨config₂, ha⟩
      · have hrest : items ++ [a] = (before ++ a' :: after') ++ [b] := by simpa using hsplit
        obtain ⟨hitems', -⟩ := List.append_inj' hrest rfl
        exact ih.mp ⟨config₁, hitems⟩ before a' after' hitems'
    · intro h
      obtain ⟨config₁, hitems⟩ := ih.mpr fun before a' after hsplit =>
        h before a' (after ++ [a]) (by simp [hsplit])
      have ha := h items a [] rfl
      rw [← Setting.modelPath_of_takenFrom (takenFrom_of_foldlM hitems .modelPath)] at ha
      obtain ⟨config₂, happly⟩ := apply_ok_iff.mpr ha
      refine ⟨config₂, ?_⟩
      rw [List.foldlM_append, hitems]
      change (apply stof config₁ a).bind (fun c => .ok c) = _
      rw [happly]
      rfl

end Argument

/-! ## The environment -/

section Environment

variable {stof : Bytes → Except ConfigFailure ℚ} {environ : Environment} {s : Setting}
  {config : ServerConfig} {l : List Setting}

theorem foldlM_setFromEnv_ok (h : ∀ s ∈ l, ∀ text, s.envValue environ = some text →
    ∃ v, s.convert stof text = .ok v) :
    ∃ config', l.foldlM (setFromEnv stof environ) config = .ok config' := by
  induction l generalizing config with
  | nil => exact ⟨config, rfl⟩
  | cons s l ih =>
    obtain ⟨hs, hl⟩ := List.forall_mem_cons.mp h
    rw [List.foldlM_cons]
    unfold setFromEnv
    split
    · exact ih hl
    · rename_i hvalue
      obtain ⟨v, hv⟩ := hs _ (if_neg hvalue)
      rw [Setting.set, hv]
      exact ih hl

/-- The environment is accepted if and only if every value in it can be converted. -/
theorem configFromEnv_ok_iff : (∃ config, configFromEnv stof environ = .ok config) ↔
    ∀ (s : Setting) text, s.envValue environ = some text → ∃ v, s.convert stof text = .ok v := by
  constructor
  · rintro ⟨config, h⟩ s text htext
    have htaken := takenFrom_of_configFromEnv (s := s) h
    rw [htext] at htaken
    exact ⟨_, htaken⟩
  · exact fun h => foldlM_setFromEnv_ok fun s _ => h s

/-- The value of the variable of a field, if it is not empty: a variable that is set hides the
file, even where it is empty. -/
def Setting.variableValue (s : Setting) (environ : Environment) (file : Option Bytes) :
    Option Bytes :=
  ((environ s.envVar).or (fileValue file s.envVar)).filter (· ≠ [])

theorem envValue_loadDotEnv (file : Option Bytes) :
    s.envValue (loadDotEnv file environ) = s.variableValue environ file := by
  unfold Setting.envValue Setting.variableValue env
  rw [loadDotEnv_apply]
  cases (environ s.envVar).or (fileValue file s.envVar) with
  | none => rfl
  | some text => by_cases htext : text = [] <;> simp [Option.filter, htext]

end Environment

/-- The server is configured exactly where every value in the environment and on the command line
can be converted, no help is asked for and each word stands where the model is the one compared
with; and then every field has the value of the last argument for it, or else of its variable, or
else of the file the command line names, or else its default. -/
theorem startup_eq_ok_iff (stof : Bytes → Except ConfigFailure ℚ) (files : Bytes → Option Bytes)
    (environ : Environment) (argv : List Bytes) (config : ServerConfig) :
    startup stof files environ argv = .ok config ↔
      (∀ (s : Setting) text, s.variableValue environ (files (extractEnvFile argv)) = some text →
        ∃ v, s.convert stof text = .ok v) ∧
      (∀ before a after, Argument.lex argv.tail = before ++ a :: after →
        a.Accepted stof (((Argument.lastValue .modelPath before).or
          (Setting.modelPath.variableValue environ (files (extractEnvFile argv)))).getD
            (lit "third_party/whisper.cpp/models/ggml-small.bin"))) ∧
      ∀ s : Setting, s.TakenFrom stof ((Argument.lastValue s (Argument.lex argv.tail)).or
        (s.variableValue environ (files (extractEnvFile argv)))) {} config := by
  have henvValue (s : Setting) : s.envValue (loadDotEnv (files (extractEnvFile argv)) environ) =
      s.variableValue environ (files (extractEnvFile argv)) := envValue_loadDotEnv _
  -- what the environment leaves is what the first argument starts from
  have hmodel {config₁ : ServerConfig}
      (henv : configFromEnv stof (loadDotEnv (files (extractEnvFile argv)) environ) = .ok config₁)
      (text : Option Bytes) : text.getD config₁.modelPath = (text.or
        (Setting.modelPath.variableValue environ (files (extractEnvFile argv)))).getD
          (lit "third_party/whisper.cpp/models/ggml-small.bin") := by
    rw [Setting.modelPath_of_takenFrom (takenFrom_of_configFromEnv henv), henvValue,
      Option.getD_or]
  have hgiven {config₁ config₂ : ServerConfig}
      (henv : configFromEnv stof (loadDotEnv (files (extractEnvFile argv)) environ) = .ok config₁)
      (hloop : parseLoop stof false argv.tail config₁ = .ok config₂) (s : Setting) :
      s.TakenFrom stof ((Argument.lastValue s (Argument.lex argv.tail)).or
        (s.variableValue environ (files (extractEnvFile argv)))) {} config₂ := by
    have hvariable := takenFrom_of_configFromEnv (s := s) henv
    rw [henvValue] at hvariable
    rw [Argument.parseLoop_eq_foldlM] at hloop
    exact hvariable.trans (Argument.takenFrom_of_foldlM hloop s)
  constructor
  · intro h
    obtain ⟨config₁, henv, hloop⟩ := bind_eq_ok.mp h
    refine ⟨fun s text htext => ?_, fun before a after hsplit => ?_, hgiven henv hloop⟩
    · exact configFromEnv_ok_iff.mp ⟨config₁, henv⟩ s text (by rw [henvValue, htext])
    · rw [Argument.parseLoop_eq_foldlM] at hloop
      rw [← hmodel henv]
      exact Argument.foldlM_ok_iff.mp ⟨config, hloop⟩ before a after hsplit
  · rintro ⟨hvariables, haccepted, htaken⟩
    obtain ⟨config₁, henv⟩ := configFromEnv_ok_iff.mpr fun s text htext =>
      hvariables s text ((henvValue s).symm.trans htext)
    obtain ⟨config₂, hloop⟩ := Argument.foldlM_ok_iff.mpr fun before a after hsplit => by
      rw [hmodel henv]
      exact haccepted before a after hsplit
    rw [← Argument.parseLoop_eq_foldlM] at hloop
    have hconfig : config₂ = config := Setting.eq_of_takenFrom (hgiven henv hloop) htaken
    rw [startup, parseArgs, henv, ← hconfig]
    exact hloop

/-! ## The file that is read -/

section EnvFile

variable {arg value : Bytes} {args argv : List Bytes}

/-- The file that an option names. -/
def Argument.envFile : Argument → Option Bytes
  | option (.envFile path) => some path
  | _ => none

theorem findEnvFile_cons_of_ne (h : arg ≠ lit "--env-file") :
    findEnvFile (arg :: args) = findEnvFile args := by
  cases args with
  | nil => rfl
  | cons value rest => rw [findEnvFile, if_neg h]

theorem envFile_alone (arg : Bytes) : (Argument.alone arg).envFile = none := by
  unfold Argument.alone
  split
  · rfl
  split <;> rfl

theorem ne_envFile (h : Argument.withValue arg value = none) : arg ≠ lit "--env-file" := by
  rintro rfl
  rw [Argument.withValue, if_pos rfl] at h
  cases h

/-- Where no option has it for its value, `--env-file` is found where the parser finds it. -/
theorem findEnvFile_eq
    (h : ∀ s : Setting, Argument.option (.setting s (lit "--env-file")) ∉ Argument.lex args) :
    findEnvFile args = ((Argument.lex args).findSome? Argument.envFile).getD (lit ".env") := by
  induction args using Argument.lex.induct with
  | case1 => rfl
  | case2 arg => simp [Argument.lex, findEnvFile, envFile_alone]
  | case3 arg value rest o ho ih =>
    simp only [Argument.lex, ho, List.mem_cons, not_or] at h ⊢
    have ih := ih fun s => (h s).2
    unfold Argument.withValue at ho
    split at ho
    · rename_i hfile
      cases ho
      rw [findEnvFile, if_pos hfile]
      rfl
    · rename_i hfile
      obtain ⟨s, -, rfl⟩ := Option.map_eq_some_iff.mp ho
      have hvalue : value ≠ lit "--env-file" := by
        rintro rfl
        exact (h s).1 rfl
      rw [findEnvFile_cons_of_ne hfile, findEnvFile_cons_of_ne hvalue, ih]
      rfl
  | case4 arg value rest ho ih =>
    simp only [Argument.lex, ho, List.mem_cons, not_or] at h ⊢
    rw [findEnvFile_cons_of_ne (ne_envFile ho), ih fun s => (h s).2, List.findSome?_cons,
      envFile_alone]

/-- The file that is read is the one that the first option for it names, by the reading of the
command line that the parser has, unless an option has `--env-file` for its value. -/
theorem extractEnvFile_eq
    (h : ∀ s : Setting, Argument.option (.setting s (lit "--env-file")) ∉ Argument.lex argv.tail) :
    extractEnvFile argv =
      ((Argument.lex argv.tail).findSome? Argument.envFile).getD (lit ".env") :=
  findEnvFile_eq h

end EnvFile

namespace Demo

/-- The file is named between other options. -/
theorem env_file_between_options :
    extractEnvFile [lit "jota-transcriber", lit "--port", lit "80", lit "--env-file", lit "a.env"] =
      lit "a.env" := by
  refine @extractEnvFile_eq [_, lit "--port", lit "80", lit "--env-file", lit "a.env"] ?_
  have hlex : Argument.lex [lit "--port", lit "80", lit "--env-file", lit "a.env"] =
      [.option (.setting .port (lit "80")), .option (.envFile (lit "a.env"))] := rfl
  intro s
  rw [List.tail_cons, hlex]
  simp
  rintro -
  decide

end Demo

end JotaTranscriber
