import JotaTranscriber.Server.ServerConfig

/-! # Which value a field gets

The fields are independent of each other, so each one ends up with the value
of its last option on the command line, or else of its environment variable,
or else with its default; only the model can also be named by an argument that
is not an option.
-/

namespace JotaTranscriber

section Results

variable {ε α β : Type} {x : Except ε α} {b : β}

theorem bind_eq_ok {f : α → Except ε β} : x.bind f = .ok b ↔ ∃ a, x = .ok a ∧ f a = .ok b := by
  cases x <;> simp [Except.bind]

theorem map_eq_ok {f : α → β} : x.map f = .ok b ↔ ∃ a, x = .ok a ∧ f a = b := by
  cases x <;> simp [Except.map]

end Results

namespace Setting

variable {s t : Setting} {config config' : ServerConfig} {stof : Bytes → Except ConfigFailure ℚ}
  {text : Bytes}

@[simp] theorem get_put_self (v : s.Value) (config : ServerConfig) :
    s.get (s.put v config) = v := by
  cases s <;> rfl

theorem get_put_of_ne (h : s ≠ t) (v : t.Value) (config : ServerConfig) :
    s.get (t.put v config) = s.get config := by
  cases t <;> cases s <;> first | rfl | exact absurd rfl h

theorem set_eq_ok : s.set stof text config = .ok config' ↔
    ∃ v, s.convert stof text = .ok v ∧ config' = s.put v config := by
  rw [set, map_eq_ok]
  simp only [eq_comm]

theorem optionSetting_option (s : Setting) : optionSetting s.option = some s := by
  cases s <;> decide

theorem dashes_prefix_option (s : Setting) : lit "--" <+: s.option := by
  cases s <;> decide

theorem mem_all (s : Setting) : s ∈ all := by
  cases s <;> decide

theorem nodup_all : all.Nodup := by decide

/-- The field has the value of the text in `config'`, or the value it had in `config` where there
is no text. -/
def TakenFrom (stof : Bytes → Except ConfigFailure ℚ) (s : Setting) (text : Option Bytes)
    (config config' : ServerConfig) : Prop :=
  match text with
  | some text => s.convert stof text = .ok (s.get config')
  | none => s.get config' = s.get config

theorem takenFrom_refl : TakenFrom stof s none config config := rfl

theorem takenFrom_of_set (h : t.set stof text config = .ok config') :
    TakenFrom stof s (if t = s then some text else none) config config' := by
  obtain ⟨v, hv, rfl⟩ := set_eq_ok.mp h
  by_cases hts : t = s
  · subst hts
    rw [if_pos rfl, TakenFrom, get_put_self]
    exact hv
  · rw [if_neg hts]
    exact get_put_of_ne (Ne.symm hts) v config

/-- The later text counts. -/
theorem TakenFrom.trans {config₁ : ServerConfig} {first second : Option Bytes}
    (h : TakenFrom stof s first config config₁) (h' : TakenFrom stof s second config₁ config') :
    TakenFrom stof s (second.or first) config config' := by
  match first, second with
  | _, some _ => exact h'
  | some text, none =>
    change s.convert stof text = .ok (s.get config')
    rw [show s.get config' = s.get config₁ from h']
    exact h
  | none, none => exact Eq.trans h' h

end Setting

section Environment

variable {stof : Bytes → Except ConfigFailure ℚ} {getenv : Bytes → Option Bytes} {s : Setting}
  {config config' : ServerConfig}

/-- The value a field has in the environment. -/
def Setting.envValue (s : Setting) (getenv : Bytes → Option Bytes) : Option Bytes :=
  if env getenv s.envVar = [] then none else some (env getenv s.envVar)

theorem takenFrom_of_setFromEnv {t : Setting} (h : setFromEnv stof getenv config t = .ok config') :
    s.TakenFrom stof (if t = s then s.envValue getenv else none) config config' := by
  unfold setFromEnv at h
  unfold Setting.envValue
  split at h
  · rename_i hempty
    cases h
    by_cases hts : t = s
    · rw [if_pos hts, if_pos (hts ▸ hempty)]
      exact Setting.takenFrom_refl
    · rw [if_neg hts]
      exact Setting.takenFrom_refl
  · rename_i hvalue
    have hset := Setting.takenFrom_of_set (s := s) h
    by_cases hts : t = s
    · subst hts
      rw [if_pos rfl] at hset ⊢
      rwa [if_neg hvalue]
    · rwa [if_neg hts] at hset ⊢

theorem takenFrom_of_foldlM {l : List Setting} (hl : l.Nodup)
    (h : l.foldlM (setFromEnv stof getenv) config = .ok config') :
    s.TakenFrom stof (if s ∈ l then s.envValue getenv else none) config config' := by
  induction l generalizing config with
  | nil =>
    cases h
    exact Setting.takenFrom_refl
  | cons t l ih =>
    obtain ⟨hnot, hl⟩ := List.nodup_cons.mp hl
    rw [List.foldlM_cons] at h
    obtain ⟨config₁, hfirst, hrest⟩ := bind_eq_ok.mp h
    have hboth := (takenFrom_of_setFromEnv (s := s) hfirst).trans (ih hl hrest)
    by_cases hts : t = s
    · subst hts
      simpa [hnot] using hboth
    · simpa [hts, Ne.symm hts, Option.or_none] using hboth

theorem takenFrom_of_configFromEnv (h : configFromEnv stof getenv = .ok config) :
    s.TakenFrom stof (s.envValue getenv) {} config := by
  have hread := takenFrom_of_foldlM (s := s) Setting.nodup_all h
  rwa [if_pos s.mem_all] at hread

end Environment

section Arguments

/-- An option that is followed by a value. -/
def takesValue (arg : Bytes) : Bool := arg = lit "--env-file" || (optionSetting arg).isSome

/-- The value of the last option for the field, on a command line read as `parseLoop` does. -/
def Setting.lastValue (s : Setting) : Bool → List Bytes → Option Bytes
  | _, [] => none
  | true, _ :: args => s.lastValue false args
  | false, arg :: args =>
    (s.lastValue (takesValue arg && args.head?.isSome) args).or
      (if optionSetting arg = some s then args.head? else none)

/-- The value given for a field: that of its last option, or else that in the environment. -/
def Setting.supplied (s : Setting) (getenv : Bytes → Option Bytes) (argv : List Bytes) :
    Option Bytes :=
  (s.lastValue false argv.tail).or (s.envValue getenv)

variable {stof : Bytes → Except ConfigFailure ℚ} {getenv : Bytes → Option Bytes} {s : Setting}
  {arg : Bytes} {next : Option Bytes} {config config' : ServerConfig} {skip consumed : Bool}
  {args argv : List Bytes}

theorem optionSetting_of_no_dashes (h : ¬ lit "--" <+: arg) : optionSetting arg = none := by
  rw [optionSetting, List.find?_eq_none]
  intro s _ harg
  rw [decide_eq_true_eq] at harg
  exact h (harg ▸ s.dashes_prefix_option)

/-- What one turn of the loop does with an argument it accepts. -/
inductive Accepts (stof : Bytes → Except ConfigFailure ℚ) (arg : Bytes) (next : Option Bytes)
    (config : ServerConfig) : ServerConfig → Bool → Prop where

  | setting {s : Setting} {value : Bytes} {config' : ServerConfig} : optionSetting arg = some s →
      next = some value → s.set stof value config = .ok config' →
      Accepts stof arg next config config' true

  | envFile : arg = lit "--env-file" → next.isSome = true → Accepts stof arg next config config true

  | threadSafe : arg = lit "--thread-safe" → Accepts stof arg next config config false

  | model : ¬ lit "--" <+: arg →
      config.modelPath = lit "third_party/whisper.cpp/models/ggml-base.bin" →
      Accepts stof arg next config { config with modelPath := arg } false

theorem parseArg_accepts (h : parseArg stof arg next config = .ok (config', consumed)) :
    Accepts stof arg next config config' consumed := by
  unfold parseArg at h
  split at h
  · cases h
  split at h
  · rename_i hfile
    cases h
    exact .envFile hfile.1 (Option.isSome_iff_ne_none.mpr hfile.2)
  split at h
  · rename_i t value ht _
    obtain ⟨config₁, hset, heq⟩ := map_eq_ok.mp h
    cases heq
    exact .setting ht rfl hset
  · split at h
    · rename_i hsafe
      cases h
      exact .threadSafe hsafe
    split at h
    · rename_i hmodel
      cases h
      exact .model hmodel.1 hmodel.2
    · cases h

/-- One turn of the loop sets the field of its option, and consumes its value. -/
theorem Accepts.takenFrom (h : Accepts stof arg next config config' consumed)
    (hs : s ≠ .modelPath) : consumed = (takesValue arg && next.isSome) ∧
      s.TakenFrom stof (if optionSetting arg = some s then next else none) config config' := by
  cases h with
  | @setting t value _ ht hnext hset =>
    subst hnext
    refine ⟨by simp [takesValue, ht], ?_⟩
    simpa only [ht, Option.some.injEq] using Setting.takenFrom_of_set (s := s) hset
  | envFile harg hnext =>
    subst harg
    have hnone : optionSetting (lit "--env-file") = none := by decide
    refine ⟨by simp [takesValue, hnext], ?_⟩
    rw [hnone, if_neg (by simp)]
    exact Setting.takenFrom_refl
  | threadSafe harg =>
    subst harg
    have hnone : optionSetting (lit "--thread-safe") = none := by decide
    have htakes : takesValue (lit "--thread-safe") = false := by decide
    refine ⟨by rw [htakes, Bool.false_and], ?_⟩
    rw [hnone, if_neg (by simp)]
    exact Setting.takenFrom_refl
  | model harg _ =>
    have hnone := optionSetting_of_no_dashes harg
    have hfile : arg ≠ lit "--env-file" := by
      rintro rfl
      exact harg (by decide)
    refine ⟨by simp [takesValue, hnone, hfile], ?_⟩
    rw [hnone, if_neg (by simp)]
    exact Setting.get_put_of_ne hs arg config

theorem takenFrom_of_parseLoop (hs : s ≠ .modelPath)
    (h : parseLoop stof skip args config = .ok config') :
    s.TakenFrom stof (s.lastValue skip args) config config' := by
  induction args generalizing skip config with
  | nil =>
    rw [parseLoop] at h
    cases h
    rw [Setting.lastValue]
    exact Setting.takenFrom_refl
  | cons arg args ih =>
    match skip with
    | true => exact ih h
    | false =>
      rw [parseLoop] at h
      obtain ⟨⟨config₁, consumed⟩, hfirst, hrest⟩ := bind_eq_ok.mp h
      obtain ⟨rfl, htaken⟩ := (parseArg_accepts hfirst).takenFrom hs
      exact htaken.trans (ih hrest)

/-- In every configuration that is read, a field other than the model has the value of its last
option, or else of its environment variable, or else its default. -/
theorem takenFrom_of_parseArgs (hs : s ≠ .modelPath)
    (h : parseArgs stof getenv argv = .ok config) :
    s.TakenFrom stof (s.supplied getenv argv) {} config := by
  obtain ⟨config₁, henv, hloop⟩ := bind_eq_ok.mp h
  exact (takenFrom_of_configFromEnv henv).trans (takenFrom_of_parseLoop hs hloop)

end Arguments

end JotaTranscriber
