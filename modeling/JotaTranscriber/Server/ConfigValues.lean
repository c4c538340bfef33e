import JotaTranscriber.Server.CommandLine

/-! # Numbers and the model on the command line

A port or a limit is read as an unsigned 64-bit number and narrowed to its
field: a number out of the field's range, or negative, becomes another one
unless it does not even fit 64 bits. An argument that is no option names the
model only where the model is still the file `parseArgs` takes for the default,
which the configuration no longer has as its default.
-/

namespace JotaTranscriber

/-- An option as it is written, with the argument that follows it. -/
inductive CommandOption where
  | setting (s : Setting) (value : Bytes)
  | envFile (path : Bytes)
  | threadSafe

namespace CommandOption

def tokens : CommandOption → List Bytes
  | setting s value => [s.option, value]
  | envFile path => [lit "--env-file", path]
  | threadSafe => [lit "--thread-safe"]

/-- What an option does to the configuration. -/
def apply (stof : Bytes → Except ConfigFailure ℚ) (config : ServerConfig) :
    CommandOption → Except ConfigFailure ServerConfig
  | setting s value => s.set stof value config
  | envFile _ => .ok config
  | threadSafe => .ok config

/-- The arguments of a sequence of options. -/
def arguments (options : List CommandOption) : List Bytes := options.flatMap tokens

variable {stof : Bytes → Except ConfigFailure ℚ} {config config' : ServerConfig}
  {rest : List Bytes} {s : Setting} {options : List CommandOption}

theorem parseArg_setting (value : Bytes) : parseArg stof s.option (some value) config =
    (s.set stof value config).map fun config => (config, true) := by
  have hhelp : s.option ≠ lit "--help" := by cases s <;> decide
  have hfile : s.option ≠ lit "--env-file" := by cases s <;> decide
  unfold parseArg
  rw [if_neg hhelp, if_neg (by simp [hfile]), s.optionSetting_option]

/-- The loop does what an option says, and goes on with the arguments after it. -/
theorem parseLoop_tokens (o : CommandOption) : parseLoop stof false (o.tokens ++ rest) config =
    (o.apply stof config).bind (parseLoop stof false rest) := by
  cases o with
  | setting s value =>
    change parseLoop stof false (s.option :: value :: rest) config =
      (s.set stof value config).bind _
    rw [parseLoop, List.head?_cons, parseArg_setting]
    cases s.set stof value config with
    | error e => rfl
    | ok config₁ => rfl
  | envFile path => rfl
  | threadSafe => cases rest <;> rfl

theorem arguments_append (options options' : List CommandOption) :
    arguments (options ++ options') = arguments options ++ arguments options' :=
  List.flatMap_append

/-- The loop does what a sequence of options says, and goes on after them. -/
theorem parseLoop_arguments : parseLoop stof false (arguments options ++ rest) config =
    (options.foldlM (apply stof) config).bind (parseLoop stof false rest) := by
  induction options generalizing config with
  | nil => rfl
  | cons o options ih =>
    rw [arguments, List.flatMap_cons, List.append_assoc, parseLoop_tokens, List.foldlM_cons]
    cases o.apply stof config with
    | error e => rfl
    | ok config₁ => exact ih

/-- Options that do not name the model leave it. -/
theorem modelPath_of_foldlM (hoptions : ∀ o ∈ options, ∀ path, o ≠ setting .modelPath path)
    (h : options.foldlM (apply stof) config = .ok config') :
    config'.modelPath = config.modelPath := by
  induction options generalizing config with
  | nil =>
    cases h
    rfl
  | cons o options ih =>
    rw [List.forall_mem_cons] at hoptions
    rw [List.foldlM_cons] at h
    obtain ⟨config₁, hfirst, hrest⟩ := bind_eq_ok.mp h
    rw [ih hoptions.2 hrest]
    cases o with
    | setting s value =>
      have hs : Setting.modelPath ≠ s := by
        rintro rfl
        exact hoptions.1 value rfl
      obtain ⟨v, -, rfl⟩ := Setting.set_eq_ok.mp hfirst
      exact Setting.get_put_of_ne hs v config
    | envFile path =>
      cases hfirst
      rfl
    | threadSafe =>
      cases hfirst
      rfl

end CommandOption

/-! ## Ports and limits -/

/-- The fields that are converted by `stoul`. -/
inductive UnsignedSetting where
  | port | maxConnections | maxConnectionsPerIp
  deriving DecidableEq, Repr

namespace UnsignedSetting

def setting : UnsignedSetting → Setting
  | port => .port
  | maxConnections => .maxConnections
  | maxConnectionsPerIp => .maxConnectionsPerIp

/-- The width of the field. -/
def bits : UnsignedSetting → ℕ
  | port => 16
  | maxConnections | maxConnectionsPerIp => 64

def read : UnsignedSetting → ServerConfig → ℕ
  | port, config => config.port.toNat
  | maxConnections, config => config.maxConnections.toNat
  | maxConnectionsPerIp, config => config.maxConnectionsPerIp.toNat

variable {u : UnsignedSetting} {text : Bytes} {z : ℤ} {stof : Bytes → Except ConfigFailure ℚ}
  {getenv : Bytes → Option Bytes} {argv : List Bytes} {config : ServerConfig}

theorem dropWhile_isSpace_of_writes (h : Decimal.Writes text z) :
    text.dropWhile isSpace = text := by
  obtain ⟨c, rest, rfl, hc⟩ := h.head
  have hspace : isSpace c = false := by
    rcases hc with rfl | rfl | hdigit
    · decide
    · decide
    · simp only [Decimal.isDigit, Bool.and_eq_true, decide_eq_true_eq,
        UInt8.le_iff_toNat_le] at hdigit
      have h48 : 48 ≤ c.toNat := hdigit.1
      have hblank : c ≠ 32 := by
        rintro rfl
        exact absurd h48 (by decide)
      have hcontrol : ¬ c ≤ 13 := by
        rw [UInt8.le_iff_toNat_le]
        change ¬ c.toNat ≤ 13
        omega
      simp [isSpace, hblank, hcontrol]
  rw [List.dropWhile_cons_of_neg (by simp [hspace])]

theorem stoul_of_writes (h : Decimal.Writes text z) : stoul text =
    if 2 ^ 64 ≤ z.natAbs then .error (.outOfRange (lit "stoul")) else .ok (UInt64.ofInt z) := by
  rw [stoul, dropWhile_isSpace_of_writes h, Decimal.scan_of_writes h]

theorem toNat_ofInt (z : ℤ) : ((UInt64.ofInt z).toNat : ℤ) = z % 2 ^ 64 := by
  rw [UInt64.ofInt]
  simp
  omega

theorem convert_eq_ok (hlt : z.natAbs < 2 ^ 64) (hz : Decimal.Writes text z) :
    ∃ v, u.setting.convert stof text = .ok v := by
  have hnarrow := stoul_of_writes hz
  rw [if_neg (by omega)] at hnarrow
  cases u with
  | port => exact ⟨_, congrArg (Except.map UInt64.toUInt16) hnarrow⟩
  | maxConnections => exact ⟨_, hnarrow⟩
  | maxConnectionsPerIp => exact ⟨_, hnarrow⟩

/-- A conversion that returns leaves the number as it wraps in the field. -/
theorem read_of_convert (hz : Decimal.Writes text z)
    (h : u.setting.convert stof text = .ok (u.setting.get config)) :
    z.natAbs < 2 ^ 64 ∧ (u.read config : ℤ) = z % 2 ^ u.bits := by
  have hstoul {v : UInt64} (hv : stoul text = .ok v) : z.natAbs < 2 ^ 64 ∧ v = UInt64.ofInt z := by
    rw [stoul_of_writes hz] at hv
    split at hv <;> cases hv
    exact ⟨by omega, rfl⟩
  cases u with
  | port =>
    obtain ⟨v, hv, hport⟩ := map_eq_ok.mp h
    obtain ⟨hlt, rfl⟩ := hstoul hv
    have hwide := toNat_ofInt z
    refine ⟨hlt, ?_⟩
    change (config.port.toNat : ℤ) = z % 2 ^ 16
    rw [← show (UInt64.ofInt z).toUInt16 = config.port from hport, UInt64.toNat_toUInt16]
    omega
  | maxConnections =>
    obtain ⟨hlt, hv⟩ := hstoul (v := config.maxConnections) h
    refine ⟨hlt, ?_⟩
    rw [read, hv, toNat_ofInt, bits]
  | maxConnectionsPerIp =>
    obtain ⟨hlt, hv⟩ := hstoul (v := config.maxConnectionsPerIp) h
    refine ⟨hlt, ?_⟩
    rw [read, hv, toNat_ofInt, bits]

/-- The number read is the number written exactly if that lies in the range of the field. -/
theorem read_eq_iff (hz : Decimal.Writes text z)
    (hgiven : u.setting.supplied getenv argv = some text)
    (h : parseArgs stof getenv argv = .ok config) :
    z.natAbs < 2 ^ 64 ∧ ((u.read config : ℤ) = z ↔ 0 ≤ z ∧ z < 2 ^ u.bits) := by
  have hmodel : u.setting ≠ .modelPath := by cases u <;> decide
  have htaken := takenFrom_of_parseArgs hmodel h
  rw [hgiven] at htaken
  obtain ⟨hlt, hread⟩ := read_of_convert hz htaken
  refine ⟨hlt, ?_⟩
  rw [hread]
  have hpos : (0 : ℤ) < 2 ^ u.bits := by cases u <;> decide
  constructor
  · intro heq
    rw [← heq]
    exact ⟨Int.emod_nonneg _ hpos.ne', Int.emod_lt_of_pos _ hpos⟩
  · rintro ⟨hlow, hhigh⟩
    exact Int.emod_eq_of_lt hlow hhigh

/-- The option alone, with nothing in the environment. -/
theorem parseArgs_option (binary : Bytes) {v : u.setting.Value}
    (hv : u.setting.convert stof text = .ok v) :
    parseArgs stof (fun _ => none) [binary, u.setting.option, text] =
      .ok (u.setting.put v {}) := by
  have henv : configFromEnv stof (fun _ => none) = .ok {} := rfl
  have hloop : parseLoop stof false ((CommandOption.setting u.setting text).tokens ++ []) {} = _ :=
    CommandOption.parseLoop_tokens _
  rw [parseArgs, henv]
  change parseLoop stof false [u.setting.option, text] {} = _
  rw [show [u.setting.option, text] = (CommandOption.setting u.setting text).tokens ++ [] from rfl,
    hloop, CommandOption.apply, Setting.set, hv]
  rfl

theorem supplied_option (binary : Bytes) :
    u.setting.supplied (fun _ => none) [binary, u.setting.option, text] = some text := by
  simp [Setting.supplied, Setting.lastValue, takesValue, Setting.optionSetting_option]

/-- A number written for a port or a limit is what every configuration has that is read with it,
or none is read, if and only if the number is in the range of the field or does not fit 64 bits;
and whichever configuration is read with it has that number exactly if it is in the range. -/
theorem read_exact_iff (hz : Decimal.Writes text z) :
    ((∀ getenv argv config, u.setting.supplied getenv argv = some text →
        parseArgs stof getenv argv = .ok config → (u.read config : ℤ) = z) ↔
        (0 ≤ z ∧ z < 2 ^ u.bits) ∨ 2 ^ 64 ≤ z.natAbs) ∧
      ∀ getenv argv config, u.setting.supplied getenv argv = some text →
        parseArgs stof getenv argv = .ok config →
        ((u.read config : ℤ) = z ↔ 0 ≤ z ∧ z < 2 ^ u.bits) := by
  have hexact : ∀ getenv argv config, u.setting.supplied getenv argv = some text →
      parseArgs stof getenv argv = .ok config →
      ((u.read config : ℤ) = z ↔ 0 ≤ z ∧ z < 2 ^ u.bits) :=
    fun _ _ _ hgiven h => (read_eq_iff hz hgiven h).2
  refine ⟨⟨?_, ?_⟩, hexact⟩
  · intro hall
    by_cases hlt : z.natAbs < 2 ^ 64
    · left
      obtain ⟨v, hv⟩ : ∃ v, u.setting.convert stof text = .ok v := convert_eq_ok hlt hz
      have hrun := parseArgs_option (lit "jota-transcriber") hv
      have hgiven : u.setting.supplied (fun _ => none) [_, u.setting.option, text] = some text :=
        supplied_option (lit "jota-transcriber")
      exact (hexact _ _ _ hgiven hrun).mp (hall _ _ _ hgiven hrun)
    · exact .inr (not_lt.mp hlt)
  · rintro (hrange | hwide) getenv argv config hgiven h
    · exact (hexact getenv argv config hgiven h).mpr hrange
    · have := (read_eq_iff hz hgiven h).1
      omega

end UnsignedSetting

namespace Demo

/-- A conversion to `float` that nothing here calls. -/
def noFloats : Bytes → Except ConfigFailure ℚ := fun _ => .error (.invalidArgument (lit "stof"))

/-- A port in the range of ports. -/
theorem port_read_exactly : ∃ config,
    parseArgs noFloats (fun _ => none) [lit "jota-transcriber", lit "--port", lit "8080"] =
      .ok config ∧ (config.port.toNat : ℤ) = 8080 := by
  have hz : Decimal.Writes (lit "8080") 8080 :=
    @Decimal.Writes.unsigned (lit "8080") (by decide) (List.all_eq_true.mp (by decide))
  refine ⟨{ port := 8080 }, rfl, ?_⟩
  exact ((@UnsignedSetting.read_exact_iff .port _ _ noFloats hz).2 (fun _ => none)
    [lit "jota-transcriber", lit "--port", lit "8080"] { port := 8080 } (by decide)
    rfl).mpr (by decide)

/-- A limit of minus one connection becomes the greatest there is. -/
theorem limit_wraps_of_minus_one :
    ¬ ∀ (text : Bytes) (z : ℤ) (getenv : Bytes → Option Bytes) (argv : List Bytes)
        (config : ServerConfig), Decimal.Writes text z →
        Setting.maxConnections.supplied getenv argv = some text →
        parseArgs noFloats getenv argv = .ok config → (config.maxConnections.toNat : ℤ) = z := by
  intro hall
  have hz : Decimal.Writes (lit "-1") (-1) :=
    @Decimal.Writes.minus (lit "1") (by decide) (List.all_eq_true.mp (by decide))
  have hwrapped := hall _ _ (fun _ => none)
    [lit "jota-transcriber", lit "--max-connections", lit "-1"]
    { maxConnections := 18446744073709551615 } hz (by decide) rfl
  exact absurd hwrapped (by decide)

end Demo

/-! ## The model as an argument -/

section Model

variable {stof : Bytes → Except ConfigFailure ℚ} {getenv : Bytes → Option Bytes}
  {binary arg : Bytes} {before after : List CommandOption} {config : ServerConfig}

/-- The argument between the options names the model, and changes nothing else. -/
def TakesModel (stof : Bytes → Except ConfigFailure ℚ) (getenv : Bytes → Option Bytes)
    (binary : Bytes) (before : List CommandOption) (arg : Bytes) (after : List CommandOption) :
    Prop :=
  ∃ config,
    parseArgs stof getenv (binary :: CommandOption.arguments (before ++ after)) = .ok config ∧
      parseArgs stof getenv (binary ::
        (CommandOption.arguments before ++ arg :: CommandOption.arguments after)) =
          .ok { config with modelPath := arg }

/-- An argument that is not an option is the model exactly where no other model than the one
compared with has been named. -/
theorem parseArg_of_no_dashes (harg : ¬ lit "--" <+: arg) (next : Option Bytes) :
    parseArg stof arg next config =
      if config.modelPath = lit "third_party/whisper.cpp/models/ggml-base.bin" then
        .ok ({ config with modelPath := arg }, false)
      else .error (.exit 1 (some (lit "Unknown argument: " ++ arg))) := by
  have hne {option : Bytes} (hdashes : lit "--" <+: option) : arg ≠ option := by
    rintro rfl
    exact harg hdashes
  unfold parseArg
  rw [if_neg (hne (by decide)), if_neg (fun h => hne (by decide) h.1),
    optionSetting_of_no_dashes harg]
  simp only [if_neg (hne (show lit "--" <+: lit "--thread-safe" by decide)), harg,
    not_false_eq_true, true_and]

/-- Without a model in the environment, only an option sets it. -/
theorem modelPath_of_configFromEnv (henv : env getenv (lit "MODEL_PATH") = [])
    (h : configFromEnv stof getenv = .ok config) :
    config.modelPath = lit "third_party/whisper.cpp/models/ggml-small.bin" := by
  have hunset : Setting.modelPath.envValue getenv = none := if_pos henv
  have htaken := takenFrom_of_configFromEnv (s := .modelPath) h
  rw [hunset] at htaken
  exact htaken

/-- Where no variable and no option names the model, an argument that is not an option never does:
after options that are read it is refused as unknown. -/
theorem not_takesModel (henv : env getenv (lit "MODEL_PATH") = [])
    (hoptions : ∀ o ∈ before ++ after, ∀ path, o ≠ .setting .modelPath path)
    (harg : ¬ lit "--" <+: arg) :
    ¬ TakesModel stof getenv binary before arg after ∧
      ∀ config,
        parseArgs stof getenv (binary :: CommandOption.arguments (before ++ after)) = .ok config →
        parseArgs stof getenv (binary ::
          (CommandOption.arguments before ++ arg :: CommandOption.arguments after)) =
            .error (.exit 1 (some (lit "Unknown argument: " ++ arg))) := by
  have hrefused : ∀ config,
      parseArgs stof getenv (binary :: CommandOption.arguments (before ++ after)) = .ok config →
      parseArgs stof getenv (binary ::
        (CommandOption.arguments before ++ arg :: CommandOption.arguments after)) =
          .error (.exit 1 (some (lit "Unknown argument: " ++ arg))) := by
    intro config h
    obtain ⟨config₀, hread, hloop⟩ := bind_eq_ok.mp h
    rw [List.tail_cons, CommandOption.arguments_append, CommandOption.parseLoop_arguments] at hloop
    obtain ⟨config₁, hbefore, -⟩ := bind_eq_ok.mp hloop
    have hmodel : config₁.modelPath = lit "third_party/whisper.cpp/models/ggml-small.bin" := by
      rw [CommandOption.modelPath_of_foldlM
        (fun o ho => hoptions o (List.mem_append_left _ ho)) hbefore,
        modelPath_of_configFromEnv henv hread]
    have hother : config₁.modelPath ≠ lit "third_party/whisper.cpp/models/ggml-base.bin" := by
      rw [hmodel]
      decide
    rw [parseArgs, hread, List.tail_cons]
    change parseLoop stof false _ config₀ = _
    rw [CommandOption.parseLoop_arguments, hbefore]
    change parseLoop stof false (arg :: _) config₁ = _
    rw [parseLoop, parseArg_of_no_dashes harg, if_neg hother]
    rfl
  refine ⟨?_, hrefused⟩
  rintro ⟨config, hwithout, hwith⟩
  rw [hrefused config hwithout] at hwith
  cases hwith

end Model

namespace Demo

/-- A model after a port, with the options that are read without it. -/
theorem model_refused_after_port :
    parseArgs noFloats (fun _ => none)
        [lit "jota-transcriber", lit "--port", lit "8080", lit "model.bin", lit "--thread-safe"] =
      .error (.exit 1 (some (lit "Unknown argument: model.bin"))) := by
  have hoptions : ∀ o ∈ [CommandOption.setting .port (lit "8080")] ++ [.threadSafe],
      ∀ path, o ≠ .setting .modelPath path := by
    simp
  exact (@not_takesModel noFloats (fun _ => none) (lit "jota-transcriber") (lit "model.bin") _ _
    rfl hoptions (by decide)).2 { port := 8080 } rfl

/-- The one argument of a command line names a model, and is refused. -/
theorem model_refused_alone :
    ¬ ∀ (getenv : Bytes → Option Bytes) (binary arg : Bytes) (before after : List CommandOption),
        env getenv (lit "MODEL_PATH") = [] →
        (∀ o ∈ before ++ after, ∀ path, o ≠ .setting .modelPath path) → ¬ lit "--" <+: arg →
        (∃ config, parseArgs noFloats getenv
          (binary :: CommandOption.arguments (before ++ after)) = .ok config) →
        TakesModel noFloats getenv binary before arg after := by
  intro hall
  obtain ⟨config, -, hwith⟩ := hall (fun _ => none) (lit "jota-transcriber") (lit "model.bin") [] []
    rfl (by simp) (by decide) ⟨_, rfl⟩
  have hrefused : parseArgs noFloats (fun _ => none) [lit "jota-transcriber", lit "model.bin"] =
      .error (.exit 1 (some (lit "Unknown argument: model.bin"))) := rfl
  cases hrefused.symm.trans hwith

end Demo

end JotaTranscriber
