import Mathlib.Algebra.Ring.Int.Defs
import JotaTranscriber.Text.Decimal
import JotaTranscriber.Text.HallucinationGuard

/-! # The configuration of the server

Each field of the configuration can be set by an environment variable and by
an option of the command line, both converting the value in the same way. The
environment is read first, and then the arguments one after the other.
-/

namespace JotaTranscriber

structure ServerConfig where
  modelPath : Bytes := lit "third_party/whisper.cpp/models/ggml-small.bin"
  bindAddress : Bytes := lit "0.0.0.0"
  port : UInt16 := 9001
  certPath : Bytes := []
  keyPath : Bytes := []
  maxConnections : UInt64 := 8
  maxConnectionsPerIp : UInt64 := 2
  sessionTimeoutSec : ℤ := 30
  authToken : Bytes := []
  authApiUrl : Bytes := []
  authApiSecret : Bytes := []
  authCacheTtl : ℤ := 300
  authApiTimeout : ℤ := 5
  whisperBeamSize : ℤ := 1
  whisperThreads : ℤ := 4
  maxConcurrentInference : ℤ := 4
  modelCacheTtl : ℤ := 300
  whisperInitialPrompt : Bytes := []
  whisperTemperature : ℚ := 0
  whisperTemperatureInc : ℚ := 0
  whisperNoSpeechThold : ℚ := 3 / 10
  whisperLogprobThold : ℚ := -7 / 10
  shutdownTimeoutSec : ℤ := 10
  deriving DecidableEq, Repr

/-- How reading the configuration ends without one. -/
inductive ConfigFailure where
  | invalidArgument (what : Bytes)
  | outOfRange (what : Bytes)
  /-- The usage is printed and the process exits, after an error is logged if there is one. -/
  | exit (status : ℤ) (error : Option Bytes)
  deriving DecidableEq, Repr

/-- Any integer that fits 64 bits without its sign is accepted, and a negative one wraps. -/
def stoul (text : Bytes) : Except ConfigFailure UInt64 :=
  match Decimal.scan (text.dropWhile isSpace) with
  | none => .error (.invalidArgument (lit "stoul"))
  | some z =>
    if 2 ^ 64 ≤ z.natAbs then .error (.outOfRange (lit "stoul")) else .ok (UInt64.ofInt z)

def stoi (text : Bytes) : Except ConfigFailure ℤ :=
  match Decimal.scan (text.dropWhile isSpace) with
  | none => .error (.invalidArgument (lit "stoi"))
  | some z => if -2 ^ 31 ≤ z ∧ z < 2 ^ 31 then .ok z else .error (.outOfRange (lit "stoi"))

/-- The fields that can be set, in the order the environment is read. -/
inductive Setting where
  | modelPath | bindAddress | port | authToken | authApiUrl | authApiSecret | authCacheTtl
  | authApiTimeout | certPath | keyPath | maxConnections | maxConnectionsPerIp | whisperBeamSize
  | whisperThreads | maxConcurrentInference | modelCacheTtl | whisperInitialPrompt
  | sessionTimeoutSec | whisperTemperature | whisperTemperatureInc | whisperNoSpeechThold
  | whisperLogprobThold | shutdownTimeoutSec
  deriving DecidableEq, Repr

namespace Setting

def all : List Setting :=
  [modelPath, bindAddress, port, authToken, authApiUrl, authApiSecret, authCacheTtl,
    authApiTimeout, certPath, keyPath, maxConnections, maxConnectionsPerIp, whisperBeamSize,
    whisperThreads, maxConcurrentInference, modelCacheTtl, whisperInitialPrompt,
    sessionTimeoutSec, whisperTemperature, whisperTemperatureInc, whisperNoSpeechThold,
    whisperLogprobThold, shutdownTimeoutSec]

/-- The environment variable `configFromEnv` reads. -/
def envVar : Setting → Bytes
  | modelPath => lit "MODEL_PATH"
  | bindAddress => lit "BIND_ADDRESS"
  | port => lit "PORT"
  | authToken => lit "AUTH_TOKEN"
  | authApiUrl => lit "AUTH_API_URL"
  | authApiSecret => lit "AUTH_API_SECRET"
  | authCacheTtl => lit "AUTH_CACHE_TTL"
  | authApiTimeout => lit "AUTH_API_TIMEOUT"
  | certPath => lit "TLS_CERT"
  | keyPath => lit "TLS_KEY"
  | maxConnections => lit "MAX_CONNECTIONS"
  | maxConnectionsPerIp => lit "MAX_CONNECTIONS_PER_IP"
  | whisperBeamSize => lit "WHISPER_BEAM_SIZE"
  | whisperThreads => lit "WHISPER_THREADS"
  | maxConcurrentInference => lit "MAX_CONCURRENT_INFERENCE"
  | modelCacheTtl => lit "MODEL_CACHE_TTL"
  | whisperInitialPrompt => lit "WHISPER_INITIAL_PROMPT"
  | sessionTimeoutSec => lit "SESSION_TIMEOUT_SEC"
  | whisperTemperature => lit "WHISPER_TEMPERATURE"
  | whisperTemperatureInc => lit "WHISPER_TEMPERATURE_INC"
  | whisperNoSpeechThold => lit "WHISPER_NO_SPEECH_THOLD"
  | whisperLogprobThold => lit "WHISPER_LOGPROB_THOLD"
  | shutdownTimeoutSec => lit "SHUTDOWN_TIMEOUT_SEC"

/-- The option of the command line that is followed by a value. -/
def option : Setting → Bytes
  | modelPath => lit "--model"
  | bindAddress => lit "--bind"
  | port => lit "--port"
  | authToken => lit "--auth-token"
  | authApiUrl => lit "--auth-api-url"
  | authApiSecret => lit "--auth-api-secret"
  | authCacheTtl => lit "--auth-cache-ttl"
  | authApiTimeout => lit "--auth-api-timeout"
  | certPath => lit "--cert"
  | keyPath => lit "--key"
  | maxConnections => lit "--max-connections"
  | maxConnectionsPerIp => lit "--max-connections-per-ip"
  | whisperBeamSize => lit "--whisper-beam-size"
  | whisperThreads => lit "--whisper-threads"
  | maxConcurrentInference => lit "--max-concurrent-inference"
  | modelCacheTtl => lit "--model-cache-ttl"
  | whisperInitialPrompt => lit "--whisper-initial-prompt"
  | sessionTimeoutSec => lit "--session-timeout-sec"
  | whisperTemperature => lit "--whisper-temperature"
  | whisperTemperatureInc => lit "--whisper-temperature-inc"
  | whisperNoSpeechThold => lit "--whisper-no-speech-thold"
  | whisperLogprobThold => lit "--whisper-logprob-thold"
  | shutdownTimeoutSec => lit "--shutdown-timeout-sec"

/-- The type of the field. -/
def Value : Setting → Type
  | port => UInt16
  | maxConnections | maxConnectionsPerIp => UInt64
  | authCacheTtl | authApiTimeout | whisperBeamSize | whisperThreads | maxConcurrentInference
  | modelCacheTtl | sessionTimeoutSec | shutdownTimeoutSec => ℤ
  | whisperTemperature | whisperTemperatureInc | whisperNoSpeechThold | whisperLogprobThold => ℚ
  | modelPath | bindAddress | authToken | authApiUrl | authApiSecret | certPath | keyPath
  | whisperInitialPrompt => Bytes

/-- The value of a text for the field; `stof` is the conversion to `float`. -/
def convert (stof : Bytes → Except ConfigFailure ℚ) :
    (s : Setting) → Bytes → Except ConfigFailure s.Value
  | port, v => (stoul v).map UInt64.toUInt16
  | maxConnections, v | maxConnectionsPerIp, v => stoul v
  | authCacheTtl, v | authApiTimeout, v | whisperBeamSize, v | whisperThreads, v
  | maxConcurrentInference, v | modelCacheTtl, v | sessionTimeoutSec, v
  | shutdownTimeoutSec, v => stoi v
  | whisperTemperature, v | whisperTemperatureInc, v | whisperNoSpeechThold, v
  | whisperLogprobThold, v => stof v
  | modelPath, v | bindAddress, v | authToken, v | authApiUrl, v | authApiSecret, v
  | certPath, v | keyPath, v | whisperInitialPrompt, v => .ok v

def get : (s : Setting) → ServerConfig → s.Value
  | modelPath, config => config.modelPath
  | bindAddress, config => config.bindAddress
  | port, config => config.port
  | authToken, config => config.authToken
  | authApiUrl, config => config.authApiUrl
  | authApiSecret, config => config.authApiSecret
  | authCacheTtl, config => config.authCacheTtl
  | authApiTimeout, config => config.authApiTimeout
  | certPath, config => config.certPath
  | keyPath, config => config.keyPath
  | maxConnections, config => config.maxConnections
  | maxConnectionsPerIp, config => config.maxConnectionsPerIp
  | whisperBeamSize, config => config.whisperBeamSize
  | whisperThreads, config => config.whisperThreads
  | maxConcurrentInference, config => config.maxConcurrentInference
  | modelCacheTtl, config => config.modelCacheTtl
  | whisperInitialPrompt, config => config.whisperInitialPrompt
  | sessionTimeoutSec, config => config.sessionTimeoutSec
  | whisperTemperature, config => config.whisperTemperature
  | whisperTemperatureInc, config => config.whisperTemperatureInc
  | whisperNoSpeechThold, config => config.whisperNoSpeechThold
  | whisperLogprobThold, config => config.whisperLogprobThold
  | shutdownTimeoutSec, config => config.shutdownTimeoutSec

def put : (s : Setting) → s.Value → ServerConfig → ServerConfig
  | modelPath, v, config => { config with modelPath := v }
  | bindAddress, v, config => { config with bindAddress := v }
  | port, v, config => { config with port := v }
  | authToken, v, config => { config with authToken := v }
  | authApiUrl, v, config => { config with authApiUrl := v }
  | authApiSecret, v, config => { config with authApiSecret := v }
  | authCacheTtl, v, config => { config with authCacheTtl := v }
  | authApiTimeout, v, config => { config with authApiTimeout := v }
  | certPath, v, config => { config with certPath := v }
  | keyPath, v, config => { config with keyPath := v }
  | maxConnections, v, config => { config with maxConnections := v }
  | maxConnectionsPerIp, v, config => { config with maxConnectionsPerIp := v }
  | whisperBeamSize, v, config => { config with whisperBeamSize := v }
  | whisperThreads, v, config => { config with whisperThreads := v }
  | maxConcurrentInference, v, config => { config with maxConcurrentInference := v }
  | modelCacheTtl, v, config => { config with modelCacheTtl := v }
  | whisperInitialPrompt, v, config => { config with whisperInitialPrompt := v }
  | sessionTimeoutSec, v, config => { config with sessionTimeoutSec := v }
  | whisperTemperature, v, config => { config with whisperTemperature := v }
  | whisperTemperatureInc, v, config => { config with whisperTemperatureInc := v }
  | whisperNoSpeechThold, v, config => { config with whisperNoSpeechThold := v }
  | whisperLogprobThold, v, config => { config with whisperLogprobThold := v }
  | shutdownTimeoutSec, v, config => { config with shutdownTimeoutSec := v }

/-- The field set from a text. -/
def set (stof : Bytes → Except ConfigFailure ℚ) (s : Setting) (text : Bytes)
    (config : ServerConfig) : Except ConfigFailure ServerConfig :=
  (s.convert stof text).map fun v => s.put v config

end Setting

section Reading

variable (stof : Bytes → Except ConfigFailure ℚ) (getenv : Bytes → Option Bytes)

/-- A variable that is not set reads as the empty string. -/
def env (var : Bytes) : Bytes := (getenv var).getD []

/-- A variable that is not empty sets its field. -/
def setFromEnv (cfg : ServerConfig) (s : Setting) : Except ConfigFailure ServerConfig :=
  if env getenv s.envVar = [] then .ok cfg else s.set stof (env getenv s.envVar) cfg

def configFromEnv : Except ConfigFailure ServerConfig :=
  Setting.all.foldlM (setFromEnv stof getenv) {}

/-- The field an option sets. -/
def optionSetting (arg : Bytes) : Option Setting := Setting.all.find? fun s => s.option = arg

/-- One turn of the loop over the arguments, and whether the argument after this one, `next`, was
its value. -/
def parseArg (arg : Bytes) (next : Option Bytes) (config : ServerConfig) :
    Except ConfigFailure (ServerConfig × Bool) :=
  if arg = lit "--help" then .error (.exit 0 none)
  else if arg = lit "--env-file" ∧ next ≠ none then .ok (config, true)
  else
    match optionSetting arg, next with
    | some s, some value => (s.set stof value config).map fun config => (config, true)
    | _, _ =>
      -- accepted for backwards compatibility
      if arg = lit "--thread-safe" then .ok (config, false)
      else if ¬ lit "--" <+: arg ∧
          config.modelPath = lit "third_party/whisper.cpp/models/ggml-base.bin" then
        .ok ({ config with modelPath := arg }, false)
      else .error (.exit 1 (some (lit "Unknown argument: " ++ arg)))

/-- The loop over the arguments, the first of which is skipped if it was consumed as a value. -/
def parseLoop : Bool → List Bytes → ServerConfig → Except ConfigFailure ServerConfig
  | _, [], config => .ok config
  | true, _ :: args, config => parseLoop false args config
  | false, arg :: args, config =>
    (parseArg stof arg args.head? config).bind fun (config, consumed) =>
      parseLoop consumed args config

def parseArgs (argv : List Bytes) : Except ConfigFailure ServerConfig :=
  (configFromEnv stof getenv).bind (parseLoop stof false argv.tail)

end Reading

end JotaTranscriber
