import JotaTranscriber.Text.Json

/-! # The client of the auth API

One `GET` request for each token. Everything that can go wrong on the way, from
the URL to the body of the answer, ends in `ApiUnavailable`; only a status of
200 with a body that says so allows a token.
-/

namespace JotaTranscriber

structure ApiAuthConfig where
  apiBaseUrl : Bytes
  apiSecretKey : Bytes
  timeoutSeconds : ℤ := 5
  cacheTtlSeconds : ℤ := 300
  staticToken : Bytes := []
  deriving DecidableEq, Repr

inductive AuthResult where
  | allowed | denied | apiUnavailable
  deriving DecidableEq, Repr

structure HttpRequest where
  method : Bytes
  target : Bytes
  version : ℕ
  fields : List (Bytes × Bytes) := []
  deriving DecidableEq, Repr

namespace HttpRequest

/-- Set a header field, in place of what it was before. -/
def set (req : HttpRequest) (name value : Bytes) : HttpRequest :=
  { req with fields := req.fields.filter (fun f => f.1 ≠ name) ++ [(name, value)] }

def get? (req : HttpRequest) (name : Bytes) : Option Bytes :=
  (req.fields.find? fun f => f.1 = name).map Prod.snd

theorem get?_set (req : HttpRequest) (name value : Bytes) :
    (req.set name value).get? name = some value := by
  have hnone : (req.fields.filter fun f => f.1 ≠ name).find? (fun f => f.1 = name) = none := by
    simp [List.find?_eq_none]
  simp only [get?, set, List.find?_append, hnone]
  simp

end HttpRequest

structure HttpResponse where
  status : ℕ
  body : Bytes
  deriving DecidableEq, Repr

structure Endpoint where
  address : Bytes
  isV6 : Bool
  isLinkLocal : Bool
  deriving DecidableEq, Repr

/-- What the network and the API do with one call: the resolver, and the exchange from the
connection to the last byte of the answer, each step of it within the timeout. -/
structure Network where
  resolve (host port : Bytes) : Except Exn (List Endpoint)
  exchange (endpoint : Endpoint) (tls : Bool) (timeoutSeconds : ℤ) (req : HttpRequest) :
    Except Exn HttpResponse

namespace ApiAuthClient

/-- A line terminator, which `.` does not match. -/
def isLineTerminator (c : UInt8) : Bool := c = 10 || c = 13

/-- The host up to the first slash, and the path from there on. -/
def parseHost (scheme rest : Bytes) : Option (Bytes × Bytes × Bytes) :=
  let host := rest.takeWhile (· ≠ 47)
  let basePath := rest.dropWhile (· ≠ 47)
  if host = [] || basePath.any isLineTerminator then none else some (scheme, host, basePath)

/-- The match of a URL with `^(https?)://([^/]+)(/.*)?`. -/
def parseUrl (url : Bytes) : Option (Bytes × Bytes × Bytes) :=
  if (lit "http://").isPrefixOf url then parseHost (lit "http") (url.drop 7)
  else if (lit "https://").isPrefixOf url then parseHost (lit "https") (url.drop 8)
  else none

/-- The first endpoint that is not link-local. -/
def resolveEndpoint (net : Network) (host port : Bytes) : Except Exn Endpoint :=
  match net.resolve host port with
  | .error x => .error x
  | .ok results =>
    match results.find? fun e => !(e.isV6 && e.isLinkLocal) with
    | some e => .ok e
    | none => .error (.runtimeError (lit "no routable address for " ++ host))

def request (config : ApiAuthConfig) (host target clientKey : Bytes) : HttpRequest :=
  { method := lit "GET", target, version := 11 : HttpRequest }
    |>.set (lit "Host") host
    |>.set (lit "User-Agent") (lit "TranscriptionServer/1.0")
    |>.set (lit "Authorization") (lit "Bearer " ++ config.apiSecretKey)
    |>.set (lit "X-API-Key") clientKey

/-- What an answer of the API says. -/
def readResponse (parse : Bytes → Except Exn Json) (res : HttpResponse) : AuthResult :=
  if res.status = 401 ∨ res.status = 403 then .denied
  else if res.status = 200 then
    match parse res.body with
    | .error _ => .apiUnavailable
    | .ok body =>
      match body.valueBool (lit "is_active") false with
      | .ok true => .allowed
      | .ok false => .denied
      | .error _ => .apiUnavailable
  else .apiUnavailable

def validate (config : ApiAuthConfig) (parse : Bytes → Except Exn Json) (net : Network)
    (clientKey : Bytes) : AuthResult :=
  match parseUrl config.apiBaseUrl with
  | none => .apiUnavailable
  | some (scheme, host, basePath) =>
    let useTls := scheme = lit "https"
    let port := if useTls then lit "443" else lit "80"
    let target := basePath ++ lit "/client"
    match resolveEndpoint net host port with
    | .error _ => .apiUnavailable
    | .ok endpoint =>
      match net.exchange endpoint useTls config.timeoutSeconds
        (request config host target clientKey) with
      | .error _ => .apiUnavailable
      | .ok res => readResponse parse res

/-- The API answered a request that carries this token with HTTP 200 and an object whose
`is_active` is the boolean true. -/
def Approves (parse : Bytes → Except Exn Json) (net : Network) (token : Bytes) : Prop :=
  ∃ endpoint tls timeout req res body, req.get? (lit "X-API-Key") = some token ∧
    net.exchange endpoint tls timeout req = .ok res ∧ res.status = 200 ∧
    parse res.body = .ok body ∧ body.find? (lit "is_active") = some (.boolean true)

variable {config : ApiAuthConfig} {parse : Bytes → Except Exn Json} {net : Network}
  {token : Bytes} {res : HttpResponse}

theorem readResponse_eq_allowed : readResponse parse res = .allowed ↔
    res.status = 200 ∧ ∃ body, parse res.body = .ok body ∧
      body.find? (lit "is_active") = some (.boolean true) := by
  simp only [← Json.valueBool_false_eq_true]
  unfold readResponse
  split
  · rename_i h
    simp only [reduceCtorEq, false_iff]
    omega
  split
  · rename_i h200
    cases hp : parse res.body with
    | error x => simp
    | ok body =>
      simp only [h200, true_and, Except.ok.injEq, exists_eq_left']
      cases hv : body.valueBool (lit "is_active") false with
      | error x => simp
      | ok b => cases b <;> simp
  · simp [*]

/-- A token is allowed only by an answer of the API to a request that carries it. -/
theorem approves_of_validate (h : validate config parse net token = .allowed) :
    Approves parse net token := by
  unfold validate at h
  split at h
  · cases h
  · dsimp only at h
    split at h
    · cases h
    · split at h
      · cases h
      · rename_i res hres
        obtain ⟨hstatus, body, hparse, hactive⟩ := readResponse_eq_allowed.mp h
        exact ⟨_, _, _, _, res, body, HttpRequest.get?_set _ _ _, hres, hstatus, hparse, hactive⟩

end ApiAuthClient

end JotaTranscriber
