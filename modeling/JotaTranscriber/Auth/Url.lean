import Mathlib.Data.List.TakeWhile
import JotaTranscriber.Auth.ApiAuthClient
import JotaTranscriber.Text.Regex

/-! # The URL of the auth API

What the client takes a URL apart into, and whom it contacts then. The host is
all that stands before the path, a port included, and the port is that of the
scheme: of the URLs that are written properly only those without a port are
contacted as they say.
-/

namespace JotaTranscriber

namespace ApiAuthClient

variable {url scheme rest host path : Bytes}

/-- Empty, or what begins with a slash, and on one line. -/
def IsPath (path : Bytes) : Prop :=
  (path = [] ∨ path.head? = some 47) ∧ ∀ c ∈ path, isLineTerminator c = false

theorem takeWhile_host (hhost : 47 ∉ host) (hpath : path = [] ∨ path.head? = some 47) :
    (host ++ path).takeWhile (· ≠ 47) = host ∧ (host ++ path).dropWhile (· ≠ 47) = path := by
  have hall : ∀ c ∈ host, decide (c ≠ 47) = true := by
    intro c hc
    rw [decide_eq_true_eq]
    rintro rfl
    exact hhost hc
  rw [List.takeWhile_append_of_pos hall, List.dropWhile_append_of_pos hall]
  cases path with
  | nil => simp
  | cons c path =>
    obtain rfl : c = 47 := by simpa using hpath
    simp

theorem parseHost_eq_some : parseHost scheme rest = some (scheme, host, path) ↔
    rest = host ++ path ∧ host ≠ [] ∧ 47 ∉ host ∧ IsPath path := by
  unfold parseHost
  dsimp only
  constructor
  · intro h
    split at h
    · cases h
    · rename_i hok
      cases h
      simp only [Bool.or_eq_true, decide_eq_true_eq, List.any_eq_true, not_or, not_exists,
        not_and, Bool.not_eq_true] at hok
      refine ⟨(List.takeWhile_append_dropWhile).symm, hok.1, ?_, ?_, hok.2⟩
      · intro hmem
        have := List.mem_takeWhile_imp hmem
        simp at this
      · have hhead := List.head?_dropWhile_not (fun c : UInt8 => decide (c ≠ 47)) rest
        split at hhead
        · rename_i c hc
          right
          rw [hc]
          simpa using hhead
        · rename_i hnone
          exact .inl (List.head?_eq_none_iff.mp hnone)
  · rintro ⟨rfl, hne, hslash, hstart, hlines⟩
    obtain ⟨htake, hdrop⟩ := takeWhile_host hslash hstart
    rw [htake, hdrop, if_neg]
    simpa [hne] using hlines

theorem scheme_of_parseHost {u : Bytes × Bytes × Bytes} (h : parseHost scheme rest = some u) :
    u.1 = scheme := by
  unfold parseHost at h
  dsimp only at h
  split at h <;> cases h
  rfl

/-- Either scheme is recognised, and what follows it is taken apart. -/
theorem parseUrl_scheme (hscheme : scheme = lit "http" ∨ scheme = lit "https") (rest : Bytes) :
    parseUrl (scheme ++ lit "://" ++ rest) = parseHost scheme rest := by
  rcases hscheme with rfl | rfl
  · have hstart : lit "http" ++ lit "://" = lit "http://" := by decide
    have hlength : (lit "http://").length = 7 := by decide
    rw [hstart, parseUrl, if_pos (List.isPrefixOf_iff_prefix.mpr (List.prefix_append _ _)),
      ← hlength, List.drop_left]
  · have hstart : lit "https" ++ lit "://" = lit "https://" := by decide
    have hlength : (lit "https://").length = 8 := by decide
    have hnot : ¬ (lit "http://").isPrefixOf (lit "https://" ++ rest) = true := by
      rw [show lit "http://" = [104, 116, 116, 112, 58, 47, 47] by decide,
        show lit "https://" = [104, 116, 116, 112, 115, 58, 47, 47] by decide]
      simp [List.isPrefixOf]
    rw [hstart, parseUrl, if_neg hnot,
      if_pos (List.isPrefixOf_iff_prefix.mpr (List.prefix_append _ _)), ← hlength, List.drop_left]

/-- Exactly the URLs that are taken apart, and into what. -/
theorem parseUrl_eq_some : parseUrl url = some (scheme, host, path) ↔
    (scheme = lit "http" ∨ scheme = lit "https") ∧
      url = scheme ++ lit "://" ++ (host ++ path) ∧ host ≠ [] ∧ 47 ∉ host ∧ IsPath path := by
  constructor
  · intro h
    have hsplit (s : Bytes) (hs : s ++ lit "://" <+: url) (n : ℕ)
        (hn : (s ++ lit "://").length = n)
        (hrest : parseHost s (url.drop n) = some (scheme, host, path)) :
        scheme = s ∧ url = scheme ++ lit "://" ++ (host ++ path) ∧ host ≠ [] ∧ 47 ∉ host ∧
          IsPath path := by
      obtain rfl : scheme = s := scheme_of_parseHost hrest
      obtain ⟨rest, rfl⟩ := hs
      rw [← hn, List.drop_left, parseHost_eq_some] at hrest
      obtain ⟨rfl, hok⟩ := hrest
      exact ⟨rfl, rfl, hok⟩
    unfold parseUrl at h
    split at h
    · rename_i hstart
      obtain ⟨hs, hok⟩ := hsplit (lit "http") (List.isPrefixOf_iff_prefix.mp hstart) 7
        (by decide) h
      exact ⟨.inl hs, hok⟩
    · split at h
      · rename_i hstart
        obtain ⟨hs, hok⟩ := hsplit (lit "https") (List.isPrefixOf_iff_prefix.mp hstart) 8
          (by decide) h
        exact ⟨.inr hs, hok⟩
      · cases h
  · rintro ⟨hscheme, rfl, hok⟩
    rw [parseUrl_scheme hscheme, parseHost_eq_some]
    exact ⟨rfl, hok⟩

def schemeRegex : Regex UInt8 := .seq (.literal (lit "http")) (.opt (.literal (lit "s")))

def hostRegex : Regex UInt8 := .plus (· ≠ 47)

def pathRegex : Regex UInt8 := .seq (.literal (lit "/")) (.many fun c => !isLineTerminator c)

/-- The expression `^(https?)://([^/]+)(/.*)?`; a match of the whole text starts where the text
does. -/
def urlRegex : Regex UInt8 :=
  .seq (.group 1 schemeRegex)
    (.seq (.literal (lit "://")) (.seq (.group 2 hostRegex) (.opt (.group 3 pathRegex))))

/-- The groups of a match; the third one may not take part. -/
def urlCaptures (scheme host path : Bytes) : Regex.Captures UInt8 :=
  (1, scheme) :: (2, host) :: if path = [] then [] else [(3, path)]

variable {s : Bytes} {cs : Regex.Captures UInt8}

theorem matches_schemeRegex :
    schemeRegex.Matches s cs ↔ (s = lit "http" ∨ s = lit "https") ∧ cs = [] := by
  have hs : lit "http" ++ lit "s" = lit "https" := by decide
  simp only [schemeRegex, Regex.matches_seq, Regex.matches_opt, Regex.matches_literal]
  constructor
  · rintro ⟨_, _, _, _, ⟨rfl, rfl⟩, ⟨rfl, rfl⟩ | ⟨rfl, rfl⟩, rfl, rfl⟩
    · exact ⟨.inr hs, rfl⟩
    · exact ⟨.inl (List.append_nil _), rfl⟩
  · rintro ⟨rfl | rfl, rfl⟩
    · exact ⟨_, [], [], [], ⟨rfl, rfl⟩, .inr ⟨rfl, rfl⟩, (List.append_nil _).symm, rfl⟩
    · exact ⟨_, _, [], [], ⟨rfl, rfl⟩, .inl ⟨rfl, rfl⟩, hs.symm, rfl⟩

theorem matches_hostRegex : hostRegex.Matches s cs ↔ s ≠ [] ∧ 47 ∉ s ∧ cs = [] := by
  rw [hostRegex, Regex.matches_plus]
  have hslash : (∀ c ∈ s, decide (c ≠ 47) = true) ↔ 47 ∉ s := by
    simp only [decide_eq_true_eq]
    constructor
    · exact fun h hmem => h 47 hmem rfl
    · rintro h c hc rfl
      exact h hc
  rw [hslash]

theorem matches_pathRegex :
    pathRegex.Matches s cs ↔ s.head? = some 47 ∧ (∀ c ∈ s, isLineTerminator c = false) ∧
      cs = [] := by
  have hslash : lit "/" = [47] := by decide
  simp only [pathRegex, Regex.matches_seq, Regex.matches_literal, Regex.matches_many, hslash]
  constructor
  · rintro ⟨_, path, _, _, ⟨rfl, rfl⟩, ⟨hlines, rfl⟩, rfl, rfl⟩
    refine ⟨rfl, ?_, rfl⟩
    simpa [isLineTerminator] using hlines
  · rintro ⟨hhead, hlines, rfl⟩
    cases s with
    | nil => cases hhead
    | cons c path =>
      obtain rfl : c = 47 := by simpa using hhead
      refine ⟨[47], path, [], [], ⟨rfl, rfl⟩, ⟨?_, rfl⟩, rfl, rfl⟩
      simpa using (List.forall_mem_cons.mp hlines).2

/-- The optional path of the expression. -/
theorem matches_optPath : (Regex.opt (.group 3 pathRegex)).Matches s cs ↔
    IsPath s ∧ cs = if s = [] then [] else [(3, s)] := by
  rw [Regex.matches_opt, Regex.matches_group]
  simp only [matches_pathRegex]
  constructor
  · rintro (⟨_, ⟨hhead, hlines, rfl⟩, rfl⟩ | ⟨rfl, rfl⟩)
    · refine ⟨⟨.inr hhead, hlines⟩, ?_⟩
      rw [if_neg (by rintro rfl; cases hhead)]
    · simp [IsPath]
  · rintro ⟨⟨rfl | hhead, hlines⟩, rfl⟩
    · exact .inr ⟨rfl, rfl⟩
    · left
      refine ⟨[], ⟨hhead, hlines, rfl⟩, ?_⟩
      rw [if_neg (by rintro rfl; cases hhead)]

/-- The matches of the expression are the URLs that are taken apart. -/
theorem matches_urlRegex : urlRegex.Matches url cs ↔
    ∃ scheme host path, parseUrl url = some (scheme, host, path) ∧
      cs = urlCaptures scheme host path := by
  simp only [parseUrl_eq_some, urlCaptures]
  constructor
  · intro h
    obtain ⟨scheme, _, _, _, hfirst, hafter, rfl, rfl⟩ := Regex.matches_seq.mp h
    obtain ⟨_, _, _, _, hsep, hrest, rfl, rfl⟩ := Regex.matches_seq.mp hafter
    obtain ⟨host, path, _, _, hsecond, hthird, rfl, rfl⟩ := Regex.matches_seq.mp hrest
    obtain ⟨_, hletters, rfl⟩ := Regex.matches_group.mp hfirst
    obtain ⟨hscheme, rfl⟩ := matches_schemeRegex.mp hletters
    obtain ⟨rfl, rfl⟩ := Regex.matches_literal.mp hsep
    obtain ⟨_, hhost, rfl⟩ := Regex.matches_group.mp hsecond
    obtain ⟨hne, hslash, rfl⟩ := matches_hostRegex.mp hhost
    obtain ⟨hpath, rfl⟩ := matches_optPath.mp hthird
    exact ⟨scheme, host, path, ⟨hscheme, by rw [List.append_assoc], hne, hslash, hpath⟩, rfl⟩
  · rintro ⟨scheme, host, path, ⟨hscheme, rfl, hne, hslash, hpath⟩, rfl⟩
    have hfirst : (Regex.group 1 schemeRegex).Matches scheme [(1, scheme)] :=
      .group (matches_schemeRegex.mpr ⟨hscheme, rfl⟩)
    have hsecond : (Regex.group 2 hostRegex).Matches host [(2, host)] :=
      .group (matches_hostRegex.mpr ⟨hne, hslash, rfl⟩)
    have hsep : (Regex.literal (lit "://")).Matches (lit "://") [] :=
      Regex.matches_literal.mpr ⟨rfl, rfl⟩
    rw [List.append_assoc]
    exact .seq hfirst (.seq hsep (.seq hsecond (matches_optPath.mpr ⟨hpath, rfl⟩)))

/-- `parseUrl` answers the groups of the match of the expression. -/
theorem parseUrl_eq_fullMatch (url : Bytes) : parseUrl url =
    (urlRegex.fullMatch url).map fun cs => ((Regex.capture cs 1).getD [],
      (Regex.capture cs 2).getD [], (Regex.capture cs 3).getD []) := by
  cases hurl : parseUrl url with
  | none =>
    have hnone : urlRegex.fullMatch url = none := by
      rw [Regex.fullMatch_eq_none]
      intro cs hmatch
      obtain ⟨_, _, _, hsome, -⟩ := matches_urlRegex.mp hmatch
      rw [hurl] at hsome
      cases hsome
    rw [hnone, Option.map_none]
  | some u =>
    obtain ⟨scheme, host, path⟩ := u
    have hsome : urlRegex.fullMatch url = some (urlCaptures scheme host path) := by
      apply Regex.fullMatch_eq_some (matches_urlRegex.mpr ⟨scheme, host, path, hurl, rfl⟩)
      intro cs hmatch
      obtain ⟨_, _, _, hsome, rfl⟩ := matches_urlRegex.mp hmatch
      rw [hurl] at hsome
      cases hsome
      rfl
    rw [hsome, Option.map_some]
    by_cases hpath : path = [] <;> simp [Regex.capture, urlCaptures, hpath]

end ApiAuthClient

/-! ## Whom the client contacts -/

/-- A call of the client on the network. -/
inductive NetworkCall where
  | resolve (host port : Bytes)
  | exchange (endpoint : Endpoint) (tls : Bool) (timeoutSeconds : ℤ) (req : HttpRequest)
  deriving DecidableEq

/-- Two networks answer the call alike. -/
def NetworkCall.Agree (net net' : Network) : NetworkCall → Prop
  | resolve host port => net.resolve host port = net'.resolve host port
  | exchange endpoint tls timeoutSeconds req =>
    net.exchange endpoint tls timeoutSeconds req = net'.exchange endpoint tls timeoutSeconds req

namespace ApiAuthClient

/-- The calls that `validate` makes, in order. -/
def calls (config : ApiAuthConfig) (net : Network) (clientKey : Bytes) : List NetworkCall :=
  match parseUrl config.apiBaseUrl with
  | none => []
  | some (scheme, host, basePath) =>
    let useTls := scheme = lit "https"
    let port := if useTls then lit "443" else lit "80"
    let target := basePath ++ lit "/client"
    .resolve host port ::
      match resolveEndpoint net host port with
      | .error _ => []
      | .ok endpoint =>
        [.exchange endpoint useTls config.timeoutSeconds (request config host target clientKey)]

variable {config : ApiAuthConfig} {parse : Bytes → Except Exn Json} {net net' : Network}
  {clientKey : Bytes}

/-- The answers to these calls are all that the result depends on. -/
theorem validate_eq_of_agree (h : ∀ call ∈ calls config net clientKey, call.Agree net net') :
    validate config parse net clientKey = validate config parse net' clientKey := by
  cases hurl : parseUrl config.apiBaseUrl with
  | none => simp only [validate, hurl]
  | some url =>
    obtain ⟨scheme, host, basePath⟩ := url
    simp only [calls, hurl, List.forall_mem_cons] at h
    obtain ⟨hresolve, hrest⟩ := h
    have hendpoint : resolveEndpoint net' host
          (if scheme = lit "https" then lit "443" else lit "80") =
        resolveEndpoint net host (if scheme = lit "https" then lit "443" else lit "80") := by
      rw [resolveEndpoint, ← show net.resolve host _ = _ from hresolve, resolveEndpoint]
    cases hfound : resolveEndpoint net host
        (if scheme = lit "https" then lit "443" else lit "80") with
    | error x => simp only [validate, hurl, hendpoint, hfound]
    | ok endpoint =>
      simp only [hfound, List.forall_mem_singleton, NetworkCall.Agree] at hrest
      simp only [validate, hurl, hendpoint, hfound, hrest]

/-- A call of `validate` resolves this host and port first, and sends its one request, for this
target, to the endpoint found. -/
def Contacts (config : ApiAuthConfig) (host port target : Bytes) : Prop :=
  ∀ net clientKey, (calls config net clientKey).head? = some (.resolve host port) ∧
    ∀ endpoint, resolveEndpoint net host port = .ok endpoint →
      ∃ tls timeoutSeconds req, req.method = lit "GET" ∧ req.target = target ∧
        calls config net clientKey =
          [.resolve host port, .exchange endpoint tls timeoutSeconds req]

end ApiAuthClient

/-- A decimal number. -/
def IsDecimal (s : Bytes) : Prop := s ≠ [] ∧ ∀ c ∈ s, 48 ≤ c ∧ c ≤ 57

/-- A URL `scheme://host[:port][path]` of an auth API. -/
structure ApiUrl where
  https : Bool
  host : Bytes
  port : Option Bytes
  path : Bytes
  host_ok : 47 ∉ host ∧ 58 ∉ host
  port_ok : ∀ p, port = some p → IsDecimal p
  path_ok : path = [] ∨ path.head? = some 47

namespace ApiUrl

def scheme (u : ApiUrl) : Bytes := if u.https then lit "https" else lit "http"

def text (u : ApiUrl) : Bytes :=
  u.scheme ++ lit "://" ++ (u.host ++ (u.port.elim [] (lit ":" ++ ·) ++ u.path))

/-- The port given, or that of the scheme. -/
def portNumber (u : ApiUrl) : Bytes :=
  u.port.getD (if u.https then lit "443" else lit "80")

def target (u : ApiUrl) : Bytes := u.path ++ lit "/client"

/-- What the client takes for the host: all that stands before the path. -/
def hostPart (u : ApiUrl) : Bytes := u.host ++ u.port.elim [] (lit ":" ++ ·)

variable {u : ApiUrl} {config : ApiAuthConfig}

theorem scheme_cases (u : ApiUrl) : u.scheme = lit "http" ∨ u.scheme = lit "https" := by
  unfold scheme
  split
  · exact .inr rfl
  · exact .inl rfl

theorem scheme_eq_https : u.scheme = lit "https" ↔ u.https = true := by
  unfold scheme
  split
  · simp [*]
  · simp only [*]
    decide

theorem slash_notMem_hostPart (u : ApiUrl) : 47 ∉ u.hostPart := by
  have hcolon : lit ":" = [58] := by decide
  unfold hostPart
  cases hp : u.port with
  | none => simpa using u.host_ok.1
  | some p =>
    intro hmem
    simp only [Option.elim_some, hcolon, List.singleton_append, List.mem_append,
      List.mem_cons] at hmem
    rcases hmem with hmem | hmem | hmem
    · exact u.host_ok.1 hmem
    · exact absurd hmem (by decide)
    · exact absurd ((u.port_ok p hp).2 47 hmem).1 (by decide)

theorem text_eq (u : ApiUrl) : u.text = u.scheme ++ lit "://" ++ (u.hostPart ++ u.path) := by
  rw [text, hostPart, List.append_assoc u.host]

/-- The client takes the URL apart exactly if something stands before the path, and the path on one
line. -/
theorem parseUrl_text : ApiAuthClient.parseUrl u.text =
    if u.hostPart = [] || u.path.any ApiAuthClient.isLineTerminator then none
    else some (u.scheme, u.hostPart, u.path) := by
  obtain ⟨htake, hdrop⟩ := ApiAuthClient.takeWhile_host u.slash_notMem_hostPart u.path_ok
  rw [text_eq, ApiAuthClient.parseUrl_scheme u.scheme_cases, ApiAuthClient.parseHost, htake, hdrop]

theorem hostPart_eq_host : u.hostPart = u.host ↔ u.port = none := by
  have hcolon : lit ":" = [58] := by decide
  unfold hostPart
  cases u.port with
  | none => simp
  | some p => simp [hcolon]

/-- The host is resolved at the port given or at that of the scheme, and the target requested, if
and only if no port is given, there is a host and the path stands on one line. -/
theorem contacts_iff (hurl : config.apiBaseUrl = u.text) :
    ApiAuthClient.Contacts config u.host u.portNumber u.target ↔
      u.port = none ∧ u.host ≠ [] ∧ ∀ c ∈ u.path, ApiAuthClient.isLineTerminator c = false := by
  constructor
  · intro h
    have hcalls := (h ⟨fun _ _ => .ok [], fun _ _ _ _ => .ok ⟨200, []⟩⟩ []).1
    rw [ApiAuthClient.calls, hurl, parseUrl_text] at hcalls
    split at hcalls
    · simp at hcalls
    · rename_i hparsed
      split at hparsed
      · cases hparsed
      · rename_i hok
        cases hparsed
        simp only [List.head?_cons, Option.some.injEq, NetworkCall.resolve.injEq] at hcalls
        have hport := hostPart_eq_host.mp hcalls.1
        simp only [hcalls.1, Bool.or_eq_true, decide_eq_true_eq, List.any_eq_true, not_or,
          not_exists, not_and, Bool.not_eq_true] at hok
        exact ⟨hport, hok⟩
  · rintro ⟨hport, hhost, hlines⟩ net clientKey
    have hpart : u.hostPart = u.host := hostPart_eq_host.mpr hport
    have hnumber : u.portNumber = if u.scheme = lit "https" then lit "443" else lit "80" := by
      rw [portNumber, hport, Option.getD_none]
      simp only [scheme_eq_https]
    have hparse : ApiAuthClient.parseUrl config.apiBaseUrl = some (u.scheme, u.host, u.path) := by
      rw [hurl, parseUrl_text, hpart, if_neg]
      simpa [hhost] using hlines
    have hcalls (clientKey : Bytes) : ApiAuthClient.calls config net clientKey =
        .resolve u.host u.portNumber ::
          match ApiAuthClient.resolveEndpoint net u.host u.portNumber with
          | .error _ => []
          | .ok endpoint => [.exchange endpoint (u.scheme = lit "https") config.timeoutSeconds
              (ApiAuthClient.request config u.host u.target clientKey)] := by
      simp only [ApiAuthClient.calls, hparse, hnumber, target]
    rw [hcalls]
    refine ⟨rfl, ?_⟩
    intro endpoint hendpoint
    rw [hendpoint]
    exact ⟨_, _, _, rfl, rfl, rfl⟩

end ApiUrl

namespace Demo

/-- An API behind TLS, with a path. -/
def apiUrl : ApiUrl where
  https := true
  host := lit "auth-service"
  port := none
  path := lit "/validate"
  host_ok := by decide
  port_ok := by rintro _ ⟨⟩
  path_ok := by decide

/-- The URL of the documentation, `http://auth-service:8080/validate`. -/
def portUrl : ApiUrl where
  https := false
  host := lit "auth-service"
  port := some (lit "8080")
  path := lit "/validate"
  host_ok := by decide
  port_ok := by
    rintro _ ⟨⟩
    have hdigits : lit "8080" = [56, 48, 56, 48] := by decide
    rw [hdigits]
    exact ⟨by simp, by simp⟩
  path_ok := by decide

def apiConfig (u : ApiUrl) : ApiAuthConfig := { apiBaseUrl := u.text, apiSecretKey := lit "secret" }

theorem contacts_without_port :
    ApiAuthClient.Contacts (apiConfig apiUrl) (lit "auth-service") (lit "443")
      (lit "/validate" ++ lit "/client") := by
  have hline : apiUrl.path.any ApiAuthClient.isLineTerminator = false := by decide
  exact (ApiUrl.contacts_iff (u := apiUrl) rfl).mpr
    ⟨rfl, by decide, by simpa using hline⟩

/-- The port is taken for a part of the host, and port 80 for the port. -/
theorem not_contacts_with_port :
    ¬ ∀ (u : ApiUrl) (config : ApiAuthConfig), config.apiBaseUrl = u.text →
        ApiAuthClient.Contacts config u.host u.portNumber u.target := by
  intro hall
  have h := hall portUrl (apiConfig portUrl) rfl
  have hcalls := (h ⟨fun _ _ => .ok [], fun _ _ _ _ => .ok ⟨200, []⟩⟩ []).1
  revert hcalls
  decide

end Demo

end JotaTranscriber
