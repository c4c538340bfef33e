import JotaTranscriber.Auth.Provenance
import JotaTranscriber.Text.Delimited

/-! # The head of the request

The HTTP library writes each field value as it is given, and a header line ends
at CRLF. The token goes into `X-API-Key` unchecked: the API reads back the
fields that were set exactly if no value breaks its line.
-/

namespace JotaTranscriber

open Delimited

/-- No line break of HTTP occurs in the text. -/
abbrev CrlfFree (s : Bytes) : Prop := Free 13 10 s

namespace HttpRequest

def crlf : Bytes := [13, 10]

/-- The version 11 is written as `HTTP/1.1`. -/
def versionText (version : ℕ) : Bytes :=
  lit "HTTP/" ++ [UInt8.ofNat (48 + version / 10), 46, UInt8.ofNat (48 + version % 10)]

def requestLine (req : HttpRequest) : Bytes :=
  req.method ++ lit " " ++ req.target ++ lit " " ++ versionText req.version

def fieldLine (f : Bytes × Bytes) : Bytes := f.1 ++ lit ": " ++ f.2

def head (req : HttpRequest) : Bytes :=
  req.requestLine ++ crlf ++ (req.fields.flatMap fun f => fieldLine f ++ crlf) ++ crlf

/-- The header lines up to the first empty one, each with its name and its value if it is a
field. -/
def readFields (head : Bytes) : List (Option (Bytes × Bytes)) :=
  ((lines 13 10 head).tail.takeWhile (· ≠ [])).map (cut 58 32)

variable {req : HttpRequest} {f : Bytes × Bytes} {fields : List (Bytes × Bytes)}

theorem fieldLine_eq (f : Bytes × Bytes) : fieldLine f = f.1 ++ 58 :: 32 :: f.2 := by
  simp [fieldLine, show lit ": " = [58, 32] by decide]

theorem fieldLine_ne_nil : fieldLine f ≠ [] := by
  simp [fieldLine_eq]

theorem crlfFree_fieldLine (hname : 13 ∉ f.1) : CrlfFree (fieldLine f) ↔ CrlfFree f.2 := by
  rw [fieldLine, CrlfFree, free_append_of_notMem]
  simp [hname, show lit ": " = [58, 32] by decide]

theorem cut_fieldLine (hname : Free 58 32 f.1) : cut 58 32 (fieldLine f) = some f := by
  rw [fieldLine_eq]
  exact cut_append (by decide) hname

theorem lines_fieldLines (h : ∀ f ∈ fields, CrlfFree (fieldLine f)) :
    lines 13 10 ((fields.flatMap fun f => fieldLine f ++ crlf) ++ crlf) =
      fields.map fieldLine ++ [[]] := by
  induction fields with
  | nil => decide
  | cons f fields ih =>
    rw [List.forall_mem_cons] at h
    have hrest := lines_append (by decide) h.1
      (r := (fields.flatMap fun f => fieldLine f ++ crlf) ++ crlf)
    rw [ih h.2] at hrest
    simpa [crlf] using hrest

theorem takeWhile_fieldLines :
    (fields.map fieldLine ++ [[]]).takeWhile (· ≠ []) = fields.map fieldLine := by
  rw [List.takeWhile_append_of_pos]
  · simp
  · intro l hl
    obtain ⟨f, -, rfl⟩ := List.mem_map.mp hl
    simpa using fieldLine_ne_nil

/-- A value that is read back stands on one line. -/
theorem crlfFree_of_mem_readFields {head : Bytes} (h : some f ∈ readFields head) :
    CrlfFree f.2 := by
  obtain ⟨line, hline, hcut⟩ := List.mem_map.mp h
  have hmem := List.mem_of_mem_tail ((List.takeWhile_prefix _).subset hline)
  have hfree : CrlfFree line := free_of_mem_lines (by decide) hmem
  apply hfree.of_infix
  rw [eq_append_of_cut hcut]
  exact ⟨f.1 ++ [58, 32], [], by simp⟩

/-- The fields are read back as they were set exactly if no value breaks its line. -/
theorem readFields_head_iff (hline : CrlfFree req.requestLine)
    (hnames : ∀ name ∈ req.fields.map Prod.fst, 13 ∉ name ∧ Free 58 32 name) :
    readFields req.head = req.fields.map some ↔ ∀ f ∈ req.fields, CrlfFree f.2 := by
  rw [List.forall_mem_map] at hnames
  constructor
  · intro h f hf
    apply crlfFree_of_mem_readFields
    rw [h]
    exact List.mem_map_of_mem hf
  · intro h
    have hfree : ∀ f ∈ req.fields, CrlfFree (fieldLine f) := by
      intro f hf
      exact (crlfFree_fieldLine (hnames f hf).1).mpr (h f hf)
    have hlines : lines 13 10 req.head = req.requestLine :: (req.fields.map fieldLine ++ [[]]) := by
      rw [← lines_fieldLines hfree, ← lines_append (by decide) hline]
      simp [head, crlf]
    rw [readFields, hlines, List.tail_cons, takeWhile_fieldLines, List.map_map]
    apply List.map_congr_left
    intro f hf
    exact cut_fieldLine (hnames f hf).2

end HttpRequest

namespace ApiAuthClient

open HttpRequest

/-- The one request of a call, if the URL is one. -/
def sentRequest (config : ApiAuthConfig) (clientKey : Bytes) : Option HttpRequest :=
  (parseUrl config.apiBaseUrl).map fun url =>
    request config url.2.1 (url.2.2 ++ lit "/client") clientKey

variable {config : ApiAuthConfig} {parse : Bytes → Except Exn Json} {net net' : Network}
  {token url scheme rest host basePath : Bytes} {u : Bytes × Bytes × Bytes}

/-- A call sends nothing else: of the exchanges of the network only those of this request matter. -/
theorem validate_congr (hresolve : net.resolve = net'.resolve)
    (hexchange : ∀ req, sentRequest config token = some req →
      ∀ endpoint tls timeout,
        net.exchange endpoint tls timeout req = net'.exchange endpoint tls timeout req) :
    validate config parse net token = validate config parse net' token := by
  unfold validate
  cases hurl : parseUrl config.apiBaseUrl with
  | none => rfl
  | some url =>
    obtain ⟨scheme, host, basePath⟩ := url
    have hreq := hexchange (request config host (basePath ++ lit "/client") token)
      (by rw [sentRequest, hurl]; rfl)
    simp only [resolveEndpoint, hresolve, hreq]

theorem request_fields (config : ApiAuthConfig) (host target clientKey : Bytes) :
    (request config host target clientKey).fields =
      [(lit "Host", host), (lit "User-Agent", lit "TranscriptionServer/1.0"),
        (lit "Authorization", lit "Bearer " ++ config.apiSecretKey),
        (lit "X-API-Key", clientKey)] := by
  have hnames : lit "Host" ≠ lit "User-Agent" ∧ lit "Host" ≠ lit "Authorization" ∧
      lit "Host" ≠ lit "X-API-Key" ∧ lit "User-Agent" ≠ lit "Authorization" ∧
      lit "User-Agent" ≠ lit "X-API-Key" ∧ lit "Authorization" ≠ lit "X-API-Key" := by decide
  simp [request, HttpRequest.set, hnames]

theorem basePath_of_parseHost (h : parseHost scheme rest = some u) : 13 ∉ u.2.2 := by
  unfold parseHost at h
  dsimp only at h
  split at h
  · cases h
  · rename_i hnot
    cases h
    intro hmem
    simp only [Bool.or_eq_true, not_or, List.any_eq_true, not_exists, not_and] at hnot
    exact hnot.2 13 hmem (by decide)

/-- The path of a URL stays on one line, unlike its host. -/
theorem basePath_of_parseUrl (h : parseUrl url = some u) : 13 ∉ u.2.2 := by
  unfold parseUrl at h
  split at h
  · exact basePath_of_parseHost h
  · split at h
    · exact basePath_of_parseHost h
    · cases h

theorem crlfFree_requestLine (hpath : 13 ∉ basePath) :
    CrlfFree (request config host (basePath ++ lit "/client") token).requestLine := by
  apply free_of_notMem
  have hget : 13 ∉ lit "GET" := by decide
  have hspace : 13 ∉ lit " " := by decide
  have hclient : 13 ∉ lit "/client" := by decide
  have hversion : 13 ∉ versionText 11 := by decide
  simp [requestLine, request, HttpRequest.set, hpath, hget, hspace, hclient, hversion]

theorem crlfFree_bearer (key : Bytes) : CrlfFree (lit "Bearer " ++ key) ↔ CrlfFree key :=
  free_append_of_notMem (by decide)

/-- The API reads back the four fields that were set, and the whole token as `X-API-Key`, exactly
if neither the host and the secret of the configuration nor the token contain a line break. -/
theorem readFields_sentRequest_iff
    (hurl : parseUrl config.apiBaseUrl = some (scheme, host, basePath)) (token : Bytes) :
    ∃ req, sentRequest config token = some req ∧
      (readFields req.head =
        [some (lit "Host", host), some (lit "User-Agent", lit "TranscriptionServer/1.0"),
          some (lit "Authorization", lit "Bearer " ++ config.apiSecretKey),
          some (lit "X-API-Key", token)] ↔
        CrlfFree host ∧ CrlfFree config.apiSecretKey ∧ CrlfFree token) := by
  refine ⟨request config host (basePath ++ lit "/client") token, by rw [sentRequest, hurl]; rfl, ?_⟩
  have hline : CrlfFree (request config host (basePath ++ lit "/client") token).requestLine :=
    crlfFree_requestLine (basePath_of_parseUrl hurl)
  have hnames : ∀ name ∈ [lit "Host", lit "User-Agent", lit "Authorization", lit "X-API-Key"],
      13 ∉ name ∧ Free 58 32 name := by decide
  have hagent : CrlfFree (lit "TranscriptionServer/1.0") := free_of_notMem (by decide)
  have hiff := readFields_head_iff hline
  rw [request_fields] at hiff
  rw [← crlfFree_bearer config.apiSecretKey]
  simpa [hagent] using hiff hnames

end ApiAuthClient

namespace Demo

/-- A token on one line is read back as it is. -/
theorem readFields_of_one_line : ∃ req,
    ApiAuthClient.sentRequest authConfig (lit "key") = some req ∧
      HttpRequest.readFields req.head =
        [some (lit "Host", lit "auth"), some (lit "User-Agent", lit "TranscriptionServer/1.0"),
          some (lit "Authorization", lit "Bearer " ++ lit "secret"),
          some (lit "X-API-Key", lit "key")] := by
  have hurl : ApiAuthClient.parseUrl authConfig.apiBaseUrl = some (lit "http", lit "auth", []) := by
    decide
  obtain ⟨req, hsent, hiff⟩ := ApiAuthClient.readFields_sentRequest_iff hurl (lit "key")
  exact ⟨req, hsent, hiff.mpr (by decide)⟩

/-- A token with a line break is cut short, and what follows the break is a field of its own. -/
theorem readFields_of_line_break : ∃ req,
    ApiAuthClient.sentRequest authConfig (lit "key\r\nX-Admin: 1") = some req ∧
      HttpRequest.readFields req.head =
        [some (lit "Host", lit "auth"), some (lit "User-Agent", lit "TranscriptionServer/1.0"),
          some (lit "Authorization", lit "Bearer " ++ lit "secret"),
          some (lit "X-API-Key", lit "key"), some (lit "X-Admin", lit "1")] ∧
      lit "key" ≠ lit "key\r\nX-Admin: 1" := by
  refine ⟨_, rfl, ?_, by decide⟩
  decide

end Demo

end JotaTranscriber
