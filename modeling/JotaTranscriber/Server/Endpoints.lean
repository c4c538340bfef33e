import JotaTranscriber.Server.Occupancy
import JotaTranscriber.Text.Exposition
import JotaTranscriber.Text.Numerals

/-! # The HTTP endpoints

A request for one of three targets is answered without a session. The metrics
are those of the two limiters and the cache, each read under its own lock, so
that they may be of three different states of the process; but each pair of
them fits together, whenever it is read.
-/

namespace JotaTranscriber

open Transition

def InferenceLimiter.getMetrics (l : InferenceLimiter) : Bytes :=
  lit "transcription_active_inferences " ++ (lit (toString l.activeCount) ++ (lit "\n" ++
    (lit "transcription_max_inferences " ++ (lit (toString l.maxConcurrent) ++ lit "\n"))))

/-- The gauge that tells whether the model is in memory. -/
def ModelCache.loaded (c : ModelCache) : ℤ := if c.ctx.isSome then 1 else 0

def ModelCache.getMetrics (c : ModelCache) : Bytes :=
  lit "transcription_model_loaded " ++ (lit (toString c.loaded) ++ (lit "\n" ++
    (lit "transcription_model_ref_count " ++ (lit (toString c.refCount) ++ lit "\n"))))

def ConnectionLimiter.getMetrics (l : ConnectionLimiter) : Bytes :=
  lit "transcription_active_connections " ++ (lit (toString (l.total : ℤ)) ++ (lit "\n" ++
    (lit "transcription_max_connections " ++ (lit (toString (l.maxTotal : ℤ)) ++ lit "\n"))))

structure EndpointResponse where
  version : ℕ
  result : ℕ
  contentType : Bytes
  body : Bytes
  deriving DecidableEq, Repr

/-- The body of `/metrics`. -/
def combinedMetrics (inference : InferenceLimiter) (cache : ModelCache)
    (connections : ConnectionLimiter) : Bytes :=
  lit "# HELP transcription_active_inferences Number of concurrent inferences\n" ++
  (lit "# TYPE transcription_active_inferences gauge\n" ++ (inference.getMetrics ++
  (lit ("# HELP transcription_model_loaded Whether the model is currently in memory " ++
      "(1=yes, 0=no)\n") ++
  (lit "# TYPE transcription_model_loaded gauge\n" ++ (cache.getMetrics ++
  (lit "# HELP transcription_active_connections Number of active WebSocket connections\n" ++
  (lit "# TYPE transcription_active_connections gauge\n" ++ connections.getMetrics)))))))

/-- The answer to a request, or none where a session is to be constructed for it. -/
def handleHttpRequest (version : ℕ) (target : Bytes) (inference : InferenceLimiter)
    (cache : ModelCache) (connections : ConnectionLimiter) : Option EndpointResponse :=
  if target = lit "/metrics" then
    some { version, result := 200, contentType := lit "text/plain; version=0.0.4",
           body := combinedMetrics inference cache connections }
  else if target = lit "/health" then
    some { version, result := 200, contentType := lit "application/json",
           body := lit "\x7b\"status\": \"ok\"\x7d" }
  else if target = lit "/ready" then
    let isBusy := !inference.hasCapacity
    some { version, result := if isBusy then 503 else 200, contentType := lit "application/json",
           body := if isBusy then lit "\x7b\"status\": \"busy\"\x7d"
             else lit "\x7b\"status\": \"ready\"\x7d" }
  else none

/-! ## The text -/

open Exposition (Entry)

def InferenceLimiter.metricEntries (l : InferenceLimiter) : List Entry :=
  [.sample (lit "transcription_active_inferences") (lit (toString l.activeCount)),
    .sample (lit "transcription_max_inferences") (lit (toString l.maxConcurrent))]

def ModelCache.metricEntries (c : ModelCache) : List Entry :=
  [.sample (lit "transcription_model_loaded") (lit (toString c.loaded)),
    .sample (lit "transcription_model_ref_count") (lit (toString c.refCount))]

def ConnectionLimiter.metricEntries (l : ConnectionLimiter) : List Entry :=
  [.sample (lit "transcription_active_connections") (lit (toString (l.total : ℤ))),
    .sample (lit "transcription_max_connections") (lit (toString (l.maxTotal : ℤ)))]

/-- The lines of the metrics. -/
def metricEntries (inference : InferenceLimiter) (cache : ModelCache)
    (connections : ConnectionLimiter) : List Entry :=
  [.comment (lit " HELP transcription_active_inferences Number of concurrent inferences")] ++
  ([.comment (lit " TYPE transcription_active_inferences gauge")] ++ (inference.metricEntries ++
  ([.comment (lit (" HELP transcription_model_loaded Whether the model is currently in memory " ++
      "(1=yes, 0=no)"))] ++
  ([.comment (lit " TYPE transcription_model_loaded gauge")] ++ (cache.metricEntries ++
  ([.comment (lit (" HELP transcription_active_connections Number of active WebSocket " ++
      "connections"))] ++
  ([.comment (lit " TYPE transcription_active_connections gauge")] ++
    connections.metricEntries)))))))

variable {inference : InferenceLimiter} {cache : ModelCache} {connections : ConnectionLimiter}

theorem render_samples (name name' value value' : Bytes) :
    Exposition.render [.sample name value, .sample name' value'] =
      (name ++ [32]) ++ (value ++ ([10] ++ ((name' ++ [32]) ++ (value' ++ [10])))) := by
  simp [Exposition.render, Lines.unlines, Entry.render]

theorem InferenceLimiter.render_metricEntries :
    Exposition.render inference.metricEntries = inference.getMetrics := render_samples _ _ _ _

theorem ModelCache.render_metricEntries :
    Exposition.render cache.metricEntries = cache.getMetrics := render_samples _ _ _ _

theorem ConnectionLimiter.render_metricEntries :
    Exposition.render connections.metricEntries = connections.getMetrics := render_samples _ _ _ _

theorem render_metricEntries : Exposition.render (metricEntries inference cache connections) =
    combinedMetrics inference cache connections := by
  simp only [metricEntries, Exposition.render_append, InferenceLimiter.render_metricEntries,
    ModelCache.render_metricEntries, ConnectionLimiter.render_metricEntries]
  rfl

theorem plain_sample {name : Bytes} (hname : name.head? ≠ some 35 ∧ 32 ∉ name ∧ 10 ∉ name)
    (z : ℤ) : (Entry.sample name (lit (toString z))).Plain :=
  ⟨hname.1, hname.2.1, hname.2.2, Decimal.notMem_toString (by decide) (by decide) z⟩

theorem plain_comment {text : Bytes} (h : 10 ∉ text) : (Entry.comment text).Plain := h

theorem plain_metricEntries : ∀ e ∈ metricEntries inference cache connections, e.Plain := by
  simp only [metricEntries, InferenceLimiter.metricEntries, ModelCache.metricEntries,
    ConnectionLimiter.metricEntries, List.cons_append, List.nil_append, List.forall_mem_cons]
  refine ⟨plain_comment ?_, plain_comment ?_, plain_sample ?_ _, plain_sample ?_ _,
    plain_comment ?_, plain_comment ?_, plain_sample ?_ _, plain_sample ?_ _,
    plain_comment ?_, plain_comment ?_, plain_sample ?_ _, plain_sample ?_ _, by simp⟩
  all_goals decide

/-- What a scraper makes of a text of metrics. -/
def gauges (text : Bytes) : List (Bytes × Option ℤ) :=
  (Exposition.scrape text).map fun m => (m.1, Decimal.scan m.2)

/-- The metrics are read as what the three components report. -/
theorem gauges_combinedMetrics : gauges (combinedMetrics inference cache connections) =
    [(lit "transcription_active_inferences", some inference.activeCount),
      (lit "transcription_max_inferences", some inference.maxConcurrent),
      (lit "transcription_model_loaded", some cache.loaded),
      (lit "transcription_model_ref_count", some cache.refCount),
      (lit "transcription_active_connections", some (connections.total : ℤ)),
      (lit "transcription_max_connections", some (connections.maxTotal : ℤ))] := by
  have hsamples : (metricEntries inference cache connections).filterMap Entry.value? =
      [(lit "transcription_active_inferences", lit (toString inference.activeCount)),
        (lit "transcription_max_inferences", lit (toString inference.maxConcurrent)),
        (lit "transcription_model_loaded", lit (toString cache.loaded)),
        (lit "transcription_model_ref_count", lit (toString cache.refCount)),
        (lit "transcription_active_connections", lit (toString (connections.total : ℤ))),
        (lit "transcription_max_connections", lit (toString (connections.maxTotal : ℤ)))] := rfl
  rw [gauges, ← render_metricEntries, Exposition.scrape_render plain_metricEntries, hsamples]
  simp only [List.map_cons, List.map_nil, Decimal.scan_toString]

/-! ## What is read in a run -/

namespace Server

variable {ι : Type*} [DecidableEq ι] {P : Platform} {S S' : Server ι} {ev : ServerEvent ι}
  {params : ι → SessionParams} {start : ι → ℤ} {ttl n : ℤ}

/-- The slots in use are within the limit that was set. -/
structure SlotsWithin (cap : ℤ) (S : Server ι) : Prop where
  nonneg : 0 ≤ S.limiter.activeCount
  le_cap : S.limiter.activeCount ≤ cap
  maxConcurrent : S.limiter.maxConcurrent = cap

theorem SlotsWithin.step {cap : ℤ} (h : SlotsWithin cap S) (hs : S.step P ev = some S') :
    SlotsWithin cap S' := by
  cases (step_moves hs).2 with
  | flushLock _ hlt _ =>
    have hcap := h.maxConcurrent
    have hnonneg := h.nonneg
    exact ⟨by dsimp only; omega, by dsimp only; omega, hcap⟩
  | flushReturn _ _ =>
    have hle := h.le_cap
    have hnonneg := h.nonneg
    by_cases hpos : 0 < S.limiter.activeCount
    · rw [InferenceLimiter.release_of_pos hpos]
      exact ⟨by dsimp only; omega, by dsimp only; omega, h.maxConcurrent⟩
    · rw [InferenceLimiter.release, if_neg hpos]
      exact ⟨hnonneg, hle, h.maxConcurrent⟩
  | _ => exact ⟨h.nonneg, h.le_cap, h.maxConcurrent⟩

theorem slotsWithin_of_reachable (h : Reachable (step P) (init params start ttl n) S) :
    SlotsWithin ((InferenceLimiter.setMaxConcurrency {} n).maxConcurrent) S := by
  refine h.invariant ?_ fun _ _ _ h hs => h.step hs
  have hpos := InferenceLimiter.setMaxConcurrency_pos n
  have hzero : (init params start ttl n).limiter.activeCount = 0 := by
    unfold init InferenceLimiter.setMaxConcurrency
    split <;> rfl
  refine ⟨hzero.ge, ?_, rfl⟩
  rw [hzero]
  exact hpos.le

end Server

namespace Process

variable {P : Platform} {p p₁ p₂ p₃ : Process} {tr : List (Process × ProcessEvent)}
  {config : ServerConfig} {sessionId : ℕ → Bytes} {start : ℕ → ℤ}

/-- A connection that is being read has a slot. -/
theorem total_pos_of_reading (hrun : Run (step P) (init config sessionId start) tr p)
    (h : ∃ t ∈ p.listener.sessionThreads, t.stage = .reading) : 0 < p.listener.limiter.total := by
  obtain ⟨t, ht, hstage⟩ := h
  have hholds : t.holdsSlot = true := by simp [SessionThread.holdsSlot, hstage]
  exact (List.countP_pos_iff.mpr ⟨t, ht, hholds⟩).trans_le (slots_le_total hrun)

theorem maxTotal_of_run (hrun : Run (step P) (init config sessionId start) tr p) :
    p.listener.limiter.maxTotal = config.maxConnections.toNat :=
  (Listener.limits_of_run (run_listener hrun)).1

theorem wellFormed_of_run (hrun : Run (step P) (init config sessionId start) tr p) :
    p.server.cache.WellFormed config.modelPath := by
  have hcounted : Server.Counted config.modelPath _ _ :=
    Server.counted_of_run (fun _ => rfl) (run_restricted hrun)
  exact hcounted.wellFormed

/-- Whenever the three components are read, and the third while a request is being answered, the
answer to a request for the metrics is read as six gauges: the inferences within their limit, the
references only to a model in memory, and the connections within theirs and at least the one that
asks. -/
theorem gauges_of_run (version : ℕ) (h₁ : Reachable (step P) (init config sessionId start) p₁)
    (h₂ : Reachable (step P) (init config sessionId start) p₂)
    (h₃ : Reachable (step P) (init config sessionId start) p₃)
    (hreading : ∃ t ∈ p₃.listener.sessionThreads, t.stage = .reading) :
    ∃ res, ∃ active cap loaded refs total : ℤ,
      handleHttpRequest version (lit "/metrics") p₁.server.limiter p₂.server.cache
        p₃.listener.limiter = some res ∧ res.result = 200 ∧
      gauges res.body =
        [(lit "transcription_active_inferences", some active),
          (lit "transcription_max_inferences", some cap),
          (lit "transcription_model_loaded", some loaded),
          (lit "transcription_model_ref_count", some refs),
          (lit "transcription_active_connections", some total),
          (lit "transcription_max_connections", some (config.maxConnections.toNat : ℤ))] ∧
      (0 ≤ active ∧ active ≤ cap) ∧
      (cap = if 0 < config.maxConcurrentInference then config.maxConcurrentInference else 4) ∧
      (0 ≤ refs ∧ (0 < refs → loaded = 1)) ∧
      0 < total ∧ total ≤ config.maxConnections.toNat := by
  obtain ⟨tr₁, hrun₁⟩ := h₁
  obtain ⟨tr₂, hrun₂⟩ := h₂
  obtain ⟨tr₃, hrun₃⟩ := h₃
  have hslots := Server.slotsWithin_of_reachable ⟨_, run_server hrun₁⟩
  have hcache := wellFormed_of_run hrun₂
  have hmax := maxTotal_of_run hrun₃
  refine ⟨_, p₁.server.limiter.activeCount, p₁.server.limiter.maxConcurrent,
    p₂.server.cache.loaded, p₂.server.cache.refCount, p₃.listener.limiter.total, if_pos rfl,
    rfl, ?_, ⟨hslots.nonneg, ?_⟩, ?_, ⟨hcache.refCount_nonneg, fun hpos => ?_⟩, ?_, ?_⟩
  · rw [gauges_combinedMetrics, hmax]
  · rw [hslots.maxConcurrent]
    exact hslots.le_cap
  · rw [hslots.maxConcurrent]
    unfold InferenceLimiter.setMaxConcurrency
    split <;> rfl
  · rw [ModelCache.loaded, if_pos (hcache.ctx_isSome hpos)]
  · exact Int.natCast_pos.mpr (total_pos_of_reading hrun₃ hreading)
  · exact Int.ofNat_le.mpr (Listener.total_le_of_run (run_listener hrun₃))

end Process

namespace Demo

/-- A second client asks for the metrics while the first is served. -/
def scraped : List ProcessEvent := visit ++ connect.map ProcessEvent.listener

theorem gauges_while_visited : ∃ p, Reachable (Process.step platform) process p ∧
    ∃ res, ∃ active cap loaded refs total : ℤ,
      handleHttpRequest 11 (lit "/metrics") p.server.limiter p.server.cache p.listener.limiter =
        some res ∧
      gauges res.body =
        [(lit "transcription_active_inferences", some active),
          (lit "transcription_max_inferences", some cap),
          (lit "transcription_model_loaded", some loaded),
          (lit "transcription_model_ref_count", some refs),
          (lit "transcription_active_connections", some total),
          (lit "transcription_max_connections", some 8)] ∧
      0 < total := by
  have hexec : (exec (Process.step platform) process scraped).map
      (fun r => r.2.listener.sessionThreads.map SessionThread.stage) =
        some [.running, .reading] := by decide +kernel
  obtain ⟨r, hr, hstages⟩ := Option.map_eq_some_iff.mp hexec
  have hreach : Reachable (Process.step platform) process r.2 := ⟨_, Run.of_exec hr⟩
  have hreading : ∃ t ∈ r.2.listener.sessionThreads, t.stage = .reading := by
    have hmem : Stage.reading ∈ r.2.listener.sessionThreads.map SessionThread.stage := by
      rw [hstages]
      decide
    exact List.mem_map.mp hmem
  obtain ⟨res, active, cap, loaded, refs, total, hres, -, hgauges, -, -, -, hpos, -⟩ :=
    Process.gauges_of_run 11 hreach hreach hreach hreading
  exact ⟨_, hreach, res, active, cap, loaded, refs, total, hres, hgauges, hpos⟩

end Demo

end JotaTranscriber
