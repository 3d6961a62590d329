import ClassOutline.Proofs.Http.Exchanges

/-!
# The rate limit

A service with a rate limit starts with as many tokens as its settings allow requests at once. Only
limited requests take tokens, and they take them in the order in which they come. The runs here are
too short for a token to come back: of their limited requests, exactly those behind the first
`rateBurst` are refused (`rate_limit_exact`). All others are answered as a service without a limit
answers them, which is compared here request by request: both services were given the same requests
before, though the counters of the two may have come apart by then.

What a refusal is does not depend on where the tokens come from. Under any decisions of a limit, the
refused requests are the limited ones that it did not admit (`conclude_refused_iff`).
-/

namespace ClassOutline.Http

/-! ## What is compared -/

/-- The same response to a request. Only the page of counters, which is what is found at its path,
may have another text. -/
structure Request.SameResponse (r : Request) (a b : Response) : Prop where
  status : a.status = b.status
  headers : a.headers = b.headers
  identified : a.identified = b.identified
  body : (r.path = Bytes.ofString "/metrics" → a.status ≠ 200) → a.body = b.body

/-- A response with the header fields for requests from other origins. -/
structure Response.AllowsOrigin (r : Response) (origin : Bytes) : Prop where
  origin : r.header? (Bytes.ofString "Access-Control-Allow-Origin") = some origin
  methods : r.header? (Bytes.ofString "Access-Control-Allow-Methods") =
    some (Bytes.ofString "POST, OPTIONS")
  headers : r.header? (Bytes.ofString "Access-Control-Allow-Headers") =
    some (Bytes.ofString "Content-Type")

namespace Service

variable {s t : Service} {r : Request} {rs : List Request} {settings : Settings}

/-! ## Tokens -/

/-- How many of some requests are limited. -/
def limitedAmong (rs : List Request) : Nat := rs.countP fun r => decide r.IsLimited

theorem limitedAmong_cons (r : Request) (rs : List Request) :
    limitedAmong (r :: rs) = limitedAmong rs + if r.IsLimited then 1 else 0 := by
  simp [limitedAmong, List.countP_cons]

theorem limitedAmong_take_succ {i : Nat} (h : rs[i]? = some r) :
    limitedAmong (rs.take (i + 1)) =
      limitedAmong (rs.take i) + if r.IsLimited then 1 else 0 := by
  simp [limitedAmong, List.take_add_one, h, List.countP_append, List.countP_cons]

/-- A limited request takes a token if there is one, and nothing else does. -/
theorem handle_tokens {n : Nat} (h : s.tokens = some n) (r : Request) :
    (s.handle r).2.tokens = some (n - if r.IsLimited then 1 else 0) := by
  rcases handle_cases s r with ⟨hr, hs⟩ | ⟨hl, hzero, hs⟩ | ⟨-, -, hs⟩
  · have hnot : ¬ r.IsLimited := fun hl => hl.not_isPreflight hr
    rw [hs, if_neg hnot]
    exact h
  · obtain rfl : n = 0 := Option.some.inj (h.symm.trans hzero)
    rw [hs, Nat.zero_sub]
    rfl
  · rw [hs]
    show s.tokensAfter r = _
    rw [tokensAfter_eq]
    split <;> simp [h]

theorem serve_tokens {n : Nat} (h : s.tokens = some n) (rs : List Request) :
    (s.serve rs).2.tokens = some (n - limitedAmong rs) := by
  induction rs generalizing s n with
  | nil => exact h
  | cons r rs ih =>
    have hrest := ih (s.handle_tokens h r)
    rw [limitedAmong_cons, Nat.add_comm, ← Nat.sub_sub]
    exact hrest

theorem handle_tokens_of_not (h : ¬ r.IsLimited) : (s.handle r).2.tokens = s.tokens := by
  rcases handle_cases s r with ⟨-, hs⟩ | ⟨hl, -, -⟩ | ⟨-, -, hs⟩
  · rw [hs]
  · exact absurd hl h
  · rw [hs]
    exact (s.tokensAfter_eq r).trans (if_neg h)

/-- Without a limit there are never tokens to run out of. -/
theorem serve_tokens_none (h : s.tokens = none) (rs : List Request) :
    (s.serve rs).2.tokens = none := by
  induction rs generalizing s with
  | nil => exact h
  | cons r rs ih =>
    refine ih (s := (s.handle r).2) ?_
    rcases handle_cases s r with ⟨-, hs⟩ | ⟨-, hzero, -⟩ | ⟨-, -, hs⟩
    · rw [hs]
      exact h
    · rw [h] at hzero
      cases hzero
    · rw [hs]
      show s.tokensAfter r = none
      simp [tokensAfter_eq, h]

/-! ## Answers -/

/-- No endpoint answers as the rate limit does. -/
theorem status_answer (s : Service) (r : Request) : (s.answer r).response.status ≠ 429 := by
  have hanalysis : ∀ limit,
      (Answer.ofAnalysisRequest s.registry limit r).response.status ≠ 429 := by
    intro limit
    rcases Answer.ofAnalysisRequest_cases s.registry limit r with
      ⟨reason, hreason, hsends⟩ | ⟨_, _, hsends⟩ | ⟨_, _, _, hsends⟩ <;> rw [hsends.status]
    · rcases hreason with rfl | rfl <;> decide
    · decide
    · decide
  unfold answer
  cases Endpoint.ofRequest r with
  | analysis => exact hanalysis _
  | health => exact (by decide : 200 ≠ 429)
  | ready => exact (by decide : 200 ≠ 429)
  | counters => exact (by decide : 200 ≠ 429)
  | unknownPath => exact (by decide : 404 ≠ 429)
  | wrongMethod => exact (by decide : 405 ≠ 429)

/-- A response none of whose header fields is about other origins yet. -/
def HasOwnHeaders (r : Response) : Prop := ∀ h ∈ r.headers, h.1 = Bytes.ofString "Content-Type"

theorem HasOwnHeaders.of_single {r : Response} {v : Bytes}
    (h : r.headers = [(Bytes.ofString "Content-Type", v)]) : HasOwnHeaders r := by
  intro x hx
  rw [h] at hx
  rw [List.mem_singleton.mp hx]

theorem hasOwnHeaders_answer (s : Service) (r : Request) : HasOwnHeaders (s.answer r).response := by
  have hanalysis : ∀ limit,
      HasOwnHeaders (Answer.ofAnalysisRequest s.registry limit r).response := by
    intro limit
    unfold Answer.ofAnalysisRequest
    cases Submission.ofRequest limit r with
    | error reason => exact .of_single rfl
    | ok sub =>
      simp only [Answer.ofSubmission]
      split <;> exact .of_single rfl
  unfold answer
  cases Endpoint.ofRequest r with
  | analysis => exact hanalysis _
  | health => exact .of_single rfl
  | ready => exact .of_single rfl
  | counters => exact .of_single rfl
  | unknownPath => exact .of_single rfl
  | wrongMethod => exact .of_single rfl

theorem allowsOrigin_withOrigin {r : Response} (h : HasOwnHeaders r) (s : Service) :
    (s.withOrigin r).AllowsOrigin s.settings.corsOrigin := by
  have hown : ∀ name : Bytes, name ≠ Bytes.ofString "Content-Type" →
      r.headers.find? (fun h => h.1 == name) = none := by
    intro name hname
    rw [List.find?_eq_none]
    intro x hx heq
    exact hname ((beq_iff_eq.mp heq).symm.trans (h x hx))
  constructor <;> unfold Response.header? withOrigin <;>
    rw [List.find?_append, hown _ (by decide +kernel)]
  · simp
  · have hne : Bytes.ofString "Access-Control-Allow-Origin" ≠
        Bytes.ofString "Access-Control-Allow-Methods" := by decide +kernel
    simp [hne]
  · have hne : Bytes.ofString "Access-Control-Allow-Origin" ≠
        Bytes.ofString "Access-Control-Allow-Headers" := by decide +kernel
    have hne' : Bytes.ofString "Access-Control-Allow-Methods" ≠
        Bytes.ofString "Access-Control-Allow-Headers" := by decide +kernel
    simp [hne, hne']

theorem handle_allowsOrigin (s : Service) (r : Request) :
    (s.handle r).1.response.AllowsOrigin s.settings.corsOrigin := by
  rcases handle_cases s r with ⟨-, h⟩ | ⟨-, -, h⟩ | ⟨-, -, h⟩ <;> rw [h]
  · exact allowsOrigin_withOrigin (fun x hx => by cases hx) s
  · exact allowsOrigin_withOrigin (.of_single rfl) s
  · exact allowsOrigin_withOrigin (hasOwnHeaders_answer s r) s

/-- A limited request that the rate limit does not admit. -/
def Refused (d : Request × Bool) : Prop := d.1.IsLimited ∧ d.2 = false

theorem conclude_refused_iff {admitted : Bool} {r : Request} :
    (s.conclude admitted r).1.response.status = 429 ↔ Refused (r, admitted) := by
  rcases conclude_cases s admitted r with ⟨hr, h⟩ | ⟨hl, hno, h⟩ | ⟨-, hadmitted, h⟩
  · rw [h]
    exact ⟨fun hstatus => absurd (show (204 : Nat) = 429 from hstatus) (by decide),
      fun hrefused => absurd hr hrefused.1.not_isPreflight⟩
  · rw [h]
    exact ⟨fun _ => ⟨hl, hno⟩, fun _ => rfl⟩
  · rw [h]
    refine ⟨fun hstatus => absurd hstatus (s.status_answer r), ?_⟩
    rintro ⟨hl, hno⟩
    cases (hadmitted hl).symm.trans hno

/-- A request is refused exactly when it is limited and there is no token. -/
theorem handle_refused_iff :
    (s.handle r).1.response.status = 429 ↔ r.IsLimited ∧ s.tokens = some 0 := by
  rw [handle_eq, conclude_refused_iff, Refused, hasToken_eq_false_iff]

/-! ## Against a service without a limit -/

/-- Two services that differ at most in their tokens, their counters and the settings of the rate
limit. -/
structure Alike (s t : Service) : Prop where
  registry : s.registry = t.registry
  limit : s.settings.maxUploadBytes = t.settings.maxUploadBytes
  origin : s.settings.corsOrigin = t.settings.corsOrigin

theorem Alike.serve (h : Alike s t) (rs rs' : List Request) :
    Alike (s.serve rs).2 (t.serve rs').2 := by
  obtain ⟨hsettings, hregistry⟩ := s.serve_kept rs
  obtain ⟨hsettings', hregistry'⟩ := t.serve_kept rs'
  constructor
  · rw [hregistry, hregistry', h.registry]
  · rw [hsettings, hsettings', h.limit]
  · rw [hsettings, hsettings', h.origin]

/-- Endpoints look at the settings alone, the page of counters apart. -/
theorem Alike.answer (h : Alike s t) (r : Request) :
    r.SameResponse (s.answer r).response (t.answer r).response := by
  have hpage : Endpoint.ofRequest r = .counters → r.path = Bytes.ofString "/metrics" := by
    intro he
    by_contra hpath
    unfold Endpoint.ofRequest at he
    split at he
    · simp only [Endpoint.ofPath, Endpoint.only, beq_iff_eq, hpath, if_false] at he
      split_ifs at he
    · cases he
  unfold Service.answer
  cases he : Endpoint.ofRequest r with
  | analysis => rw [h.registry, h.limit]; exact ⟨rfl, rfl, rfl, fun _ => rfl⟩
  | counters => exact ⟨rfl, rfl, rfl, fun hfound => absurd rfl (hfound (hpage he))⟩
  | health => exact ⟨rfl, rfl, rfl, fun _ => rfl⟩
  | ready => exact ⟨rfl, rfl, rfl, fun _ => rfl⟩
  | unknownPath => exact ⟨rfl, rfl, rfl, fun _ => rfl⟩
  | wrongMethod => exact ⟨rfl, rfl, rfl, fun _ => rfl⟩

theorem Alike.withOrigin (h : Alike s t) {a b : Response} (hsame : r.SameResponse a b) :
    r.SameResponse (s.withOrigin a) (t.withOrigin b) := by
  refine ⟨hsame.status, ?_, hsame.identified, hsame.body⟩
  show a.headers ++ _ = b.headers ++ _
  rw [hsame.headers, h.origin]

/-- A request that is let through is answered as if there were no limit. -/
theorem Alike.handle (h : Alike s t) (ht : t.tokens = none) (hs : r.IsLimited → s.tokens ≠ some 0) :
    r.SameResponse (s.handle r).1.response (t.handle r).1.response := by
  rcases handle_cases s r with ⟨hr, hs'⟩ | ⟨hl, hzero, -⟩ | ⟨hr, -, hs'⟩
  · rcases handle_cases t r with ⟨-, ht'⟩ | ⟨hl, -, -⟩ | ⟨hr', -, -⟩
    · rw [hs', ht']
      exact h.withOrigin ⟨rfl, rfl, rfl, fun _ => rfl⟩
    · exact absurd hr hl.not_isPreflight
    · exact absurd hr hr'
  · exact absurd hzero (hs hl)
  · rcases handle_cases t r with ⟨hr', -⟩ | ⟨-, hzero, -⟩ | ⟨-, -, ht'⟩
    · exact absurd hr' hr
    · rw [ht] at hzero
      cases hzero
    · rw [hs', ht']
      exact h.withOrigin (h.answer r)

/-! ## Settings -/

theorem start_eq_ok (h : start settings = .ok s) :
    settings.violations = [] ∧
      s = { settings := settings
            tokens := if settings.rateLimit.isPositive then some settings.rateBurst.toNat
              else none } := by
  unfold start at h
  split at h
  · rename_i hvalid
    exact ⟨List.isEmpty_iff.mp hvalid, (Except.ok.inj h).symm⟩
  · cases h

/-- Settings that break no rule break none with the rate limit switched off. -/
theorem start_unlimited (h : settings.violations = []) :
    start { settings with rateLimit := .zero } =
      .ok { settings := { settings with rateLimit := .zero }, tokens := none } := by
  have hzero : Settings.broken .rateLimit [(.atLeast, Number.Binary64.zero.isNonNegative)] = [] := by
    decide
  have hvalid : ({ settings with rateLimit := .zero } : Settings).violations = [] := by
    simp only [Settings.violations, List.append_eq_nil_iff] at h ⊢
    obtain ⟨⟨⟨hfront, -⟩, hburst⟩, horigin⟩ := h
    exact ⟨⟨⟨hfront, hzero⟩, hburst⟩, horigin⟩
  have hoff : Number.Binary64.zero.isPositive = false := by decide
  simp [start, hvalid, hoff]

theorem one_le_rateBurst (h : settings.violations = []) : 1 ≤ settings.rateBurst := by
  simp only [Settings.violations, List.append_eq_nil_iff] at h
  obtain ⟨⟨-, hburst⟩, -⟩ := h
  by_contra hlow
  simp [Settings.broken, hlow] at hburst

/-! ## Runs -/

/-- How a service with a rate limit treats the request at a place of a run, seen beside the answer
`b` of a service that has none. -/
structure Treats (s : Service) (rs : List Request) (i : Nat) (r : Request) (a b : Answer) : Prop where
  /-- A limited request is refused if and only if enough limited ones came up to it. -/
  refused_iff : r.IsLimited →
    (a.response.status = 429 ↔ s.settings.rateBurst < limitedAmong (rs.take (i + 1)))
  /-- What is not refused so is answered as if there were no limit, and never refused there. -/
  same : (r.IsLimited → limitedAmong (rs.take (i + 1)) ≤ s.settings.rateBurst) →
    r.SameResponse a.response b.response ∧ b.response.status ≠ 429
  /-- Only limited requests take tokens. -/
  tokens : ¬ r.IsLimited →
    (s.serve (rs.take (i + 1))).2.tokens = (s.serve (rs.take i)).2.tokens
  origin : a.response.AllowsOrigin s.settings.corsOrigin
  preflight : r.IsPreflight → a.response.status = 204 ∧ a.response.body = [] ∧
    (s.serve (rs.take (i + 1))).2.counters = (s.serve (rs.take i)).2.counters

theorem Alike.treats (h : Alike s t) {n : Nat} (hs : s.tokens = some n)
    (hn : s.settings.rateBurst = n) (ht : t.tokens = none) {i : Nat} (hr : rs[i]? = some r) :
    s.Treats rs i r ((s.serve (rs.take i)).2.handle r).1 ((t.serve (rs.take i)).2.handle r).1 := by
  -- the tokens that the requests before have left, and the number of limited ones up to this one
  have htokens := serve_tokens hs (rs.take i)
  have hcount := limitedAmong_take_succ hr
  have hnext := s.serve_take_succ hr
  constructor
  · intro hl
    -- no token is left for it exactly if the limited ones before it have taken them all
    rw [if_pos hl] at hcount
    rw [handle_refused_iff, htokens, Option.some.injEq, and_iff_right hl]
    omega
  · intro hfits
    have hfree := serve_tokens_none ht (rs.take i)
    have hpassed : r.IsLimited → (s.serve (rs.take i)).2.tokens ≠ some 0 := by
      intro hl
      have hlow := hfits hl
      rw [if_pos hl] at hcount
      rw [htokens, Ne, Option.some.injEq]
      omega
    refine ⟨(h.serve (rs.take i) (rs.take i)).handle hfree hpassed, ?_⟩
    rw [Ne, handle_refused_iff, hfree]
    simp
  · intro hl
    rw [hnext, handle_tokens_of_not hl]
  · have horigin := (s.serve (rs.take i)).2.handle_allowsOrigin r
    rwa [(s.serve_kept (rs.take i)).1] at horigin
  · intro hpre
    rw [hnext]
    rcases handle_cases (s.serve (rs.take i)).2 r with ⟨-, h⟩ | ⟨hl, -, -⟩ | ⟨hnot, -, -⟩
    · rw [h]
      exact ⟨rfl, rfl, rfl⟩
    · exact absurd hpre hl.not_isPreflight
    · exact absurd hpre hnot

/-- **The rate limit is exact.** A service with a limit refuses the limited requests behind the first
`rateBurst` of a run and no other request. Beside it stands the service with the same settings and
the limit switched off, which was given the same requests. -/
theorem rate_limit_exact (hstart : start settings = .ok s)
    (hrate : settings.rateLimit.isPositive = true) :
    ∃ free, start { settings with rateLimit := .zero } = .ok free ∧
      s.settings = settings ∧ ∀ (rs : List Request) (i : Nat) (r : Request), rs[i]? = some r →
        ∃ a b, (s.serve rs).1[i]? = some a ∧ (free.serve rs).1[i]? = some b ∧
          s.Treats rs i r a b := by
  obtain ⟨hvalid, hs⟩ := start_eq_ok hstart
  rw [if_pos hrate] at hs
  have hsettings : s.settings = settings := by rw [hs]
  have htokens : s.tokens = some settings.rateBurst.toNat := by rw [hs]
  have hburst : s.settings.rateBurst = settings.rateBurst.toNat := by
    have hone := one_le_rateBurst hvalid
    rw [hsettings, Int.toNat_of_nonneg (by omega)]
  let free : Service := { settings := { settings with rateLimit := .zero }, tokens := none }
  have halike : Alike s free := by
    rw [hs]
    exact ⟨rfl, rfl, rfl⟩
  refine ⟨free, start_unlimited hvalid, hsettings, fun rs i r hr => ?_⟩
  exact ⟨_, _, s.serve_getElem? hr, free.serve_getElem? hr, halike.treats htokens hburst rfl hr⟩

/-- Two requests at once are allowed. Of four limited ones, one of them for nothing that is there,
the last two are refused, and the pre-flight request among them counts for nothing. -/
theorem rate_limit_exact_two :
    let settings : Settings := { rateLimit := .finite false 1 0, rateBurst := 2 }
    let s : Service := { settings, tokens := some 2 }
    let get : Request := ⟨Bytes.ofString "GET", Bytes.ofString "/api/v1/none", [], []⟩
    let post : Request := ⟨Bytes.ofString "POST", Bytes.ofString "/", [], []⟩
    let preflight : Request := ⟨Bytes.ofString "OPTIONS", Bytes.ofString "/api/v1", [], []⟩
    let rs := [get, preflight, post, post, get]
    start settings = .ok s ∧ settings.rateLimit.isPositive = true ∧
      ∃ a, (s.serve rs).1[2]? = some a ∧ a.response.status ≠ 429 ∧
        ∃ a, (s.serve rs).1[4]? = some a ∧ a.response.status = 429 := by
  intro settings s get post preflight rs
  have hrate : settings.rateLimit.isPositive = true := by decide
  have hstart : start settings = .ok s := by
    have hvalid : settings.violations.isEmpty = true := by decide +kernel
    rw [start, if_pos hvalid, if_pos hrate]
    rfl
  obtain ⟨free, -, -, hruns⟩ := rate_limit_exact hstart hrate
  obtain ⟨a, _, ha, -, htreats⟩ := hruns rs 2 post rfl
  obtain ⟨b, _, hb, -, htreats'⟩ := hruns rs 4 get rfl
  have hpost : post.IsLimited := by decide +kernel
  have hget : get.IsLimited := by decide +kernel
  refine ⟨hstart, hrate, a, ha, ?_, b, hb, ?_⟩
  · rw [Ne, htreats.refused_iff hpost]
    decide +kernel
  · rw [htreats'.refused_iff hget]
    decide +kernel

end Service

end ClassOutline.Http
