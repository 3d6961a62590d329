import ClassOutline.Http.Service
import ClassOutline.Proofs.Text.Encoding
import Mathlib.Data.List.Basic

/-!
# One request after another

What a single request can do to the service is said once, in `Service.conclude_cases`: a pre-flight
request is answered before anything else looks at it, a limited request that the rate limit does not
admit is refused, and every other request gets the answer of its endpoint. What a whole run does
follows from that by induction: `Service.serve_getElem?` finds the answer to a request in the state
that the requests before it lead to.

The service itself admits limited requests while it has tokens, and no token comes back. A limit in
use gets its tokens back as time goes by. Of such a limit only the decisions matter, so a run under
any limit is a run over requests with decisions (`Service.serveUnder`), and the service's own runs are
runs of that kind (`Service.serve_eq_serveUnder`).

## Main definitions

* `Request.IsLimited`: a request that the rate limit covers, told from its method and path.
* `Service.serveUnder`: a run under a rate limit that has decided about every request.
* `Service.exchanges`: the requests of such a run, each with its answer.
-/

namespace ClassOutline.Http

/-! ## Limited requests -/

/-- The methods that the service knows, without the one of pre-flight requests. -/
def limitedMethods : List String :=
  ["GET", "HEAD", "POST", "PUT", "PATCH", "DELETE", "CONNECT", "TRACE"]

namespace Request

/-- A request of another site's page that asks what it may do. -/
def IsPreflight (r : Request) : Prop := r.method = Bytes.ofString "OPTIONS"

instance (r : Request) : Decidable r.IsPreflight := inferInstanceAs (Decidable (_ = _))

/-- Whether a path is that of the versioned interface or lies below it. -/
def UnderMount (r : Request) : Prop :=
  r.path = Bytes.ofString "/api/v1" ∨ Bytes.ofString "/api/v1/" <+: r.path

instance (r : Request) : Decidable r.UnderMount := inferInstanceAs (Decidable (_ ∨ _))

/-- A request that the rate limit covers. -/
def IsLimited (r : Request) : Prop :=
  r.method ∈ limitedMethods.map Bytes.ofString ∧
    (r.method = Bytes.ofString "POST" ∧ r.path = Bytes.ofString "/" ∨ r.UnderMount)

instance (r : Request) : Decidable r.IsLimited := inferInstanceAs (Decidable (_ ∧ _))

end Request

namespace Endpoint

variable {r : Request}

theorem knownMethod?_eq_some_iff {method : Bytes} {m : String} :
    knownMethod? method = some m ↔ m ∈ methods ∧ Bytes.ofString m = method := by
  constructor
  · intro h
    exact ⟨List.mem_of_find?_eq_some h, by simpa using List.find?_some h⟩
  · rintro ⟨hm, rfl⟩
    have hall : ∀ m ∈ methods, knownMethod? (Bytes.ofString m) = some m := by decide +kernel
    exact hall m hm

theorem isVersioned_iff : isVersioned r.path = true ↔ r.UnderMount := by
  simp [isVersioned, Request.UnderMount]

/-- What is covered by the limit is told from the method and the path alone. -/
theorem isLimited_iff (hr : ¬ r.IsPreflight) : isLimited r = true ↔ r.IsLimited := by
  have hpost : ∀ m ∈ methods, Bytes.ofString m = Bytes.ofString "POST" → m = "POST" := by
    decide +kernel
  have hother : ∀ m ∈ methods, m = "OPTIONS" ∨ m ∈ limitedMethods := by decide
  have hknown : ∀ m ∈ limitedMethods, m ∈ methods := by decide
  unfold isLimited Request.IsLimited
  split
  · rename_i m hm
    obtain ⟨hmem, hmethod⟩ := knownMethod?_eq_some_iff.mp hm
    have hlimited : r.method ∈ limitedMethods.map Bytes.ofString := by
      rcases hother m hmem with rfl | hin
      · exact absurd hmethod.symm hr
      · exact hmethod ▸ List.mem_map_of_mem hin
    have hroot : m = "POST" ↔ r.method = Bytes.ofString "POST" := by
      rw [← hmethod]
      exact ⟨fun h => h ▸ rfl, hpost m hmem⟩
    simp only [Bool.or_eq_true, isVersioned_iff, Bool.and_eq_true, beq_iff_eq, hroot, hlimited,
      true_and]
    exact or_comm
  · rename_i hnone
    simp only [Bool.false_eq_true, false_iff, not_and]
    rintro hmem -
    obtain ⟨m, hm, hmethod⟩ := List.mem_map.mp hmem
    rw [knownMethod?_eq_some_iff.mpr ⟨hknown m hm, hmethod⟩] at hnone
    cases hnone

end Endpoint

theorem Request.IsLimited.not_isPreflight {r : Request} (h : r.IsLimited) : ¬ r.IsPreflight := by
  intro hr
  have hnot : Bytes.ofString "OPTIONS" ∉ limitedMethods.map Bytes.ofString := by decide +kernel
  exact hnot (hr ▸ h.1)

/-! ## Requests for an analysis -/

namespace Submission

/-- A request that cannot be read is one whose body is too large or malformed. -/
def IsUnreadable (reason : Rejection) : Prop := reason = .tooLarge ∨ reason = .badRequest

variable {reason : Rejection} {body : LimitedBody} {query : Bytes}

theorem isUnreadable_ended (body : LimitedBody) : IsUnreadable body.ended := by
  unfold LimitedBody.ended
  split
  · exact .inl rfl
  · exact .inr rfl

theorem isUnreadable_of_json (h : ofJsonBody body = .error reason) : IsUnreadable reason := by
  unfold ofJsonBody at h
  split at h
  · exact Except.error.inj h ▸ isUnreadable_ended body
  · exact .inr (Except.error.inj h).symm
  · split at h
    · exact .inl (Except.error.inj h).symm
    · split at h
      · cases h
      · exact .inr (Except.error.inj h).symm

theorem isUnreadable_of_query (h : ofQueryBody body = .error reason) : IsUnreadable reason := by
  unfold ofQueryBody at h
  split at h
  · exact .inl (Except.error.inj h).symm
  · split at h
    · cases h
    · exact .inr (Except.error.inj h).symm

theorem isUnreadable_of_multipart {type : MediaType} (h : ofMultipartBody type body = .error reason) :
    IsUnreadable reason := by
  unfold ofMultipartBody at h
  split at h
  · exact .inr (Except.error.inj h).symm
  · split at h
    · exact Except.error.inj h ▸ isUnreadable_ended body
    · exact .inr (Except.error.inj h).symm
    · cases h

theorem isUnreadable_of_checkQuery {s : Submission} (h : checkQuery query s = .error reason) :
    IsUnreadable reason := by
  unfold checkQuery at h
  split at h
  · cases h
  · exact .inr (Except.error.inj h).symm

/-- A form is unreadable by itself or for its query. -/
theorem isUnreadable_of_bind {form : Except Rejection Submission}
    (hform : ∀ {reason}, form = .error reason → IsUnreadable reason)
    (h : form.bind (checkQuery query) = .error reason) : IsUnreadable reason := by
  cases form with
  | error e => exact hform h
  | ok s => exact isUnreadable_of_checkQuery h

theorem isUnreadable_of_request {limit : Nat} {r : Request} (h : ofRequest limit r = .error reason) :
    IsUnreadable reason := by
  unfold ofRequest at h
  split at h
  · exact isUnreadable_of_checkQuery h
  · split at h
    · unfold ofBody at h
      split at h
      · exact isUnreadable_of_json h
      split at h
      · exact isUnreadable_of_bind isUnreadable_of_multipart h
      split at h
      · exact isUnreadable_of_bind isUnreadable_of_query h
      · exact isUnreadable_of_checkQuery h
    · exact .inr (Except.error.inj h).symm

end Submission

namespace Answer

/-- An answer that sends an envelope with a status and records an outcome. -/
structure Sends (a : Answer) (status : Nat) (e : Envelope) (outcome : Outcome) : Prop where
  status : a.response.status = status
  body : a.response.body = e.toJson.document
  outcome : a.outcome = some outcome

theorem sends_rejected (reason : Rejection) :
    (rejected reason).Sends (refusal reason).1 (.failure (refusal reason).2 .unknown [])
      (.rejected reason) :=
  ⟨rfl, rfl, rfl⟩

/-- What becomes of a request for an analysis: it cannot be read, it holds no code, or its code is
analysed. -/
theorem ofAnalysisRequest_cases (registry : Registry) (limit : Nat) (r : Request) :
    (∃ reason, Submission.IsUnreadable reason ∧
      (ofAnalysisRequest registry limit r).Sends (refusal reason).1
        (.failure (refusal reason).2 .unknown []) (.rejected reason)) ∨
    (∃ hint filename, (ofAnalysisRequest registry limit r).Sends 400 (.noCode hint filename)
      (.rejected .noCode)) ∨
    (∃ code hint filename, (ofAnalysisRequest registry limit r).Sends 200
      (.ofOutline (some (registry.analyze code hint filename).outline)
        (registry.analyze code hint filename).language filename)
      (.analyzed (registry.analyze code hint filename))) := by
  unfold ofAnalysisRequest
  cases hread : Submission.ofRequest limit r with
  | error reason => exact .inl ⟨reason, Submission.isUnreadable_of_request hread, rfl, rfl, rfl⟩
  | ok sub =>
    right
    cases hblank : sub.code.isBlank with
    | true =>
      left
      refine ⟨Language.normalizeHint sub.language, sub.filename, ?_⟩
      simp only [ofSubmission, hblank]
      exact ⟨rfl, rfl, rfl⟩
    | false =>
      right
      refine ⟨sub.code, Language.normalizeHint sub.language, sub.filename, ?_⟩
      simp only [ofSubmission, hblank]
      exact ⟨rfl, rfl, rfl⟩

end Answer

/-! ## One request -/

namespace Service

variable {s : Service} {r : Request}

/-- The service with an outcome counted. -/
def counted (s : Service) (outcome : Option Outcome) : Service :=
  { s with counters := (outcome.map s.counters.record).getD s.counters }

/-- An answer as it is sent. -/
def sent (s : Service) (a : Answer) : Answer := { a with response := s.withOrigin a.response }

/-- What a request can do: nothing but be answered, if it is a pre-flight request; be refused if it is
limited and not admitted; or be answered by its endpoint. -/
theorem conclude_cases (s : Service) (admitted : Bool) (r : Request) :
    (r.IsPreflight ∧ s.conclude admitted r = (s.sent { response := ⟨204, [], [], false⟩ }, s)) ∨
    (r.IsLimited ∧ admitted = false ∧
      s.conclude admitted r = (s.sent (.rejected .rateLimited),
        s.counted (some (.rejected .rateLimited)))) ∨
    (¬ r.IsPreflight ∧ (r.IsLimited → admitted = true) ∧
      s.conclude admitted r = (s.sent (s.answer r), s.counted (s.answer r).outcome)) := by
  by_cases hr : r.IsPreflight
  · left
    have hrespond : s.respond admitted r = { response := ⟨204, [], [], false⟩ } := by
      rw [respond, if_pos (by simpa [Request.IsPreflight] using hr)]
    refine ⟨hr, ?_⟩
    rw [conclude, hrespond]
    rfl
  · right
    have hmethod : (r.method == Bytes.ofString "OPTIONS") = false := by
      simpa [Request.IsPreflight] using hr
    -- behind the pre-flight requests, what is limited is told from the method and the path
    have hlimited := Endpoint.isLimited_iff hr
    by_cases hrefused : r.IsLimited ∧ admitted = false
    · obtain ⟨hl, hno⟩ := hrefused
      have hrespond : s.respond admitted r = .rejected .rateLimited := by
        simp [respond, hmethod, hlimited, hl, hno]
      refine .inl ⟨hl, hno, ?_⟩
      rw [conclude, hrespond]
      rfl
    · have hadmitted : r.IsLimited → admitted = true := by
        intro hl
        rw [← Bool.not_eq_false]
        exact fun hno => hrefused ⟨hl, hno⟩
      have hrespond : s.respond admitted r = s.answer r := by
        have hnot : (Endpoint.isLimited r && !admitted) = false := by
          simpa [hlimited] using hadmitted
        simp [respond, hmethod, hnot]
      refine .inr ⟨hr, hadmitted, ?_⟩
      rw [conclude, hrespond]
      rfl

/-- What is left of the service's tokens is told from what is limited. -/
theorem tokensAfter_eq (s : Service) (r : Request) :
    s.tokensAfter r = if r.IsLimited then s.tokens.map (· - 1) else s.tokens := by
  by_cases hr : r.IsPreflight
  · have hmethod : (r.method != Bytes.ofString "OPTIONS") = false := by
      simpa [Request.IsPreflight] using hr
    rw [tokensAfter, hmethod, if_neg fun hl : r.IsLimited => hl.not_isPreflight hr]
    rfl
  · have hmethod : (r.method != Bytes.ofString "OPTIONS") = true := by
      simpa [Request.IsPreflight] using hr
    simp [tokensAfter, hmethod, Endpoint.isLimited_iff hr]

theorem hasToken_eq_false_iff {s : Service} : s.hasToken = false ↔ s.tokens = some 0 := by
  simp [hasToken]

/-- The service's own limit decides by its tokens, and a limited request takes one. -/
theorem handle_eq (s : Service) (r : Request) :
    s.handle r = ((s.conclude s.hasToken r).1,
      { (s.conclude s.hasToken r).2 with tokens := s.tokensAfter r }) := rfl

/-- The service after an answer: the tokens that are left, and what was counted. -/
def after (s : Service) (tokens : Option Nat) (outcome : Option Outcome) : Service :=
  { s.counted outcome with tokens }

/-- The cases of a request where the service's tokens decide. -/
theorem handle_cases (s : Service) (r : Request) :
    (r.IsPreflight ∧ s.handle r = (s.sent { response := ⟨204, [], [], false⟩ }, s)) ∨
    (r.IsLimited ∧ s.tokens = some 0 ∧
      s.handle r = (s.sent (.rejected .rateLimited),
        s.after (some 0) (some (.rejected .rateLimited)))) ∨
    (¬ r.IsPreflight ∧ (r.IsLimited → s.tokens ≠ some 0) ∧
      s.handle r = (s.sent (s.answer r), s.after (s.tokensAfter r) (s.answer r).outcome)) := by
  rw [handle_eq]
  -- the limit decides against a request exactly where there is no token to take
  rcases conclude_cases s s.hasToken r with ⟨hr, h⟩ | ⟨hl, hno, h⟩ | ⟨hr, hadmitted, h⟩
  · have hnot : ¬ r.IsLimited := fun hl => hl.not_isPreflight hr
    refine .inl ⟨hr, ?_⟩
    rw [h, tokensAfter_eq, if_neg hnot]
  · have htokens := hasToken_eq_false_iff.mp hno
    refine .inr (.inl ⟨hl, htokens, ?_⟩)
    rw [h, tokensAfter_eq, if_pos hl, htokens]
    rfl
  · refine .inr (.inr ⟨hr, fun hl htokens => ?_, ?_⟩)
    · rw [hasToken_eq_false_iff.mpr htokens] at hadmitted
      cases hadmitted hl
    · rw [h]
      rfl

/-- No request changes what the service was built with. -/
theorem conclude_kept (s : Service) (admitted : Bool) (r : Request) :
    (s.conclude admitted r).2.settings = s.settings ∧
      (s.conclude admitted r).2.registry = s.registry := ⟨rfl, rfl⟩

theorem handle_kept (s : Service) (r : Request) :
    (s.handle r).2.settings = s.settings ∧ (s.handle r).2.registry = s.registry :=
  s.conclude_kept s.hasToken r

/-! ## Runs -/

theorem serve_kept (s : Service) (rs : List Request) :
    (s.serve rs).2.settings = s.settings ∧ (s.serve rs).2.registry = s.registry := by
  induction rs generalizing s with
  | nil => exact ⟨rfl, rfl⟩
  | cons r rs ih =>
    obtain ⟨hsettings, hregistry⟩ := s.handle_kept r
    obtain ⟨hsettings', hregistry'⟩ := ih (s.handle r).2
    exact ⟨hsettings'.trans hsettings, hregistry'.trans hregistry⟩

/-- A request is answered in the state that the requests before it lead to. -/
theorem serve_getElem? (s : Service) {rs : List Request} {i : Nat} (h : rs[i]? = some r) :
    (s.serve rs).1[i]? = some ((s.serve (rs.take i)).2.handle r).1 := by
  induction rs generalizing s i with
  | nil => cases h
  | cons q rs ih =>
    cases i with
    | zero =>
      obtain rfl : q = r := Option.some.inj h
      rfl
    | succ i => exact ih (s.handle q).2 h

theorem serve_take_succ (s : Service) {rs : List Request} {i : Nat} (h : rs[i]? = some r) :
    (s.serve (rs.take (i + 1))).2 = ((s.serve (rs.take i)).2.handle r).2 := by
  induction rs generalizing s i with
  | nil => cases h
  | cons q rs ih =>
    cases i with
    | zero =>
      obtain rfl : q = r := Option.some.inj h
      rfl
    | succ i => exact ih (s.handle q).2 h

/-! ## Runs under any limit -/

/-- Requests in order, each with the decision of a rate limit: the answers, and the service
afterwards. -/
def serveUnder (s : Service) : List (Request × Bool) → List Answer × Service
  | [] => ([], s)
  | (r, admitted) :: ds =>
    let (answer, s) := s.conclude admitted r
    let (answers, s) := s.serveUnder ds
    (answer :: answers, s)

/-- The requests of a run, each with its answer. -/
def exchanges (s : Service) (ds : List (Request × Bool)) : List (Request × Answer) :=
  (ds.map Prod.fst).zip (s.serveUnder ds).1

variable {ds : List (Request × Bool)} {admitted : Bool}

theorem exchanges_cons (s : Service) (r : Request) (admitted : Bool) (ds : List (Request × Bool)) :
    s.exchanges ((r, admitted) :: ds) =
      (r, (s.conclude admitted r).1) :: (s.conclude admitted r).2.exchanges ds := rfl

theorem serveUnder_kept (s : Service) (ds : List (Request × Bool)) :
    (s.serveUnder ds).2.settings = s.settings ∧ (s.serveUnder ds).2.registry = s.registry := by
  induction ds generalizing s with
  | nil => exact ⟨rfl, rfl⟩
  | cons d ds ih => exact ih (s.conclude d.2 d.1).2

theorem serveUnder_getElem? (s : Service) {i : Nat} (h : ds[i]? = some (r, admitted)) :
    (s.serveUnder ds).1[i]? = some ((s.serveUnder (ds.take i)).2.conclude admitted r).1 := by
  induction ds generalizing s i with
  | nil => cases h
  | cons d ds ih =>
    cases i with
    | zero =>
      obtain rfl : d = (r, admitted) := Option.some.inj h
      rfl
    | succ i => exact ih (s.conclude d.2 d.1).2 h

/-- The decisions of the service's own limit about some requests. -/
def decided (s : Service) : List Request → List (Request × Bool)
  | [] => []
  | r :: rs => (r, s.hasToken) :: (s.handle r).2.decided rs

/-- Nothing but the decisions depends on the tokens. -/
theorem serveUnder_withTokens (s : Service) (tokens : Option Nat) (ds : List (Request × Bool)) :
    ({ s with tokens } : Service).serveUnder ds =
      ((s.serveUnder ds).1, { (s.serveUnder ds).2 with tokens }) := by
  induction ds generalizing s with
  | nil => rfl
  | cons d ds ih =>
    have hrest := ih (s.conclude d.2 d.1).2
    have hfirst : ({ s with tokens } : Service).conclude d.2 d.1 =
        ((s.conclude d.2 d.1).1, { (s.conclude d.2 d.1).2 with tokens }) := rfl
    simp only [serveUnder, hfirst, hrest]

/-- A run of the service is the run under the decisions of its own limit. -/
theorem serve_eq_serveUnder (s : Service) (rs : List Request) :
    s.serve rs = ((s.serveUnder (s.decided rs)).1,
      { (s.serveUnder (s.decided rs)).2 with tokens := (s.serve rs).2.tokens }) := by
  induction rs generalizing s with
  | nil => rfl
  | cons r rs ih =>
    have hrest := ih (s.handle r).2
    -- the tokens that are left decide about the next request, and about nothing else
    have hstep : (s.handle r).2.serveUnder ((s.handle r).2.decided rs) =
        (((s.conclude s.hasToken r).2.serveUnder ((s.handle r).2.decided rs)).1,
          { ((s.conclude s.hasToken r).2.serveUnder ((s.handle r).2.decided rs)).2 with
            tokens := s.tokensAfter r }) :=
      serveUnder_withTokens ..
    rw [hstep] at hrest
    simp only [serve, decided, serveUnder]
    rw [hrest]
    rfl

end Service

end ClassOutline.Http
