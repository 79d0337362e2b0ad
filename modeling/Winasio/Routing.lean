import Mathlib.Data.List.Induction
import Mathlib.Logic.Function.Basic
import Winasio.Controller

/-!
The handler table of `basic_http_controller`: how handlers are registered, and
which of them `dispatch` chooses for a request.
-/

namespace Winasio.Routing

open Winasio.QueueHandle (RequestId)
open Winasio.Convert
open Winasio.Controller

variable {Ω : Type}

def httpVerbPost : HttpVerb := ⟨6, by decide⟩
def httpVerbPut : HttpVerb := ⟨7, by decide⟩
def httpVerbDelete : HttpVerb := ⟨8, by decide⟩

def slash : UInt16 := 47

/-- One `/` at the end is dropped. -/
def formatUrlBase (baseUrl : WString) : Except String WString :=
  if baseUrl.length < 7 then .error "invalid argument base_url"
  else if baseUrl[baseUrl.length - 1]? = some slash then .ok baseUrl.dropLast
  else .ok baseUrl

def validateUrlPart (urlPart : WString) : Except String Unit :=
  if urlPart.length < 1 ∨ urlPart[0]? ≠ some slash then .error "invalid argument url_part"
  else .ok ()

structure Routes (Ω : Type) where
  baseUrl : WString
  handlers : Handlers Ω

/-- The array of a new entry; its functions are empty. -/
def noHandlers : HttpVerb → Option (RequestHandler Ω) := fun _ => none

namespace Routes

def construct (urlBase : WString) : Except String (Routes Ω) :=
  (formatUrlBase urlBase).map fun baseUrl => ⟨baseUrl, .empty⟩

def buildUrl (c : Routes Ω) (urlPart : WString) : WString := c.baseUrl ++ urlPart

def registerHandler (c : Routes Ω) (verb : HttpVerb) (url : WString)
    (h : Option (RequestHandler Ω)) : Routes Ω :=
  let (byVerb, handlers) := c.handlers.index url noHandlers
  { c with handlers := handlers.assign url (Function.update byVerb verb h) }

/-- The result is what is thrown, and the table that is left then. -/
def registerUrlPart (c : Routes Ω) (verb : HttpVerb) (urlPart : WString)
    (h : Option (RequestHandler Ω)) : Except String Unit × Routes Ω :=
  match validateUrlPart urlPart with
  | .error e => (.error e, c)
  | .ok () => (.ok (), c.registerHandler verb (c.buildUrl urlPart) h)

def get (c : Routes Ω) (urlPart : WString) (h : Option (RequestHandler Ω)) :
    Except String Unit × Routes Ω :=
  c.registerUrlPart httpVerbGet urlPart h

def post (c : Routes Ω) (urlPart : WString) (h : Option (RequestHandler Ω)) :
    Except String Unit × Routes Ω :=
  c.registerUrlPart httpVerbPost urlPart h

def put (c : Routes Ω) (urlPart : WString) (h : Option (RequestHandler Ω)) :
    Except String Unit × Routes Ω :=
  c.registerUrlPart httpVerbPut urlPart h

def del (c : Routes Ω) (urlPart : WString) (h : Option (RequestHandler Ω)) :
    Except String Unit × Routes Ω :=
  c.registerUrlPart httpVerbDelete urlPart h

end Routes

/-- What `dispatch` does: the handlers it invokes, with the responses they are
given, the response it sends, and the table it leaves behind. -/
structure Dispatched (Ω : Type) where
  handlers : Handlers Ω
  invoked : List (RequestHandler Ω × SimpleResponse)
  response : SimpleResponse
  sends : List (RequestId × Contents)

/-- The condition of `dispatch`: is there a handler for the request? It indexes
the table, which may change it. -/
def hasHandler (handlers : Handlers Ω) (url : WString) (verb : HttpVerb) :
    Bool × Handlers Ω :=
  match handlers.get? url with
  | none => (false, handlers)
  | some _ =>
      let (byVerb, handlers) := handlers.index url noHandlers
      ((byVerb verb).isSome, handlers)

def sendResponse (handlers : Handlers Ω) (invoked : List (RequestHandler Ω × SimpleResponse))
    (request : HttpRequest) (response : SimpleResponse) : Dispatched Ω where
  handlers
  invoked
  response := response.getResponse
  sends := [(request.requestId, response.getResponse.resp.contents)]

/-- `none` is `std::bad_function_call`, which an empty function throws. -/
def dispatch (handlers : Handlers Ω) (captured : Ω) (request : HttpRequest) (body : Bytes)
    (response : SimpleResponse) : Option (Dispatched Ω) :=
  let url := request.url
  let (found, handlers) := hasHandler handlers url request.verb
  if found then
    let response := response.setStatusCode 200
    let (byVerb, handlers) := handlers.index url noHandlers
    (byVerb request.verb).map fun handler =>
      sendResponse handlers [(handler, response)] request (handler captured request body response)
  else
    some (sendResponse handlers [] request ((response.setStatusCode 404).setReason notFound))

/-- One call of `get`, `post`, `put` or `del`; the handler may be empty. -/
inductive Method where
  | get
  | post
  | put
  | del
  deriving DecidableEq, Repr

def Method.verb : Method → HttpVerb
  | .get => httpVerbGet
  | .post => httpVerbPost
  | .put => httpVerbPut
  | .del => httpVerbDelete

structure Registration (Ω : Type) where
  method : Method
  urlPart : WString
  handler : Option (RequestHandler Ω)

namespace Routes

def register (c : Routes Ω) (r : Registration Ω) : Except String Unit × Routes Ω :=
  match r.method with
  | .get => c.get r.urlPart r.handler
  | .post => c.post r.urlPart r.handler
  | .put => c.put r.urlPart r.handler
  | .del => c.del r.urlPart r.handler

def registerAll (c : Routes Ω) (rs : List (Registration Ω)) : Routes Ω :=
  rs.foldl (fun c r => (c.register r).2) c

def handler (c : Routes Ω) (url : WString) (verb : HttpVerb) : Option (RequestHandler Ω) :=
  (c.handlers.get? url).bind fun byVerb => byVerb verb

end Routes

def Registration.Accepted (r : Registration Ω) : Prop := validateUrlPart r.urlPart = .ok ()

instance (r : Registration Ω) : Decidable r.Accepted :=
  match h : validateUrlPart r.urlPart with
  | .ok () => isTrue h
  | .error _ => isFalse fun hok => by cases h.symm.trans hok

def Registration.Matches (baseUrl url : WString) (verb : HttpVerb) (r : Registration Ω) : Prop :=
  r.Accepted ∧ r.method.verb = verb ∧ baseUrl ++ r.urlPart = url

instance (baseUrl url : WString) (verb : HttpVerb) :
    DecidablePred (Registration.Matches (Ω := Ω) baseUrl url verb) :=
  fun r => inferInstanceAs (Decidable (r.Accepted ∧ _ ∧ _))

/-- The handler of the latest registration for a URL and a verb, if there is one
and it is not empty. -/
def latest (baseUrl : WString) (rs : List (Registration Ω)) (url : WString)
    (verb : HttpVerb) : Option (RequestHandler Ω) :=
  (rs.reverse.find? (Registration.Matches baseUrl url verb ·)).bind Registration.handler

def withoutSlash (url : WString) : WString :=
  if url.getLast? = some slash then url.dropLast else url

theorem construct_eq_ok {urlBase : WString} {c : Routes Ω} :
    Routes.construct urlBase = .ok c ↔
      7 ≤ urlBase.length ∧ c = ⟨withoutSlash urlBase, .empty⟩ := by
  simp only [Routes.construct, formatUrlBase, withoutSlash, List.getLast?_eq_getElem?]
  by_cases hlt : urlBase.length < 7
  · rw [if_pos hlt]
    simp only [Except.map, reduceCtorEq, false_iff]
    omega
  · rw [if_neg hlt]
    split
    · simp only [Except.map, Except.ok.injEq, Nat.le_of_not_lt hlt, true_and, eq_comm]
    · simp only [Except.map, Except.ok.injEq, Nat.le_of_not_lt hlt, true_and, eq_comm]

theorem validateUrlPart_eq (urlPart : WString) :
    validateUrlPart urlPart =
      if urlPart.head? = some slash then .ok () else .error "invalid argument url_part" := by
  cases urlPart with
  | nil => rfl
  | cons x xs =>
      by_cases hx : x = slash
      · simp [validateUrlPart, hx]
      · simp [validateUrlPart, hx]

theorem accepted_iff {r : Registration Ω} : r.Accepted ↔ r.urlPart.head? = some slash := by
  rw [Registration.Accepted, validateUrlPart_eq]
  by_cases h : r.urlPart.head? = some slash
  · simp only [h, if_true]
  · simp only [h, if_false, reduceCtorEq]

theorem register_eq (c : Routes Ω) (r : Registration Ω) :
    c.register r = c.registerUrlPart r.method.verb r.urlPart r.handler := by
  rcases r with ⟨method, urlPart, handler⟩
  cases method <;> rfl

theorem register_of_accepted {c : Routes Ω} {r : Registration Ω} (hr : r.Accepted) :
    c.register r = (.ok (), c.registerHandler r.method.verb (c.buildUrl r.urlPart) r.handler) := by
  rw [register_eq, Routes.registerUrlPart, show validateUrlPart r.urlPart = .ok () from hr]

theorem register_of_not_accepted {c : Routes Ω} {r : Registration Ω} (hr : ¬ r.Accepted) :
    c.register r = (.error "invalid argument url_part", c) := by
  rw [register_eq, Routes.registerUrlPart, validateUrlPart_eq,
    if_neg fun hslash => hr (accepted_iff.mpr hslash)]

theorem handler_registerHandler (c : Routes Ω) (verb verb' : HttpVerb) (url url' : WString)
    (h : Option (RequestHandler Ω)) :
    (c.registerHandler verb url h).handler url' verb' =
      if verb = verb' ∧ url = url' then h else c.handler url' verb' := by
  by_cases hurl : url = url'
  · subst hurl
    simp only [Routes.handler, Routes.registerHandler, OrderedMap.get?_assign_self,
      Option.bind_some, OrderedMap.index_fst, and_true]
    by_cases hverb : verb = verb'
    · subst hverb
      rw [if_pos rfl, Function.update_self]
    · rw [if_neg hverb, Function.update_of_ne (Ne.symm hverb)]
      cases c.handlers.get? url <;> rfl
  · rw [if_neg fun h => hurl h.2]
    simp only [Routes.handler, Routes.registerHandler,
      OrderedMap.get?_assign_of_ne _ (Ne.symm hurl),
      OrderedMap.get?_index_of_ne _ (Ne.symm hurl)]

theorem baseUrl_register (c : Routes Ω) (r : Registration Ω) :
    (c.register r).2.baseUrl = c.baseUrl := by
  by_cases hr : r.Accepted
  · rw [register_of_accepted hr]
    rfl
  · rw [register_of_not_accepted hr]

theorem handler_register (c : Routes Ω) (r : Registration Ω) (url : WString) (verb : HttpVerb) :
    (c.register r).2.handler url verb =
      if r.Matches c.baseUrl url verb then r.handler else c.handler url verb := by
  by_cases hr : r.Accepted
  · rw [register_of_accepted hr, handler_registerHandler]
    refine if_congr ?_ rfl rfl
    exact (and_iff_right hr).symm
  · rw [register_of_not_accepted hr, if_neg fun h => hr h.1]

theorem registerAll_concat (c : Routes Ω) (rs : List (Registration Ω)) (r : Registration Ω) :
    c.registerAll (rs ++ [r]) = ((c.registerAll rs).register r).2 := List.foldl_concat _ _ _ _

theorem baseUrl_registerAll (c : Routes Ω) (rs : List (Registration Ω)) :
    (c.registerAll rs).baseUrl = c.baseUrl := by
  induction rs using List.reverseRecOn with
  | nil => rfl
  | append_singleton rs r ih => rw [registerAll_concat, baseUrl_register, ih]

theorem latest_concat (baseUrl : WString) (rs : List (Registration Ω)) (r : Registration Ω)
    (url : WString) (verb : HttpVerb) :
    latest baseUrl (rs ++ [r]) url verb =
      if r.Matches baseUrl url verb then r.handler else latest baseUrl rs url verb := by
  rw [latest, List.reverse_append]
  by_cases hr : r.Matches baseUrl url verb
  · rw [if_pos hr, List.reverse_singleton, List.singleton_append,
      List.find?_cons_of_pos (by simpa using hr)]
    rfl
  · rw [if_neg hr, List.reverse_singleton, List.singleton_append,
      List.find?_cons_of_neg (by simpa using hr)]
    rfl

theorem handler_registerAll {urlBase : WString} {c : Routes Ω}
    (hc : Routes.construct urlBase = .ok c) (rs : List (Registration Ω)) (url : WString)
    (verb : HttpVerb) : (c.registerAll rs).handler url verb = latest c.baseUrl rs url verb := by
  induction rs using List.reverseRecOn with
  | nil =>
      obtain ⟨-, rfl⟩ := construct_eq_ok.mp hc
      rfl
  | append_singleton rs r ih =>
      rw [registerAll_concat, handler_register, baseUrl_registerAll, ih, latest_concat]

/-- The request is for `u`, with the query string `q`; behind them there may be
more in memory. -/
structure CookedFrom (url : CookedUrl) (u : WString) (q : Option WString) : Prop where
  pFullUrl : u ++ q.getD [] <+: url.pFullUrl
  fullUrlLength : url.fullUrlLength.toNat = 2 * (u.length + (q.getD []).length)
  pQueryString : url.pQueryString = q.map fun _ => u.length

theorem url_of_cookedFrom {request : HttpRequest} {u : WString} {q : Option WString}
    (h : CookedFrom request.cookedUrl u q) : request.url = u := by
  obtain ⟨rest, hrest⟩ := h.pFullUrl
  have htake : request.cookedUrl.pFullUrl.take u.length = u := by
    rw [← hrest, List.append_assoc, List.take_left]
  rw [HttpRequest.url, h.pQueryString]
  cases q with
  | some q => exact htake
  | none =>
      have hlength : request.cookedUrl.fullUrlLength.toNat / 2 = u.length := by
        rw [h.fullUrlLength]
        exact Nat.mul_div_cancel_left _ (by decide)
      simp only [Option.map_none, hlength, htake]

theorem hasHandler_eq (handlers : Handlers Ω) (url : WString) (verb : HttpVerb) :
    hasHandler handlers url verb =
      (((handlers.get? url).bind fun byVerb => byVerb verb).isSome, handlers) := by
  rw [hasHandler]
  cases hget : handlers.get? url with
  | none => rfl
  | some byVerb =>
      simp only [OrderedMap.index_of_get? hget]
      rfl

/-- `dispatch` in one step: it does not throw, and it leaves the table as it
is. -/
theorem dispatch_eq (handlers : Handlers Ω) (captured : Ω) (request : HttpRequest)
    (body : Bytes) (response : SimpleResponse) :
    dispatch handlers captured request body response =
      some (sendResponse handlers
        (((handlers.get? request.url).bind fun byVerb => byVerb request.verb).map
          fun handler => (handler, response.setStatusCode 200)).toList
        request (respond handlers captured request body response)) := by
  rw [dispatch, hasHandler_eq, respond]
  cases hget : handlers.get? request.url with
  | none => rfl
  | some byVerb =>
      simp only [Option.bind_some, OrderedMap.index_of_get? hget]
      cases byVerb request.verb <;> rfl

/-- What is sent after `set_status_code(404)` and `set_reason("Not found")`. -/
theorem contents_of_notFound (response : SimpleResponse) :
    let contents := ({ response with statusCode := some 404, reason := notFound } :
      SimpleResponse).getResponse.resp.contents
    contents.statusCode = some 404 ∧ contents.reason = notFound := by
  intro contents
  obtain ⟨hstatus, hreason, hlength, -⟩ :=
    head_getResponse { response with statusCode := some 404, reason := notFound }
  refine ⟨hstatus, ?_⟩
  calc contents.reason
      = notFound.take (UInt16.ofNat notFound.length).toNat := by
        simp only [contents, HttpResponse.contents, hreason, hlength]
    _ = notFound := by decide

/-- What becomes of a request for which a handler is found, or none. -/
structure Routed (found : Option (RequestHandler Ω)) (handlers : Handlers Ω) (captured : Ω)
    (request : HttpRequest) (body : Bytes) (response : SimpleResponse)
    (d : Dispatched Ω) : Prop where
  invoked : d.invoked =
    (found.map fun handler => (handler, { response with statusCode := some 200 })).toList
  preset : ∀ x ∈ d.invoked, x.2.statusCode = some 200
  handled : ∀ handler, found = some handler →
    d.response =
      (handler captured request body { response with statusCode := some 200 }).getResponse
  notFound : found = none →
    d.response =
      ({ response with statusCode := some 404, reason := notFound } : SimpleResponse).getResponse
  sends : d.sends = [(request.requestId, d.response.resp.contents)]
  sentNotFound : found = none →
    ∀ x ∈ d.sends, x.2.statusCode = some 404 ∧ x.2.reason = Controller.notFound
  table : d.handlers = handlers

structure RoutesToLatest (urlBase : WString) (rs : List (Registration Ω)) (c : Routes Ω) :
    Prop where
  dispatched : ∀ captured request body response u q, CookedFrom request.cookedUrl u q →
    ∃ d, dispatch c.handlers captured request body response = some d ∧
      Routed (latest (withoutSlash urlBase) rs u request.verb) c.handlers captured request body
        response d
  query : ∀ (request request' : HttpRequest) u q q', CookedFrom request.cookedUrl u q →
    CookedFrom request'.cookedUrl u q' → request.verb = request'.verb →
      c.handler request.url request.verb = c.handler request'.url request'.verb
  accepted : ∀ r, r.urlPart.head? = some slash → (c.register r).1 = .ok ()
  rejected : ∀ r, r.urlPart.head? ≠ some slash →
    c.register r = (.error "invalid argument url_part", c)
  frame : ∀ r url verb, ¬ (url = withoutSlash urlBase ++ r.urlPart ∧ verb = r.method.verb) →
    (c.register r).2.handler url verb = c.handler url verb

theorem routesToLatest_registerAll {urlBase : WString} {c : Routes Ω}
    (hc : Routes.construct urlBase = .ok c) (rs : List (Registration Ω)) :
    RoutesToLatest urlBase rs (c.registerAll rs) := by
  have hhandler := handler_registerAll hc rs
  have hbase : c.baseUrl = withoutSlash urlBase := by
    obtain ⟨-, rfl⟩ := construct_eq_ok.mp hc
    rfl
  constructor
  · intro captured request body response u q hurl
    refine ⟨_, dispatch_eq _ captured request body response, ?_⟩
    have hfound := hhandler u request.verb
    simp only [Routes.handler, hbase, ← url_of_cookedFrom hurl] at hfound
    rw [← url_of_cookedFrom hurl, ← hfound]
    refine ⟨rfl, ?_, ?_, ?_, rfl, ?_, rfl⟩
    · intro x hx
      obtain ⟨handler, -, rfl⟩ := Option.map_eq_some_iff.mp (Option.mem_toList.mp hx)
      rfl
    · intro handler hsome
      simp only [sendResponse, respond, hsome, SimpleResponse.setStatusCode]
    · intro hnone
      simp only [sendResponse, respond, hnone, SimpleResponse.setStatusCode,
        SimpleResponse.setReason]
    · intro hnone x hx
      simp only [sendResponse, respond, hnone, SimpleResponse.setStatusCode,
        SimpleResponse.setReason, List.mem_singleton] at hx
      subst hx
      exact contents_of_notFound response
  · intro request request' u q q' hurl hurl' hverb
    rw [url_of_cookedFrom hurl, url_of_cookedFrom hurl', hverb]
  · intro r hr
    rw [register_of_accepted (accepted_iff.mpr hr)]
  · intro r hr
    exact register_of_not_accepted fun h => hr (accepted_iff.mp h)
  · intro r url verb hne
    rw [handler_register, baseUrl_registerAll, hbase]
    refine if_neg fun hmatches => hne ⟨hmatches.2.2.symm, hmatches.2.1.symm⟩

/-- Two handlers for one verb at `http://h/a`, and a rejected one in between; a
request for it, with a query. -/
theorem routesToLatest_twice :
    let base : WString := [104, 116, 116, 112, 58, 47, 47, 104]
    let rs : List (Registration Unit) :=
      [⟨.get, [47, 97], some fun _ _ _ response => response⟩, ⟨.get, [97], none⟩,
        ⟨.get, [47, 97], some fun _ _ body response => response.setBody body⟩]
    CookedFrom ⟨base ++ [47, 97, 63, 120], 24, some 10⟩ (base ++ [47, 97]) (some [63, 120]) ∧
      ∃ c : Routes Unit, Routes.construct (base ++ [47]) = .ok c ∧
        (c.registerAll rs).handlers.entries.length = 1 ∧
        RoutesToLatest (base ++ [47]) rs (c.registerAll rs) :=
  ⟨⟨⟨[], rfl⟩, rfl, rfl⟩, _, rfl, rfl, routesToLatest_registerAll rfl _⟩

end Winasio.Routing
