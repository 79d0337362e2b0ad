import Winasio.Convert

/-!
`get_response` called more than once on one object: what a response carries
over from the ones that were built before it.
-/

namespace Winasio.ResponseReuse

open Winasio.Convert

inductive Setter where
  | setReason (reason : Bytes)
  | setBody (body : Bytes)
  | setContentType (contentType : Bytes)
  | setStatusCode (statusCode : UInt16)
  | addKnownHeader (id : Nat) (data : Bytes)
  | addUnknownHeader (name val : Bytes)
  | addTrailer (name val : Bytes)
  deriving DecidableEq, Repr

def Setter.apply (r : SimpleResponse) : Setter → SimpleResponse
  | .setReason reason => r.setReason reason
  | .setBody body => r.setBody body
  | .setContentType contentType => r.setContentType contentType
  | .setStatusCode statusCode => r.setStatusCode statusCode
  | .addKnownHeader id data => r.addKnownHeader id data
  | .addUnknownHeader name val => r.addUnknownHeader name val
  | .addTrailer name val => r.addTrailer name val

inductive Op where
  | set (setter : Setter)
  | getResponse
  deriving DecidableEq, Repr

/-- The responses that one object returns. -/
def responses (r : SimpleResponse) : List Op → List Contents
  | [] => []
  | .set setter :: ops => responses (setter.apply r) ops
  | .getResponse :: ops => r.getResponse.resp.contents :: responses r.getResponse ops

/-- The responses of fresh objects, each of which got the setter calls that were
made so far and no other call. -/
def freshResponses (fresh : SimpleResponse) : List Op → List Contents
  | [] => []
  | .set setter :: ops => freshResponses (setter.apply fresh) ops
  | .getResponse :: ops => fresh.getResponse.resp.contents :: freshResponses fresh ops

/-- At most one body chunk, and behind it at most one trailer chunk. -/
def WellShaped (chunks : List ChunkContents) : Prop :=
  ∃ body trailers : List ChunkContents, chunks = body ++ trailers ∧
    body.length ≤ 1 ∧ (∀ x ∈ body, ∃ data, x = .fromMemory data) ∧
    trailers.length ≤ 1 ∧ ∀ x ∈ trailers, ∃ headers, x = .trailers headers

def Independent (ops : List Op) : Prop :=
  responses {} ops = freshResponses {} ops ∧ ∀ c ∈ responses {} ops, WellShaped c.chunks

def Chunkless (r : SimpleResponse) : Prop := r.body = [] ∧ r.trailers.entries = []

/-- Every `get_response` but the last one is called while there is no body and
no trailer. -/
def ChunklessBeforeLast (fresh : SimpleResponse) : List Op → Prop
  | [] => True
  | .set setter :: ops => ChunklessBeforeLast (setter.apply fresh) ops
  | .getResponse :: ops =>
      (.getResponse ∈ ops → Chunkless fresh) ∧ ChunklessBeforeLast fresh ops

def newChunks (r : SimpleResponse) : List HttpDataChunk :=
  bodyChunks r.body ++ trailerChunks (r.trailers.entries.map unknownHeader)

theorem newChunks_eq_nil_iff (r : SimpleResponse) : newChunks r = [] ↔ Chunkless r := by
  rw [newChunks, List.append_eq_nil_iff]
  refine and_congr ?_ ?_
  · unfold bodyChunks
    split
    · next h =>
        refine iff_of_false (List.cons_ne_nil _ _) fun hnil => ?_
        rw [hnil] at h
        exact absurd h (Nat.lt_irrefl 0)
    · next h => exact iff_of_true rfl (List.eq_nil_of_length_eq_zero (by omega))
  · unfold trailerChunks
    split
    · next h =>
        refine iff_of_false (List.cons_ne_nil _ _) fun hnil => ?_
        rw [hnil] at h
        exact absurd h (Nat.lt_irrefl 0)
    · next h =>
        refine iff_of_true rfl (List.eq_nil_of_length_eq_zero ?_)
        rw [List.length_map] at h
        omega

theorem length_newChunks_le (r : SimpleResponse) : (newChunks r).length ≤ 2 := by
  have hbody : (bodyChunks r.body).length ≤ 1 := by
    unfold bodyChunks
    split <;> simp
  have htrailers : (trailerChunks (r.trailers.entries.map unknownHeader)).length ≤ 1 := by
    unfold trailerChunks
    split <;> simp
  rw [newChunks, List.length_append]
  omega

theorem writeKnownHeaders_congr {entries : List (Nat × Bytes)}
    {slots slots' : List HttpKnownHeader} (hlength : slots.length = slots'.length)
    (h : ∀ i, i ∉ entries.map Prod.fst → slots[i]? = slots'[i]?) :
    writeKnownHeaders entries slots = writeKnownHeaders entries slots' := by
  induction entries generalizing slots slots' with
  | nil => exact List.ext_getElem? fun i => h i List.not_mem_nil
  | cons entry entries ih =>
      refine ih ?_ fun i hi => ?_
      · rw [List.length_set, List.length_set, hlength]
      · rw [List.getElem?_set, List.getElem?_set, hlength]
        split
        · rfl
        · next hne =>
            refine h i fun hmem => ?_
            rcases List.mem_cons.mp hmem with heq | hmem
            · exact hne heq.symm
            · exact hi hmem

theorem length_writeKnownHeaders (entries : List (Nat × Bytes)) (slots : List HttpKnownHeader) :
    (writeKnownHeaders entries slots).length = slots.length := by
  induction entries generalizing slots with
  | nil => rfl
  | cons entry entries ih => exact (ih _).trans List.length_set

theorem getElem?_writeKnownHeaders {entries : List (Nat × Bytes)} {slots : List HttpKnownHeader}
    {i : Nat} (hi : i ∉ entries.map Prod.fst) :
    (writeKnownHeaders entries slots)[i]? = slots[i]? := by
  induction entries generalizing slots with
  | nil => rfl
  | cons entry entries ih =>
      obtain ⟨hne, hi⟩ := not_or.mp (mt List.mem_cons.mpr hi)
      refine (ih hi).trans (List.getElem?_set_ne ?_)
      exact fun heq => hne heq.symm

/-- What the response of an object still carries besides chunks is overwritten
by the next `get_response`. -/
structure Overwritten (r : SimpleResponse) : Prop where
  length : r.resp.knownHeaders.length = httpHeaderResponseMaximum
  slots : ∀ i, i ∉ r.knownHeaders.keys →
    r.resp.knownHeaders[i]? = (List.replicate httpHeaderResponseMaximum {})[i]?
  inBounds : r.resp.inBounds = false → ∃ id ∈ r.knownHeaders.keys, httpHeaderResponseMaximum ≤ id
  unknownHeaders : r.unknownHeaders.entries = [] → r.resp.unknownHeaderCount = 0
  chunks : r.dataChunks = [] → r.resp.entityChunkCount = 0

theorem overwritten_init : Overwritten {} :=
  ⟨rfl, fun _ _ => rfl, fun h => absurd h (by decide), fun _ => rfl, fun _ => rfl⟩

theorem overwritten_apply {r : SimpleResponse} (h : Overwritten r) (setter : Setter) :
    Overwritten (setter.apply r) := by
  have hassign : ∀ id data, Overwritten (r.addKnownHeader id data) := fun id data =>
    ⟨h.length,
      fun i hi => h.slots i fun hmem => hi (OrderedMap.mem_keys_assign hmem id data),
      fun hfalse => (h.inBounds hfalse).imp fun i hi =>
        ⟨OrderedMap.mem_keys_assign hi.1 id data, hi.2⟩,
      h.unknownHeaders, h.chunks⟩
  cases setter with
  | setReason reason => exact ⟨h.length, h.slots, h.inBounds, h.unknownHeaders, h.chunks⟩
  | setBody body => exact ⟨h.length, h.slots, h.inBounds, h.unknownHeaders, h.chunks⟩
  | setContentType contentType => exact hassign httpHeaderContentType contentType
  | setStatusCode statusCode =>
      exact ⟨h.length, h.slots, h.inBounds, h.unknownHeaders, h.chunks⟩
  | addKnownHeader id data => exact hassign id data
  | addUnknownHeader name val =>
      exact ⟨h.length, h.slots, h.inBounds,
        fun hnil => absurd hnil (OrderedMap.entries_assign_ne_nil _ _ _), h.chunks⟩
  | addTrailer name val => exact ⟨h.length, h.slots, h.inBounds, h.unknownHeaders, h.chunks⟩

theorem unknownHeaders_getResponse (r : SimpleResponse) :
    (r.getResponse.resp.unknownHeaderCount, r.getResponse.resp.pUnknownHeaders) =
      if r.unknownHeaders.entries = [] then (r.resp.unknownHeaderCount, r.resp.pUnknownHeaders)
      else (.ofNat r.unknownHeaders.entries.length,
        r.unknownHeaders.entries.map unknownHeader) := by
  change ((HttpResponse.withEntityChunks _ _).unknownHeaderCount,
    (HttpResponse.withEntityChunks _ _).pUnknownHeaders) = _
  rw [HttpResponse.withEntityChunks_eq]
  simp only [HttpResponse.withUnknownHeaders, List.length_map, List.length_pos_iff]
  by_cases hnil : r.unknownHeaders.entries = []
  · rw [if_neg (by simpa using hnil), if_pos hnil]
    rfl
  · rw [if_pos hnil, if_neg hnil]

theorem dataChunks_getResponse (r : SimpleResponse) :
    r.getResponse.dataChunks = r.dataChunks ++ newChunks r := rfl

theorem entityChunks_getResponse (r : SimpleResponse) :
    (r.getResponse.resp.entityChunkCount, r.getResponse.resp.pEntityChunks) =
      if r.getResponse.dataChunks = [] then (r.resp.entityChunkCount, r.resp.pEntityChunks)
      else (.ofNat r.getResponse.dataChunks.length, r.getResponse.dataChunks) := by
  change ((HttpResponse.withEntityChunks _ r.getResponse.dataChunks).entityChunkCount,
    (HttpResponse.withEntityChunks _ r.getResponse.dataChunks).pEntityChunks) = _
  simp only [HttpResponse.withEntityChunks, List.length_pos_iff]
  by_cases hnil : r.getResponse.dataChunks = []
  · rw [if_neg (by simpa using hnil), if_pos hnil, HttpResponse.withUnknownHeaders_eq]
    rfl
  · rw [if_pos hnil, if_neg hnil]

theorem overwritten_getResponse {r : SimpleResponse} (h : Overwritten r) :
    Overwritten r.getResponse where
  length := by
    rw [(head_getResponse r).2.2.2.1, length_writeKnownHeaders, h.length]
  slots := by
    intro i hi
    rw [(head_getResponse r).2.2.2.1]
    exact (getElem?_writeKnownHeaders hi).trans (h.slots i hi)
  inBounds := by
    intro hfalse
    rw [(head_getResponse r).2.2.2.2, Bool.and_eq_false_iff] at hfalse
    rcases hfalse with hfalse | hfalse
    · exact h.inBounds hfalse
    · obtain ⟨id, hid, hle⟩ := List.all_eq_false.mp hfalse
      exact ⟨id, hid, by simpa using hle⟩
  unknownHeaders := by
    intro hnil
    have hempty : r.unknownHeaders.entries = [] := hnil
    have hunknown := unknownHeaders_getResponse r
    rw [if_pos hempty] at hunknown
    exact (congrArg Prod.fst hunknown).trans (h.unknownHeaders hnil)
  chunks := by
    intro hnil
    have hchunks := entityChunks_getResponse r
    rw [if_pos hnil] at hchunks
    rw [dataChunks_getResponse] at hnil
    exact (congrArg Prod.fst hchunks).trans (h.chunks (List.append_eq_nil_iff.mp hnil).1)

/-- The same setter calls were made on both objects, and `get_response` on the
first one only. -/
structure SameSetters (r fresh : SimpleResponse) : Prop where
  statusCode : r.statusCode = fresh.statusCode
  reason : r.reason = fresh.reason
  body : r.body = fresh.body
  knownHeaders : r.knownHeaders = fresh.knownHeaders
  unknownHeaders : r.unknownHeaders = fresh.unknownHeaders
  trailers : r.trailers = fresh.trailers
  resp : fresh.resp = {}
  dataChunks : fresh.dataChunks = []
  overwritten : Overwritten r

theorem sameSetters_init : SameSetters {} {} :=
  ⟨rfl, rfl, rfl, rfl, rfl, rfl, rfl, rfl, overwritten_init⟩

theorem SameSetters.apply {r fresh : SimpleResponse} (h : SameSetters r fresh)
    (setter : Setter) : SameSetters (setter.apply r) (setter.apply fresh) := by
  have hover := overwritten_apply h.overwritten setter
  have hknown : ∀ id data, (r.addKnownHeader id data).knownHeaders =
      (fresh.addKnownHeader id data).knownHeaders := by
    intro id data
    simp only [SimpleResponse.addKnownHeader, h.knownHeaders]
  obtain ⟨hstatus, hreason, hbody, hheaders, hunknown, htrailers, hresp, hchunks, -⟩ := h
  cases setter with
  | setReason reason =>
      exact ⟨hstatus, rfl, hbody, hheaders, hunknown, htrailers, hresp, hchunks, hover⟩
  | setBody body =>
      exact ⟨hstatus, hreason, rfl, hheaders, hunknown, htrailers, hresp, hchunks, hover⟩
  | setContentType contentType =>
      exact ⟨hstatus, hreason, hbody, hknown _ _, hunknown, htrailers, hresp, hchunks, hover⟩
  | setStatusCode statusCode =>
      exact ⟨rfl, hreason, hbody, hheaders, hunknown, htrailers, hresp, hchunks, hover⟩
  | addKnownHeader id data =>
      exact ⟨hstatus, hreason, hbody, hknown _ _, hunknown, htrailers, hresp, hchunks, hover⟩
  | addUnknownHeader name val =>
      refine ⟨hstatus, hreason, hbody, hheaders, ?_, htrailers, hresp, hchunks, hover⟩
      simp only [Setter.apply, SimpleResponse.addUnknownHeader, hunknown]
  | addTrailer name val =>
      refine ⟨hstatus, hreason, hbody, hheaders, hunknown, ?_, hresp, hchunks, hover⟩
      simp only [Setter.apply, SimpleResponse.addTrailer, htrailers]

theorem SameSetters.getResponse {r fresh : SimpleResponse} (h : SameSetters r fresh) :
    SameSetters r.getResponse fresh :=
  ⟨h.statusCode, h.reason, h.body, h.knownHeaders, h.unknownHeaders, h.trailers, h.resp,
    h.dataChunks, overwritten_getResponse h.overwritten⟩

theorem SameSetters.newChunks {r fresh : SimpleResponse} (h : SameSetters r fresh) :
    newChunks r = newChunks fresh := by
  rw [ResponseReuse.newChunks, ResponseReuse.newChunks, h.body, h.trailers]

theorem dataChunks_apply (r : SimpleResponse) (setter : Setter) :
    (setter.apply r).dataChunks = r.dataChunks := by
  cases setter <;> rfl

theorem chunks_getResponse {r : SimpleResponse} (h : Overwritten r)
    (hlength : r.dataChunks.length ≤ 2) :
    r.getResponse.resp.contents.chunks =
      (r.dataChunks ++ newChunks r).map HttpDataChunk.contents := by
  have hnew := length_newChunks_le r
  have htotal : (r.dataChunks ++ newChunks r).length ≤ 4 := by
    rw [List.length_append]
    omega
  have hchunks := entityChunks_getResponse r
  rw [dataChunks_getResponse] at hchunks
  rw [HttpResponse.contents]
  split at hchunks
  · next hnil =>
      obtain ⟨hcount, -⟩ := Prod.mk.inj hchunks
      simp only [hcount, h.chunks (List.append_eq_nil_iff.mp hnil).1, hnil]
      rfl
  · obtain ⟨hcount, hpointer⟩ := Prod.mk.inj hchunks
    simp only [hcount, hpointer, UInt16.toNat_ofNat']
    rw [Nat.mod_eq_of_lt (by omega), List.take_length]

/-- Two responses that list the same chunks are the same, whichever of them was
built by an object that had built others. -/
theorem contents_getResponse {r fresh : SimpleResponse} (h : SameSetters r fresh)
    (hchunks : r.getResponse.resp.contents.chunks = fresh.getResponse.resp.contents.chunks) :
    r.getResponse.resp.contents = fresh.getResponse.resp.contents := by
  obtain ⟨hstatus, hreason, hlength, hknown, hbounds⟩ := head_getResponse r
  obtain ⟨hstatus', hreason', hlength', hknown', hbounds'⟩ := head_getResponse fresh
  have hslots : r.getResponse.resp.knownHeaders = fresh.getResponse.resp.knownHeaders := by
    rw [hknown, hknown', h.knownHeaders, h.resp]
    refine writeKnownHeaders_congr h.overwritten.length fun i hi => h.overwritten.slots i ?_
    rw [h.knownHeaders]
    exact hi
  have hinBounds : r.getResponse.resp.inBounds = fresh.getResponse.resp.inBounds := by
    rw [hbounds, hbounds', h.knownHeaders, h.resp]
    cases hr : r.resp.inBounds with
    | true => rfl
    | false =>
        obtain ⟨id, hid, hle⟩ := h.overwritten.inBounds hr
        rw [h.knownHeaders] at hid
        refine Eq.symm (List.all_eq_false.mpr ⟨id, hid, ?_⟩)
        simpa using hle
  have hunknown : (r.getResponse.resp.pUnknownHeaders.take
        r.getResponse.resp.unknownHeaderCount.toNat) =
      (fresh.getResponse.resp.pUnknownHeaders.take
        fresh.getResponse.resp.unknownHeaderCount.toNat) := by
    have hr := unknownHeaders_getResponse r
    have hfresh := unknownHeaders_getResponse fresh
    rw [h.unknownHeaders] at hr
    by_cases hnil : fresh.unknownHeaders.entries = []
    · rw [if_pos hnil] at hr hfresh
      have hcount := h.overwritten.unknownHeaders (by rw [h.unknownHeaders, hnil])
      rw [(Prod.mk.inj hr).1, (Prod.mk.inj hfresh).1, hcount, h.resp]
      rfl
    · rw [if_neg hnil] at hr hfresh
      rw [(Prod.mk.inj hr).1, (Prod.mk.inj hr).2, (Prod.mk.inj hfresh).1, (Prod.mk.inj hfresh).2]
  have hhead : ∀ resp : HttpResponse, resp.contents =
      { resp.contents with chunks := resp.contents.chunks } := fun _ => rfl
  rw [hhead r.getResponse.resp, hchunks]
  simp only [HttpResponse.contents, hstatus, hstatus', hreason, hreason', hlength, hlength',
    hslots, hinBounds, hunknown, h.statusCode, h.reason]

theorem freshOverwritten {r fresh : SimpleResponse} (h : SameSetters r fresh) :
    Overwritten fresh :=
  ⟨by rw [h.resp]; rfl, fun _ _ => by rw [h.resp], fun hfalse => by simp [h.resp] at hfalse,
    fun _ => by rw [h.resp], fun _ => by rw [h.resp]⟩

theorem chunks_freshResponse {r fresh : SimpleResponse} (h : SameSetters r fresh) :
    fresh.getResponse.resp.contents.chunks = (newChunks fresh).map HttpDataChunk.contents := by
  have hchunks := chunks_getResponse (freshOverwritten h) (by rw [h.dataChunks]; decide)
  rwa [h.dataChunks, List.nil_append] at hchunks

theorem wellShaped_newChunks (r : SimpleResponse) :
    WellShaped ((newChunks r).map HttpDataChunk.contents) := by
  refine ⟨_, _, List.map_append, ?_, ?_, ?_, ?_⟩
  · unfold bodyChunks
    split <;> simp
  · unfold bodyChunks
    split <;> simp [HttpDataChunk.contents]
  · unfold trailerChunks
    split <;> simp
  · unfold trailerChunks
    split <;> simp [HttpDataChunk.contents]

theorem contents_of_dataChunks_nil {r fresh : SimpleResponse} (h : SameSetters r fresh)
    (hnil : r.dataChunks = []) :
    r.getResponse.resp.contents = fresh.getResponse.resp.contents := by
  apply contents_getResponse h
  have hchunks := chunks_getResponse h.overwritten (by rw [hnil]; decide)
  rw [hchunks, chunks_freshResponse h, hnil, List.nil_append, h.newChunks]

theorem contents_ne_of_dataChunks {r fresh : SimpleResponse} (h : SameSetters r fresh)
    (hne : r.dataChunks ≠ []) (hlength : r.dataChunks.length ≤ 2) :
    r.getResponse.resp.contents ≠ fresh.getResponse.resp.contents := by
  intro heq
  have hchunks := congrArg (fun c => c.chunks.length) heq
  simp only [chunks_getResponse h.overwritten hlength, chunks_freshResponse h, h.newChunks,
    List.length_map, List.length_append] at hchunks
  have := List.length_pos_iff.mpr hne
  omega

theorem responses_eq_iff_of_dataChunks {r fresh : SimpleResponse} (h : SameSetters r fresh)
    (hne : r.dataChunks ≠ []) (hlength : r.dataChunks.length ≤ 2) (ops : List Op) :
    responses r ops = freshResponses fresh ops ↔ Op.getResponse ∉ ops := by
  induction ops generalizing r fresh with
  | nil => exact iff_of_true rfl List.not_mem_nil
  | cons op ops ih =>
      cases op with
      | set setter =>
          have hchunks := dataChunks_apply r setter
          have hrest := ih (h.apply setter) (by rwa [hchunks]) (by rwa [hchunks])
          refine hrest.trans (not_congr ?_)
          simp
      | getResponse =>
          refine iff_of_false (fun heq => ?_) (fun hnot => hnot List.mem_cons_self)
          exact contents_ne_of_dataChunks h hne hlength (List.cons.inj heq).1

theorem chunklessBeforeLast_of_not_mem {fresh : SimpleResponse} {ops : List Op}
    (hops : Op.getResponse ∉ ops) : ChunklessBeforeLast fresh ops := by
  induction ops generalizing fresh with
  | nil => trivial
  | cons op ops ih =>
      cases op with
      | set setter => exact ih fun hmem => hops (List.mem_cons_of_mem _ hmem)
      | getResponse => exact absurd List.mem_cons_self hops

theorem responses_eq_iff {r fresh : SimpleResponse} (h : SameSetters r fresh)
    (hnil : r.dataChunks = []) (ops : List Op) :
    responses r ops = freshResponses fresh ops ↔ ChunklessBeforeLast fresh ops := by
  induction ops generalizing r fresh with
  | nil => exact iff_of_true rfl trivial
  | cons op ops ih =>
      cases op with
      | set setter => exact ih (h.apply setter) (by rw [dataChunks_apply, hnil])
      | getResponse =>
          have hfirst := contents_of_dataChunks_nil h hnil
          have hcons : responses r (.getResponse :: ops) =
              freshResponses fresh (.getResponse :: ops) ↔
                responses r.getResponse ops = freshResponses fresh ops := by
            simp only [responses, freshResponses, hfirst, List.cons.injEq, true_and]
          have hleft : r.getResponse.dataChunks = newChunks fresh := by
            rw [dataChunks_getResponse, hnil, List.nil_append, h.newChunks]
          rw [hcons]
          by_cases hchunkless : Chunkless fresh
          · rw [ih h.getResponse (by rw [hleft, (newChunks_eq_nil_iff fresh).mpr hchunkless])]
            exact ⟨fun hrest => ⟨fun _ => hchunkless, hrest⟩, fun hrest => hrest.2⟩
          · have hne : r.getResponse.dataChunks ≠ [] := by
              rw [hleft]
              exact fun hnew => hchunkless ((newChunks_eq_nil_iff fresh).mp hnew)
            have hlength : r.getResponse.dataChunks.length ≤ 2 := by
              rw [hleft]
              exact length_newChunks_le fresh
            rw [responses_eq_iff_of_dataChunks h.getResponse hne hlength]
            constructor
            · intro hops
              exact ⟨fun hmem => absurd hmem hops, chunklessBeforeLast_of_not_mem hops⟩
            · exact fun hrest hmem => hchunkless (hrest.1 hmem)

theorem wellShaped_freshResponses {r fresh : SimpleResponse} (h : SameSetters r fresh)
    {ops : List Op} : ∀ c ∈ freshResponses fresh ops, WellShaped c.chunks := by
  induction ops generalizing r fresh with
  | nil => exact fun c hc => absurd hc List.not_mem_nil
  | cons op ops ih =>
      cases op with
      | set setter => exact ih (h.apply setter)
      | getResponse =>
          intro c hc
          rcases List.mem_cons.mp hc with rfl | hc
          · rw [chunks_freshResponse h]
            exact wellShaped_newChunks fresh
          · exact ih h c hc

/-- The responses of one object are those of fresh objects exactly if every
`get_response` but the last one finds no body and no trailer. -/
theorem independent_iff (ops : List Op) : Independent ops ↔ ChunklessBeforeLast {} ops := by
  rw [Independent, responses_eq_iff sameSetters_init rfl]
  refine and_iff_left_of_imp fun hops => ?_
  rw [(responses_eq_iff sameSetters_init rfl ops).mpr hops]
  exact wellShaped_freshResponses sameSetters_init

/-- The same response twice in a row: the second one has the body twice. -/
theorem not_independent_twice :
    let ops : List Op := [.set (.setStatusCode 200), .set (.setBody [120]), .getResponse,
      .getResponse]
    (responses {} ops).map Contents.chunks =
        [[.fromMemory [120]], [.fromMemory [120], .fromMemory [120]]] ∧
      (freshResponses {} ops).map Contents.chunks =
        [[.fromMemory [120]], [.fromMemory [120]]] ∧
      ¬ Independent ops := by
  refine ⟨by decide, by decide, fun h => ?_⟩
  have := congrArg (List.map Contents.chunks) h.1
  revert this
  decide

end Winasio.ResponseReuse
