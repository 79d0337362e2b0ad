import Mathlib.Data.List.Perm.Subperm
import Mathlib.Data.Set.Card
import Winasio.ResponseReuse

/-!
What can be read back from a response: every string and every list goes
through a length that is cut down to the width of its field.
-/

namespace Winasio.ResponseEncoding

open Winasio.Convert
open Winasio.ResponseReuse

/-- What the setter calls have set last. -/
structure Intended where
  statusCode : Option UInt16 := none
  reason : Bytes := []
  body : Bytes := []
  knownHeader : Nat → Option Bytes := fun _ => none
  unknownHeader : Bytes → Option Bytes := fun _ => none
  trailer : Bytes → Option Bytes := fun _ => none

def Intended.set (i : Intended) : Setter → Intended
  | .setReason reason => { i with reason }
  | .setBody body => { i with body }
  | .setContentType contentType =>
      { i with knownHeader :=
          Function.update i.knownHeader httpHeaderContentType (some contentType) }
  | .setStatusCode statusCode => { i with statusCode := some statusCode }
  | .addKnownHeader id data =>
      { i with knownHeader := Function.update i.knownHeader id (some data) }
  | .addUnknownHeader name val =>
      { i with unknownHeader := Function.update i.unknownHeader name (some val) }
  | .addTrailer name val => { i with trailer := Function.update i.trailer name (some val) }

def intended (setters : List Setter) : Intended := setters.foldl Intended.set {}

def encoded (setters : List Setter) : Contents :=
  (setters.foldl Setter.apply {}).getResponse.resp.contents

def memory : ChunkContents → Bytes
  | .fromMemory data => data
  | .trailers _ => []

def headers : ChunkContents → List (Bytes × Bytes)
  | .fromMemory _ => []
  | .trailers headers => headers

def body (c : Contents) : Bytes := c.chunks.flatMap memory

def trailers (c : Contents) : List (Bytes × Bytes) := c.chunks.flatMap headers

/-- A list of names and values is a map, each name standing in it once. -/
structure Represents (entries : List (Bytes × Bytes)) (m : Bytes → Option Bytes) : Prop where
  nodup : (entries.map Prod.fst).Nodup
  mem_iff : ∀ name val, (name, val) ∈ entries ↔ m name = some val

def nonempty (val : Bytes) : Option Bytes := if val = [] then none else some val

/-- The response says what was set, and it was written inside of its arrays. -/
structure Faithful (c : Contents) (i : Intended) : Prop where
  statusCode : c.statusCode = i.statusCode ∧ c.statusCode.isSome
  reason : c.reason = i.reason
  inBounds : c.inBounds = true
  knownHeader : ∀ id, c.knownHeaders[id]?.join = (i.knownHeader id).bind nonempty
  unknownHeaders : Represents c.unknownHeaders i.unknownHeader
  body : body c = i.body
  trailers : Represents (trailers c) i.trailer

/-- The names and the values of a map have lengths of 16 bits, and so does the
map. -/
structure Short (m : Bytes → Option Bytes) : Prop where
  entry : ∀ name val, m name = some val → name.length < 2 ^ 16 ∧ val.length < 2 ^ 16
  count : Set.ncard {name | m name ≠ none} < 2 ^ 16

structure Fits (i : Intended) : Prop where
  reason : i.reason.length < 2 ^ 16
  knownHeader : ∀ id val, i.knownHeader id = some val →
    id < httpHeaderResponseMaximum ∧ val.length < 2 ^ 16
  unknownHeaders : Short i.unknownHeader
  body : i.body.length < 2 ^ 32
  trailers : Short i.trailer

section Cut

/-- What remains of a list whose length is stored in `n` values. -/
def cut {α : Type} (n : Nat) (xs : List α) : List α := xs.take (xs.length % n)

variable {α : Type} {n : Nat}

theorem length_cut_lt (hn : 0 < n) (xs : List α) : (cut n xs).length < n := by
  have := Nat.mod_lt xs.length hn
  rw [cut, List.length_take]
  omega

theorem cut_of_lt {xs : List α} (h : xs.length < n) : cut n xs = xs := by
  rw [cut, Nat.mod_eq_of_lt h, List.take_length]

theorem cut_eq_self_iff (hn : 0 < n) {xs : List α} : cut n xs = xs ↔ xs.length < n := by
  refine ⟨fun h => ?_, cut_of_lt⟩
  rw [← h]
  exact length_cut_lt hn xs

def cutEntry (x : Bytes × Bytes) : Bytes × Bytes := (cut (2 ^ 16) x.1, cut (2 ^ 16) x.2)

theorem contents_unknownHeader (x : Bytes × Bytes) :
    (unknownHeader x).contents = cutEntry x := by
  simp only [HttpUnknownHeader.contents, unknownHeader, cutEntry, cut, UInt16.toNat_ofNat']

end Cut

theorem Represents.ncard {entries : List (Bytes × Bytes)} {m : Bytes → Option Bytes}
    (h : Represents entries m) : Set.ncard {name | m name ≠ none} = entries.length := by
  have hnames : {name | m name ≠ none} = ((entries.map Prod.fst).toFinset : Set Bytes) := by
    ext name
    simp only [Set.mem_ofPred_eq, List.coe_toFinset, List.mem_map, Prod.exists, exists_and_right,
      exists_eq_right, h.mem_iff, Option.ne_none_iff_exists']
  rw [hnames, Set.ncard_coe_finset, List.toFinset_card_of_nodup h.nodup, List.length_map]

/-- A map is read back exactly if nothing of it was cut off. -/
theorem represents_cut_iff {entries : List (Bytes × Bytes)} {m : Bytes → Option Bytes}
    (h : Represents entries m) :
    Represents ((cut (2 ^ 16) entries).map cutEntry) m ↔ Short m := by
  constructor
  · intro hcut
    have hentry : ∀ name val, m name = some val →
        name.length < 2 ^ 16 ∧ val.length < 2 ^ 16 := by
      intro name val hval
      obtain ⟨x, -, hx⟩ := List.mem_map.mp ((hcut.mem_iff name val).mpr hval)
      obtain ⟨rfl, rfl⟩ := Prod.mk.inj hx
      exact ⟨length_cut_lt (by decide) x.1, length_cut_lt (by decide) x.2⟩
    refine ⟨hentry, ?_⟩
    rw [hcut.ncard, List.length_map]
    exact length_cut_lt (by decide) entries
  · intro hshort
    have hlength := hshort.count
    rw [h.ncard] at hlength
    have hself : ∀ x ∈ entries, cutEntry x = id x := by
      intro x hx
      obtain ⟨hname, hval⟩ := hshort.entry x.1 x.2 ((h.mem_iff x.1 x.2).mp hx)
      rw [cutEntry, cut_of_lt hname, cut_of_lt hval]
      rfl
    rwa [cut_of_lt hlength, List.map_congr_left hself, List.map_id]

theorem represents_entries (m : OrderedMap Bytes Bytes) : Represents m.entries m.get? where
  nodup := m.sorted.imp fun hlt => by
    rintro rfl
    exact Std.Irrefl.irrefl _ hlt
  mem_iff := fun _ _ => OrderedMap.get?_eq_some_iff.symm

structure Holds (r : SimpleResponse) (i : Intended) : Prop where
  statusCode : r.statusCode = i.statusCode
  reason : r.reason = i.reason
  body : r.body = i.body
  knownHeader : r.knownHeaders.get? = i.knownHeader
  unknownHeader : r.unknownHeaders.get? = i.unknownHeader
  trailer : r.trailers.get? = i.trailer

theorem get?_assign {κ ν : Type} [LT κ] [DecidableLT κ] [DecidableEq κ]
    [Trans (LT.lt : κ → κ → Prop) LT.lt LT.lt] [Std.Irrefl (LT.lt : κ → κ → Prop)]
    [Std.Trichotomous (LT.lt : κ → κ → Prop)] {m : OrderedMap κ ν} {f : κ → Option ν}
    (h : m.get? = f) (k : κ) (v : ν) : (m.assign k v).get? = Function.update f k (some v) := by
  funext x
  by_cases hx : x = k
  · subst hx
    rw [OrderedMap.get?_assign_self, Function.update_self]
  · rw [OrderedMap.get?_assign_of_ne m hx, Function.update_of_ne hx, h]

theorem Holds.set {r : SimpleResponse} {i : Intended} (h : Holds r i) (setter : Setter) :
    Holds (setter.apply r) (i.set setter) := by
  obtain ⟨hstatus, hreason, hbody, hknown, hunknown, htrailer⟩ := h
  cases setter with
  | setReason reason => exact ⟨hstatus, rfl, hbody, hknown, hunknown, htrailer⟩
  | setBody body => exact ⟨hstatus, hreason, rfl, hknown, hunknown, htrailer⟩
  | setContentType contentType =>
      exact ⟨hstatus, hreason, hbody, get?_assign hknown _ _, hunknown, htrailer⟩
  | setStatusCode statusCode => exact ⟨rfl, hreason, hbody, hknown, hunknown, htrailer⟩
  | addKnownHeader id data =>
      exact ⟨hstatus, hreason, hbody, get?_assign hknown _ _, hunknown, htrailer⟩
  | addUnknownHeader name val =>
      exact ⟨hstatus, hreason, hbody, hknown, get?_assign hunknown _ _, htrailer⟩
  | addTrailer name val =>
      exact ⟨hstatus, hreason, hbody, hknown, hunknown, get?_assign htrailer _ _⟩

theorem holds_and_fresh (setters : List Setter) :
    Holds (setters.foldl Setter.apply {}) (intended setters) ∧
      SameSetters (setters.foldl Setter.apply {}) (setters.foldl Setter.apply {}) := by
  induction setters using List.reverseRecOn with
  | nil => exact ⟨⟨rfl, rfl, rfl, rfl, rfl, rfl⟩, sameSetters_init⟩
  | append_singleton setters setter ih =>
      rw [intended, List.foldl_concat, List.foldl_concat]
      exact ⟨ih.1.set setter, ih.2.apply setter⟩

section Read

theorem unknownHeaders_encoded {r : SimpleResponse} (h : SameSetters r r) :
    r.getResponse.resp.contents.unknownHeaders =
      (cut (2 ^ 16) r.unknownHeaders.entries).map cutEntry := by
  have hunknown := unknownHeaders_getResponse r
  rw [HttpResponse.contents]
  split at hunknown
  · next hnil =>
      obtain ⟨hcount, hpointer⟩ := Prod.mk.inj hunknown
      simp only [hcount, hpointer, hnil, h.resp]
      rfl
  · obtain ⟨hcount, hpointer⟩ := Prod.mk.inj hunknown
    simp only [hcount, hpointer, UInt16.toNat_ofNat', ← List.map_take, List.map_map]
    exact List.map_congr_left fun x _ => contents_unknownHeader x

theorem bodyChunks_contents (data : Bytes) :
    ((bodyChunks data).map HttpDataChunk.contents).flatMap memory = cut (2 ^ 32) data ∧
      ((bodyChunks data).map HttpDataChunk.contents).flatMap headers = [] := by
  rcases data with _ | ⟨x, xs⟩
  · exact ⟨rfl, rfl⟩
  · refine ⟨?_, rfl⟩
    simp [bodyChunks, HttpDataChunk.contents, memory, cut]

theorem trailerChunks_contents (entries : List (Bytes × Bytes)) :
    ((trailerChunks (entries.map unknownHeader)).map HttpDataChunk.contents).flatMap memory = [] ∧
      ((trailerChunks (entries.map unknownHeader)).map HttpDataChunk.contents).flatMap headers =
        (cut (2 ^ 16) entries).map cutEntry := by
  rcases entries with _ | ⟨x, xs⟩
  · exact ⟨rfl, rfl⟩
  · refine ⟨rfl, ?_⟩
    have hcontents : ∀ ys : List (Bytes × Bytes),
        (ys.map unknownHeader).map HttpUnknownHeader.contents = ys.map cutEntry := by
      intro ys
      rw [List.map_map]
      exact List.map_congr_left fun y _ => contents_unknownHeader y
    rw [trailerChunks, if_pos (by simp)]
    simp only [List.map_cons, List.map_nil, List.flatMap_singleton, HttpDataChunk.contents,
      headers, ← hcontents, cut, List.map_take, UInt16.toNat_ofNat', List.length_map,
      List.length_cons]

theorem chunks_encoded {r : SimpleResponse} (h : SameSetters r r) :
    body r.getResponse.resp.contents = cut (2 ^ 32) r.body ∧
      trailers r.getResponse.resp.contents =
        (cut (2 ^ 16) r.trailers.entries).map cutEntry := by
  have hchunks := chunks_freshResponse h
  rw [newChunks, List.map_append] at hchunks
  obtain ⟨hbody, hbodyHeaders⟩ := bodyChunks_contents r.body
  obtain ⟨htrailerMemory, htrailers⟩ := trailerChunks_contents r.trailers.entries
  rw [body, trailers, hchunks, List.flatMap_append, List.flatMap_append, hbody, hbodyHeaders,
    htrailerMemory, htrailers]
  exact ⟨List.append_nil _, List.nil_append _⟩

theorem getElem?_writeKnownHeaders_of_mem {entries : List (Nat × Bytes)}
    (hentries : (entries.map Prod.fst).Pairwise (· < ·)) {slots : List HttpKnownHeader}
    {id : Nat} {val : Bytes} (hmem : (id, val) ∈ entries) (hid : id < slots.length) :
    (writeKnownHeaders entries slots)[id]? = some (knownHeader val) := by
  induction entries generalizing slots with
  | nil => cases hmem
  | cons entry entries ih =>
      obtain ⟨hfirst, hrest⟩ := List.pairwise_cons.mp hentries
      rcases List.mem_cons.mp hmem with rfl | hmem
      · have hnot : id ∉ entries.map Prod.fst := fun h => Nat.lt_irrefl id (hfirst id h)
        exact (getElem?_writeKnownHeaders hnot).trans (List.getElem?_set_self hid)
      · exact ih hrest hmem (hid.trans_eq List.length_set.symm)

theorem contents_knownHeader (val : Bytes) :
    (knownHeader val).contents = nonempty (cut (2 ^ 16) val) := by
  have hzero : UInt16.ofNat val.length = 0 ↔ val.length % 2 ^ 16 = 0 := by
    rw [← UInt16.toNat_inj, UInt16.toNat_ofNat', UInt16.toNat_zero]
  have hnil : cut (2 ^ 16) val = [] ↔ val.length % 2 ^ 16 = 0 := by
    rw [← List.length_eq_zero_iff, cut, List.length_take,
      Nat.min_eq_left (Nat.mod_le _ _)]
  simp only [HttpKnownHeader.contents, knownHeader, nonempty, hzero, hnil, UInt16.toNat_ofNat']
  rfl

theorem nonempty_cut_iff {val : Bytes} :
    nonempty (cut (2 ^ 16) val) = nonempty val ↔ val.length < 2 ^ 16 := by
  refine ⟨fun h => ?_, fun hlt => by rw [cut_of_lt hlt]⟩
  by_cases hval : val = []
  · rw [hval]
    decide
  · rw [nonempty, nonempty, if_neg hval] at h
    obtain ⟨-, hcut⟩ := Option.ite_none_left_eq_some.mp h
    exact (cut_eq_self_iff (by decide)).mp (Option.some.inj hcut)

theorem mem_keys_iff {m : OrderedMap Nat Bytes} {id : Nat} :
    id ∈ m.keys ↔ ∃ val, m.get? id = some val := by
  simp only [OrderedMap.keys, List.mem_map, Prod.exists, exists_and_right, exists_eq_right,
    OrderedMap.get?_eq_some_iff]

theorem slot_encoded {r : SimpleResponse} (h : SameSetters r r) (id : Nat) :
    r.getResponse.resp.contents.knownHeaders[id]? =
      (writeKnownHeaders r.knownHeaders.entries
        (List.replicate httpHeaderResponseMaximum {}))[id]?.map HttpKnownHeader.contents := by
  rw [HttpResponse.contents, (head_getResponse r).2.2.2.1, h.resp]
  exact List.getElem?_map

theorem knownHeaders_encoded {r : SimpleResponse} (h : SameSetters r r) {id : Nat}
    (hid : id < httpHeaderResponseMaximum) :
    r.getResponse.resp.contents.knownHeaders[id]?.join =
      (r.knownHeaders.get? id).bind fun val => nonempty (cut (2 ^ 16) val) := by
  rw [slot_encoded h]
  cases hget : r.knownHeaders.get? id with
  | some val =>
      have hmem := OrderedMap.get?_eq_some_iff.mp hget
      rw [getElem?_writeKnownHeaders_of_mem r.knownHeaders.sorted hmem (by simpa using hid)]
      exact contents_knownHeader val
  | none =>
      have hnot : id ∉ r.knownHeaders.entries.map Prod.fst := by
        intro hmem
        obtain ⟨val, hval⟩ := mem_keys_iff.mp hmem
        cases hget.symm.trans hval
      rw [getElem?_writeKnownHeaders hnot, List.getElem?_replicate, if_pos hid]
      rfl

theorem knownHeaders_behind {r : SimpleResponse} (h : SameSetters r r) {id : Nat}
    (hid : httpHeaderResponseMaximum ≤ id) :
    r.getResponse.resp.contents.knownHeaders[id]?.join = none := by
  rw [slot_encoded h, List.getElem?_eq_none]
  · rfl
  · rwa [length_writeKnownHeaders, List.length_replicate]

theorem inBounds_encoded {r : SimpleResponse} (h : SameSetters r r) :
    r.getResponse.resp.contents.inBounds = true ↔
      ∀ id val, r.knownHeaders.get? id = some val → id < httpHeaderResponseMaximum := by
  have hbounds := (head_getResponse r).2.2.2.2
  rw [h.resp, Bool.true_and] at hbounds
  refine (Eq.congr_left hbounds).trans (List.all_eq_true.trans ?_)
  constructor
  · intro hall id val hval
    exact of_decide_eq_true (hall id (mem_keys_iff.mpr ⟨val, hval⟩))
  · intro hall id hid
    obtain ⟨val, hval⟩ := mem_keys_iff.mp hid
    exact decide_eq_true (hall id val hval)

/-- The known headers are read back exactly if each has a slot and a length of
16 bits. -/
theorem knownHeaders_iff {r : SimpleResponse} (h : SameSetters r r) :
    (r.getResponse.resp.contents.inBounds = true ∧
      ∀ id, r.getResponse.resp.contents.knownHeaders[id]?.join =
        (r.knownHeaders.get? id).bind nonempty) ↔
      ∀ id val, r.knownHeaders.get? id = some val →
        id < httpHeaderResponseMaximum ∧ val.length < 2 ^ 16 := by
  rw [inBounds_encoded h]
  constructor
  · rintro ⟨hbounds, hslots⟩ id val hval
    have hslot := hslots id
    rw [knownHeaders_encoded h (hbounds id val hval), hval] at hslot
    exact ⟨hbounds id val hval, nonempty_cut_iff.mp hslot⟩
  · intro hfits
    refine ⟨fun id val hval => (hfits id val hval).1, fun id => ?_⟩
    cases hval : r.knownHeaders.get? id with
    | some val =>
        rw [knownHeaders_encoded h (hfits id val hval).1, hval]
        exact nonempty_cut_iff.mpr (hfits id val hval).2
    | none =>
        by_cases hid : id < httpHeaderResponseMaximum
        · rw [knownHeaders_encoded h hid, hval]
          rfl
        · rw [knownHeaders_behind h (Nat.le_of_not_lt hid)]
          rfl

end Read

theorem isSome_statusCode {setters : List Setter}
    (h : ∃ statusCode, .setStatusCode statusCode ∈ setters) :
    (intended setters).statusCode.isSome := by
  obtain ⟨statusCode, hmem⟩ := h
  induction setters using List.reverseRecOn with
  | nil => cases hmem
  | append_singleton setters setter ih =>
      rw [intended, List.foldl_concat]
      rcases List.mem_append.mp hmem with hmem | hmem
      · have hsome := ih hmem
        cases setter with
        | setStatusCode statusCode => rfl
        | setReason | setBody | setContentType | addKnownHeader | addUnknownHeader
        | addTrailer => exact hsome
      · cases List.mem_singleton.mp hmem
        rfl

/-- Setter calls are encoded faithfully exactly if everything that was set
fits. -/
theorem faithful_iff {setters : List Setter}
    (hstatus : ∃ statusCode, .setStatusCode statusCode ∈ setters) :
    Faithful (encoded setters) (intended setters) ↔ Fits (intended setters) := by
  obtain ⟨hholds, hfresh⟩ := holds_and_fresh setters
  have hsome := isSome_statusCode hstatus
  have hknown := knownHeaders_iff hfresh
  have hunknown := represents_cut_iff
    (represents_entries (setters.foldl Setter.apply {}).unknownHeaders)
  have htrailer := represents_cut_iff
    (represents_entries (setters.foldl Setter.apply {}).trailers)
  obtain ⟨hbody, htrailers⟩ := chunks_encoded hfresh
  rw [← unknownHeaders_encoded hfresh, hholds.unknownHeader] at hunknown
  rw [← htrailers, hholds.trailer] at htrailer
  rw [hholds.knownHeader] at hknown
  rw [hholds.body] at hbody
  have hcode : (encoded setters).statusCode = (intended setters).statusCode :=
    (head_getResponse _).1.trans hholds.statusCode
  have hreason : (encoded setters).reason = cut (2 ^ 16) (intended setters).reason := by
    rw [encoded, HttpResponse.contents, (head_getResponse _).2.1, (head_getResponse _).2.2.1,
      hholds.reason, UInt16.toNat_ofNat']
    rfl
  constructor
  · intro h
    refine ⟨?_, hknown.mp ⟨h.inBounds, h.knownHeader⟩, hunknown.mp h.unknownHeaders, ?_,
      htrailer.mp h.trailers⟩
    · exact (cut_eq_self_iff (by decide)).mp (hreason.symm.trans h.reason)
    · exact (cut_eq_self_iff (by decide)).mp (hbody.symm.trans h.body)
  · intro h
    obtain ⟨hinBounds, hslots⟩ := hknown.mpr h.knownHeader
    refine ⟨⟨hcode, hcode ▸ hsome⟩, ?_, hinBounds, hslots, hunknown.mpr h.unknownHeaders, ?_,
      htrailer.mpr h.trailers⟩
    · exact hreason.trans (cut_of_lt h.reason)
    · exact hbody.trans (cut_of_lt h.body)

theorem faithful_iff_hello :
    let setters : List Setter := [.setStatusCode 200, .setBody [104, 105], .setContentType []]
    encoded setters = ⟨some 200, [], List.replicate 30 none, true, [], [.fromMemory [104, 105]]⟩ ∧
      (Faithful (encoded setters) (intended setters) ↔ Fits (intended setters)) :=
  ⟨by decide, faithful_iff ⟨200, List.mem_cons_self⟩⟩

end Winasio.ResponseEncoding
