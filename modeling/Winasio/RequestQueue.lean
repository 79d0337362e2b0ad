import Mathlib.Data.List.Nodup
import Winasio.EraseFirst
import Winasio.ReceiveBody
import Winasio.ReceiveRequest

/-!
The request queue of HTTP.sys over many requests and calls at the same time:
which request a call is answered with, and what is left of it then.
-/

namespace Winasio.RequestQueue

open Winasio.QueueHandle

/-- `HTTP_NULL_ID`. -/
def nullId : RequestId := List.replicate 8 0

/-- What HTTP.sys has given away of a request: nothing, the size of its header,
or the header and the body but for the rest. -/
inductive Delivery where
  | waiting
  | announced
  | delivered (rest : Bytes)
  deriving DecidableEq, Repr

/-- A request as it fills a buffer, and its body. -/
structure Arrival where
  header : Bytes
  body : Bytes
  deriving DecidableEq, Repr

structure Entry extends Arrival where
  delivery : Delivery := .waiting
  deriving DecidableEq, Repr

abbrev Queue : Type := List Entry

def Arrival.id (L : Layout) (a : Arrival) : RequestId := L.requestId a.header

/-- Every request has an identifier, and fits into a buffer of the size its
header has. -/
def Arrival.sound (L : Layout) (a : Arrival) : Bool :=
  a.id L ≠ nullId ∧ L.sizeofHttpRequest ≤ a.header.length ∧ a.header.length < 2 ^ 32

namespace Entry

def isDelivered (e : Entry) : Bool :=
  match e.delivery with
  | .delivered _ => true
  | .waiting | .announced => false

/-- The call asks for any request and this one waits, or it asks for this one,
of which a call was told that its room does not suffice. -/
def asked (L : Layout) (c : Call) (e : Entry) : Bool :=
  if c.id = nullId then e.delivery = .waiting else e.id L = c.id ∧ e.delivery = .announced

end Entry

namespace Queue

def update (q : Queue) (L : Layout) (id : RequestId) (f : Entry → Delivery) : Queue :=
  q.map fun e => if e.id L = id then { e with delivery := f e } else e

/-- The answers to `HttpReceiveHttpRequest`. -/
def admitsHeader (q : Queue) (L : Layout) (c : Call) (r : Report) : Bool :=
  r.written.length ≤ c.length.toNat ∧
    (r.code = 0 → ∃ e ∈ q, e.asked L c ∧ r.written = e.header ∧ r.len = r.written.length) ∧
    (r.code = ErrorCode.moreData → ∃ e ∈ q, e.asked L c ∧
      L.sizeofHttpRequest ≤ r.written.length ∧ L.requestId r.written = e.id L ∧
      c.length.toNat < e.header.length ∧ (r.queued → r.len = e.header.length)) ∧
    (r.code = ErrorCode.insufficientBuffer → c.length.toNat < L.sizeofHttpRequest) ∧
    -- the request was received before
    (r.code = ErrorCode.handleEof → ∃ e ∈ q, e.id L = c.id ∧ e.isDelivered)

def afterHeader (q : Queue) (L : Layout) (r : Report) : Queue :=
  if r.code = 0 then q.update L (L.requestId r.written) fun e => .delivered e.body
  else if r.code = ErrorCode.moreData then
    q.update L (L.requestId r.written) fun _ => .announced
  else q

/-- What `HttpReceiveRequestEntityBody` has left to deliver for an identifier. -/
def rest (q : Queue) (L : Layout) (id : RequestId) : Option Bytes :=
  (q.find? (·.id L = id)).bind fun e =>
    match e.delivery with
    | .delivered rest => some rest
    | .waiting | .announced => none

def admitsBody (q : Queue) (L : Layout) (c : Call) (r : Report) : Bool :=
  match q.rest L c.id with
  | some rest => ReceiveBody.admits rest c r
  | none =>
      r.written.length ≤ c.length.toNat ∧ r.code ≠ 0 ∧ r.code ≠ ErrorCode.handleEof

def afterBody (q : Queue) (L : Layout) (c : Call) (r : Report) : Queue :=
  match q.rest L c.id with
  | some rest => q.update L c.id fun _ => .delivered (ReceiveBody.after rest r)
  | none => q

def admits (q : Queue) (L : Layout) (c : Call) (r : Report) : Bool :=
  match c.api with
  | .receiveHttpRequest => q.admitsHeader L c r
  | .receiveRequestEntityBody => q.admitsBody L c r

def after (q : Queue) (L : Layout) (c : Call) (r : Report) : Queue :=
  match c.api with
  | .receiveHttpRequest => q.afterHeader L r
  | .receiveRequestEntityBody => q.afterBody L c r

/-- A request arrives under a new identifier. -/
def arrive (q : Queue) (L : Layout) (a : Arrival) : Option Queue :=
  if a.sound L ∧ ∀ e ∈ q, e.id L ≠ a.id L then some (q ++ [{ toArrival := a }]) else none

end Queue

section Update

variable {q : Queue} {L : Layout} {id : RequestId} {f : Entry → Delivery}

theorem arrivals_update : (q.update L id f).map Entry.toArrival = q.map Entry.toArrival := by
  rw [Queue.update, List.map_map]
  apply List.map_congr_left
  intro e _
  dsimp only [Function.comp_apply]
  split <;> rfl

theorem mem_update_of_ne {e : Entry} (he : e ∈ q) (hid : e.id L ≠ id) : e ∈ q.update L id f :=
  List.mem_map.mpr ⟨e, he, if_neg hid⟩

theorem mem_update_self {e : Entry} (he : e ∈ q) (hid : e.id L = id) :
    { e with delivery := f e } ∈ q.update L id f :=
  List.mem_map.mpr ⟨e, he, if_pos hid⟩

end Update

theorem requestId_setNullId {L : Layout} {room : Bytes} (h : L.sizeofHttpRequest ≤ room.length) :
    L.requestId (L.setNullId room) = nullId := by
  have hfits := L.requestId_le
  have hlength : (room.take L.requestIdOffset).length = L.requestIdOffset := by
    rw [List.length_take]
    omega
  rw [Layout.requestId, Layout.setNullId, List.append_assoc]
  conv_lhs =>
    rw [List.drop_append_of_le_length (Nat.le_of_eq hlength.symm),
      List.drop_eq_nil_of_le (Nat.le_of_eq hlength), List.nil_append]
  exact List.take_left' rfl

theorem requestId_nil (L : Layout) : L.requestId [] = [] := by simp [Layout.requestId]

theorem length_requestId {L : Layout} {room : Bytes} (h : L.sizeofHttpRequest ≤ room.length) :
    (L.requestId room).length = 8 := by
  have hfits := L.requestId_le
  rw [Layout.requestId, List.length_take, List.length_drop]
  omega

/-- The requests in the queue are told apart by their identifiers. -/
structure Sound (L : Layout) (q : Queue) : Prop where
  ids : (q.map fun e => e.id L).Nodup
  entries : ∀ e ∈ q, e.sound L = true

section Sound

variable {L : Layout} {q : Queue}

theorem Sound.update (hq : Sound L q) (id : RequestId) (f : Entry → Delivery) :
    Sound L (q.update L id f) := by
  have hids : (q.update L id f).map (fun e => e.id L) = q.map fun e => e.id L := by
    have harrivals : (q.update L id f).map Entry.toArrival = q.map Entry.toArrival :=
      arrivals_update
    simpa only [List.map_map, Function.comp_def] using congrArg (List.map (Arrival.id L)) harrivals
  refine ⟨hids ▸ hq.ids, fun e he => ?_⟩
  obtain ⟨e', he', rfl⟩ := List.mem_map.mp he
  have hsound := hq.entries e' he'
  split
  · exact hsound
  · exact hsound

theorem Sound.arrive (hq : Sound L q) {a : Arrival} {q' : Queue} (h : q.arrive L a = some q') :
    Sound L q' ∧ q' = q ++ [{ toArrival := a }] := by
  obtain ⟨⟨ha, hfresh⟩, h⟩ := Option.ite_none_right_eq_some.mp h
  cases h
  refine ⟨⟨?_, ?_⟩, rfl⟩
  · rw [List.map_append, List.nodup_append]
    refine ⟨hq.ids, List.nodup_singleton _, ?_⟩
    intro id hid id' hid'
    obtain ⟨e, he, rfl⟩ := List.mem_map.mp hid
    rw [List.mem_singleton.mp hid']
    exact hfresh e he
  · intro e he
    rcases List.mem_append.mp he with he | he
    · exact hq.entries e he
    · rw [List.mem_singleton.mp he]
      exact ha

theorem Sound.after (hq : Sound L q) (c : Call) (r : Report) : Sound L (q.after L c r) := by
  unfold Queue.after
  split
  · unfold Queue.afterHeader
    split
    · exact hq.update _ _
    · split
      · exact hq.update _ _
      · exact hq
  · unfold Queue.afterBody
    split
    · exact hq.update _ _
    · exact hq

theorem Sound.eq_of_id (hq : Sound L q) {e e' : Entry} (he : e ∈ q) (he' : e' ∈ q)
    (hid : e.id L = e'.id L) : e = e' :=
  List.inj_on_of_nodup_map hq.ids he he' hid

theorem Sound.id_ne_nullId (hq : Sound L q) {e : Entry} (he : e ∈ q) : e.id L ≠ nullId :=
  (of_decide_eq_true (hq.entries e he)).1

theorem Sound.le_length (hq : Sound L q) {e : Entry} (he : e ∈ q) :
    L.sizeofHttpRequest ≤ e.header.length :=
  (of_decide_eq_true (hq.entries e he)).2.1

theorem Sound.length_lt (hq : Sound L q) {e : Entry} (he : e ∈ q) : e.header.length < 2 ^ 32 :=
  (of_decide_eq_true (hq.entries e he)).2.2

theorem Sound.rest_eq (hq : Sound L q) {e : Entry} {rest : Bytes} (he : e ∈ q)
    (hdelivery : e.delivery = .delivered rest) : q.rest L (e.id L) = some rest := by
  rw [Queue.rest, EraseFirst.find?_key hq.ids he, Option.bind_some, hdelivery]

/-- What the queue answers is what `async_receive` expects of HTTP.sys. -/
theorem Sound.admits_receiveRequest (hq : Sound L q) {c : Call} {r : Report}
    (h : q.admitsHeader L c r = true) : ReceiveRequest.admits L c r = true := by
  obtain ⟨hwritten, hsuccess, hmore, hinsufficient, -⟩ := of_decide_eq_true h
  refine decide_eq_true ⟨hwritten, fun hcode => ?_, fun hcode => ?_, hinsufficient⟩
  · obtain ⟨e, he, -, hheader, hlen⟩ := hsuccess hcode
    exact ⟨hheader ▸ hq.le_length he, hlen⟩
  · obtain ⟨e, he, -, hsize, -, hlt, hlen⟩ := hmore hcode
    exact ⟨hsize, fun hqueued => hlen hqueued ▸ hlt⟩

end Sound

end Winasio.RequestQueue
