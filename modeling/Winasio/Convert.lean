import Winasio.Basic
import Winasio.OrderedMap

/-!
`simple_response`: the setters, and the `HTTP_RESPONSE` that `get_response`
builds out of the strings of the object.
-/

namespace Winasio.Convert

/-- `HttpHeaderResponseMaximum`, the number of known headers of a response. -/
def httpHeaderResponseMaximum : Nat := 30

/-- `HTTP_KNOWN_HEADER`. A pointer is modelled by the bytes it points to when it
is taken. -/
structure HttpKnownHeader where
  pRawValue : Bytes := []
  rawValueLength : UInt16 := 0
  deriving DecidableEq, Repr

structure HttpUnknownHeader where
  pName : Bytes
  nameLength : UInt16
  pRawValue : Bytes
  rawValueLength : UInt16
  deriving DecidableEq, Repr

/-- `HTTP_DATA_CHUNK`, in the two types the code uses. -/
inductive HttpDataChunk where
  | fromMemory (pBuffer : Bytes) (bufferLength : UInt32)
  | trailers (trailerCount : UInt16) (pTrailers : List HttpUnknownHeader)
  deriving DecidableEq, Repr

/-- `HTTP_RESPONSE`. The status code is `none` if it was copied from a field no
constructor initialises; `inBounds` says that no known header was written
behind the end of the array. -/
structure HttpResponse where
  statusCode : Option UInt16 := some 0
  pReason : Bytes := []
  reasonLength : UInt16 := 0
  knownHeaders : List HttpKnownHeader := List.replicate httpHeaderResponseMaximum {}
  inBounds : Bool := true
  unknownHeaderCount : UInt16 := 0
  pUnknownHeaders : List HttpUnknownHeader := []
  entityChunkCount : UInt16 := 0
  pEntityChunks : List HttpDataChunk := []
  deriving DecidableEq, Repr

/-- `simple_response`; a `std::map` is an ordered map. -/
structure SimpleResponse where
  resp : HttpResponse := {}
  dataChunks : List HttpDataChunk := []
  reason : Bytes := []
  statusCode : Option UInt16 := none
  body : Bytes := []
  knownHeaders : OrderedMap Nat Bytes := .empty
  unknownHeaders : OrderedMap Bytes Bytes := .empty
  unknownHeadersBuff : List HttpUnknownHeader := []
  trailers : OrderedMap Bytes Bytes := .empty
  trailersBuff : List HttpUnknownHeader := []

def httpHeaderContentType : Nat := 12

namespace SimpleResponse

def setReason (r : SimpleResponse) (reason : Bytes) : SimpleResponse := { r with reason }

def addKnownHeader (r : SimpleResponse) (id : Nat) (data : Bytes) : SimpleResponse :=
  { r with knownHeaders := r.knownHeaders.assign id data }

def setContentType (r : SimpleResponse) (contentType : Bytes) : SimpleResponse :=
  r.addKnownHeader httpHeaderContentType contentType

def setStatusCode (r : SimpleResponse) (statusCode : UInt16) : SimpleResponse :=
  { r with statusCode := some statusCode }

def setBody (r : SimpleResponse) (body : Bytes) : SimpleResponse := { r with body }

def addUnknownHeader (r : SimpleResponse) (name val : Bytes) : SimpleResponse :=
  { r with unknownHeaders := r.unknownHeaders.assign name val }

def addTrailer (r : SimpleResponse) (name val : Bytes) : SimpleResponse :=
  { r with trailers := r.trailers.assign name val }

end SimpleResponse

/-- An entry of a map of headers, with the lengths cut to `USHORT`. -/
def unknownHeader (x : Bytes × Bytes) : HttpUnknownHeader where
  pName := x.1
  nameLength := .ofNat x.1.length
  pRawValue := x.2
  rawValueLength := .ofNat x.2.length

def knownHeader (data : Bytes) : HttpKnownHeader where
  pRawValue := data
  rawValueLength := .ofNat data.length

def writeKnownHeaders (entries : List (Nat × Bytes)) (slots : List HttpKnownHeader) :
    List HttpKnownHeader :=
  entries.foldl (fun slots x => slots.set x.1 (knownHeader x.2)) slots

def bodyChunks (body : Bytes) : List HttpDataChunk :=
  if body.length > 0 then [.fromMemory body (.ofNat body.length)] else []

def trailerChunks (trailersBuff : List HttpUnknownHeader) : List HttpDataChunk :=
  if trailersBuff.length > 0 then [.trailers (.ofNat trailersBuff.length) trailersBuff] else []

namespace HttpResponse

/-- The count and the pointer are only set if there is something to point to. -/
def withUnknownHeaders (resp : HttpResponse) (buff : List HttpUnknownHeader) : HttpResponse :=
  if buff.length > 0 then
    { resp with unknownHeaderCount := .ofNat buff.length, pUnknownHeaders := buff }
  else resp

def withEntityChunks (resp : HttpResponse) (chunks : List HttpDataChunk) : HttpResponse :=
  if chunks.length > 0 then
    { resp with entityChunkCount := .ofNat chunks.length, pEntityChunks := chunks }
  else resp

theorem withUnknownHeaders_eq (resp : HttpResponse) (buff : List HttpUnknownHeader) :
    resp.withUnknownHeaders buff =
      { resp with
        unknownHeaderCount := (resp.withUnknownHeaders buff).unknownHeaderCount
        pUnknownHeaders := (resp.withUnknownHeaders buff).pUnknownHeaders } := by
  unfold withUnknownHeaders
  split <;> rfl

theorem withEntityChunks_eq (resp : HttpResponse) (chunks : List HttpDataChunk) :
    resp.withEntityChunks chunks =
      { resp with
        entityChunkCount := (resp.withEntityChunks chunks).entityChunkCount
        pEntityChunks := (resp.withEntityChunks chunks).pEntityChunks } := by
  unfold withEntityChunks
  split <;> rfl

end HttpResponse

namespace SimpleResponse

def writeHead (r : SimpleResponse) : HttpResponse :=
  { r.resp with
    statusCode := r.statusCode
    pReason := r.reason
    reasonLength := .ofNat r.reason.length
    knownHeaders := writeKnownHeaders r.knownHeaders.entries r.resp.knownHeaders
    inBounds := r.resp.inBounds &&
      r.knownHeaders.keys.all fun id => id < httpHeaderResponseMaximum }

/-- `get_response`: the object it leaves, whose `resp` is the response it
returns. The buffers of the unknown headers and of the trailers are cleared
first, the chunks are appended to those that are there. A chunk of an earlier
call keeps the bytes that it pointed to then, where that of the code points
into `body_` still, whatever has become of it. -/
def getResponse (r : SimpleResponse) : SimpleResponse :=
  let unknownHeadersBuff := r.unknownHeaders.entries.map unknownHeader
  let trailersBuff := r.trailers.entries.map unknownHeader
  let dataChunks := r.dataChunks ++ (bodyChunks r.body ++ trailerChunks trailersBuff)
  { r with
    resp := (r.writeHead.withUnknownHeaders unknownHeadersBuff).withEntityChunks dataChunks
    dataChunks
    unknownHeadersBuff
    trailersBuff }

end SimpleResponse

theorem head_getResponse (r : SimpleResponse) :
    r.getResponse.resp.statusCode = r.statusCode ∧ r.getResponse.resp.pReason = r.reason ∧
      r.getResponse.resp.reasonLength = .ofNat r.reason.length ∧
      r.getResponse.resp.knownHeaders =
        writeKnownHeaders r.knownHeaders.entries r.resp.knownHeaders ∧
      r.getResponse.resp.inBounds = (r.resp.inBounds &&
        r.knownHeaders.keys.all fun id => id < httpHeaderResponseMaximum) := by
  have hresp : r.getResponse.resp =
      HttpResponse.withEntityChunks (HttpResponse.withUnknownHeaders r.writeHead _) _ := rfl
  rw [hresp, HttpResponse.withEntityChunks_eq, HttpResponse.withUnknownHeaders_eq]
  exact ⟨rfl, rfl, rfl, rfl, rfl⟩

/-- What the pointers, lengths and counts of a known header denote; a length of
zero means that there is none. -/
def HttpKnownHeader.contents (h : HttpKnownHeader) : Option Bytes :=
  if h.rawValueLength = 0 then none else some (h.pRawValue.take h.rawValueLength.toNat)

def HttpUnknownHeader.contents (h : HttpUnknownHeader) : Bytes × Bytes :=
  (h.pName.take h.nameLength.toNat, h.pRawValue.take h.rawValueLength.toNat)

inductive ChunkContents where
  | fromMemory (data : Bytes)
  | trailers (headers : List (Bytes × Bytes))
  deriving DecidableEq, Repr

def HttpDataChunk.contents : HttpDataChunk → ChunkContents
  | .fromMemory pBuffer bufferLength => .fromMemory (pBuffer.take bufferLength.toNat)
  | .trailers trailerCount pTrailers =>
      .trailers ((pTrailers.take trailerCount.toNat).map HttpUnknownHeader.contents)

structure Contents where
  statusCode : Option UInt16
  reason : Bytes
  knownHeaders : List (Option Bytes)
  inBounds : Bool
  unknownHeaders : List (Bytes × Bytes)
  chunks : List ChunkContents
  deriving DecidableEq, Repr

def HttpResponse.contents (resp : HttpResponse) : Contents where
  statusCode := resp.statusCode
  reason := resp.pReason.take resp.reasonLength.toNat
  knownHeaders := resp.knownHeaders.map HttpKnownHeader.contents
  inBounds := resp.inBounds
  unknownHeaders :=
    (resp.pUnknownHeaders.take resp.unknownHeaderCount.toNat).map HttpUnknownHeader.contents
  chunks := (resp.pEntityChunks.take resp.entityChunkCount.toNat).map HttpDataChunk.contents

end Winasio.Convert
