import TagPrompt.Source.Basic

/-! Web resources as sources, read by range requests. The other side is a function from the value of
the Range header to what comes back. -/

namespace TagPrompt

/-- What comes back for a request. -/
inductive HttpReply
  /-- A response that announces `length` bytes and sends `body`. -/
  | response (status length : Nat) (body : Bytes)
  /-- The connection is closed without a response. -/
  | closed
  /-- Nothing ever comes back. -/
  | silent
  deriving DecidableEq, Repr

/-- The other side of requests for one resource. -/
abbrev HttpServer := (rangeHeader : Text) → HttpReply

/-- Web resources by their URLs. -/
abbrev Web := (url : Text) → HttpServer

/-- A web resource and how long requests for it may take. -/
structure HttpSource where
  url : Text
  limit : Millis
  server : HttpServer

namespace HttpSource

/-- The Range header of a range that is not empty; its last position is inclusive. -/
def rangeHeader (range : ByteRange) : Text :=
  "bytes=".toList ++ Text.ofNat range.start ++ '-' :: Text.ofNat (range.stop - 1)

/-- The request that reading a range takes: none for an empty range. -/
def request? (range : ByteRange) : Option Text :=
  if range.isEmpty then none else some (rangeHeader range)

/-- Whether a number can be the status of a response: three digits, the first of them not zero. -/
def isStatus (code : Nat) : Bool := 100 ≤ code && code ≤ 999

/-- Whether a status only announces that the response is still to come. -/
def isInterim (code : Nat) : Bool := 100 ≤ code && code ≤ 199 && code ≠ 101

/-- Whether a response of a status has no body, whatever length it announces. -/
def isBodiless (code : Nat) : Bool := code = 101 || code = 204 || code = 304

/-- The greatest length of a body that a response can announce; the two numbers above it that fit
into 64 bits are no lengths. -/
def lengthLimit : Nat := UInt64.size - 3

/-- What a reply to a request for a range amounts to. A partial response is the range itself, a full
one is cut to the range; more bytes than announced are not looked at, fewer are a broken connection.
The reply is all that comes back, so no response follows one that announces it. -/
def readingOf (h : HttpSource) (range : ByteRange) : HttpReply → Reading
  | .closed => .failed (.network .connection)
  | .silent => .failed (.timeout h.limit)
  | .response status length body =>
      if !isStatus status then .failed (.network .malformedResponse)
      else if isInterim status then .failed (.network .connection)
      else if !isBodiless status && lengthLimit < length then .failed (.network .malformedResponse)
      else if status ≠ 206 ∧ status ≠ 200 then .failed (.status status h.url)
      else if body.length < length then .failed (.network .connection)
      else if status = 206 then .bytes (body.take length)
      else .bytes (range.clamped (body.take length))

def attempt (h : HttpSource) (range : ByteRange) : Attempt :=
  match request? range with
  | none => ⟨.bytes [], 0⟩
  | some header =>
      match h.server header with
      | .silent => ⟨h.readingOf range .silent, h.limit⟩
      | reply => ⟨h.readingOf range reply, 0⟩

/-- The resource as a source. -/
def source (h : HttpSource) : ByteSource := { location := h.url, read := h.attempt }

end HttpSource
end TagPrompt
