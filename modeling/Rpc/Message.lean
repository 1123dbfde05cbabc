import Rpc.Value

/-!
# Messages

What travels on a connection: requests, responses and the two heartbeats (`Message`). A `Response` carries a result or
an error, never both, by its type. The type byte of a frame is `MessageType.toByte`, with `MessageType.ofByte?` as its
inverse.
-/

namespace Rpc

/-! ## Message types -/

/-- The kind of a message, sent as one byte. -/
inductive MessageType where
  | request
  | response
  | heartbeatRequest
  | heartbeatResponse
  deriving DecidableEq, Inhabited

namespace MessageType

/-- The byte on the wire. -/
def toByte : MessageType → UInt8
  | .request => 1
  | .response => 2
  | .heartbeatRequest => 3
  | .heartbeatResponse => 4

/-- The type written as a byte. -/
def ofByte? (b : UInt8) : Option MessageType :=
  if b = 1 then some .request
  else if b = 2 then some .response
  else if b = 3 then some .heartbeatRequest
  else if b = 4 then some .heartbeatResponse
  else none

@[simp] theorem ofByte?_toByte (t : MessageType) : ofByte? t.toByte = some t := by
  cases t <;> rfl

/-- Heartbeats have no body. -/
def isHeartbeat : MessageType → Bool
  | .heartbeatRequest | .heartbeatResponse => true
  | _ => false

/-- The name in messages to people. -/
def name : MessageType → String
  | .request => "REQUEST"
  | .response => "RESPONSE"
  | .heartbeatRequest => "HEARTBEAT_REQUEST"
  | .heartbeatResponse => "HEARTBEAT_RESPONSE"

end MessageType

/-! ## Requests -/

/-- A call: the method is found by its name and the types of its parameters. -/
structure Request where
  service : String
  method : String
  paramTypes : List String
  args : List Value
  deriving BEq, Inhabited

namespace Request

/-- A call without arguments. -/
def new (service method : String) : Request := ⟨service, method, [], []⟩

/-- The call with one more argument. -/
def arg (r : Request) (paramType : String) (value : Value) : Request :=
  { r with paramTypes := r.paramTypes ++ [paramType], args := r.args ++ [value] }

end Request

/-! ## Errors of the remote side -/

/-- Why the remote side did not give a result. -/
inductive RemoteErrorKind where
  | filtered
  | filterFault
  | serviceNotFound
  | methodNotFound
  | invocation
  | badRequest
  deriving DecidableEq, Inhabited

namespace RemoteErrorKind

/-- The name in a body. -/
def name : RemoteErrorKind → String
  | .filtered => "Filtered"
  | .filterFault => "FilterFault"
  | .serviceNotFound => "ServiceNotFound"
  | .methodNotFound => "MethodNotFound"
  | .invocation => "Invocation"
  | .badRequest => "BadRequest"

/-- All kinds. -/
def all : List RemoteErrorKind :=
  [.filtered, .filterFault, .serviceNotFound, .methodNotFound, .invocation, .badRequest]

/-- The kind with a name. -/
def ofName? (s : String) : Option RemoteErrorKind := all.find? (·.name == s)

/-- The wording in messages to people. -/
def text : RemoteErrorKind → String
  | .filtered => "filtered"
  | .filterFault => "filter fault"
  | .serviceNotFound => "service not found"
  | .methodNotFound => "method not found"
  | .invocation => "invocation failed"
  | .badRequest => "bad request"

end RemoteErrorKind

/-- An error that the remote side sends in place of a result. -/
structure RemoteError where
  kind : RemoteErrorKind
  message : String
  /-- The filter that refused the request or failed on it. -/
  filter : Option String := none
  deriving DecidableEq, Inhabited

namespace RemoteError

/-- Refused by a filter. -/
def filtered (filter : String) : RemoteError :=
  ⟨.filtered, "denied by filter '" ++ filter ++ "'", some filter⟩

/-- A filter failed. -/
def filterFault (filter message : String) : RemoteError :=
  ⟨.filterFault, message, some filter⟩

/-- The wording in messages to people. -/
def text (e : RemoteError) : String := e.kind.text ++ ": " ++ e.message

end RemoteError

/-! ## Responses -/

/-- The answer to the request with the id: a result or an error. -/
structure Response where
  requestId : UInt32
  outcome : Except RemoteError Value

namespace Response

/-- An answer with a result. -/
def ok (requestId : UInt32) (result : Value) : Response := ⟨requestId, .ok result⟩

/-- An answer with an error. -/
def err (requestId : UInt32) (error : RemoteError) : Response := ⟨requestId, .error error⟩

/-- The result, unless the answer is an error. -/
def result? (r : Response) : Option Value := r.outcome.toOption

/-- The error, if the answer is one. -/
def error? (r : Response) : Option RemoteError :=
  match r.outcome with
  | .error e => some e
  | .ok _ => none

/-- The answer carries a result. -/
def isOk (r : Response) : Bool := r.outcome.isOk

/-- The value that is sent in the place of the result: null beside an error. -/
def wireResult (r : Response) : Value := r.result?.getD .null

instance : BEq Response where
  beq a b := a.requestId == b.requestId &&
    match a.outcome, b.outcome with
    | .ok x, .ok y => x == y
    | .error x, .error y => x == y
    | _, _ => false

instance : Inhabited Response := ⟨ok 0 .null⟩

end Response

/-! ## Messages -/

/-- The decoded body of a message. -/
inductive Payload where
  | empty
  | request (request : Request)
  | response (response : Response)
  deriving BEq, Inhabited

namespace Payload

/-- The payload has the shape that the type of its message asks for. -/
def fits : MessageType → Payload → Bool
  | .request, .request _ => true
  | .response, .response _ => true
  | .heartbeatRequest, .empty => true
  | .heartbeatResponse, .empty => true
  | _, _ => false

end Payload

/-- The serializer of requests unless one is chosen. -/
def serializerCbor : UInt8 := 1

/-- The serializer with readable bodies. -/
def serializerJson : UInt8 := 2

/-- Bodies are sent as they are. -/
def compressorOff : UInt8 := 0

/-- Bodies are sent as gzip members. -/
def compressorGzip : UInt8 := 1

/-- One unit of the protocol. -/
structure Message where
  type : MessageType
  serializer : UInt8
  compressor : UInt8
  requestId : UInt32
  payload : Payload
  deriving BEq, Inhabited

namespace Message

/-- A request in the default encoding. -/
def request (requestId : UInt32) (request : Request) : Message :=
  ⟨.request, serializerCbor, compressorOff, requestId, .request request⟩

/-- A heartbeat to be answered. -/
def heartbeat (requestId : UInt32) : Message :=
  ⟨.heartbeatRequest, serializerCbor, compressorOff, requestId, .empty⟩

/-- The answer to a request, under the request's ids. -/
def reply (m : Message) (response : Response) : Message :=
  { m with type := .response, payload := .response response }

/-- The answer to a heartbeat, under the heartbeat's ids. -/
def heartbeatReply (m : Message) : Message :=
  { m with type := .heartbeatResponse, payload := .empty }

end Message

end Rpc
