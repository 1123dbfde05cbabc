import Rpc.Balancer
import Rpc.Config.Error
import Rpc.Directory
import Rpc.Frame
import Rpc.Time

/-!
# Errors of calls
-/

namespace Rpc

/-- Why a request is not on its way. -/
inductive TransportError where
  | encode (e : EncodeError)
  | io (reason : String)
  deriving DecidableEq

/-- The wording in messages to people. -/
def TransportError.message : TransportError → String
  | .encode e => e.message
  | .io reason => "I/O error: " ++ reason

/-- Why a call gives no result. -/
inductive ClientError where
  | addressResolution (e : NoAddress)
  | directory (e : DirectoryError)
  | connect (a : SocketAddress) (reason : String)
  | connectTimeout (a : SocketAddress)
  | transport (e : TransportError)
  /-- The request was not written, or not answered, within so many nanoseconds. -/
  | timeout (after : Nat)
  /-- The connection that carried the request went away before the response. -/
  | connectionClosed
  | remote (e : RemoteError)
  /-- The result is not of the type that was asked for. -/
  | resultType (reason : String)
  | unknownBalancer (name : String)
  | unknownCodec (name : String)
  | config (e : ConfigError)
  | shutDown
  deriving DecidableEq

/-- The wording in messages to people. -/
def ClientError.message : ClientError → String
  | .addressResolution e => "No address available for service '" ++ e.service ++ "'"
  | .directory e => "Registry error: " ++ e.message
  | .connect a reason => "Failed to connect to " ++ a.text ++ ": " ++ reason
  | .connectTimeout a => "Timed out connecting to " ++ a.text
  | .transport e => "Transport error: " ++ e.message
  | .timeout after => "Request timed out after " ++ Duration.text after
  | .connectionClosed => "Connection closed before a response was received"
  | .remote e => "Remote error: " ++ e.text
  | .resultType reason => "Unexpected result type: " ++ reason
  | .unknownBalancer name => "Unknown load balancer: " ++ name
  | .unknownCodec name => "Unknown codec: " ++ name
  | .config e => e.message
  | .shutDown => "Client is shut down"

/-- What comes of a request: its response, or an error. -/
abbrev Outcome := Except ClientError Response

end Rpc
