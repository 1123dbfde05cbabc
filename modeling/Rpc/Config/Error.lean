import Rpc.Bytes

/-!
# Why a configuration is refused
-/

namespace Rpc

/-- Why a configuration is refused. -/
inductive ConfigError where
  | unreadable (reason : String)
  | malformed (reason : String)
  /-- A client without a directory. -/
  | noDirectory
  /-- A server that may not invoke anything. -/
  | noInvocations
  /-- Traffic control that admits nothing. -/
  | noPermits
  deriving DecidableEq

/-- The wording in messages to people. -/
def ConfigError.message (e : ConfigError) : String :=
  "Configuration error: " ++ match e with
    | .unreadable reason => "Failed to read config file: " ++ reason
    | .malformed reason => "Failed to parse config: " ++ reason
    | .noDirectory => "registry not specified"
    | .noInvocations => "max_concurrent_invocations must be at least 1"
    | .noPermits => "traffic_control.permits_per_second must be positive"

/-- The text of a configuration file, of which there may be no content. -/
def configText (content : Option Bytes) : Except ConfigError String :=
  match content with
  | none => .error (.unreadable "there is no such file")
  | some bs =>
    match bs.toString? with
    | none => .error (.unreadable "the file is not text")
    | some text => .ok text

end Rpc
