import Rpc.Config.Error
import Rpc.Frame
import Rpc.Net.Address
import Rpc.Toml.Record

/-!
# Configuration of a server

A document may leave out any field, which then has its default (`ServerConfig.ofToml`). Settings with which no request
could be served are refused (`ServerConfig.validate`).
-/

namespace Rpc

/-- Settings of traffic control. -/
structure TrafficConfig where
  enabled : Bool
  permitsPerSecond : Binary64
  deriving DecidableEq

namespace TrafficConfig

/-- The settings of a document that mentions none. -/
def standard : TrafficConfig := ⟨true, Binary64.ofNat 1000⟩

/-- The settings that a record of a document holds. -/
def ofRecord? (r : Toml.Record) : Option TrafficConfig := do
  let enabled ← r.getD 0 "enabled" (·.asBool?) standard.enabled
  let permitsPerSecond ← r.getD 1 "permits_per_second" (·.asBinary64?) standard.permitsPerSecond
  some ⟨enabled, permitsPerSecond⟩

end TrafficConfig

/-- Settings of a server. -/
structure ServerConfig where
  /-- The address to listen on. -/
  bindAddress : SocketAddress
  /-- The longest frame that is read or written. -/
  maxFrameLength : Nat
  /-- How many invocations may run at once, over all connections. -/
  maxConcurrentInvocations : Nat
  traffic : TrafficConfig
  deriving DecidableEq

namespace ServerConfig

/-- The settings of a document that mentions none. -/
def standard : ServerConfig := ⟨.v4 0x7f000001 9000, defaultMaxFrameLength, 256, .standard⟩

/-- The settings that a record of a document holds. -/
def ofRecord? (r : Toml.Record) : Option ServerConfig := do
  let bindAddress ← r.getD 0 "bind_addr" (fun v => v.asString?.bind SocketAddress.parse?) standard.bindAddress
  let maxFrameLength ← r.getD 1 "max_frame_len" (·.asCount?) standard.maxFrameLength
  let maxConcurrent ← r.getD 2 "max_concurrent_invocations" (·.asCount?) standard.maxConcurrentInvocations
  let traffic ← r.getD 3 "traffic_control" (fun v => (Toml.Record.ofValue? v).bind TrafficConfig.ofRecord?) .standard
  some ⟨bindAddress, maxFrameLength, maxConcurrent, traffic⟩

/-- Refuses settings with which no request could be served. -/
def validate (c : ServerConfig) : Except ConfigError Unit :=
  if c.maxConcurrentInvocations = 0 then .error .noInvocations
  else if c.traffic.enabled && !c.traffic.permitsPerSecond.isNaN && !c.traffic.permitsPerSecond.isPositive then
    .error .noPermits
  else .ok ()

/-- The settings that the text of a document holds. -/
def ofToml (text : String) : Except ConfigError ServerConfig := do
  match (Toml.parse? text).bind fun fields => ofRecord? (.named fields) with
  | some c =>
    c.validate
    .ok c
  | none => .error (.malformed "no valid settings of a server")

/-- The settings that a file holds. -/
def ofFile (content : Option Bytes) : Except ConfigError ServerConfig := do ofToml (← configText content)

end ServerConfig

end Rpc
