import Rpc.Config.Error
import Rpc.Frame
import Rpc.Time
import Rpc.Toml.Record

/-!
# Configuration of a client

A document may leave out any field, which then has its default (`ClientConfig.ofToml`). Times are milliseconds.
-/

namespace Rpc

/-- Settings of a pool of connections. -/
structure PoolConfig where
  /-- How long a connection may take to come about. -/
  connectTimeoutMs : Nat
  /-- How long the writing of a frame may take. -/
  writeTimeoutMs : Nat
  /-- How far apart the health passes are. -/
  healthCheckIntervalMs : Nat
  /-- How long a connection that is checked out has to be quiet before a health pass takes it back. -/
  reclaimAfterMs : Nat
  deriving DecidableEq

namespace PoolConfig

/-- The settings of a document that mentions none. -/
def standard : PoolConfig := ⟨3000, 10000, 30000, 60000⟩

instance : Inhabited PoolConfig := ⟨standard⟩

/-- The settings that a record of a document holds. -/
def ofRecord? (r : Toml.Record) : Option PoolConfig := do
  let connect ← r.getD 0 "connect_timeout_ms" (·.asCount?) standard.connectTimeoutMs
  let write ← r.getD 1 "write_timeout_ms" (·.asCount?) standard.writeTimeoutMs
  let healthCheck ← r.getD 2 "health_check_interval_ms" (·.asCount?) standard.healthCheckIntervalMs
  let reclaim ← r.getD 3 "reclaim_after_ms" (·.asCount?) standard.reclaimAfterMs
  some ⟨connect, write, healthCheck, reclaim⟩

/-- How long a connection may take to come about. -/
def connectTimeout (c : PoolConfig) : Nat := c.connectTimeoutMs * Duration.millisecond

/-- How long the writing of a frame may take. -/
def writeTimeout (c : PoolConfig) : Nat := c.writeTimeoutMs * Duration.millisecond

/-- How far apart the health passes are. -/
def healthCheckInterval (c : PoolConfig) : Nat := c.healthCheckIntervalMs * Duration.millisecond

/-- How long a connection that is checked out has to be quiet before a health pass takes it back. -/
def reclaimAfter (c : PoolConfig) : Nat := c.reclaimAfterMs * Duration.millisecond

end PoolConfig

/-- Settings of a client. -/
structure ClientConfig where
  /-- The name of the serializer of requests. -/
  serializer : String
  /-- The name of the compressor of requests. -/
  compressor : String
  /-- How long to wait for a response. -/
  requestTimeoutMs : Nat
  /-- The name of the strategy by which addresses are chosen. -/
  balancer : String
  /-- The longest frame that is read or written. -/
  maxFrameLength : Nat
  pool : PoolConfig
  deriving DecidableEq

namespace ClientConfig

/-- The settings of a document that mentions none. -/
def standard : ClientConfig := ⟨"cbor", "gzip", 10000, "random", defaultMaxFrameLength, .standard⟩

instance : Inhabited ClientConfig := ⟨standard⟩

/-- The settings that a record of a document holds. -/
def ofRecord? (r : Toml.Record) : Option ClientConfig := do
  let serializer ← r.getD 0 "serializer" (·.asString?) standard.serializer
  let compressor ← r.getD 1 "compressor" (·.asString?) standard.compressor
  let requestTimeout ← r.getD 2 "request_timeout_ms" (·.asCount?) standard.requestTimeoutMs
  let balancer ← r.getD 3 "load_balancer" (·.asString?) standard.balancer
  let maxFrameLength ← r.getD 4 "max_frame_len" (·.asCount?) standard.maxFrameLength
  let pool ← r.getD 5 "pool" (fun v => (Toml.Record.ofValue? v).bind PoolConfig.ofRecord?) .standard
  some ⟨serializer, compressor, requestTimeout, balancer, maxFrameLength, pool⟩

/-- The settings that the text of a document holds. -/
def ofToml (text : String) : Except ConfigError ClientConfig :=
  match (Toml.parse? text).bind fun fields => ofRecord? (.named fields) with
  | some c => .ok c
  | none => .error (.malformed "no valid settings of a client")

/-- The settings that a file holds. -/
def ofFile (content : Option Bytes) : Except ConfigError ClientConfig := do ofToml (← configText content)

/-- How long to wait for a response. -/
def requestTimeout (c : ClientConfig) : Nat := c.requestTimeoutMs * Duration.millisecond

end ClientConfig

end Rpc
