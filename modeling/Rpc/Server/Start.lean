import Rpc.Config.Server
import Rpc.Server.Pipeline

/-!
# Starting a server

A server starts with a configuration that can serve, on an address that is free, and with traffic control in front of
all other filters if it is enabled (`Server.start`). The rate of traffic control can be changed while it runs
(`Server.setRate`).
-/

namespace Rpc

/-- Why a server does not do what it is told. -/
inductive ServerError where
  | bind (a : SocketAddress) (reason : String)
  | io (reason : String)
  | protocol (e : StreamError)
  | rateLimit (e : InvalidRate)
  | trafficControlDisabled
  | config (e : ConfigError)
  deriving DecidableEq

/-- The wording in messages to people. -/
def ServerError.message : ServerError → String
  | .bind a reason => "Failed to bind to " ++ a.text ++ ": " ++ reason
  | .io reason => "I/O error: " ++ reason
  | .protocol e => "Protocol error: " ++ e.message
  | .rateLimit e => "Rate limiter error: " ++ e.message
  | .trafficControlDisabled => "Traffic control is not enabled"
  | .config e => e.message

/-- A server that runs. -/
structure Server (σ : Type) where
  config : ServerConfig
  pipeline : Pipeline σ
  codec : FrameCodec

namespace Server

variable {σ : Type}

/-- The traffic control of a configuration. -/
def trafficControl (c : TrafficConfig) (now : Instant) : Except ServerError (FilterChain σ) :=
  if c.enabled then
    match RateLimiter.new c.permitsPerSecond now with
    | .ok l => .ok [.traffic l]
    | .error e => .error (.rateLimit e)
  else .ok []

/-- Starts a server; `free` says whether its address is. -/
def start (config : ServerConfig) (services : ServiceTable) (filters : FilterChain σ) (codecs : CodecRegistry)
    (free : Bool) (now : Instant) : Except ServerError (Server σ) := do
  config.validate.mapError .config
  if !free then .error (.bind config.bindAddress "the address is in use")
  let traffic ← trafficControl config.traffic now
  .ok ⟨config, ⟨traffic ++ filters, services, codecs⟩, ⟨codecs, config.maxFrameLength⟩⟩

/-- The rate of traffic control, if it is enabled. -/
def rate? (s : Server σ) : Option Binary64 :=
  if s.config.traffic.enabled then FilterChain.rate? s.pipeline.filters else none

/-- Changes the rate of traffic control. -/
def setRate (s : Server σ) (rate : Binary64) (now : Instant) : Except ServerError (Server σ) :=
  if s.config.traffic.enabled then
    match FilterChain.setRate rate now s.pipeline.filters with
    | .ok filters => .ok { s with pipeline := { s.pipeline with filters := filters } }
    | .error e => .error (.rateLimit e)
  else .error .trafficControlDisabled

end Server

end Rpc
