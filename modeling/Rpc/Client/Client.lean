import Rpc.Client.Pool
import Rpc.Codec.Builtin

/-!
# Clients

- `Client.build`: a client from its configuration;
- `Client.route`: the id of a request and the address it goes to;
- `Client.send`: the way of a request up to a connection, on which it then is being sent.
-/

namespace Rpc

/-- What a caller asks for other than the configuration says. -/
structure CallOptions where
  /-- How long to wait for the response. -/
  timeout : Option Nat
  serializer : Option UInt8
  compressor : Option UInt8
  /-- Calls with the same key go to the same address, where the strategy is to hash. -/
  affinityKey : Option String

/-- Nothing other than the configuration says. -/
def CallOptions.none : CallOptions := ⟨.none, .none, .none, .none⟩

/-- A client. -/
structure Client where
  config : ClientConfig
  serializer : UInt8
  compressor : UInt8
  codec : FrameCodec
  directory : Directory
  balancer : Balancer
  pool : Pool
  nextRequest : UInt32

namespace Client

/-- A client with a configuration and a directory. Unless a strategy for choosing addresses is given it is the
configured one, which has the numbers that it may draw from `draws`. -/
def build (config : ClientConfig) (codecs : CodecRegistry) (directory : Option Directory) (balancer : Option Balancer)
    (draws : Nat → Nat) : Except ClientError Client :=
  match directory, codecs.serializerId? config.serializer, codecs.compressorId? config.compressor,
    balancer.or (Balancer.ofName? config.balancer draws) with
  | none, _, _, _ => .error (.config .noDirectory)
  | _, none, _, _ => .error (.unknownCodec config.serializer)
  | _, _, none, _ => .error (.unknownCodec config.compressor)
  | _, _, _, none => .error (.unknownBalancer config.balancer)
  | some d, some s, some c, some b =>
    .ok ⟨config, s, c, ⟨codecs, config.maxFrameLength⟩, d, b, .empty, 0⟩

/-- What a call is routed by: its affinity key, or else its id. -/
def routingKey (o : CallOptions) (id : UInt32) : Bytes :=
  match o.affinityKey with
  | some key => Bytes.ofString key
  | none => Bytes.bigEndian 4 id.toNat

/-- The id of a request and the address it goes to. A request to an unknown service takes no id. -/
def route (c : Client) (service : String) (o : CallOptions) : Client × Except ClientError (UInt32 × SocketAddress) :=
  match c.directory.resolve service with
  | .error e => (c, .error (.directory e))
  | .ok candidates =>
    let id := c.nextRequest
    let (balancer, chosen) := c.balancer.select service candidates (routingKey o id)
    let c := { c with balancer := balancer, nextRequest := id + 1 }
    match chosen with
    | .ok a => (c, .ok (id, a))
    | .error e => (c, .error (.addressResolution e))

/-- The message that carries a request. -/
def messageOf (c : Client) (r : Request) (o : CallOptions) (id : UInt32) : Message :=
  { Message.request id r with
    serializer := o.serializer.getD c.serializer
    compressor := o.compressor.getD c.compressor }

/-- A request that is being sent. -/
structure Outgoing where
  /-- The number of the send. -/
  send : Nat
  message : Message

/-- Begins to send a request, by way of a network. -/
def send (c : Client) (r : Request) (o : CallOptions) (dial : SocketAddress → Pool.DialResult) (now : Instant) :
    Client × Except ClientError Outgoing :=
  match c.route r.service o with
  | (c, .error e) => (c, .error e)
  | (c, .ok (id, a)) =>
    match c.pool.connect a dial now with
    | (pool, .error e) => ({ c with pool := pool }, .error e)
    | (pool, .ok n) =>
      let (pool, s) := pool.startSend n id
      ({ c with pool := pool }, .ok ⟨s, c.messageOf r o id⟩)

/-- How many requests wait for responses. -/
def pendingRequests (c : Client) : Nat := c.pool.pending.size

/-- Closes all connections and fails all requests that wait. -/
def shutdown (c : Client) : Client :=
  let pool := c.pool.shutdown
  { c with pool := { pool with pending := pool.pending.clear } }

end Client

end Rpc
