import Rpc.Message
import Rpc.Net.Address
import Rpc.RateLimiter
import Rpc.Server.Service

/-!
# Filters of requests

A chain of filters decides whether a request reaches its method (`FilterChain.run`). They are asked in order, up to
the first that does not allow the request; that one is named in the error for the caller. Filters keep a state of type
`σ`, which only a filter that is asked changes.
-/

namespace Rpc

/-- A request as filters see it. -/
structure Call where
  peer : SocketAddress
  requestId : UInt32
  request : Request
  now : Instant

/-- What a filter says to a request. -/
inductive Verdict where
  | allow
  | deny
  /-- The filter cannot decide. -/
  | fault (reason : String)
  | crash (c : Crash)
  deriving DecidableEq

/-- A filter with its state. -/
inductive Filter (σ : Type) where
  /-- Traffic control: allows as many requests as there are tokens. -/
  | traffic (limiter : RateLimiter)
  | custom (name : String) (state : σ) (decide : Call → σ → Verdict × σ)

namespace Filter

variable {σ : Type}

/-- The name that is reported to callers. -/
def name : Filter σ → String
  | traffic _ => "traffic-control"
  | custom name _ _ => name

/-- Asks a filter. -/
def ask (f : Filter σ) (call : Call) : Filter σ × Verdict :=
  match f with
  | traffic limiter =>
    let (limiter, admitted) := limiter.tryAcquire 1 call.now
    (traffic limiter, if admitted then .allow else .deny)
  | custom name state decide =>
    let (verdict, state) := decide call state
    (custom name state decide, verdict)

/-- The state of a filter that is not traffic control. -/
def state? : Filter σ → Option σ
  | traffic _ => none
  | custom _ state _ => some state

/-- The rate of traffic control. -/
def rate? : Filter σ → Option Binary64
  | traffic limiter => some limiter.rate
  | custom _ _ _ => none

end Filter

/-- The error that a verdict means for the caller, if it does not allow the request. -/
def Verdict.error? (filter : String) : Verdict → Option RemoteError
  | allow => none
  | deny => some (.filtered filter)
  | fault reason => some (.filterFault filter reason)
  | crash c => some (.filterFault filter c.message)

/-- Filters in the order in which they are asked. -/
abbrev FilterChain (σ : Type) := List (Filter σ)

namespace FilterChain

variable {σ : Type}

/-- Asks the filters, up to the first that does not allow the request. -/
def run (call : Call) : FilterChain σ → FilterChain σ × Except RemoteError Unit
  | [] => ([], .ok ())
  | f :: fs =>
    let (f, verdict) := f.ask call
    match verdict.error? f.name with
    | some e => (f :: fs, .error e)
    | none =>
      let (fs, result) := run call fs
      (f :: fs, result)

/-- The rate of the first traffic control. -/
def rate? (fs : FilterChain σ) : Option Binary64 := fs.findSome? (·.rate?)

/-- Changes the rate of the first traffic control; without one nothing changes. -/
def setRate (rate : Binary64) (now : Instant) : FilterChain σ → Except InvalidRate (FilterChain σ)
  | [] => .ok []
  | .traffic limiter :: fs => do
    let limiter ← limiter.setRate rate now
    .ok (.traffic limiter :: fs)
  | f :: fs => do
    let fs ← setRate rate now fs
    .ok (f :: fs)

end FilterChain

end Rpc
