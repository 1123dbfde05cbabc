import Rpc.Net.Address
import Rpc.Table
import Rpc.XxHash64

/-!
# Choosing an address

- `Ring`: addresses at the points of a circle of 64-bit numbers; a key goes to the first point at or after its hash,
  and past the last point to the first one (`Ring.route`);
- `Balancer.consistentHash`: a ring for each service, built again when the set of candidates changes, which is noticed
  by a fingerprint of the set;
- `Balancer.random`: some candidate, by numbers that are drawn;
- `Balancer.select`: no candidate is an error, a single one is taken without asking.
-/

namespace Rpc

/-! ## Rings -/

/-- The point of an address. -/
def SocketAddress.point (a : SocketAddress) : UInt64 := xxHash64 0 (Bytes.ofString a.text)

/-- Candidates in ascending order, each of them once. -/
def candidateSet (candidates : List SocketAddress) : List SocketAddress :=
  (candidates.mergeSort SocketAddress.le).eraseReps

/-- What the fingerprint of a set of candidates is the hash of: their texts in ascending order, a zero byte after
each. -/
def fingerprintInput (candidates : List SocketAddress) : Bytes :=
  (candidateSet candidates).flatMap fun a => Bytes.ofString a.text ++ [0]

/-- Tells sets of candidates apart, whatever their order and repetitions. -/
def fingerprint (candidates : List SocketAddress) : UInt64 := xxHash64 0 (fingerprintInput candidates)

/-- Addresses at their points, in ascending order of the points. -/
structure Ring where
  fingerprint : UInt64
  points : List (UInt64 × SocketAddress)

namespace Ring

/-- Points with an address set at one of them. -/
def insertPoint (p : UInt64) (a : SocketAddress) : List (UInt64 × SocketAddress) → List (UInt64 × SocketAddress)
  | [] => [(p, a)]
  | (q, b) :: rest =>
    if p < q then (p, a) :: (q, b) :: rest
    else if p = q then (p, a) :: rest
    else (q, b) :: insertPoint p a rest

/-- The ring of some candidates; of two with one point the later one counts. -/
def build (candidates : List SocketAddress) : Ring where
  fingerprint := Rpc.fingerprint candidates
  points := candidates.foldl (fun ps a => insertPoint a.point a ps) []

/-- The address at the first point at or after a key, or at the first point of all. -/
def route (r : Ring) (key : UInt64) : Option SocketAddress :=
  ((r.points.find? fun (p, _) => key ≤ p).or r.points.head?).map (·.2)

end Ring

/-! ## Balancers -/

/-- No address can be chosen for a service. -/
structure NoAddress where
  service : String
  deriving DecidableEq

/-- A strategy and what it remembers. -/
inductive Balancer where
  /-- The numbers to be drawn, one for each choice, and how many have been. Nothing is known of them. -/
  | random (draws : Nat → Nat) (drawn : Nat)
  | consistentHash (rings : Table String Ring)

namespace Balancer

/-- The names of the strategies. -/
def nameOf : Balancer → String
  | .random .. => "random"
  | .consistentHash _ => "consistent-hash"

/-- The strategy with a name. -/
def ofName? (name : String) (draws : Nat → Nat) : Option Balancer :=
  if name = "random" then some (.random draws 0)
  else if name = "consistent-hash" then some (.consistentHash .empty)
  else none

/-- The ring for a service: the one kept, if it is of the same set of candidates, or a new one, which is kept. -/
def ringFor (rings : Table String Ring) (service : String) (candidates : List SocketAddress) :
    Table String Ring × Ring :=
  match rings.get? service with
  | some r =>
    if r.fingerprint = fingerprint candidates then (rings, r)
    else
      let r := Ring.build candidates
      (rings.set service r, r)
  | none =>
    let r := Ring.build candidates
    (rings.set service r, r)

/-- The candidate for a key, if there are any. -/
def pick (b : Balancer) (service : String) (candidates : List SocketAddress) (key : Bytes) :
    Balancer × Option SocketAddress :=
  if candidates.isEmpty then (b, none)
  else
    match b with
    | .random draws drawn => (.random draws (drawn + 1), candidates[draws drawn % candidates.length]?)
    | .consistentHash rings =>
      let (rings, r) := ringFor rings service candidates
      (.consistentHash rings, r.route (xxHash64 0 key))

/-- The address for a key. -/
def select (b : Balancer) (service : String) (candidates : List SocketAddress) (key : Bytes) :
    Balancer × Except NoAddress SocketAddress :=
  match candidates with
  | [] => (b, .error ⟨service⟩)
  | [a] => (b, .ok a)
  | _ =>
    match b.pick service candidates key with
    | (b, some a) => (b, .ok a)
    | (b, none) => (b, .error ⟨service⟩)

/-- The ring kept for a service. -/
def ring? (b : Balancer) (service : String) : Option Ring :=
  match b with
  | .random .. => none
  | .consistentHash rings => rings.get? service

end Balancer

end Rpc
