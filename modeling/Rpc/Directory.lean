import Rpc.Bytes
import Rpc.Net.Address
import Rpc.Table
import Rpc.Toml.Document

/-!
# Which addresses serve a service

A directory maps names of services to addresses in the order in which they came, and counts its changes.

- `Directory.register`, `Directory.deregister`, `Directory.assign`: the changes; the first two change and count
  nothing if the address is there already, or is not there;
- `Directory.resolve`: the addresses of a service, or the service is unknown; a service without addresses is known;
- `Directory.ofToml`: a directory from a document whose table `services` lists the addresses of each service.
-/

namespace Rpc

/-! ## Errors -/

/-- Why a directory gives no answer. -/
inductive DirectoryError where
  | unknownService (name : String)
  /-- The store behind a directory failed. -/
  | backend (reason : String)
  | definition (reason : String)
  deriving DecidableEq

/-- The wording in messages to people. -/
def DirectoryError.message : DirectoryError → String
  | .unknownService name => "Unknown service: " ++ name
  | .backend reason => "Registry backend error: " ++ reason
  | .definition reason => "Invalid registry definition: " ++ reason

/-! ## Directories -/

/-- The addresses of services, and how many changes there have been. -/
structure Directory where
  services : Table String (List SocketAddress)
  /-- Counted in 64 bits, the changes would begin again at zero after `2 ^ 64` of them; that many, one in a nanosecond,
  take more than five hundred years. -/
  version : Nat

namespace Directory

/-- The directory without services. -/
def empty : Directory := ⟨.empty, 0⟩

instance : Inhabited Directory := ⟨empty⟩

/-- The addresses of a service; none if it is unknown. -/
def addresses (d : Directory) (service : String) : List SocketAddress := (d.services.get? service).getD []

/-- The directory with the addresses of a service changed. -/
def change (d : Directory) (service : String) (addresses : List SocketAddress) : Directory :=
  ⟨d.services.set service addresses, d.version + 1⟩

/-- Adds an address to a service, unless it is there already. -/
def register (d : Directory) (service : String) (a : SocketAddress) : Directory :=
  if a ∈ d.addresses service then d else d.change service (d.addresses service ++ [a])

/-- Takes an address from a service; whether it was there. -/
def deregister (d : Directory) (service : String) (a : SocketAddress) : Directory × Bool :=
  if a ∈ d.addresses service then (d.change service ((d.addresses service).filter (· ≠ a)), true) else (d, false)

/-- Gives a service other addresses. -/
def assign (d : Directory) (service : String) (addresses : List SocketAddress) : Directory :=
  d.change service addresses

/-- The addresses that serve a service. -/
def resolve (d : Directory) (service : String) : Except DirectoryError (List SocketAddress) :=
  match d.services.get? service with
  | some addresses => .ok addresses
  | none => .error (.unknownService service)

/-! ## Reading a directory -/

/-- The address that a text of a document stands for. -/
def addressOfToml? : Toml.Value → Option SocketAddress
  | .string s => SocketAddress.parse? s
  | _ => none

/-- The addresses that an array of a document lists. -/
def addressesOfToml? : Toml.Value → Option (List SocketAddress)
  | .array items => items.mapM addressOfToml?
  | _ => none

/-- The services that a table of a document lists. -/
def servicesOfToml? : Toml.Value → Option (List (String × List SocketAddress))
  | .table entries => entries.mapM fun (name, v) => (addressesOfToml? v).map (name, ·)
  | _ => none

/-- The directory that a document defines; without services if it does not mention them. -/
def ofDocument? (document : List (String × Toml.Value)) : Option Directory :=
  match document.lookup "services" with
  | none => some empty
  | some v => do
    let services ← servicesOfToml? v
    some ⟨services.foldl (fun t (name, addresses) => t.set name addresses) .empty, 0⟩

/-- The directory that the text of a document defines. -/
def ofToml (text : String) : Except DirectoryError Directory :=
  match (Toml.parse? text).bind ofDocument? with
  | some d => .ok d
  | none => .error (.definition "no valid definition of services")

/-- The directory that a file defines, of which there may be no content. -/
def ofFile (content : Option Bytes) : Except DirectoryError Directory :=
  match content.bind Bytes.toString? with
  | some text => ofToml text
  | none => .error (.definition "failed to read the file")

end Directory

end Rpc
