import Rpc.Directory

/-!
# A directory in use

What is done to a directory, one thing after the other (`DirectoryStep`), from a directory that is new or that a
document defines (`Directory.Loaded`). What a history says about a service and its addresses is in `Directory.Known`,
`Directory.Listed` and `Directory.Grown`, which mention no directory.
-/

namespace Rpc

/-- Something that is done to a directory. -/
inductive DirectoryStep where
  | register (service : String) (a : SocketAddress)
  | deregister (service : String) (a : SocketAddress)
  | assign (service : String) (addresses : List SocketAddress)
  deriving DecidableEq

namespace DirectoryStep

/-- The service whose addresses it is about. -/
def service : DirectoryStep → String
  | .register s _ | .deregister s _ | .assign s _ => s

/-- It gives a service all of its addresses. -/
def assigns (s : String) : DirectoryStep → Bool
  | .assign s' _ => s' = s
  | _ => false

/-- It makes a service a known one. -/
def defines (s : String) : DirectoryStep → Bool
  | .register s' _ | .assign s' _ => s' = s
  | .deregister .. => false

/-- It says whether a service has an address. -/
def decides (s : String) (a : SocketAddress) : DirectoryStep → Bool
  | .register s' b | .deregister s' b => s' = s ∧ b = a
  | .assign s' _ => s' = s

/-- It says of an address that the service has it. -/
def lists (a : SocketAddress) : DirectoryStep → Bool
  | .register _ b => b = a
  | .deregister .. => false
  | .assign _ addresses => a ∈ addresses

/-- The address that it adds to a service. -/
def adds? (s : String) : DirectoryStep → Option SocketAddress
  | .register s' a => if s' = s then some a else none
  | _ => none

/-- What becomes of the addresses of the service that it is about; none if the service is unknown. -/
def revise : DirectoryStep → Option (List SocketAddress) → Option (List SocketAddress)
  | .register _ a, listed => some (if a ∈ listed.getD [] then listed.getD [] else listed.getD [] ++ [a])
  | .deregister _ a, listed => listed.map (·.filter (· ≠ a))
  | .assign _ addresses, _ => some addresses

end DirectoryStep

namespace Directory

/-- The directory after a step. -/
def next (d : Directory) : DirectoryStep → Directory
  | .register s a => d.register s a
  | .deregister s a => (d.deregister s a).1
  | .assign s addresses => d.assign s addresses

/-- The directory after steps. -/
def run (d : Directory) (steps : List DirectoryStep) : Directory := steps.foldl next d

/-- The addresses that a document lists for a service; of two entries for one service the later one holds. -/
def definition? (document : List (String × Toml.Value)) (service : String) : Option (List SocketAddress) :=
  match document.lookup "services" with
  | some (.table entries) => (entries.reverse.lookup service).bind addressesOfToml?
  | _ => none

/-- A directory at the beginning, and the addresses that its definition lists for a service: a new directory without
any, or the one that the text of a document defines. -/
inductive Loaded : Directory → (String → Option (List SocketAddress)) → Prop
  | new : Loaded empty fun _ => none
  | text {text : String} {document : List (String × Toml.Value)} {d : Directory}
      (hdocument : Toml.parse? text = some document) (hd : ofToml text = .ok d) : Loaded d (definition? document)

/-! ## What a history says -/

/-- The service is in the definition, or something was registered or assigned for it. -/
def Known (defined : String → Option (List SocketAddress)) (steps : List DirectoryStep) (s : String) : Prop :=
  (defined s).isSome ∨ ∃ step ∈ steps, step.defines s

/-- The last step that says whether the service has the address says that it has; without such a step the definition
lists it. -/
def Listed (defined : String → Option (List SocketAddress)) (steps : List DirectoryStep) (s : String)
    (a : SocketAddress) : Prop :=
  match (steps.filter (·.decides s a)).getLast? with
  | some step => step.lists a
  | none => ∃ addresses, defined s = some addresses ∧ a ∈ addresses

/-- The addresses of a service that no step takes from it, in their order. -/
def kept (steps : List DirectoryStep) (s : String) (before : List SocketAddress) : List SocketAddress :=
  before.filter fun a => .deregister s a ∉ steps

/-- The addresses that were there and stay come first, and as they were; after them come those that are new, each once
and as they were registered. -/
def Grown (steps : List DirectoryStep) (s : String) (before after : List SocketAddress) : Prop :=
  ∃ new, after = kept steps s before ++ new ∧ new.Sublist (steps.filterMap (·.adds? s)) ∧ new.Nodup ∧
    ∀ a ∈ new, a ∉ kept steps s before

end Directory

end Rpc
