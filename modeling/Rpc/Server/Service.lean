import Rpc.Message
import Rpc.Table
import Rpc.Typed

/-!
# Services

A service has methods, several of one name as long as their parameter types differ; a call names the types exactly.

- `Method.reading`, `Method.typed`: a method whose arguments are read as types before it runs;
- `Service.addMethod`, `Service.method?`: the last method added with a name and parameter types is the one that is
  found;
- `ServiceTable.resolve`, `ServiceTable.invoke`: the method that a request names is found and run, and all that can go
  wrong becomes an error for the caller.
-/

namespace Rpc

universe u

/-! ## Methods -/

/-- What a crash leaves behind: a text, or something else. -/
inductive Crash where
  | text (s : String)
  | other
  deriving DecidableEq

/-- The wording in messages to people. -/
def Crash.message : Crash → String
  | text s => s
  | other => "panicked"

/-- How a run of a method ends. -/
inductive MethodEnding where
  | returned (v : Value)
  | failed (reason : String)
  | crashed (c : Crash)

/-- Something that is there after a number of nanoseconds. -/
structure Timed (α : Type) where
  duration : Nat
  result : α

namespace Timed

/-- Something that takes no time. -/
def now {α : Type} (a : α) : Timed α := ⟨0, a⟩

/-- Changes what is there in the end. -/
def map {α β : Type} (f : α → β) (t : Timed α) : Timed β := ⟨t.duration, f t.result⟩

end Timed

/-- A method: the descriptors of its parameters, and what it does with arguments. -/
structure Method where
  paramTypes : List String
  run : List Value → Timed MethodEnding

section
variable {ι : Type u} {Carrier : ι → Type} (read : (t : ι) → Value → Except Mismatch (Carrier t))

/-- Reads arguments as given types and hands them to a handler. Arguments that are not of these types fail without it.
-/
def withArguments {M : Type → Type} [Monad M] (ts : List ι) (handler : Tuple Carrier ts → M (Timed MethodEnding))
    (args : List Value) : M (Timed MethodEnding) :=
  match readArguments read ts args with
  | .ok xs => handler xs
  | .error e => pure (.now (.failed ("invalid arguments: " ++ e.message)))

/-- A method that runs on arguments of types with a way to read them, and fails on others without running. -/
def Method.reading (paramTypes : List String) (ts : List ι) (handler : Tuple Carrier ts → Timed MethodEnding) :
    Method where
  paramTypes := paramTypes
  run args := Id.run (withArguments read ts (fun xs => pure (handler xs)) args)

end

/-- A method that runs on arguments of given types of values. -/
def Method.typed (paramTypes : List String) (ts : List ValueType) (handler : Arguments ts → Timed MethodEnding) :
    Method :=
  .reading ValueType.read paramTypes ts handler

/-! ## Services -/

/-- Methods by their names. -/
structure Service where
  name : String
  methods : Table String (List Method)

namespace Service

/-- A service without methods. -/
def new (name : String) : Service := ⟨name, .empty⟩

/-- The methods of a name. -/
def overloads (s : Service) (name : String) : List Method := (s.methods.get? name).getD []

/-- Adds a method. One with the same name and parameter types is replaced. -/
def addMethod (s : Service) (name : String) (m : Method) : Service :=
  { s with methods := s.methods.set name ((s.overloads name).filter (·.paramTypes ≠ m.paramTypes) ++ [m]) }

/-- The method with a name and exactly these parameter types. -/
def method? (s : Service) (name : String) (paramTypes : List String) : Option Method :=
  (s.overloads name).find? (·.paramTypes = paramTypes)

/-- How many methods there are. -/
def methodCount (s : Service) : Nat := s.methods.total List.length

end Service

/-- Services by their names. -/
abbrev ServiceTable := Table String Service

namespace ServiceTable

/-- Adds a service; the one of the same name that it replaces. -/
def register (t : ServiceTable) (s : Service) : ServiceTable × Option Service := (t.set s.name s, t.get? s.name)

/-- The table of some services, of two with one name the later one. -/
def ofList (services : List Service) : ServiceTable := services.foldl (fun t s => (register t s).1) .empty

/-! ## Invocation -/

/-- What the caller is told about a run of a method. -/
def replyOf : MethodEnding → Except RemoteError Value
  | .returned v => .ok v
  | .failed reason => .error ⟨.invocation, reason, none⟩
  | .crashed c => .error ⟨.invocation, c.message, none⟩

/-- The method that a request names, if the request has an argument for each of its parameters. -/
def resolve (t : ServiceTable) (r : Request) : Except RemoteError Method :=
  match t.get? r.service with
  | none => .error ⟨.serviceNotFound, "no implementation for service '" ++ r.service ++ "'", none⟩
  | some s =>
    let name := r.service ++ "." ++ r.method
    match s.method? r.method r.paramTypes with
    | none => .error ⟨.methodNotFound, name ++ "(" ++ String.intercalate ", " r.paramTypes ++ ")", none⟩
    | some m =>
      if r.args.length ≠ r.paramTypes.length then
        .error ⟨.badRequest, name ++ " expects " ++ toString r.paramTypes.length ++ " arguments, got " ++
          toString r.args.length, none⟩
      else .ok m

/-- Runs the method that a request names. -/
def invoke (t : ServiceTable) (r : Request) : Timed (Except RemoteError Value) :=
  match t.resolve r with
  | .error e => .now (.error e)
  | .ok m => (m.run r.args).map replyOf

end ServiceTable

end Rpc
