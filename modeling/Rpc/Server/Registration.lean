import Rpc.Server.Service

/-!
# Services as they are put together

Services are begun, given methods and registered (`AssemblyStep`, `Assembly`). The record of the same steps
(`Plans`) has for each service what was registered for it, and the services in the order in which they were registered.
-/

namespace Rpc

/-! ## Methods -/

/-- What is registered under a name: a method that takes its arguments as they are, or one that reads them as types. -/
inductive Registration where
  | method (name : String) (paramTypes : List String) (handler : List Value → Timed MethodEnding)
  | typed (name : String) (paramTypes : List String) (ts : List ValueType)
      (handler : Arguments ts → Timed MethodEnding)

namespace Registration

/-- The name. -/
def name : Registration → String
  | .method name .. | .typed name .. => name

/-- The method that is registered. -/
def toMethod : Registration → Method
  | .method _ paramTypes handler => ⟨paramTypes, handler⟩
  | .typed _ paramTypes ts handler => .typed paramTypes ts handler

/-- The name and the parameter types. -/
def signature (r : Registration) : String × List String := (r.name, r.toMethod.paramTypes)

end Registration

/-- The service with one more registration. -/
def Service.add (s : Service) (r : Registration) : Service := s.addMethod r.name r.toMethod

/-- The method of a service with a name and exactly these parameter types. -/
def ServiceTable.method? (t : ServiceTable) (service name : String) (paramTypes : List String) : Option Method :=
  (t.get? service).bind (·.method? name paramTypes)

/-! ## Steps -/

/-- Something that is done to put services together. Those that were begun are numbered. -/
inductive AssemblyStep where
  | begin (name : String)
  | add (i : Nat) (r : Registration)
  | register (i : Nat)

/-- The services that were begun, and the table of those that were registered. -/
structure Assembly where
  begun : List Service
  table : ServiceTable

namespace Assembly

/-- The services and the table after a step. -/
def next (w : Assembly) : AssemblyStep → Assembly
  | .begin name => { w with begun := w.begun ++ [.new name] }
  | .add i r => { w with begun := w.begun.modify i (·.add r) }
  | .register i =>
    match w.begun[i]? with
    | none => w
    | some s => { w with table := (w.table.register s).1 }

/-- The services and the table after steps, with none at the beginning. -/
def run (steps : List AssemblyStep) : Assembly := steps.foldl next ⟨[], .empty⟩

end Assembly

/-! ## Records -/

/-- The name of a service and what is registered for it. -/
structure ServicePlan where
  name : String
  registrations : List Registration

namespace ServicePlan

/-- The plan with one more registration. -/
def add (plan : ServicePlan) (r : Registration) : ServicePlan :=
  { plan with registrations := plan.registrations ++ [r] }

/-- The last registration with a name and exactly these parameter types. -/
def last? (plan : ServicePlan) (name : String) (paramTypes : List String) : Option Registration :=
  (plan.registrations.filter (·.signature = (name, paramTypes))).getLast?

end ServicePlan

/-- What is known of services from what was done. -/
structure Plans where
  begun : List ServicePlan
  /-- Those that were registered, as they were then. -/
  registered : List ServicePlan

namespace Plans

/-- The record after a step. -/
def next (p : Plans) : AssemblyStep → Plans
  | .begin name => { p with begun := p.begun ++ [⟨name, []⟩] }
  | .add i r => { p with begun := p.begun.modify i (·.add r) }
  | .register i => { p with registered := p.registered ++ p.begun[i]?.toList }

/-- The record of steps. -/
def run (steps : List AssemblyStep) : Plans := steps.foldl next ⟨[], []⟩

/-- The service of a name that was registered last. -/
def last? (p : Plans) (service : String) : Option ServicePlan := (p.registered.filter (·.name = service)).getLast?

end Plans

end Rpc
