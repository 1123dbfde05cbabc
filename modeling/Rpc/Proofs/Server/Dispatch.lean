import Rpc.Proofs.Server.Filters

/-!
# The reply to a message

A request passes stages one after the other, and the first that it does not pass makes its reply.

- `ServiceTable.Finds`: the stages from its service to its method; `ServiceTable.finds_resolve`;
- `Pipeline.Settles`: all stages, with the calls of filters and methods that are made on the way;
- `Pipeline.dispatchBy_direct`: whether calls are noted down or not, a message goes the same way;
- `Pipeline.answered_under_own_header`: the main statement.
-/

namespace Rpc

variable {σ : Type} {M : Type → Type}

/-! ## Methods -/

/-- The service has a method of a name with exactly these parameter types. -/
def Service.Has (s : Service) (name : String) (paramTypes : List String) (method : Method) : Prop :=
  method ∈ s.overloads name ∧ method.paramTypes = paramTypes

namespace Service

variable {s : Service} {name : String} {paramTypes : List String} {method : Method}

theorem has_of_method? (h : s.method? name paramTypes = some method) : s.Has name paramTypes method :=
  ⟨List.mem_of_find?_eq_some h, by simpa using List.find?_some h⟩

theorem not_has_of_method? (h : s.method? name paramTypes = none) (method : Method) :
    ¬ s.Has name paramTypes method := by
  rintro ⟨hmem, htypes⟩
  exact List.find?_eq_none.mp h method hmem (decide_eq_true htypes)

end Service

namespace ServiceTable

variable {t : ServiceTable} {r : Request}

/-- What comes of looking for the method that a request names, by the first of three stages that it does not pass: its
service is known, the service has a method of its name with its parameter types, and it has as many arguments. -/
inductive Finds (t : ServiceTable) (r : Request) : Except RemoteError Method → Prop
  | noService {e : RemoteError} : t.get? r.service = none → e.kind = .serviceNotFound → Finds t r (.error e)
  | noMethod {s : Service} {e : RemoteError} : t.get? r.service = some s →
      (∀ method, ¬ s.Has r.method r.paramTypes method) → e.kind = .methodNotFound → Finds t r (.error e)
  | wrongCount {s : Service} {method : Method} {e : RemoteError} : t.get? r.service = some s →
      s.Has r.method r.paramTypes method → r.args.length ≠ method.paramTypes.length → e.kind = .badRequest →
      Finds t r (.error e)
  | found {s : Service} {method : Method} : t.get? r.service = some s → s.Has r.method r.paramTypes method →
      s.method? r.method r.paramTypes = some method → r.args.length = method.paramTypes.length → Finds t r (.ok method)

/-- **The stages of finding a method.** -/
theorem finds_resolve (t : ServiceTable) (r : Request) : t.Finds r (t.resolve r) := by
  cases hs : t.get? r.service with
  | none =>
    simp only [resolve, hs]
    exact .noService hs rfl
  | some s =>
    cases hm : s.method? r.method r.paramTypes with
    | none =>
      simp only [resolve, hs, hm]
      exact .noMethod hs (Service.not_has_of_method? hm) rfl
    | some method =>
      have hhas := Service.has_of_method? hm
      by_cases hcount : r.args.length = r.paramTypes.length
      · simp only [resolve, hs, hm, hcount, ne_eq, not_true, if_false]
        exact .found hs hhas hm (hhas.2 ▸ hcount)
      · simp only [resolve, hs, hm, hcount, ne_eq, not_false_eq_true, if_true]
        exact .wrongCount hs hhas (hhas.2 ▸ hcount) rfl

/-- The call of a method to which a request leads. -/
def performed (t : ServiceTable) (r : Request) : List (Contact σ) :=
  match t.resolve r with
  | .error _ => []
  | .ok method => [.performed method r.args]

/-- A method is run if it is found, and no other. -/
theorem invokeBy_noted (t : ServiceTable) (r : Request) (log : List (Contact σ)) :
    (t.invokeBy .noted r).run log = pure (t.invoke r, log ++ t.performed r) := by
  unfold invokeBy invoke performed
  cases t.resolve r with
  | error e => simp
  | ok method => rfl

end ServiceTable

/-! ## Requests -/

namespace Pipeline

/-- What comes of a request, by the first stage that it does not pass: all filters allow it, its method is found, and
the method returns a value. The filters afterwards, and the calls of filters and of the method, are those of the stages
up to this one. -/
inductive Settles (p : Pipeline σ) (call : Call) :
    (filters : FilterChain σ) → (calls : List (Contact σ)) → (outcome : Except RemoteError Value) → Prop
  | refused {filters : FilterChain σ} {asked : List (Filter σ)} {e : RemoteError} :
      FilterChain.Decides call p.filters filters asked (.error e) →
      Settles p call filters (asked.map (.asked · call)) (.error e)
  | notFound {filters : FilterChain σ} {asked : List (Filter σ)} {e : RemoteError} :
      FilterChain.Decides call p.filters filters asked (.ok ()) → p.services.Finds call.request (.error e) →
      Settles p call filters (asked.map (.asked · call)) (.error e)
  | failed {filters : FilterChain σ} {asked : List (Filter σ)} {method : Method} {e : RemoteError} :
      FilterChain.Decides call p.filters filters asked (.ok ()) → p.services.Finds call.request (.ok method) →
      (∀ v, (method.run call.request.args).result ≠ .returned v) → e.kind = .invocation →
      Settles p call filters (asked.map (.asked · call) ++ [.performed method call.request.args]) (.error e)
  | returned {filters : FilterChain σ} {asked : List (Filter σ)} {method : Method} {v : Value} :
      FilterChain.Decides call p.filters filters asked (.ok ()) → p.services.Finds call.request (.ok method) →
      (method.run call.request.args).result = .returned v →
      Settles p call filters (asked.map (.asked · call) ++ [.performed method call.request.args]) (.ok v)

variable (p : Pipeline σ) (call : Call)

/-- What comes of a request that all filters allow. -/
theorem settles_of_allowed {filters : FilterChain σ} {asked : List (Filter σ)}
    (h : FilterChain.Decides call p.filters filters asked (.ok ())) :
    Settles p call filters (asked.map (.asked · call) ++ p.services.performed call.request)
      (p.services.invoke call.request).result := by
  have hfinds := p.services.finds_resolve call.request
  unfold ServiceTable.invoke ServiceTable.performed
  cases hresolve : p.services.resolve call.request with
  | error e =>
    rw [hresolve] at hfinds
    rw [List.append_nil]
    exact .notFound h hfinds
  | ok method =>
    rw [hresolve] at hfinds
    show Settles p call _ _ (ServiceTable.replyOf (method.run call.request.args).result)
    cases hresult : (method.run call.request.args).result with
    | returned v => exact .returned h hfinds hresult
    | failed reason => exact .failed h hfinds (by simp [hresult]) rfl
    | crashed c => exact .failed h hfinds (by simp [hresult]) rfl

/-- **What comes of a request.** The calls that are made on the way are noted down. -/
theorem settles_dispatch (serializer compressor : UInt8) :
    ∃ filters calls outcome, Settles p call filters calls outcome ∧
      (p.dispatch call.peer call.now (call.message serializer compressor)).1 = { p with filters := filters } ∧
      (p.dispatch call.peer call.now (call.message serializer compressor)).2.result =
        some ((call.message serializer compressor).reply ⟨call.requestId, outcome⟩) ∧
      (p.dispatchBy .noted call.peer call.now (call.message serializer compressor)).run [] =
        pure (p.dispatch call.peer call.now (call.message serializer compressor), calls) := by
  obtain ⟨asked, hdecides, hlog⟩ := p.filters.decides_run call
  have hreceive := p.receive_message call serializer compressor
  have hnoted := p.receiveBy_message call serializer compressor (hlog [])
  cases hresult : (p.filters.run call).2 with
  | error e =>
    rw [hresult] at hdecides hreceive hnoted
    refine ⟨(p.filters.run call).1, asked.map (.asked · call), .error e, .refused hdecides, ?_⟩
    simp only [dispatch, dispatchBy, StateT.run_bind, hreceive, hnoted, Message.judged, pure_bind]
    exact ⟨rfl, rfl, rfl⟩
  | ok =>
    rw [hresult] at hdecides hreceive hnoted
    refine ⟨(p.filters.run call).1, _, _, p.settles_of_allowed call hdecides, ?_⟩
    simp only [dispatch, dispatchBy, StateT.run_bind, hreceive, hnoted, Message.judged, pure_bind, Invocation.runBy,
      ServiceTable.invokeBy_noted]
    exact ⟨rfl, rfl, rfl⟩

/-- **With calls as they are a message goes the same way,** in every monad. -/
theorem dispatchBy_direct [Monad M] [LawfulMonad M] (peer : SocketAddress) (now : Instant) (m : Message) :
    dispatchBy .direct p peer now m = (pure (p.dispatch peer now m) : M _) := by
  have hreceive : receiveBy .direct p peer now m = (pure (p.receive peer now m) : M _) := by
    unfold receiveBy receive
    cases m.type with
    | request =>
      cases m.payload with
      | request q =>
        simp only [FilterChain.runBy_direct, pure_bind]
        cases p.filters.run ⟨peer, m.requestId, q, now⟩ with
        | mk filters result => cases result <;> rfl
      | empty | response => rfl
    | response | heartbeatRequest | heartbeatResponse => rfl
  unfold dispatchBy dispatch
  rw [hreceive, pure_bind]
  cases p.receive peer now m with
  | mk q admission =>
    cases admission with
    | reply reply | ignore => rfl
    | invoke i =>
      simp only [Invocation.runBy, ServiceTable.invokeBy, Invocation.run, ServiceTable.invoke]
      cases q.services.resolve i.request with
      | error e => simp only [pure_bind]
      | ok method => simp only [Callouts.direct, pure_bind]

/-- What a message for a request is answered with. Its header is that of the message, whatever the message brings. -/
theorem dispatch_request (peer : SocketAddress) (now : Instant) (serializer compressor : UInt8) (id : UInt32)
    (payload : Payload) :
    let m : Message := ⟨.request, serializer, compressor, id, payload⟩
    ∃ calls outcome, (p.dispatchBy .noted peer now m).run [] = (p.dispatch peer now m, calls) ∧
      (p.dispatch peer now m).2.result = some ⟨.response, serializer, compressor, id, .response ⟨id, outcome⟩⟩ ∧
      ((∀ q, payload ≠ .request q) ∧ calls = [] ∧ (p.dispatch peer now m).1 = p ∧
          (∃ e, outcome = .error e ∧ e.kind = .badRequest) ∨
        ∃ q, payload = .request q ∧
          Settles p ⟨peer, id, q, now⟩ (p.dispatch peer now m).1.filters calls outcome) := by
  intro m
  cases payload with
  | request q =>
    obtain ⟨filters, calls, outcome, hsettles, hafter, hresult, hcalls⟩ :=
      p.settles_dispatch ⟨peer, id, q, now⟩ serializer compressor
    have hfilters : (p.dispatch peer now m).1.filters = filters := congrArg Pipeline.filters hafter
    exact ⟨calls, outcome, hcalls, hresult, .inr ⟨q, rfl, hfilters ▸ hsettles⟩⟩
  | empty | response => exact ⟨[], _, rfl, rfl, .inl ⟨by simp, rfl, rfl, _, rfl, rfl⟩⟩

/-- **Every message is answered under its own header.** Responses and heartbeat responses get no reply and all other
messages one, with their ids. A heartbeat is answered with an empty heartbeat response, without a call of a filter or a
method. A request is answered with a response under its id that carries a result or an error: the error of the first
stage that it does not pass, or what its method returns (`Settles`); a message for a request that brings none is a bad
request, again without any call. -/
theorem answered_under_own_header (peer : SocketAddress) (now : Instant) (m : Message) :
    let reply := (p.dispatch peer now m).2.result
    ∃ calls : List (Contact σ),
      (p.dispatchBy .noted peer now m).run [] = (p.dispatch peer now m, calls) ∧
      (reply = none ↔ m.type = .response ∨ m.type = .heartbeatResponse) ∧
      (∀ r, reply = some r →
        r.requestId = m.requestId ∧ r.serializer = m.serializer ∧ r.compressor = m.compressor) ∧
      (m.type = .heartbeatRequest → calls = [] ∧ (p.dispatch peer now m).1 = p ∧
        ∃ r, reply = some r ∧ r.type = .heartbeatResponse ∧ r.payload = .empty) ∧
      (m.type = .request → ∃ r response, reply = some r ∧ r.type = .response ∧ r.payload = .response response ∧
        response.requestId = m.requestId ∧ response.result?.isSome = !response.error?.isSome ∧
        ((∀ q, m.payload ≠ .request q) ∧ calls = [] ∧ (p.dispatch peer now m).1 = p ∧
            (∃ e, response.outcome = .error e ∧ e.kind = .badRequest) ∨
          ∃ q, m.payload = .request q ∧
            Settles p ⟨peer, m.requestId, q, now⟩ (p.dispatch peer now m).1.filters calls response.outcome)) := by
  have hcarries (response : Response) : response.result?.isSome = !response.error?.isSome := by
    obtain ⟨id, error | result⟩ := response <;> rfl
  obtain ⟨type, serializer, compressor, id, payload⟩ := m
  intro reply
  cases type with
  | response | heartbeatResponse => exact ⟨[], rfl, by simp [reply, dispatch, receive, Timed.now]⟩
  | heartbeatRequest =>
    have hreply : reply = some ⟨.heartbeatResponse, serializer, compressor, id, .empty⟩ := rfl
    refine ⟨[], rfl, by simp [hreply], fun r hr => ?_, fun _ => ⟨rfl, rfl, _, hreply, rfl, rfl⟩,
      fun h => (by cases h)⟩
    cases hreply.symm.trans hr
    exact ⟨rfl, rfl, rfl⟩
  | request =>
    obtain ⟨calls, outcome, hcalls, hreply, houtcome⟩ := p.dispatch_request peer now serializer compressor id payload
    refine ⟨calls, hcalls, by simp [reply, hreply], fun r hr => ?_, fun h => (by cases h), fun _ =>
      ⟨_, ⟨id, outcome⟩, hreply, rfl, rfl, rfl, hcarries _, houtcome⟩⟩
    cases hreply.symm.trans hr
    exact ⟨rfl, rfl, rfl⟩

end Pipeline

end Rpc
