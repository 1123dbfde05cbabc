import Rpc.Proofs.Session.Tally

/-!
# About what the filters are asked

- `Session.Asked`: filters have been asked about no request twice, nor about one that has not come to the server yet;
  `Session.Asked.step`: every step keeps it;
- `Session.accounted_of_reaches`: all that holds of calls and requests on a run on which both sides understand what is
  said and no id is used twice;
- `Session.Accounted.place_unique`: so a request has one place among the calls about which filters were asked.
-/

namespace Rpc

namespace Session

variable {σ : Type} {p : Pipeline σ} {a b : FrameCodec} {run : SessionRun} {s t : Session σ} {e : SessionStep}
  {plan : Plan} {note : SessionNote} {n : Nat}

/-- Filters have been asked about requests that were sent, about none of them twice, and about none that has not come to
them yet. -/
structure Asked (run : SessionRun) (s : Session σ) : Prop where
  nodup : ((calls run).map (·.requestId)).Nodup
  sent : ∀ call ∈ calls run, ∃ n x, (n, x) ∈ requests run ∧ call.requestId = x.requestId
  ahead : ∀ call ∈ calls run, ∀ n m, .asked (.ok m) ∈ s.stages n → m.callId? ≠ some call.requestId
  outgoing : ∀ call ∈ calls run, ∀ k m, s.outgoing.get? k = some m → m.requestId ≠ call.requestId

theorem asked_start (p : Pipeline σ) (a b : FrameCodec) (workers : Nat) : Asked [] (start a p b workers) :=
  ⟨List.nodup_nil, nofun, nofun, nofun⟩

/-- What comes to be on its way to the server was waiting to be put on a wire, or belongs to no call. -/
theorem Moving.asked {old : Option Stage} {m : Message} (h : Moving s n e old (some (.asked (.ok m)))) :
    (∃ k, s.outgoing.get? k = some m) ∨ m.callId? = none := by
  generalize hnew : some (Stage.asked (.ok m)) = new at h
  cases h with
  | still | finished | replied | handed => cases hnew
  | put hm =>
    cases hnew
    exact .inl ⟨_, hm⟩
  | probed =>
    cases hnew
    exact .inr rfl
  | looked =>
    revert hnew
    generalize (s.server.pipeline.look _ _ _).2 = d
    cases d <;> exact nofun
  | @received _ i =>
    cases h : Connection.responseOf i <;> simp [Inbound.stage?, h] at hnew

/-- What waits to be put on a wire waited before, or is sent now. -/
theorem Stepped.outgoing_or (h : Stepped s e plan t note) {k : Nat} {m : Message} (hk : t.outgoing.get? k = some m) :
    s.outgoing.get? k = some m ∨ ∃ n x, e = .send n x ∧ m = x.message := by
  rw [h.outgoing] at hk
  cases h.planned with
  | @send n x =>
    rw [Table.get?_set] at hk
    split at hk
    · cases hk
      exact .inr ⟨n, x, rfl, rfl⟩
    · exact .inl hk
  | put =>
    rw [Table.get?_erase] at hk
    split at hk
    · cases hk
    · exact .inl hk
  | _ => exact .inl hk

/-- Filters are asked about a request that is on its way to them. -/
theorem Stepped.asks (h : Stepped s e plan t note) (hsound : Sound p a b run s) {call : Call}
    (hcall : note.call = some call) :
    ∃ n x now c rest, e = .serve (.read n now) ∧ s.server.connections.get? n = some c ∧
      c.inbound = .ok x.message :: rest ∧ (n, x) ∈ requests run ∧ call.requestId = x.requestId := by
  rw [h.call] at hcall
  cases h.planned with
  | @served r =>
    cases r with
    | read n now =>
      simp only [callOf, bind, Option.bind_eq_some_iff] at hcall
      obtain ⟨c, hc, i, hi, hcall⟩ := hcall
      obtain ⟨rest, hi⟩ := List.head?_eq_some_iff.mp hi
      cases hsound.stages n _ (asked_mem_stages hc hi) with
      | asked hm =>
        cases hm with
        | @request x hx =>
          rw [Pipeline.call_request] at hcall
          cases hcall
          exact ⟨n, x, now, c, rest, rfl, hc, hi, hx, rfl⟩
        | probe id => cases hcall
    | _ => cases hcall
  | _ => cases hcall

/-- A request that is on its way to the server is at no second stage. -/
theorem Tallied.not_asked_twice (h : Tallied s) {x : RemoteCall} {rest : Multiset Stage} {m : Message}
    (hs : s.stages n = {.asked (.ok x.message)} + rest) (hm : .asked (.ok m) ∈ rest) :
    m.callId? ≠ some x.requestId := by
  intro hid
  have hnodup := h.nodup n
  have hids : s.underWay n = x.requestId ::ₘ rest.filterMap Stage.callId? := by
    rw [underWay, hs, Multiset.singleton_add]
    exact Multiset.filterMap_cons_some _ _ _ rfl
  rw [hids] at hnodup
  exact (Multiset.nodup_cons.mp hnodup).1 ((Multiset.mem_filterMap _ _).mpr ⟨_, hm, hid⟩)

/-- Requests that are on their way to the server after a step are none about which filters had been asked before it. -/
theorem Asked.ahead_step (h : Asked run s) (hsound : Sound p a b run s) (hw : Writable s)
    (hs : Stepped s e plan t note) {call : Call} (hcall : call ∈ calls run) {m : Message}
    (hm : .asked (.ok m) ∈ t.stages n) : m.callId? ≠ some call.requestId := by
  obtain ⟨old, new, hmoving, hmoves⟩ := moving_of_step hs hw hsound.numbered n
  rcases hmoves.mem_new hm with rfl | hm
  · rcases hmoving.asked with ⟨k, hk⟩ | hnone
    · obtain ⟨n', x, -, -, rfl⟩ := hsound.outgoing k m hk
      exact fun hid => h.outgoing call hcall k _ hk (Option.some.inj hid)
    · rw [hnone]
      exact nofun
  · exact h.ahead call hcall n m hm

/-- A step in which filters are not asked. -/
theorem Asked.quiet (h : Asked run s) (hsound : Sound p a b run s) (hw : Writable s) (hs : Stepped s e plan t note)
    (hids : ((requests (run ++ [(e, note)])).map (·.2.requestId)).Nodup) (hnone : note.call = none) :
    Asked (run ++ [(e, note)]) t := by
  have hcalls : calls (run ++ [(e, note)]) = calls run := by rw [calls_snoc, hnone]; simp
  refine ⟨?_, ?_, ?_, ?_⟩
  · rw [hcalls]
    exact h.nodup
  · intro call hcall
    obtain ⟨n, x, hx, hid⟩ := h.sent call (hcalls ▸ hcall)
    exact ⟨n, x, mem_requests_append _ hx, hid⟩
  · intro call hcall n m hm
    exact h.ahead_step hsound hw hs (hcalls ▸ hcall) hm
  · intro call hcall k m hk
    rw [hcalls] at hcall
    rcases hs.outgoing_or hk with hk | ⟨n, x, rfl, rfl⟩
    · exact h.outgoing call hcall k m hk
    · -- the id of a request that is sent is new
      obtain ⟨n', y, hy, hid⟩ := h.sent call hcall
      rw [requests_snoc, List.map_append] at hids
      rw [hid]
      intro heq
      exact (List.nodup_append.mp hids).2.2 _ (List.mem_map_of_mem hy) _ (List.mem_singleton_self _) heq.symm

/-- A step in which filters are asked. -/
theorem Asked.asks (h : Asked run s) (hsound : Sound p a b run s) (hw : Writable s) (htally : Tallied s)
    (hd : Delivers (poolRun run) s.pool.view) (hids : ((requests run).map (·.2.requestId)).Nodup)
    (hs : Stepped s e plan t note) (ht : Sound p a b (run ++ [(e, note)]) t) {call : Call}
    (hcall : note.call = some call) : Asked (run ++ [(e, note)]) t := by
  obtain ⟨n, x, now, c, rest, rfl, hc, hi, hx, hid⟩ := hs.asks hsound hcall
  have hmem := asked_mem_stages hc hi
  have hcalls : calls (run ++ [(.serve (.read n now), note)]) = calls run ++ [call] := by
    rw [calls_snoc, hcall]
    rfl
  have hrequests : requests (run ++ [(.serve (.read n now), note)]) = requests run := by
    rw [requests_snoc]
    exact List.append_nil _
  refine ⟨?_, ?_, ?_, ?_⟩
  · rw [hcalls, List.map_append]
    refine List.nodup_append.mpr ⟨h.nodup, List.nodup_singleton _, ?_⟩
    intro j hj k hk heq
    obtain ⟨past, hpast, rfl⟩ := List.mem_map.mp hj
    rw [List.map_singleton, hid] at hk
    rw [List.mem_singleton.mp hk] at heq
    exact h.ahead past hpast n x.message hmem (congrArg some heq.symm)
  · intro call' hcall'
    rw [hcalls] at hcall'
    rw [hrequests]
    rcases List.mem_append.mp hcall' with hold | hnew
    · exact h.sent call' hold
    · rw [List.mem_singleton.mp hnew]
      exact ⟨n, x, hx, hid⟩
  · intro call' hcall' k m hm
    rw [hcalls] at hcall'
    rcases List.mem_append.mp hcall' with hold | hnew
    · exact h.ahead_step hsound hw hs hold hm
    · rw [List.mem_singleton.mp hnew, hid]
      intro heq
      -- it would be the request that the reader has just looked at
      have hreq : (k, x) ∈ requests run := by
        cases ht.stages k _ hm with
        | asked hasks =>
          cases hasks with
          | @request y hy =>
            rw [hrequests] at hy
            obtain ⟨rfl, rfl⟩ := request_unique hids hy hx (Option.some.inj heq)
            exact hx
          | probe => cases heq
      obtain ⟨rfl, -⟩ := request_unique hids hreq hx rfl
      obtain ⟨old, new, hmoving, hmoves⟩ := moving_of_step hs hw hsound.numbered k
      cases hmoving with
      | still _ _ hread => exact absurd rfl (hread now)
      | @looked _ c' i hc' hi' =>
        cases hc.symm.trans hc'
        rw [hi] at hi'
        cases hi'
        obtain ⟨others, hbefore, hafter⟩ := hmoves
        rw [hafter] at hm
        rcases Multiset.mem_add.mp hm with hm | hm
        · have hlook := Option.mem_toList.mp hm
          revert hlook
          generalize (s.server.pipeline.look _ _ _).2 = d
          cases d <;> exact nofun
        · exact htally.not_asked_twice hbefore hm heq
  · intro call' hcall' k m hk
    rw [hcalls] at hcall'
    have hk := (hs.outgoing_or hk).resolve_right nofun
    rcases List.mem_append.mp hcall' with hold | hnew
    · exact h.outgoing call' hold k m hk
    · -- the request has been put on its wire
      rw [List.mem_singleton.mp hnew, hid]
      obtain ⟨n', y, hy, hreq, rfl⟩ := hsound.outgoing k m hk
      intro heq
      obtain ⟨rfl, rfl⟩ := request_unique hids hreq hx heq
      have hdue := (htally.mem n' y.requestId).mp ((Multiset.mem_filterMap _ _).mpr ⟨_, hmem, rfl⟩)
      exact not_due_of_outgoing hd hk hy n' hdue

/-- Every step keeps it. -/
theorem Asked.step (h : Asked run s) (hsound : Sound p a b run s) (hw : Writable s) (htally : Tallied s)
    (hd : Delivers (poolRun run) s.pool.view) (hids : ((requests (run ++ [(e, note)])).map (·.2.requestId)).Nodup)
    (hs : s.step? e = some (t, note)) : Asked (run ++ [(e, note)]) t := by
  have ht := hsound.step hw hs
  obtain ⟨plan, hs⟩ := stepped_of_step hs
  cases hcall : note.call with
  | none => exact h.quiet hsound hw hs hids hcall
  | some call =>
    rw [requests_append, List.map_append] at hids
    exact h.asks hsound hw htally hd (List.nodup_append.mp hids).1 hs ht hcall

/-! ## Every run -/

/-- What holds of a session on every run on which both sides understand what is said and no id is used twice. -/
structure Accounted (p : Pipeline σ) (a b : FrameCodec) (run : SessionRun) (s : Session σ) : Prop where
  sound : Sound p a b run s
  writable : Writable s
  delivers : Delivers (poolRun run) s.pool.view
  tallied : Tallied s
  asked : Asked run s

/-- **On every run on which both sides understand what is said and no id is used twice, calls are accounted for.** -/
theorem accounted_of_reaches {workers : Nat} (h : Reaches (start a p b workers) run s)
    (hh : headerLength ≤ a.maxFrameLength ∧ headerLength ≤ b.maxFrameLength) (hi : Intelligible p a b run)
    (hids : ((requests run).map (·.2.requestId)).Nodup) : Accounted p a b run s := by
  -- sends and handles, and what is under way, are known on their own
  have hdelivers : ∀ {run : SessionRun} {s : Session σ}, Reaches (start a p b workers) run s →
      ((requests run).map (·.2.requestId)).Nodup → Delivers (poolRun run) s.pool.view := by
    intro run s h hids
    exact Pool.delivers_of_reaches (pool_of_reaches h) ((sentIds_poolRun h).symm ▸ hids)
  refine h.induction (motive := fun run s => Intelligible p a b run → ((requests run).map (·.2.requestId)).Nodup →
    Accounted p a b run s) ?_ ?_ hi hids
  · intro hi hids
    have hsound := sound_start p a b workers
    exact ⟨hsound, hsound.writable hh hi, hdelivers (.refl _) hids, tallied_start p a b workers,
      asked_start p a b workers⟩
  · intro run s e t note hr ih hs hi hids
    have hids' := hids
    rw [requests_append, List.map_append] at hids'
    have h := ih (hi.before _) (List.nodup_append.mp hids').1
    have hr' := reaches_append hr (.next hs (.refl _))
    have hsound := sound_of_reaches hr' hh hi
    exact ⟨hsound, hsound.writable hh hi, hdelivers hr' hids, h.tallied.step h.sound h.writable h.delivers hs,
      h.asked.step h.sound h.writable h.tallied h.delivers hids hs⟩

/-- A call stands in one place in a list in which no two have one id. -/
theorem split_unique {past past' rest rest' : List Call} {call call' : Call}
    (hd : ((past ++ call :: rest).map (·.requestId)).Nodup) (h : past ++ call :: rest = past' ++ call' :: rest')
    (hid : call.requestId = call'.requestId) : past = past' ∧ call = call' := by
  have later : ∀ {c c' : Call} {l : List Call}, ((c :: l).map (·.requestId)).Nodup → c' ∈ l →
      c.requestId ≠ c'.requestId := by
    intro c c' l hd hm heq
    exact (List.nodup_cons.mp hd).1 (List.mem_map.mpr ⟨c', hm, heq.symm⟩)
  induction past generalizing past' with
  | nil =>
    cases past' with
    | nil =>
      cases h
      exact ⟨rfl, rfl⟩
    | cons c past' =>
      cases h
      exact absurd hid (later hd (by simp))
  | cons c past ih =>
    cases past' with
    | nil =>
      cases h
      exact absurd hid.symm (later hd (by simp))
    | cons c' past' =>
      obtain ⟨rfl, htail⟩ := List.cons.inj h
      obtain ⟨rfl, hcall⟩ := ih (List.nodup_cons.mp hd).2 htail
      exact ⟨rfl, hcall⟩

/-- A request has one place among the calls about which the filters were asked. -/
theorem Accounted.place_unique (h : Accounted p a b run s) {x : RemoteCall} {past past' : List Call} {call call' : Call}
    (hx : Placed run n x past call) (hx' : Placed run n x past' call') : past = past' ∧ call = call' := by
  obtain ⟨rest, hrest⟩ := hx.asked
  obtain ⟨rest', hrest'⟩ := hx'.asked
  have hnodup := h.asked.nodup
  rw [hrest] at hnodup hrest'
  exact split_unique hnodup hrest' (hx.requestId.trans hx'.requestId.symm)

end Session

end Rpc
