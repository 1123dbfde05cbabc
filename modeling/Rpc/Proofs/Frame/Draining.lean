import Rpc.Proofs.Frame.Header

/-!
# Streams in pieces

A stream gives the same frames however it is cut.

- one step on a buffer is the same step on every longer one (`decode_append_item`, `decode_append_fatal`);
- `drain` is repetition of that step until nothing is complete (`drain_of_wait`, `drain_of_fatal`, `drain_of_item`),
  and `drain_induction` is the induction that goes with it;
- draining a buffer and then what is left of it with more bytes is draining all of it (`drain_append_of_rest`,
  `drain_append_of_fatal`);
- `join_feed_agrees` and `feed_pieces_same_stream`: pieces against the whole stream.
-/

namespace Rpc

open FrameHeader

namespace FrameCodec

variable {c : FrameCodec}

/-! ## One step -/

/-- With magic and version wrong there is nothing to wait for. -/
theorem decode_of_checkPrefix_error {buf : Bytes} {e : ProtocolError} (h : checkPrefix buf = .error e) :
    c.decode buf = .fatal e := by
  unfold decode
  rw [h]

theorem decode_of_short {buf : Bytes} (hp : checkPrefix buf = .ok ()) (hl : buf.length < headerLength) :
    c.decode buf = .wait := by
  unfold decode
  rw [hp]
  simp only [if_pos hl]

/-- With a header there the step is what the header says. -/
theorem decode_of_header {buf : Bytes} (hl : headerLength ≤ buf.length) :
    c.decode buf =
      match FrameHeader.parse c.maxFrameLength buf with
      | .error (.protocol e) => .fatal e
      | .error .incomplete => .wait
      | .ok h =>
        if buf.length < h.fullLength then .wait
        else .item ((c.decodeBody h ((buf.take h.fullLength).drop headerLength)).mapError fun e => ⟨h, e⟩)
          (buf.drop h.fullLength) := by
  unfold decode
  cases hp : checkPrefix buf with
  | error e => rw [parse_of_checkPrefix_error hp]
  | ok _ =>
    refine (if_neg (Nat.not_lt.mpr hl)).trans ?_
    cases FrameHeader.parse c.maxFrameLength buf with
    | error f => cases f <;> rfl
    | ok h => rfl

/-- A frame is taken where a header is accepted and the buffer is as long as it says. -/
theorem decode_eq_item {buf : Bytes} {i : Inbound} {rest : Bytes} (h : c.decode buf = .item i rest) :
    ∃ hd, headerLength ≤ buf.length ∧ FrameHeader.parse c.maxFrameLength buf = .ok hd ∧ hd.fullLength ≤ buf.length ∧
      i = (c.decodeBody hd ((buf.take hd.fullLength).drop headerLength)).mapError (fun e => ⟨hd, e⟩) ∧
      rest = buf.drop hd.fullLength := by
  by_cases hl : headerLength ≤ buf.length
  · rw [decode_of_header hl] at h
    split at h
    · cases h
    · cases h
    · rename_i hd hparse
      split at h
      · cases h
      · rename_i hlen
        simp only [Step.item.injEq] at h
        exact ⟨hd, hl, hparse, Nat.le_of_not_lt hlen, h.1.symm, h.2.symm⟩
  · cases hp : checkPrefix buf with
    | error e => rw [decode_of_checkPrefix_error hp] at h; cases h
    | ok _ => rw [decode_of_short hp (Nat.lt_of_not_ge hl)] at h; cases h

/-- A frame is a header long at least and comes off the front. -/
theorem length_of_decode_item {buf : Bytes} {i : Inbound} {rest : Bytes} (h : c.decode buf = .item i rest) :
    rest.length + headerLength ≤ buf.length := by
  obtain ⟨hd, hl, hparse, hfull, -, rfl⟩ := decode_eq_item h
  have := (parse_ok hl hparse).1
  rw [List.length_drop]
  omega

/-- A frame at the front of a buffer is at the front of every longer one. -/
theorem decode_append_item {buf : Bytes} {i : Inbound} {rest : Bytes} (h : c.decode buf = .item i rest)
    (more : Bytes) : c.decode (buf ++ more) = .item i (rest ++ more) := by
  obtain ⟨hd, hl, hparse, hfull, rfl, rfl⟩ := decode_eq_item h
  have hlen : ¬ (buf ++ more).length < hd.fullLength := by rw [List.length_append]; omega
  rw [decode_of_header (by rw [List.length_append]; omega), parse_append _ hl, hparse]
  simp only [if_neg hlen, List.take_append_of_le_length hfull, List.drop_append_of_le_length hfull]

/-- A buffer that is no frame does not become one. -/
theorem decode_append_fatal {buf : Bytes} {e : ProtocolError} (h : c.decode buf = .fatal e) (more : Bytes) :
    e = e.seenIn buf ∧ c.decode (buf ++ more) = .fatal (e.seenIn (buf ++ more)) := by
  cases hp : checkPrefix buf with
  | error e' =>
    rw [decode_of_checkPrefix_error hp, Step.fatal.injEq] at h
    subst h
    obtain ⟨he, happ⟩ := checkPrefix_append_error hp more
    exact ⟨he, decode_of_checkPrefix_error happ⟩
  | ok _ =>
    by_cases hl : headerLength ≤ buf.length
    · obtain ⟨hd, hparse⟩ := parse_of_checkPrefix_ok c.maxFrameLength hp hl
      rw [decode_of_header (by rw [List.length_append]; omega), parse_append _ hl]
      rw [decode_of_header hl] at h
      cases hc : checkLength c.maxFrameLength hd.fullLength with
      | ok _ =>
        simp only [hparse, hc, Except.mapError, Except.map] at h
        split at h <;> cases h
      | error e' =>
        simp only [hparse, hc, Except.mapError, Except.map, Step.fatal.injEq] at h ⊢
        subst h
        exact ⟨(seenIn_of_checkLength hc buf).symm, (seenIn_of_checkLength hc _).symm⟩
    · rw [decode_of_short hp (Nat.lt_of_not_ge hl)] at h
      cases h

theorem decode_nil : c.decode [] = .wait := decode_of_short rfl (by decide)

/-! ## Draining -/

/-- Frames taken before what else is drained. -/
def Drained.after (items : List Inbound) (d : Drained) : Drained := { d with items := items ++ d.items }

@[simp] theorem Drained.after_nil (d : Drained) : d.after [] = d := rfl

@[simp] theorem Drained.after_after (is js : List Inbound) (d : Drained) :
    (d.after js).after is = d.after (is ++ js) := by
  simp [Drained.after]

/-- Behind a frame there is room for fewer frames. -/
theorem room_of_decode_item {buf : Bytes} {i : Inbound} {rest : Bytes} (h : c.decode buf = .item i rest) :
    rest.length / headerLength < buf.length / headerLength := by
  have hlen := Nat.div_le_div_right (c := headerLength) (length_of_decode_item h)
  rwa [Nat.add_div_right _ (by decide : 0 < headerLength)] at hlen

/-- More fuel than frames fit into the buffer changes nothing. -/
theorem drainFrom_fuel {n m : Nat} {buf : Bytes} (hn : buf.length / headerLength < n)
    (hm : buf.length / headerLength < m) : c.drainFrom n buf = c.drainFrom m buf := by
  induction n generalizing m buf with
  | zero => exact absurd hn (Nat.not_lt_zero _)
  | succ n ih =>
    obtain ⟨m, rfl⟩ := Nat.exists_eq_add_one_of_ne_zero (Nat.ne_zero_of_lt hm)
    unfold drainFrom
    cases h : c.decode buf with
    | wait => rfl
    | fatal e => rfl
    | item i rest =>
      have hroom := room_of_decode_item h
      simp only [ih (Nat.lt_of_lt_of_le hroom (Nat.le_of_lt_succ hn))
        (Nat.lt_of_lt_of_le hroom (Nat.le_of_lt_succ hm))]

theorem drain_of_wait {buf : Bytes} (h : c.decode buf = .wait) : c.drain buf = ⟨[], buf, none⟩ := by
  unfold drain drainFrom
  rw [h]

theorem drain_of_fatal {buf : Bytes} {e : ProtocolError} (h : c.decode buf = .fatal e) :
    c.drain buf = ⟨[], buf, some e⟩ := by
  unfold drain drainFrom
  rw [h]

theorem drain_of_item {buf : Bytes} {i : Inbound} {rest : Bytes} (h : c.decode buf = .item i rest) :
    c.drain buf = (c.drain rest).after [i] := by
  unfold drain
  rw [drainFrom, h]
  simp only [drainFrom_fuel (c := c) (room_of_decode_item h) (Nat.lt_succ_self _)]
  rfl

/-- What holds of buffers without a frame at the front, and of a buffer when it holds of what is behind its first
frame, holds of all buffers. -/
theorem drain_induction {motive : Bytes → Prop} (c : FrameCodec)
    (wait : ∀ buf, c.decode buf = .wait → motive buf)
    (fatal : ∀ buf e, c.decode buf = .fatal e → motive buf)
    (item : ∀ buf i rest, c.decode buf = .item i rest → motive rest → motive buf) (buf : Bytes) : motive buf := by
  induction hn : buf.length using Nat.strongRecOn generalizing buf with
  | _ n ih =>
    cases h : c.decode buf with
    | wait => exact wait buf h
    | fatal e => exact fatal buf e h
    | item i rest =>
      have hlen := length_of_decode_item h
      have hpos : 0 < headerLength := by decide
      exact item buf i rest h (ih rest.length (by omega) rest rfl)

/-- Draining ends where there is no frame, or where there can be none. -/
theorem decode_drain_rest (buf : Bytes) :
    c.decode (c.drain buf).rest = ((c.drain buf).fatal.elim .wait .fatal) := by
  induction buf using drain_induction c with
  | wait buf h => simp only [drain_of_wait h]; exact h
  | fatal buf e h => simp only [drain_of_fatal h]; exact h
  | item buf i rest h ih => simp only [drain_of_item h]; exact ih

/-- What was left of a buffer goes on with the bytes that follow. -/
theorem drain_append_of_rest {buf : Bytes} (hf : (c.drain buf).fatal = none) (more : Bytes) :
    c.drain (buf ++ more) = (c.drain ((c.drain buf).rest ++ more)).after (c.drain buf).items := by
  induction buf using drain_induction c with
  | wait buf h => simp [drain_of_wait h]
  | fatal buf e h => simp [drain_of_fatal h] at hf
  | item buf i rest h ih =>
    rw [drain_of_item h] at hf ⊢
    rw [drain_of_item (decode_append_item h more), ih hf]
    simp [Drained.after]

/-- A buffer with an error in it has the same error with more bytes behind. -/
theorem drain_append_of_fatal {buf : Bytes} {e : ProtocolError} (hf : (c.drain buf).fatal = some e) (more : Bytes) :
    e = e.seenIn (c.drain buf).rest ∧
      c.drain (buf ++ more) =
        ⟨(c.drain buf).items, (c.drain buf).rest ++ more, some (e.seenIn ((c.drain buf).rest ++ more))⟩ := by
  induction buf using drain_induction c with
  | wait buf h => simp [drain_of_wait h] at hf
  | fatal buf e' h =>
    simp only [drain_of_fatal h, Option.some.injEq] at hf ⊢
    subst hf
    obtain ⟨he, happ⟩ := decode_append_fatal h more
    exact ⟨he, drain_of_fatal happ⟩
  | item buf i rest h ih =>
    rw [drain_of_item h] at hf ⊢
    obtain ⟨he, happ⟩ := ih hf
    refine ⟨he, ?_⟩
    rw [drain_of_item (decode_append_item h more), happ]
    rfl

/-! ## Pieces -/

/-- What the pieces of a stream gave, taken together: all frames, and what is left in the end. -/
def joined (buf : Bytes) (ds : List Drained) : Drained :=
  ⟨ds.flatMap (·.items), (ds.getLast?.map (·.rest)).getD buf, ds.getLast?.bind (·.fatal)⟩

@[simp] theorem joined_nil (buf : Bytes) : joined buf [] = ⟨[], buf, none⟩ := rfl

@[simp] theorem joined_singleton (buf : Bytes) (d : Drained) : joined buf [d] = d := by
  simp [joined]

theorem joined_cons (buf : Bytes) {d : Drained} (hd : d.fatal = none) (ds : List Drained) :
    joined buf (d :: ds) = (joined d.rest ds).after d.items := by
  cases hl : ds.getLast? with
  | none => simp [joined, Drained.after, List.getLast?_cons, hl, hd]
  | some e => simp [joined, Drained.after, List.getLast?_cons, hl]

/-- What pieces gave agrees with what the whole stream gives: the same frames; the same error, which shows no more
than what was there when it was found; and without an error the same bytes left over. -/
structure Agrees (pieces whole : Drained) : Prop where
  items : pieces.items = whole.items
  fatal : pieces.fatal = whole.fatal.map (·.seenIn pieces.rest)
  rest : pieces.rest <+: whole.rest
  rest_eq : whole.fatal = none → pieces.rest = whole.rest

/-- Without an error what agrees is the same. -/
theorem Agrees.eq {d e : Drained} (h : Agrees d e) (hf : e.fatal = none) : d = e := by
  obtain ⟨hitems, hfatal, -, hrest⟩ := h
  cases d
  cases e
  simp only at hf hitems hfatal hrest
  rw [hitems, hfatal, hrest hf, hf]
  rfl

/-- Frames taken before do not matter. -/
theorem Agrees.after {d e : Drained} (h : Agrees d e) (items : List Inbound) :
    Agrees (d.after items) (e.after items) :=
  ⟨congrArg (items ++ ·) h.items, h.fatal, h.rest, h.rest_eq⟩

/-- Showing other bytes twice is showing the last ones. -/
theorem seenIn_seenIn (e : ProtocolError) (buf buf' : Bytes) : (e.seenIn buf).seenIn buf' = e.seenIn buf' := by
  cases e <;> rfl

/-- Pieces that follow a buffer with nothing complete in it give what buffer and pieces in one give. -/
theorem join_feed_agrees {buf : Bytes} (h : c.decode buf = .wait) (pieces : List Bytes) :
    Agrees (joined buf (c.feed buf pieces)) (c.drain (buf ++ pieces.flatten)) := by
  induction pieces generalizing buf with
  | nil =>
    simp only [feed, joined_nil, List.flatten_nil, List.append_nil, drain_of_wait h]
    exact ⟨rfl, rfl, List.prefix_rfl, fun _ => rfl⟩
  | cons piece pieces ih =>
    rw [List.flatten_cons, ← List.append_assoc]
    unfold feed
    have hstop := decode_drain_rest (c := c) (buf ++ piece)
    cases hf : (c.drain (buf ++ piece)).fatal with
    | none =>
      simp only [hf]
      rw [joined_cons buf hf, drain_append_of_rest hf]
      exact (ih (by rw [hstop, hf]; rfl)).after _
    | some e =>
      simp only [hf]
      obtain ⟨he, happ⟩ := drain_append_of_fatal hf pieces.flatten
      rw [joined_singleton, happ]
      refine ⟨rfl, ?_, List.prefix_append _ _, fun h => nomatch h⟩
      rw [hf, Option.map_some, seenIn_seenIn, ← he]

end FrameCodec

end Rpc
