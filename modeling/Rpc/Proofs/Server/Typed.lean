import Mathlib.Data.List.Forall2
import Rpc.Server.Registration

/-!
# What typed methods accept

- `Decoded`: arguments and what they are read as, one by one; `readEach_eq_ok_iff`: this is what reading a list of
  arguments gives;
- `Fits`: there are as many arguments as types, and each is of its type; `exists_decoded_iff`;
- `notedHandler`: a handler that notes down what it is given;
- `Method.accepts_exactly_its_types`: the main statement. It holds of every list of types but the empty one, which takes
  no arguments at all (`Method.no_types_accept_nothing`).
-/

namespace Rpc

universe u

variable {ι : Type u} {Carrier : ι → Type} {read : (t : ι) → Value → Except Mismatch (Carrier t)}
  {ts : List ι} {vs args : List Value} {arity found : Nat} {xs : Tuple Carrier ts}

/-! ## Arguments and types -/

/-- Arguments and what they are read as, one for each type. -/
inductive Decoded (read : (t : ι) → Value → Except Mismatch (Carrier t)) :
    (ts : List ι) → List Value → Tuple Carrier ts → Prop
  | nil : Decoded read [] [] ()
  | cons {t : ι} {ts : List ι} {v : Value} {vs : List Value} {x : Carrier t} {xs : Tuple Carrier ts} :
      read t v = .ok x → Decoded read ts vs xs → Decoded read (t :: ts) (v :: vs) (x, xs)

/-- There are as many arguments as types, and each can be read as its type. -/
def Fits (read : (t : ι) → Value → Except Mismatch (Carrier t)) (ts : List ι) (args : List Value) : Prop :=
  List.Forall₂ (fun t v => ∃ x, read t v = .ok x) ts args

theorem exists_decoded_iff : (∃ xs, Decoded read ts args xs) ↔ Fits read ts args := by
  constructor
  · rintro ⟨xs, h⟩
    induction h with
    | nil => exact .nil
    | cons hx _ ih => exact .cons ⟨_, hx⟩ ih
  · intro h
    induction h with
    | nil => exact ⟨(), .nil⟩
    | cons hx _ ih =>
      obtain ⟨x, hx⟩ := hx
      obtain ⟨xs, hxs⟩ := ih
      exact ⟨(x, xs), .cons hx hxs⟩

/-- **Reading gives what the arguments are read as, one by one.** -/
theorem readEach_eq_ok_iff : readEach read arity found ts vs = .ok xs ↔ Decoded read ts vs xs := by
  constructor
  · intro h
    induction ts generalizing vs with
    | nil =>
      cases vs with
      | nil => exact .nil
      | cons v vs => cases h
    | cons t ts ih =>
      cases vs with
      | nil => cases h
      | cons v vs =>
        cases hx : read t v with
        | error e => simp [readEach, hx, bind, Except.bind] at h
        | ok x =>
          cases hrest : readEach read arity found ts vs with
          | error e => simp [readEach, hx, hrest, bind, Except.bind] at h
          | ok rest =>
            obtain rfl : (x, rest) = xs := by simpa [readEach, hx, hrest, bind, Except.bind] using h
            exact .cons hx (ih hrest)
  · intro h
    induction h with
    | nil => rfl
    | cons hx _ ih => simp [readEach, hx, ih, bind, Except.bind]

theorem readArguments_of_decoded (hts : ts ≠ []) (h : Decoded read ts args xs) :
    readArguments read ts args = .ok xs := by
  cases h with
  | nil => exact absurd rfl hts
  | cons hx hxs => exact readEach_eq_ok_iff.mpr (.cons hx hxs)

/-- Arguments that do not fit are not read, and no arguments are of no types. -/
theorem exists_mismatch (h : ts = [] ∨ ¬ Fits read ts args) : ∃ e, readArguments read ts args = .error e := by
  cases ts with
  | nil => exact ⟨_, rfl⟩
  | cons t ts =>
    have hfits := h.resolve_left (List.cons_ne_nil t ts)
    cases hread : readArguments read (t :: ts) args with
    | error e => exact ⟨e, rfl⟩
    | ok xs => exact absurd (exists_decoded_iff.mp ⟨xs, readEach_eq_ok_iff.mp hread⟩) hfits

/-! ## Handlers -/

/-- A handler that notes down what it is given. -/
def notedHandler (handler : Tuple Carrier ts → Timed MethodEnding) (xs : Tuple Carrier ts) :
    StateM (List (Tuple Carrier ts)) (Timed MethodEnding) :=
  modifyGet fun log => (handler xs, log ++ [xs])

/-- How a call of a handler ends, and what the handler was given. -/
def notedCall (read : (t : ι) → Value → Except Mismatch (Carrier t)) (ts : List ι)
    (handler : Tuple Carrier ts → Timed MethodEnding) (args : List Value) :
    Timed MethodEnding × List (Tuple Carrier ts) :=
  (withArguments read ts (notedHandler handler) args).run []

section
variable (handler : Tuple Carrier ts → Timed MethodEnding)

/-- Whether it is noted down or not, a call ends in the same way. -/
theorem run_reading (paramTypes : List String) (args : List Value) :
    (Method.reading read paramTypes ts handler).run args = (notedCall read ts handler args).1 := by
  simp only [Method.reading, notedCall, withArguments]
  cases readArguments read ts args <;> rfl

theorem notedCall_of_decoded (hts : ts ≠ []) (h : Decoded read ts args xs) :
    notedCall read ts handler args = (handler xs, [xs]) := by
  rw [notedCall, withArguments, readArguments_of_decoded hts h]
  rfl

theorem notedCall_of_fits (h : ts ≠ [] ∧ Fits read ts args) :
    ∃ xs, Decoded read ts args xs ∧ notedCall read ts handler args = (handler xs, [xs]) := by
  obtain ⟨hts, hfits⟩ := h
  obtain ⟨xs, hxs⟩ := exists_decoded_iff.mpr hfits
  exact ⟨xs, hxs, notedCall_of_decoded handler hts hxs⟩

theorem notedCall_of_misfit (h : ts = [] ∨ ¬ Fits read ts args) :
    ∃ reason, notedCall read ts handler args = (.now (.failed ("invalid arguments: " ++ reason)), []) := by
  obtain ⟨e, he⟩ := exists_mismatch h
  refine ⟨e.message, ?_⟩
  rw [notedCall, withArguments, he]
  rfl

end

namespace Method

/-- **A typed method runs on exactly its types.** Let some types be given, in any number but none, and any way to read
values as them. The handler of a method of these types runs, once and on what the arguments are read as, exactly if
there are as many arguments as types and each is of its type. Otherwise it does not run, and the call fails with a
reason that begins with `invalid arguments: `, which is an invocation error for whoever sent the request. A method of no
types fails so whatever it is called with. -/
theorem accepts_exactly_its_types (read : (t : ι) → Value → Except Mismatch (Carrier t)) (paramTypes : List String)
    (ts : List ι) (handler : Tuple Carrier ts → Timed MethodEnding) :
    let m := reading read paramTypes ts handler
    (∀ args, m.run args = (notedCall read ts handler args).1 ∧
      (ts ≠ [] ∧ Fits read ts args →
        ∃ xs, Decoded read ts args xs ∧ notedCall read ts handler args = (handler xs, [xs])) ∧
      (ts = [] ∨ ¬ Fits read ts args →
        ∃ reason, notedCall read ts handler args = (.now (.failed ("invalid arguments: " ++ reason)), []))) ∧
    ∀ (t : ServiceTable) (r : Request), t.resolve r = .ok m →
      (ts ≠ [] ∧ Fits read ts r.args →
        ∃ xs, Decoded read ts r.args xs ∧ t.invoke r = (handler xs).map ServiceTable.replyOf) ∧
      (ts = [] ∨ ¬ Fits read ts r.args →
        ∃ reason, t.invoke r = .now (.error ⟨.invocation, "invalid arguments: " ++ reason, none⟩)) := by
  intro m
  have hrun : ∀ args, m.run args = (notedCall read ts handler args).1 := run_reading handler paramTypes
  refine ⟨fun args => ⟨hrun args, notedCall_of_fits handler, notedCall_of_misfit handler⟩, fun t r hr => ?_⟩
  have hinvoke : t.invoke r = (notedCall read ts handler r.args).1.map ServiceTable.replyOf := by
    rw [ServiceTable.invoke, hr, ← hrun]
  rw [hinvoke]
  constructor
  · intro h
    obtain ⟨xs, hxs, hcall⟩ := notedCall_of_fits handler h
    exact ⟨xs, hxs, by rw [hcall]⟩
  · intro h
    obtain ⟨reason, hcall⟩ : ∃ reason, notedCall read ts handler r.args = _ := notedCall_of_misfit handler h
    exact ⟨reason, by rw [hcall]; rfl⟩

/-- Repeats a text some times. -/
def repeated : Arguments [.string, .integer .size] → Timed MethodEnding
  | (s, n, ()) => .now (.returned (.string (String.join (List.replicate n.toNat s))))

/-- A text and a number of times are taken as they are, and a number below zero is refused. -/
theorem accepts_exactly_its_types_two :
    let ts : List ValueType := [.string, .integer .size]
    let t : ServiceTable := .ofList [(Service.new "Echo").addMethod "repeat" (.typed ["string", "int"] ts repeated)]
    let request (n : Int) : Request := ⟨"Echo", "repeat", ["string", "int"], [.string "ab", .int n]⟩
    Fits ValueType.read ts [.string "ab", .int 2] ∧ ¬ Fits ValueType.read ts [.string "ab", .int (-2)] ∧
      (∃ xs, Decoded ValueType.read ts [.string "ab", .int 2] xs ∧
        t.invoke (request 2) = (repeated xs).map ServiceTable.replyOf) ∧
      ∃ reason, t.invoke (request (-2)) = .now (.error ⟨.invocation, "invalid arguments: " ++ reason, none⟩) := by
  intro ts t request
  have hfits : Fits ValueType.read ts [.string "ab", .int 2] := .cons ⟨"ab", rfl⟩ (.cons ⟨2, rfl⟩ .nil)
  have hmisfit : ¬ Fits ValueType.read [.string, .integer .size] [.string "ab", .int (-2)] := by
    rintro (_ | ⟨-, _ | ⟨⟨x, hx⟩, -⟩⟩)
    cases hx
  have h := (accepts_exactly_its_types ValueType.read ["string", "int"] ts repeated).2 t
  exact ⟨hfits, hmisfit, (h (request 2) rfl).1 ⟨List.cons_ne_nil _ _, hfits⟩, (h (request (-2)) rfl).2 (.inr hmisfit)⟩

/-- A method of no types is called with no arguments, as many as it has types, and yet its handler does not run. -/
theorem no_types_accept_nothing :
    let handler : Arguments [] → Timed MethodEnding := fun () => .now (.returned .null)
    let t : ServiceTable := .ofList [(Service.new "Echo").addMethod "unit" (.typed [] [] handler)]
    Fits ValueType.read [] [] ∧
      notedCall ValueType.read [] handler [] =
        (.now (.failed "invalid arguments: invalid type: sequence, expected unit"), []) ∧
      t.invoke ⟨"Echo", "unit", [], []⟩ =
        .now (.error ⟨.invocation, "invalid arguments: invalid type: sequence, expected unit", none⟩) :=
  ⟨.nil, rfl, rfl⟩

end Method

end Rpc
