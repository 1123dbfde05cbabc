/-!
# Instants and durations

Both are numbers of nanoseconds. The text of a duration is a decimal fraction of the largest unit that it fills (`s`,
`ms`, `µs` or `ns`), without trailing zeros: `10s`, `1.5s`, `80ms`, `0ns`.
-/

namespace Rpc

/-- Nanoseconds from an arbitrary start. -/
abbrev Instant := Nat

namespace Duration

/-- Nanoseconds in a microsecond, a millisecond and a second. -/
def microsecond : Nat := 1000

@[inherit_doc microsecond]
def millisecond : Nat := 1000000

@[inherit_doc microsecond]
def second : Nat := 1000000000

/-- The digits of a fraction of `unit`, a power of ten, up to the last that is not zero. -/
def fractionDigits : (places : Nat) → (unit rest : Nat) → List Char
  | 0, _, _ => []
  | places + 1, unit, rest =>
    if rest = 0 then []
    else Char.ofNat (48 + rest / (unit / 10)) :: fractionDigits places (unit / 10) (rest % (unit / 10))

/-- A duration in a unit, a power of ten. -/
def inUnit (unit : Nat) (name : String) (d : Nat) : String :=
  let digits := fractionDigits 9 unit (d % unit)
  toString (d / unit) ++ (if digits.isEmpty then "" else "." ++ String.ofList digits) ++ name

/-- The text of a duration. -/
def text (d : Nat) : String :=
  if second ≤ d then inUnit second "s" d
  else if millisecond ≤ d then inUnit millisecond "ms" d
  else if microsecond ≤ d then inUnit microsecond "µs" d
  else inUnit 1 "ns" d

end Duration

end Rpc
