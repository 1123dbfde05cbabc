import Rpc.Binary64.Basic

/-!
# Values

Arguments and results are values of one dynamic type (`Value`). The entries of an object are held in ascending order
of their keys, one entry a key (`Value.insertEntry`), so that equal objects are equal lists.
-/

namespace Rpc

/-- An argument or a result of a call. -/
inductive Value where
  | null
  | bool (b : Bool)
  | int (n : Int)
  | float (x : Binary64)
  | string (s : String)
  | array (items : List Value)
  /-- Entries in ascending order of their keys. -/
  | object (entries : List (String × Value))
  deriving BEq, Inhabited

namespace Value

/-- The integers that a value can hold: all of 64 bits, signed or unsigned. -/
def isIntegerInRange (n : Int) : Bool := -(2 ^ 63 : Int) ≤ n && n < (2 ^ 64 : Int)

/-- The integer, if a value can hold it. -/
def ofInt? (n : Int) : Option Value := if isIntegerInRange n then some (.int n) else none

/-- The double, or null where there is no finite one. -/
def ofBinary64 (x : Binary64) : Value := if x.isFinite then .float x else .null

/-- The entries with the value of `k` set to `v`, in ascending order of keys. -/
def insertEntry (k : String) (v : Value) : List (String × Value) → List (String × Value)
  | [] => [(k, v)]
  | (k', v') :: rest =>
    if k < k' then (k, v) :: (k', v') :: rest
    else if k = k' then (k, v) :: rest
    else (k', v') :: insertEntry k v rest

/-- The object with the given entries; of repeated keys the last one counts. -/
def ofEntries (entries : List (String × Value)) : Value :=
  .object (entries.foldl (fun es (k, v) => insertEntry k v es) [])

mutual

/-- The greatest number of arrays and objects around a part of the value. -/
def depth : Value → Nat
  | .array items => depthItems items + 1
  | .object entries => depthEntries entries + 1
  | _ => 0

/-- The greatest depth of the items. -/
def depthItems : List Value → Nat
  | [] => 0
  | v :: rest => max (depth v) (depthItems rest)

/-- The greatest depth of the entries. -/
def depthEntries : List (String × Value) → Nat
  | [] => 0
  | (_, v) :: rest => max (depth v) (depthEntries rest)

end

end Value

end Rpc
