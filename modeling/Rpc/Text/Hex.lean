/-!
# Hexadecimal texts
-/

namespace Rpc.Hex

/-- A lower-case hexadecimal digit. -/
def digit (n : Nat) : Char := if n < 10 then Char.ofNat (48 + n) else Char.ofNat (87 + n)

/-- A byte as two digits. -/
def ofByte (b : UInt8) : String := String.ofList [digit (b.toNat / 16), digit (b.toNat % 16)]

/-- A byte as `0x` and as few digits as it needs. -/
def short (b : UInt8) : String :=
  "0x" ++ if b < 16 then String.ofList [digit b.toNat] else ofByte b

end Rpc.Hex
