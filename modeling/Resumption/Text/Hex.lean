/-!
# Hexadecimal text

Lower-case digits behind `0x`, filled with zeros up to a least count of digits.
-/

namespace Resumption.Hex

def padded (digits n : Nat) : String :=
  let written := Nat.toDigits 16 n
  "0x" ++ String.ofList (List.replicate (digits - written.length) '0' ++ written)

end Resumption.Hex
