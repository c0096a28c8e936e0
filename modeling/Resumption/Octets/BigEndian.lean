/-!
# Big-endian numbers

A natural number written in a fixed count of octets, most significant first, and read back.

* `octets width n` — the digits of `n` in base 256, cut to `width` places
* `encode width n` — the same as a byte string
* `decode b` — the number a byte string stands for
-/

namespace Resumption.BigEndian

/-- Higher digits than `width` places hold are lost. -/
def octets : Nat → Nat → List UInt8
  | 0, _ => []
  | width + 1, n => octets width (n / 256) ++ [UInt8.ofNat n]

def encode (width n : Nat) : ByteArray :=
  (octets width n).toByteArray

def ofOctets (digits : List UInt8) : Nat :=
  digits.foldl (fun n digit => n * 256 + digit.toNat) 0

def decode (bytes : ByteArray) : Nat :=
  ofOctets bytes.data.toList

theorem length_octets (width n : Nat) : (octets width n).length = width := by
  induction width generalizing n with
  | zero => rfl
  | succ width ih => simp only [octets, List.length_append, List.length_singleton, ih]

theorem size_encode (width n : Nat) : (encode width n).size = width := by
  simp only [encode, ← ByteArray.size_data, List.data_toByteArray, List.size_toArray,
    length_octets]

end Resumption.BigEndian
