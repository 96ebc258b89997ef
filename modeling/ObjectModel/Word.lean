/-!
# Words

Words have sixty-four bits. Integers of any size appear as words in digests, and only those that
fit one in two's complement can be indices.
-/

namespace ObjectModel
namespace Word

/-- Whether the integer fits a word in two's complement. -/
def fits (n : Int) : Bool :=
  -(1 <<< 63 : Nat) ≤ n && n < (1 <<< 63 : Nat)

/-- The word of an integer in two's complement; integers with equal remainders modulo `2 ^ 64` have
equal words. -/
def ofInt (n : Int) : UInt64 :=
  UInt64.ofNat (n % (1 <<< 64 : Nat)).toNat

/-- The number of bytes that an integer needs in two's complement: one bit is the sign, and the
others hold the integer, or its complement if it is negative. -/
def byteCount (n : Int) : Nat :=
  (max n (-n - 1)).toNat.log2 / 8 + if (max n (-n - 1)).toNat.log2 % 8 = 7 then 2 else 1

/-- The bytes of an integer in two's complement, as few as it needs and least significant first. -/
def signedBytes (n : Int) : List UInt8 :=
  (List.range (byteCount n)).map fun (place : Nat) => UInt8.ofNat (n >>> (8 * place) % 256).toNat

end Word
end ObjectModel
