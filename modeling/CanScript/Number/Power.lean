/-! # Powers and limits

    Powers of two and of ten, and the ends of the ranges of machine words. -/

namespace CanScript.Number

def pow2 (n : Nat) : Nat :=
  Nat.pow 2 n

def pow10 (n : Nat) : Nat :=
  Nat.pow 10 n

def maxWord32 : Nat :=
  4294967295

def maxWord64 : Nat :=
  18446744073709551615

def minInt64 : Int :=
  -9223372036854775808

def maxInt64 : Int :=
  9223372036854775807

end CanScript.Number
