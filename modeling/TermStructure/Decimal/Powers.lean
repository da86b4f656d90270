/-!
# Powers

The powers of two and ten that exact values of numbers are made of.
-/

namespace TermStructure.Decimal

def twoTo (n : Nat) : Nat := Nat.pow 2 n

def tenTo (n : Nat) : Nat := Nat.pow 10 n

end TermStructure.Decimal
