/-!
# Congruence classes

The integers that differ from a base by a multiple of a coefficient. With the coefficient zero the
base is the only member, and with the coefficient one every integer is a member.
-/

namespace IndexAlgebra

/-- The integers `coeff * k + base` for all integers `k`. -/
structure CongruenceClass where
  coeff : Int
  base : Int
deriving DecidableEq, Inhabited

namespace CongruenceClass

/-- The class of all integers. -/
def everything : CongruenceClass := ⟨1, 0⟩

def contains (c : CongruenceClass) (value : Int) : Bool := decide (c.coeff ∣ value - c.base)

def text (c : CongruenceClass) : String :=
  "ModularSet(coeff=" ++ toString c.coeff ++ ", base=" ++ toString c.base ++ ")"

end CongruenceClass

end IndexAlgebra
