/-!
# Powers of two and of ten

The scales of binary and decimal numbers, as naturals.
-/

set_option autoImplicit false

namespace LiveTemplate

/-- A power of two. -/
def pow2 (n : Nat) : Nat := Nat.pow 2 n

/-- A power of ten. -/
def pow10 (n : Nat) : Nat := Nat.pow 10 n

end LiveTemplate
