/-!
# Powers of two and of ten

The powers by which the digits of a number are scaled, and the ranges of integers of a fixed size.
-/

namespace QueryHooks.Decimal

/-- The power of two with a natural exponent. -/
def twoTo (n : Nat) : Nat :=
  Nat.pow 2 n

/-- The power of ten with a natural exponent. -/
def tenTo (n : Nat) : Nat :=
  Nat.pow 10 n

theorem twoTo_succ (n : Nat) : twoTo (n + 1) = twoTo n * 2 :=
  rfl

theorem tenTo_succ (n : Nat) : tenTo (n + 1) = tenTo n * 10 :=
  rfl

/-- No power of two is zero. -/
theorem twoTo_pos (n : Nat) : 0 < twoTo n := by
  induction n with
  | zero => decide
  | succ n ih => rw [twoTo_succ]; omega

/-- No power of ten is zero. -/
theorem tenTo_pos (n : Nat) : 0 < tenTo n := by
  induction n with
  | zero => decide
  | succ n ih => rw [tenTo_succ]; omega

/-- Whether an integer has at most some bits besides its sign. -/
def fitsSigned (bits : Nat) (value : Int) : Bool :=
  -(twoTo bits : Int) ≤ value && value < twoTo bits

/-- Whether an integer is not negative and has at most some bits. -/
def fitsUnsigned (bits : Nat) (value : Int) : Bool :=
  0 ≤ value && value < twoTo bits

end QueryHooks.Decimal
