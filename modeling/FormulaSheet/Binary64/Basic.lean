/-!
# Double precision numbers

A binary floating-point number of 64 bits is a sign and a *rank*: the number that its other
63 bits denote. Ranks order the magnitudes, so the neighbours of a number are its neighbours in
rank. Every finite magnitude is a whole number of units of 2⁻¹⁰⁷⁴, the least positive
magnitude; `unitsOfRank` counts them, and all arithmetic on these numbers is arithmetic on that
count followed by one rounding.
-/

namespace FormulaSheet

/-- A double precision number: a sign, and the other 63 bits read as one number. -/
structure Binary64 where
  /-- The sign bit is set. -/
  negative : Bool
  /-- Eleven bits of exponent followed by 52 bits of fraction. -/
  rank : Nat
  rank_lt : rank < Nat.pow 2 63 := by decide
  deriving DecidableEq

namespace Binary64

def binade : Nat := Nat.pow 2 52

/-- The rank of the infinities; smaller ranks are finite and larger ones are not numbers. -/
def infinityRank : Nat := 2047 * binade

/-- The magnitude of a finite rank in units of 2⁻¹⁰⁷⁴. The formula gives 2¹⁰²⁴ for the rank of
the infinities, the magnitude that the next number would have. -/
def unitsOfRank (rank : Nat) : Nat :=
  if rank / binade = 0 then rank % binade
  else (binade + rank % binade) * Nat.pow 2 (rank / binade - 1)

def ofBits (bits : Nat) : Binary64 where
  negative := bits / Nat.pow 2 63 % 2 = 1
  rank := bits % Nat.pow 2 63
  rank_lt := Nat.mod_lt _ (by decide)

def zero (negative : Bool) : Binary64 where
  negative := negative
  rank := 0

def infinity (negative : Bool) : Binary64 where
  negative := negative
  rank := infinityRank

def nan : Binary64 where
  negative := false
  rank := infinityRank + Nat.pow 2 51

/-- The magnitude in units of 2⁻¹⁰⁷⁴, for a finite number. -/
def units (x : Binary64) : Nat :=
  unitsOfRank x.rank

def isFinite (x : Binary64) : Bool :=
  x.rank < infinityRank

def isInfinite (x : Binary64) : Bool :=
  x.rank = infinityRank

def isNaN (x : Binary64) : Bool :=
  infinityRank < x.rank

def isZero (x : Binary64) : Bool :=
  x.rank = 0

def neg (x : Binary64) : Binary64 :=
  { x with negative := !x.negative }

end Binary64

end FormulaSheet
