/-!
# Sizes

Counts, indices, lines, columns and byte offsets are sizes: natural numbers that fit in 64 bits.
They are kept as `Nat`, and the additions that could leave the range are the ones written with
`Size.add`, which refuses instead of wrapping around.

A computation that cannot give an answer halts. It does so for one of the two reasons in `Halt`,
and a halt is never confused with a rule that merely fails to match.
-/

namespace Pegwork

/-- Why a computation stops without an answer. -/
inductive Halt where
  /-- A sum of sizes does not fit in 64 bits. -/
  | overflow
  /-- The search or recursion was given up because it does not come to an end. -/
  | unending
  deriving DecidableEq, Repr

/-- The wording of a halt. -/
def Halt.message : Halt → String
  | .overflow => "attempt to add with overflow"
  | .unending => "the parse does not end"

namespace Size

/-- Two to the 64th, the number of sizes: every size is below this bound. -/
def bound : Nat := 18446744073709551616

/-- The largest size. As an upper limit of a repetition it means that there is none. -/
def top : Nat := bound - 1

/-- The sum of two sizes, unless it leaves the range. -/
def add (a b : Nat) : Except Halt Nat :=
  if a + b < bound then .ok (a + b) else .error .overflow

theorem add_eq_ok {a b : Nat} (h : a + b < bound) : add a b = .ok (a + b) := by
  simp [add, h]

theorem add_eq_ok_iff {a b c : Nat} : add a b = .ok c ↔ c = a + b ∧ a + b < bound := by
  unfold add
  split <;> simp_all [eq_comm]

end Size

end Pegwork
