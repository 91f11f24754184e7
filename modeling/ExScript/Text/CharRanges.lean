/-!
# Sets of characters given by ranges

A character class is a list of closed ranges of code points in increasing order.  Membership walks
the list and stops at the first range that begins beyond the code point.
-/

namespace ExScript.Text

abbrev CharRanges := List (Nat × Nat)

namespace CharRanges

def contains : CharRanges → Nat → Bool
  | [], _ => false
  | (low, high) :: rest, code => low ≤ code && (code ≤ high || contains rest code)

/-- Membership is being in one of the ranges, if they are in increasing order. -/
theorem contains_iff (ranges : CharRanges) (code : Nat)
    (ordered : ranges.Pairwise fun a b => a.1 ≤ b.1) :
    ranges.contains code = true ↔ ∃ r ∈ ranges, r.1 ≤ code ∧ code ≤ r.2 := by
  induction ranges with
  | nil => simp [contains]
  | cons r rest ih =>
    obtain ⟨first, tail⟩ := List.pairwise_cons.1 ordered
    grind [contains]

/-- How far a code point lies above the start of its range. -/
def offset? : CharRanges → Nat → Option Nat
  | [], _ => none
  | (low, high) :: rest, code =>
    if code < low then none else if code ≤ high then some (code - low) else offset? rest code

end CharRanges

end ExScript.Text
