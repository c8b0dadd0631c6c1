namespace Script

/-- Ascending code point intervals, both ends included. -/
abbrev CharRanges := List (Nat × Nat)

/-- Membership stops at the first interval that begins above the code point. -/
def CharRanges.has : CharRanges → Nat → Bool
  | [], _ => false
  | (low, high) :: rest, code =>
    if code < low then false
    else if code ≤ high then true
    else CharRanges.has rest code

end Script
