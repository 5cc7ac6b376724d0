/-!
# Binary search

A predicate that holds up to some place and fails from there on is searched by
halving the range.
-/

namespace RcScript

/-- The first place from `low` to `high` at which `holds` fails, if it holds
before that place and fails from there on. -/
def firstFailing (holds : Nat → Bool) (low high : Nat) : Nat :=
  if low < high then
    let middle := (low + high) / 2
    if holds middle then firstFailing holds (middle + 1) high
    else firstFailing holds low middle
  else low
termination_by high - low

end RcScript
