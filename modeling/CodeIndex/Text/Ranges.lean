namespace CodeIndex.Text

/-- Whether one of the runs from index `low` up to `high` holds `n`, looked for by halving. -/
def inRangesFrom (ranges : Array (Nat × Nat)) (n : Nat) : Nat → Nat → Nat → Bool
  | 0, _, _ => false
  | fuel + 1, low, high =>
    if high ≤ low then false
    else
      let middle := (low + high) / 2
      match ranges[middle]? with
      | none => false
      | some (first, last) =>
        if n < first then inRangesFrom ranges n fuel low middle
        else if last < n then inRangesFrom ranges n fuel (middle + 1) high
        else true

def inRanges (ranges : Array (Nat × Nat)) (n : Nat) : Bool :=
  inRangesFrom ranges n (ranges.size + 1) 0 ranges.size

end CodeIndex.Text
