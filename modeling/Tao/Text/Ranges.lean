/-
  Sets of characters given by ranges of code points.

  A table lists disjoint inclusive ranges in increasing order; membership is a binary search.
-/
namespace Tao.Text

/-- Does `n` lie in one of the ranges `table[lo], ..., table[hi - 1]`?  The interval of ranges still
    in question is halved at every step. -/
def inRangesBetween (table : Array (Nat × Nat)) (n lo hi : Nat) : Bool :=
  if lo < hi then
    match table[(lo + hi) / 2]? with
    | none => false
    | some (first, last) =>
      if n < first then inRangesBetween table n lo ((lo + hi) / 2)
      else if last < n then inRangesBetween table n ((lo + hi) / 2 + 1) hi
      else true
  else false
  termination_by hi - lo
  decreasing_by all_goals omega

/-- Does the code point of `c` lie in one of the ranges of `table`? -/
def inRanges (table : Array (Nat × Nat)) (c : Char) : Bool :=
  inRangesBetween table c.toNat 0 table.size

end Tao.Text
