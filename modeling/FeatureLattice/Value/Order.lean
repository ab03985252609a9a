import FeatureLattice.Value

/-!
# The order of values

Numbers are ordered by value, texts by code points, byte strings by bytes, tuples by their first
unequal items or else by length, and frozen sets by inclusion. No other two values can be compared,
and sorting values of which two cannot be compared fails.

Two frozen sets neither of which includes the other are apart from both cases. Comparing them says
no both ways, so sorting does not fail, but what comes of it depends on the order in which the
values were stored, which is not known here. They count as two values that cannot be compared. What
is shown of sorted values is shown of values without frozen sets.
-/
namespace FeatureLattice.Value

mutual

/-- Whether the first value comes before the second, if the two can be compared. There is no answer
for two frozen sets neither of which includes the other. -/
def before? : Value → Value → Option Bool
  | number a, number b => some (a.lt b)
  | str s, str t => some (s < t)
  | bytes as, bytes bs => some (as < bs)
  | sequence .tuple xs, sequence .tuple ys => itemsBefore? xs ys
  | collection .frozenset xs, collection .frozenset ys =>
    match includedIn xs ys, ys.all (covers xs ·) with
    | true, above => some (!above)
    | false, true => some false
    | false, false => none
  | _, _ => none
  termination_by structural v => v

/-- The order of tuples. -/
def itemsBefore? : List Value → List Value → Option Bool
  | [], ys => some (!ys.isEmpty)
  | _ :: _, [] => some false
  | x :: xs, y :: ys => if x == y then itemsBefore? xs ys else before? x y
  termination_by structural xs => xs

end

/-- Whether any two different places of a list hold values that can be compared. Otherwise the list
has no order in which each value has been found to come before its neighbour. -/
def allComparable : List Value → Bool
  | [] => true
  | x :: xs => (xs.all fun y => (before? x y).isSome) && allComparable xs

/-- Whether the first value need not come after the second. -/
def notAfter (x y : Value) : Bool := before? y x != some true

end FeatureLattice.Value
