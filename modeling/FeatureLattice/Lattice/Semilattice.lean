/-!
# Meet-semilattices with a top

What a fixpoint iteration needs to know of its facts: the greatest fact, the meet of two facts, a
test for "nothing changed", and the order. Only the operations are given here. Whether they obey
the laws of a semilattice is another question, which the law checker asks of sample facts.
-/
namespace FeatureLattice

/-- The operations of a meet-semilattice with a greatest element. Unless told otherwise, `a` is
below `b` when the meet of both is `a`. -/
structure MeetSemilattice (α : Type) where
  top : α
  meet : α → α → α
  eq : α → α → Bool
  leq : α → α → Bool := fun a b => eq (meet a b) a

namespace MeetSemilattice

variable {α : Type}

/-- The semilattice whose equality test is that of its values. -/
def ofMeet [BEq α] (top : α) (meet : α → α → α) : MeetSemilattice α where
  top := top
  meet := meet
  eq a b := a == b

def isTop (l : MeetSemilattice α) (a : α) : Bool := l.eq a l.top

/-- The meet of a list of values, taken from the top in order; an empty list has the top. -/
def meetAll (l : MeetSemilattice α) (values : List α) : α := values.foldl l.meet l.top

end MeetSemilattice

end FeatureLattice
