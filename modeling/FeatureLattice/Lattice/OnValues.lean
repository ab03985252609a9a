import FeatureLattice.Lattice.Contexts
import FeatureLattice.Lattice.Violation

/-!
# Named lattices at work

The operations that a lattice's name stands for, on values of any kind. A value outside the
carrier of the lattice is returned as it is: such calls have no meaning of their own.
-/
namespace FeatureLattice

namespace MeetSemilattice

/-- Carry a semilattice over to the values that stand for its elements. -/
def onValues {α : Type} (l : MeetSemilattice α) (inject : α → Value)
    (project? : Value → Option α) : MeetSemilattice Value where
  top := inject l.top
  meet a b :=
    match project? a, project? b with
    | some x, some y => inject (l.meet x y)
    | _, _ => a
  eq a b := a == b
  leq a b :=
    match project? a, project? b with
    | some x, some y => l.leq x y
    | _, _ => false

end MeetSemilattice

namespace Value

def asContext? : Value → Option Context
  | context c => some c
  | _ => none

def asNumber? : Value → Option Number
  | number n => some n
  | _ => none

/-- Truth values count as the numbers 0 and 1. -/
def asInt? : Value → Option Int
  | number (.int n) => some n
  | number (.bool b) => some (if b then 1 else 0)
  | _ => none

end Value

namespace Number

/-- Numbers under the smaller of two, with infinity on top. -/
def minLattice : MeetSemilattice Number := .ofMeet (.float .infinity) min

end Number

namespace NamedLattice

/-- An entry of an operation table. -/
def entry (rows : List (List Int)) (a b : Int) : Int :=
  ((rows[a.toNat]?.bind (·[b.toNat]?))).getD a

/-- The semilattice of contexts that a name stands for, if it stands for one. -/
def onContexts? : NamedLattice → Option (MeetSemilattice Context)
  | features => some Context.lattice
  | dropsNested => some Context.dropsNestedLattice
  | bottomTop => some Context.bottomTopLattice
  | intersection => some (.ofMeet .universal Context.intersection)
  | leftProjection => some (.ofMeet .universal fun a _ => a)
  | rightProjection => some (.ofMeet .universal fun _ b => b)
  | union => some (.ofMeet .universal Context.union)
  | unionNone => some (.ofMeet .empty Context.union)
  | constant c => some (.ofMeet .universal fun _ _ => c)
  | _ => none

/-- The operation on whole numbers that a name stands for, with its top. -/
def onInts? : NamedLattice → Option (MeetSemilattice Int)
  | gcd => some (.ofMeet 0 fun a b => a.gcd b)
  | difference => some (.ofMeet 0 (· - ·))
  | maximum => some (.ofMeet 0 max)
  | average => some (.ofMeet 0 fun a b => (a + b).fdiv 2)
  | sum => some (.ofMeet 0 (· + ·))
  | table rows top => some (.ofMeet top (entry rows))
  | _ => none

/-- The operations on values that a name stands for. The projections and the constant operation
do not look at their operands, so they take any. -/
def onValues (l : NamedLattice) : MeetSemilattice Value :=
  match l with
  | leftProjection => .ofMeet (.context .universal) fun a _ => a
  | rightProjection => .ofMeet (.context .universal) fun _ b => b
  | constant c => .ofMeet (.context .universal) fun _ _ => .context c
  | _ =>
    match l.onContexts?, l.onInts? with
    | some m, _ => m.onValues .context Value.asContext?
    | none, some m => m.onValues .int Value.asInt?
    | none, none => Number.minLattice.onValues .number Value.asNumber?

end NamedLattice

end FeatureLattice
