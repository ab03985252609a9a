import FeatureLattice.Distinct
import FeatureLattice.Lattice.Semilattice

/-!
# Checking the semilattice laws on samples

No type system enforces the laws of a semilattice, so they are checked on every combination of
sample values. A failure records the law, the samples that broke it, and the values that should
have been equal or in order. Repeated samples are dropped before the list is cut, so they use up
none of the limit.
-/
namespace FeatureLattice

/-- What to check, and on how many samples at most. -/
structure LawCheckConfig where
  maxSamples : Int := 16
  checkAssociativity : Bool := true
  checkMonotonicity : Bool := true
  deriving DecidableEq

/-- What is wrong with a configuration. -/
def LawCheckConfig.problems (config : LawCheckConfig) : List String :=
  if config.maxSamples ≤ 0 then ["max_samples must be positive"] else []

/-- The laws of a semilattice with a top. -/
inductive Law where
  | idempotence
  | identity
  | commutativity
  | decreasing
  | associativity
  | monotonicity
  deriving DecidableEq

def Law.name : Law → String
  | idempotence => "idempotence"
  | identity => "identity"
  | commutativity => "commutativity"
  | decreasing => "decreasing"
  | associativity => "associativity"
  | monotonicity => "monotonicity"

/-- One instance of a law that fails, with the values that show it. -/
inductive LawFailure (α : Type) where
  | idempotence (a aa : α)
  | identity (a ta : α)
  | commutativity (a b ab ba : α)
  /-- The meet of `a` and `b` is not below `bound`, one of the two. -/
  | decreasing (a b ab bound : α)
  | associativity (a b c left right : α)
  | monotonicity (a b c ac bc : α)

namespace LawFailure

variable {α : Type}

def law : LawFailure α → Law
  | idempotence _ _ => .idempotence
  | identity _ _ => .identity
  | commutativity _ _ _ _ => .commutativity
  | decreasing _ _ _ _ => .decreasing
  | associativity _ _ _ _ _ => .associativity
  | monotonicity _ _ _ _ _ => .monotonicity

/-- The samples that break the law. -/
def operands : LawFailure α → List α
  | idempotence a _ => [a]
  | identity a _ => [a]
  | commutativity a b _ _ => [a, b]
  | decreasing a b _ _ => [a, b]
  | associativity a b c _ _ => [a, b, c]
  | monotonicity a b c _ _ => [a, b, c]

/-- What went wrong, in words. -/
def detail (display : α → String) : LawFailure α → String
  | idempotence a aa => "a ⊓ a = " ++ display aa ++ ", expected " ++ display a
  | identity a ta => "⊤ ⊓ a = " ++ display ta ++ ", expected " ++ display a
  | commutativity _ _ ab ba => "a ⊓ b = " ++ display ab ++ " but b ⊓ a = " ++ display ba
  | decreasing _ _ ab bound => "a ⊓ b = " ++ display ab ++ " is not ⊑ " ++ display bound
  | associativity _ _ _ left right =>
    "(a ⊓ b) ⊓ c = " ++ display left ++ " but a ⊓ (b ⊓ c) = " ++ display right
  | monotonicity _ _ _ ac bc =>
    "a ⊑ b but a ⊓ c = " ++ display ac ++ " is not ⊑ b ⊓ c = " ++ display bc

end LawFailure

namespace MeetSemilattice

variable {α : Type}

/-- The failure, unless the test succeeds. -/
def failureUnless (test : Bool) (failure : LawFailure α) : List (LawFailure α) :=
  if test then [] else [failure]

/-- Idempotence and identity at one sample. -/
def failuresAt (l : MeetSemilattice α) (a : α) : List (LawFailure α) :=
  let aa := l.meet a a
  let ta := l.meet l.top a
  failureUnless (l.eq aa a) (.idempotence a aa) ++ failureUnless (l.eq ta a) (.identity a ta)

/-- Commutativity and decrease at a pair of samples. -/
def failuresAtPair (l : MeetSemilattice α) (config : LawCheckConfig) (a b : α) :
    List (LawFailure α) :=
  let ab := l.meet a b
  let ba := l.meet b a
  failureUnless (l.eq ab ba) (.commutativity a b ab ba) ++
    if config.checkMonotonicity then
      failureUnless (l.leq ab a) (.decreasing a b ab a) ++
        failureUnless (l.leq ab b) (.decreasing a b ab b)
    else []

/-- Associativity and preservation of the order at three samples. -/
def failuresAtTriple (l : MeetSemilattice α) (config : LawCheckConfig) (a b c : α) :
    List (LawFailure α) :=
  (if config.checkAssociativity then
    let left := l.meet (l.meet a b) c
    let right := l.meet a (l.meet b c)
    failureUnless (l.eq left right) (.associativity a b c left right)
  else []) ++
  if config.checkMonotonicity && l.leq a b then
    let ac := l.meet a c
    let bc := l.meet b c
    failureUnless (l.leq ac bc) (.monotonicity a b c ac bc)
  else []

/-- The failures on a list of samples: one by one, then in pairs, then in threes. -/
def failuresOn (l : MeetSemilattice α) (config : LawCheckConfig) (values : List α) :
    List (LawFailure α) :=
  values.flatMap l.failuresAt ++
  (values.flatMap fun a => values.flatMap fun b => l.failuresAtPair config a b) ++
  values.flatMap fun a => values.flatMap fun b => values.flatMap fun c =>
    l.failuresAtTriple config a b c

/-- The samples that are checked: the first unequal ones, as many as the limit allows. -/
def checkedSamples [BEq α] (config : LawCheckConfig) (samples : List α) : List α :=
  (distinct samples).take config.maxSamples.toNat

/-- Check the laws on samples, or tell what is wrong with the configuration. -/
def verifyLaws [BEq α] (l : MeetSemilattice α) (samples : List α) (config : LawCheckConfig) :
    Except (List String) (List (LawFailure α)) :=
  match config.problems with
  | [] => .ok (l.failuresOn config (checkedSamples config samples))
  | problems => .error problems

end MeetSemilattice

end FeatureLattice
