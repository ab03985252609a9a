import FeatureLattice.ValueSet

/-!
# Contexts from values

A context can be built from any value that yields names: a list, a set, an iterator and so on. A
text yields its characters, which is never meant, so it is refused. What the names are read from is
read once, and checked in a fixed order: is anything given, is it a text, can it be read, can every
item be an element of a set, is every element a text.
-/
namespace FeatureLattice

namespace ValueSet

/-- The elements of a set as names, or the first element that is no text. -/
def names? (s : ValueSet) : Except Value NameSet :=
  s.elements.foldlM (fun names v =>
    match v with
    | .str x => .ok (names.insert x)
    | v => .error v) NameSet.empty

/-- Texts are all names, so the set of them is read to its end. -/
theorem names?_ofList_texts (names : List String) :
    (ofList (names.map Value.str)).names? = .ok (NameSet.ofList (distinct names)) := by
  have hsame : ∀ x y : String, (Value.str x == Value.str y) = (x == y) := fun _ _ => rfl
  have hread : ∀ (xs : List String) (s : NameSet),
      ((xs.map Value.str).foldlM (fun names v =>
        match v with
        | .str x => .ok (names.insert x)
        | v => .error v) s : Except Value NameSet) = .ok (xs.foldl NameSet.insert s) := by
    intro xs
    induction xs with
    | nil => exact fun _ => rfl
    | cons x xs ih => exact fun s => ih (s.insert x)
  have helements : (ofList (names.map Value.str)).elements =
      (distinct names).map Value.str := distinct_map hsame names
  rw [names?, helements]
  exact hread _ _

end ValueSet

theorem Value.firstObstacle?_texts (names : List String) :
    firstObstacle? (names.map Value.str) = none :=
  firstObstacle?_eq_none (List.forall_mem_map.2 fun _ _ => rfl)

/-- The kind of context that a value stands for. -/
def ContextKind.ofValue? (nb : Notebook) : Value → Except Fault ContextKind
  | .str "universal" => .ok .universal
  | .str "concrete" => .ok .concrete
  | .kind k => .ok k
  | v => .error (.unknownKind (v.literal nb))

namespace Context

/-- Build a context of the given kind from a value that yields its names. -/
def construct (nb : Notebook) (features : Value) : ContextKind → Except Fault Context
  | .universal =>
    match features with
    | .absent => .ok universal
    | v => do
      let s ← ValueSet.ofValue? v
      if s.isEmpty then .ok universal else .error .universalWithNames
  | .concrete =>
    match features with
    | .absent => .error .namesMissing
    | .str x =>
      .error (.reported (.featureName (.str x) ((Value.str x).literal nb)
        "use FeatureContext.of(name) for a single feature"))
    | v => do
      let s ← ValueSet.ofValue? v
      match s.names? with
      | .ok names => .ok (concrete names)
      | .error v => .error (.reported (.featureName v (v.literal nb) ""))

/-- A list of texts builds the context of these names. -/
theorem construct_texts (nb : Notebook) (names : List String) :
    construct nb (.sequence .list (names.map Value.str)) .concrete = .ok (of (distinct names)) := by
  have hset : ValueSet.ofValue? (.sequence .list (names.map Value.str)) =
      .ok (ValueSet.ofList (names.map Value.str)) := by
    rw [ValueSet.ofValue?, Value.items?]
    simp only [Value.firstObstacle?_texts]
  simp only [construct, hset, bind, Except.bind, ValueSet.names?_ofList_texts]
  rfl

/-- Build the concrete context of the given names. -/
def ofNames (nb : Notebook) (names : List Value) : Except Fault Context :=
  construct nb (.sequence .tuple names) .concrete

/-- Build a context from the nullable form, in which no value stands for the universal context. -/
def ofOptional (nb : Notebook) (features : Value) : Except Fault Context :=
  match features with
  | .absent => .ok universal
  | v => construct nb v .concrete

/-- Read a written context, or report why the text is none. -/
def ofText (text : String) : Except Fault Context :=
  match read text with
  | .ok c => .ok c
  | .error r => .error (.reported (r.toError text))

/-- The features of a context as a value, which the universal context has not. -/
def features : Context → Value
  | universal => .absent
  | concrete s => s.toValueSet.toValue

/-- Whether any value is an enabled feature. -/
def enablesValue (c : Context) (v : Value) : Except Fault Bool :=
  match c with
  | universal => .ok true
  | concrete s => s.toValueSet.lookup v

end Context

end FeatureLattice
