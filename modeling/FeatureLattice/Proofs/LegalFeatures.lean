import FeatureLattice.Proofs.Meaning
import FeatureLattice.Proofs.TextSets

/-!
# Which values build a context

Contexts are built from values of any kind, so most of the work is refusing. Filling a set fails if
the value cannot be read, or if something in it can change; only a set that has been filled is
looked through for elements that are no texts. A context is built exactly from what is left. Every
failure is of one class, and which one is decided by the first check that fails.
-/
namespace FeatureLattice

/-- The classes of faults with which building a context can end. -/
inductive FaultClass where
  | wrongType
  | wrongValue
  | wrongName
  deriving DecidableEq

/-- The class of a fault of building a context. -/
def Fault.class? : Fault → Option FaultClass
  | unhashable _ | notIterable _ | namesMissing => some .wrongType
  | universalWithNames => some .wrongValue
  | reported (.featureName _ _ _) => some .wrongName
  | _ => none

namespace Value

variable {v w : Value} {items : List Value}

/-- Reading a value yields another one among others. -/
def Yields (v w : Value) : Prop := ∃ items, v.items? = some items ∧ w ∈ items

/-- The values that can change, or that have an item that can: no set takes them. -/
inductive Changeable : Value → Prop
  | list (items : List Value) : Changeable (sequence .list items)
  | set (items : List Value) : Changeable (collection .set items)
  | tuple {items : List Value} {v : Value} : v ∈ items → Changeable v →
      Changeable (sequence .tuple items)

/-- Nothing but texts can be read from a value, and it is no text itself. -/
def ListsTexts (v : Value) : Prop :=
  (∀ x, v ≠ str x) ∧ ∃ items, v.items? = some items ∧ ∀ w ∈ items, ∃ x, w = str x

/-- A value cannot be read, or something that can change is read from it. -/
def IsUnusable (v : Value) : Prop :=
  v = absent ∨ v.items? = none ∨ ∃ w, v.Yields w ∧ w.Changeable

/-- A value is a text, or something other than a text is read from it and nothing that can
change. -/
def Misnames (v : Value) : Prop :=
  (∃ x, v = str x) ∨ (∃ w, v.Yields w ∧ ∀ x, w ≠ str x) ∧ ∀ w, v.Yields w → ¬ w.Changeable

/-- Nothing is given as names, or something without items. -/
def LacksNames (v : Value) : Prop := v = absent ∨ v.items? = some []

/-- Something is read from a value, and nothing that can change. -/
def YieldsElements (v : Value) : Prop :=
  (∃ w, v.Yields w) ∧ ∀ w, v.Yields w → ¬ w.Changeable

theorem yields_iff (h : v.items? = some items) : v.Yields w ↔ w ∈ items := by
  constructor
  · rintro ⟨found, hfound, hw⟩
    rw [h] at hfound
    exact Option.some.inj hfound ▸ hw
  · exact fun hw => ⟨items, h, hw⟩

/-- Nothing keeps a value out of sets unless it can change. -/
theorem obstacle?_eq_none_iff : obstacle? v = none ↔ ¬ v.Changeable := by
  induction v with
  | sequence form items ih =>
    cases form with
    | tuple =>
      have hitems : obstacle? (sequence .tuple items) = none ↔ ∀ w ∈ items, ¬ w.Changeable := by
        rw [obstacle?, firstObstacle?_eq_none_iff]
        exact forall₂_congr ih
      rw [hitems]
      constructor
      · rintro h (_ | _ | ⟨hw, hchange⟩)
        exact h _ hw hchange
      · exact fun h w hw hchange => h (.tuple hw hchange)
    | list => exact iff_of_false (Option.some_ne_none _) fun h => h (.list items)
    | iterator => exact iff_of_true rfl fun h => by cases h
  | collection form items ih =>
    cases form with
    | set => exact iff_of_false (Option.some_ne_none _) fun h => h (.set items)
    | frozenset => exact iff_of_true rfl fun h => by cases h
    | valueSet => exact iff_of_true rfl fun h => by cases h
  | _ => exact iff_of_true rfl fun h => by cases h

theorem ListsTexts.not_isUnusable (h : v.ListsTexts) : ¬ v.IsUnusable := by
  obtain ⟨-, items, hitems, htexts⟩ := h
  rintro (rfl | hnone | ⟨w, hw, hchange⟩)
  · cases hitems
  · rw [hitems] at hnone
    cases hnone
  · obtain ⟨x, rfl⟩ := htexts w ((yields_iff hitems).1 hw)
    cases hchange

theorem ListsTexts.not_misnames (h : v.ListsTexts) : ¬ v.Misnames := by
  obtain ⟨hother, items, hitems, htexts⟩ := h
  rintro (⟨x, rfl⟩ | ⟨⟨w, hw, hno⟩, -⟩)
  · exact hother x rfl
  · obtain ⟨x, rfl⟩ := htexts w ((yields_iff hitems).1 hw)
    exact hno x rfl

theorem YieldsElements.not_isUnusable (h : v.YieldsElements) : ¬ v.IsUnusable := by
  obtain ⟨⟨w, items, hitems, hw⟩, hfixed⟩ := h
  rintro (rfl | hnone | ⟨u, hu, hchange⟩)
  · cases hitems
  · rw [hitems] at hnone
    cases hnone
  · exact hfixed u hu hchange

theorem IsUnusable.not_misnames (h : v.IsUnusable) : ¬ v.Misnames := by
  rintro (⟨x, rfl⟩ | ⟨⟨w, ⟨items, hitems, hw⟩, -⟩, hfixed⟩)
  · rcases h with h | h | ⟨w, hw, hchange⟩
    · cases h
    · cases h
    · obtain ⟨c, -, rfl⟩ := List.mem_map.1 ((yields_iff rfl).1 hw)
      cases hchange
  · exact YieldsElements.not_isUnusable ⟨⟨w, items, hitems, hw⟩, hfixed⟩ h

theorem LacksNames.not_yields (h : v.LacksNames) : ¬ v.Yields w := by
  rcases h with rfl | hitems
  · exact fun ⟨_, hitems, _⟩ => nomatch hitems
  · rw [yields_iff hitems]
    exact List.not_mem_nil

theorem LacksNames.not_isUnusable (h : v.LacksNames) (hgiven : v ≠ absent) : ¬ v.IsUnusable := by
  rintro (hmissing | hnone | ⟨w, hw, -⟩)
  · exact hgiven hmissing
  · rcases h with hmissing | hitems
    · exact hgiven hmissing
    · rw [hitems] at hnone
      cases hnone
  · exact h.not_yields hw

theorem YieldsElements.not_lacksNames (h : v.YieldsElements) : ¬ v.LacksNames :=
  fun hnothing => h.1.elim fun _ => hnothing.not_yields

end Value

namespace ValueSet

variable {v w : Value} {items : List Value} {x : String}

/-- Filling a set with what a value yields: the value cannot be read, or something in it can change,
or there is a set. -/
inductive Filling (v : Value) : Except Fault ValueSet → Prop
  | notIterable : v.items? = none → Filling v (.error (.notIterable v.typeName))
  | changeable {items : List Value} {w : Value} (typeName : String) : v.items? = some items →
      w ∈ items → w.Changeable → Filling v (.error (.unhashable typeName))
  | filled {items : List Value} : v.items? = some items → (∀ w ∈ items, ¬ w.Changeable) →
      Filling v (.ok (ofList items))

theorem filling_ofValue? (v : Value) : Filling v (ofValue? v) := by
  unfold ofValue?
  split
  · rename_i hitems
    exact .notIterable hitems
  · rename_i items hitems
    split
    · rename_i typeName hobstacle
      have hchange : ¬ ∀ w ∈ items, w.obstacle? = none := by
        rw [← Value.firstObstacle?_eq_none_iff, hobstacle]
        exact nofun
      simp only [Value.obstacle?_eq_none_iff] at hchange
      push Not at hchange
      obtain ⟨w, hw, hchange⟩ := hchange
      exact .changeable typeName hitems hw hchange
    · rename_i hfree
      exact .filled hitems fun w hw =>
        Value.obstacle?_eq_none_iff.1 (Value.firstObstacle?_eq_none_iff.1 hfree w hw)

/-- The texts that fill a set are all there: a text equals no other value. -/
theorem mem_texts_ofList : x ∈ (ofList items).texts ↔ .str x ∈ items := by
  rw [mem_texts]
  constructor
  · exact fun h => mem_of_mem_distinct h
  · intro h
    have hocc : (ofList items).contains (.str x) = true := by
      rw [contains_ofList]
      exact occursIn_iff.2 ⟨.str x, h, (Value.IsElement.str x).same_self⟩
    exact mem_texts.1 (contains_str_iff.1 hocc)

/-- No class of equal values gets lost, so only nothing fills an empty set. -/
theorem isEmpty_ofList : (ofList items).isEmpty = true ↔ items = [] := by
  constructor
  · intro h
    have hnone : distinct items = [] := List.isEmpty_iff.1 h
    refine List.eq_nil_iff_forall_not_mem.2 fun v hv => ?_
    rcases mem_or_occursIn_distinct hv with hmem | hocc
    · exact List.not_mem_nil (hnone ▸ hmem)
    · rw [hnone] at hocc
      cases hocc
  · rintro rfl
    rfl

theorem allTexts_ofList_iff : (ofList items).AllTexts ↔ ∀ w ∈ items, ∃ x, w = .str x := by
  constructor
  · intro h w hw
    rcases mem_or_occursIn_distinct hw with hmem | hocc
    · exact h w hmem
    · obtain ⟨v, hv, hequal⟩ := occursIn_iff.1 hocc
      obtain ⟨x, rfl⟩ := h v hv
      have hsame : w = .str x := by
        cases w <;> simp_all [BEq.beq, Value.same]
      exact ⟨x, hsame⟩
  · exact fun h w hw => h w (mem_of_mem_distinct hw)

end ValueSet

namespace Context

variable {nb : Notebook} {v w : Value}

/-- What becomes of a value from which a concrete context is to be built, with the reason. -/
inductive Building (nb : Notebook) (v : Value) : Except Fault Context → Prop
  | missing : v = .absent → Building nb v (.error .namesMissing)
  | text {x : String} (hint : String) : v = .str x →
      Building nb v (.error (.reported (.featureName v (v.literal nb) hint)))
  | notIterable : v.items? = none → Building nb v (.error (.notIterable v.typeName))
  | changeable {items : List Value} {w : Value} (typeName : String) : v.items? = some items →
      w ∈ items → w.Changeable → Building nb v (.error (.unhashable typeName))
  | notText {items : List Value} {w : Value} : v.items? = some items →
      (∀ u ∈ items, ¬ u.Changeable) → w ∈ items → (∀ x, w ≠ .str x) →
      Building nb v (.error (.reported (.featureName w (w.literal nb) "")))
  | built {items : List Value} {s : NameSet} : (∀ x, v ≠ .str x) → v.items? = some items →
      (∀ w ∈ items, ∃ x, w = .str x) → (∀ x, x ∈ s ↔ .str x ∈ items) →
      Building nb v (.ok (concrete s))

theorem construct_concrete_eq (hgiven : v ≠ .absent) (htext : ∀ x, v ≠ .str x) :
    construct nb v .concrete = (ValueSet.ofValue? v >>= fun s =>
      match s.names? with
      | .ok names => .ok (concrete names)
      | .error w => .error (.reported (.featureName w (w.literal nb) ""))) := by
  cases v with
  | absent => exact absurd rfl hgiven
  | str x => exact absurd rfl (htext x)
  | _ => rfl

theorem building_construct (nb : Notebook) (v : Value) :
    Building nb v (construct nb v .concrete) := by
  by_cases hgiven : v = .absent
  · subst hgiven
    exact .missing rfl
  by_cases htext : ∃ x, v = .str x
  · obtain ⟨x, rfl⟩ := htext
    exact .text _ rfl
  push Not at htext
  rw [construct_concrete_eq hgiven htext]
  generalize hread : ValueSet.ofValue? v = read
  have hfilling := ValueSet.filling_ofValue? v
  rw [hread] at hfilling
  cases hfilling with
  | notIterable hitems => exact .notIterable hitems
  | changeable typeName hitems hw hchange => exact .changeable typeName hitems hw hchange
  | @filled items hitems hfixed =>
    show Building nb v (match (ValueSet.ofList items).names? with
      | .ok names => .ok (concrete names)
      | .error w => .error (.reported (.featureName w (w.literal nb) "")))
    rcases ValueSet.names?_cases (.ofList items) with ⟨htexts, hok⟩ | ⟨w, hw, hother, herror⟩
    · rw [hok]
      refine .built htext hitems (ValueSet.allTexts_ofList_iff.1 htexts) fun x => ?_
      rw [NameSet.mem_ofList, ValueSet.mem_texts_ofList]
    · rw [herror]
      exact .notText hitems hfixed (mem_of_mem_distinct hw) hother

/-- Building a context ends with a fault of the class. -/
def FailsWith (r : Except Fault Context) (k : FaultClass) : Prop :=
  ∃ f, r = .error f ∧ f.class? = some k

theorem FailsWith.unique {r : Except Fault Context} {k k' : FaultClass} (h : FailsWith r k)
    (h' : FailsWith r k') : k = k' := by
  obtain ⟨f, rfl, hf⟩ := h
  obtain ⟨f', hr, hf'⟩ := h'
  cases hr
  exact Option.some.inj (hf.symm.trans hf')

theorem FailsWith.ne_ok {r : Except Fault Context} {k : FaultClass} (h : FailsWith r k)
    (c : Context) : r ≠ .ok c := by
  obtain ⟨f, rfl, -⟩ := h
  exact nofun

/-- Which values build a concrete context, which names it enables, and which class of fault the
other values lead to. -/
structure BuildsConcrete (nb : Notebook) (v : Value) : Prop where
  ok_iff : (∃ c, construct nb v .concrete = .ok c) ↔ v.ListsTexts
  enables_iff : ∀ c, construct nb v .concrete = .ok c →
    ∀ x, c.enables x = true ↔ v.Yields (.str x)
  wrongType_iff : FailsWith (construct nb v .concrete) .wrongType ↔ v.IsUnusable
  wrongName_iff : FailsWith (construct nb v .concrete) .wrongName ↔ v.Misnames
  not_wrongValue : ¬ FailsWith (construct nb v .concrete) .wrongValue

/-- The three ways in which building a concrete context can end. -/
theorem Building.cases {r : Except Fault Context} (h : Building nb v r) :
    (v.ListsTexts ∧ ∃ c, r = .ok c ∧ ∀ x, c.enables x = true ↔ v.Yields (.str x)) ∨
      v.IsUnusable ∧ FailsWith r .wrongType ∨ v.Misnames ∧ FailsWith r .wrongName := by
  cases h with
  | missing hmissing => exact .inr (.inl ⟨.inl hmissing, _, rfl, rfl⟩)
  | text hint htext => exact .inr (.inr ⟨.inl ⟨_, htext⟩, _, rfl, rfl⟩)
  | notIterable hnone => exact .inr (.inl ⟨.inr (.inl hnone), _, rfl, rfl⟩)
  | changeable typeName hitems hw hchange =>
    exact .inr (.inl ⟨.inr (.inr ⟨_, ⟨_, hitems, hw⟩, hchange⟩), _, rfl, rfl⟩)
  | notText hitems hfixed hw hother =>
    exact .inr (.inr ⟨.inr ⟨⟨_, ⟨_, hitems, hw⟩, hother⟩,
      fun u hu => hfixed u ((Value.yields_iff hitems).1 hu)⟩, _, rfl, rfl⟩)
  | built hother hitems htexts hmem =>
    refine .inl ⟨⟨hother, _, hitems, htexts⟩, _, rfl, fun x => ?_⟩
    rw [enables_concrete, hmem, Value.yields_iff hitems]

theorem buildsConcrete (nb : Notebook) (v : Value) : BuildsConcrete nb v := by
  rcases (building_construct nb v).cases with ⟨hlists, c, hok, henables⟩ | ⟨hunusable, hfails⟩ |
    ⟨hmisnames, hfails⟩
  · have hno (k : FaultClass) : ¬ FailsWith (construct nb v .concrete) k := fun h => h.ne_ok c hok
    refine ⟨iff_of_true ⟨c, hok⟩ hlists, fun d hd => ?_, iff_of_false (hno _) hlists.not_isUnusable,
      iff_of_false (hno _) hlists.not_misnames, hno _⟩
    rw [hok] at hd
    exact Except.ok.inj hd ▸ henables
  · have hno (k : FaultClass) (hk : k ≠ .wrongType) : ¬ FailsWith (construct nb v .concrete) k :=
      fun h => hk (h.unique hfails)
    exact ⟨iff_of_false (fun ⟨c, hok⟩ => hfails.ne_ok c hok) fun h => h.not_isUnusable hunusable,
      fun c hok => absurd hok (hfails.ne_ok c), iff_of_true hfails hunusable,
      iff_of_false (hno _ nofun) hunusable.not_misnames, hno _ nofun⟩
  · have hno (k : FaultClass) (hk : k ≠ .wrongName) : ¬ FailsWith (construct nb v .concrete) k :=
      fun h => hk (h.unique hfails)
    exact ⟨iff_of_false (fun ⟨c, hok⟩ => hfails.ne_ok c hok) fun h => h.not_misnames hmisnames,
      fun c hok => absurd hok (hfails.ne_ok c),
      iff_of_false (hno _ nofun) fun h => h.not_misnames hmisnames,
      iff_of_true hfails hmisnames, hno _ nofun⟩

/-- Which values build the universal context, and which class of fault the other values lead to. -/
structure BuildsUniversal (nb : Notebook) (v : Value) : Prop where
  ok_iff : (∃ c, construct nb v .universal = .ok c) ↔ v.LacksNames
  eq_universal : ∀ c, construct nb v .universal = .ok c → c = universal
  wrongType_iff : FailsWith (construct nb v .universal) .wrongType ↔ v ≠ .absent ∧ v.IsUnusable
  wrongValue_iff : FailsWith (construct nb v .universal) .wrongValue ↔ v.YieldsElements
  not_wrongName : ¬ FailsWith (construct nb v .universal) .wrongName

theorem construct_universal_eq (hgiven : v ≠ .absent) :
    construct nb v .universal = (ValueSet.ofValue? v >>= fun s =>
      if s.isEmpty then .ok universal else .error .universalWithNames) := by
  cases v with
  | absent => exact absurd rfl hgiven
  | _ => rfl

/-- The three ways in which building the universal context can end. -/
theorem construct_universal_cases (nb : Notebook) (v : Value) :
    v.LacksNames ∧ construct nb v .universal = .ok universal ∨
      (v ≠ .absent ∧ v.IsUnusable) ∧ FailsWith (construct nb v .universal) .wrongType ∨
      v.YieldsElements ∧ FailsWith (construct nb v .universal) .wrongValue := by
  by_cases hgiven : v = .absent
  · subst hgiven
    exact .inl ⟨.inl rfl, rfl⟩
  rw [construct_universal_eq hgiven]
  generalize hread : ValueSet.ofValue? v = read
  have hfilling := ValueSet.filling_ofValue? v
  rw [hread] at hfilling
  cases hfilling with
  | notIterable hitems => exact .inr (.inl ⟨⟨hgiven, .inr (.inl hitems)⟩, _, rfl, rfl⟩)
  | changeable typeName hitems hw hchange =>
    exact .inr (.inl ⟨⟨hgiven, .inr (.inr ⟨_, ⟨_, hitems, hw⟩, hchange⟩)⟩, _, rfl, rfl⟩)
  | @filled items hitems hfixed =>
    by_cases hnone : items = []
    · exact .inl ⟨.inr (hnone ▸ hitems), if_pos (ValueSet.isEmpty_ofList.2 hnone)⟩
    · obtain ⟨w, hw⟩ := List.exists_mem_of_ne_nil items hnone
      refine .inr (.inr ⟨⟨⟨w, items, hitems, hw⟩, fun u hu => ?_⟩, .universalWithNames, ?_, rfl⟩)
      · exact hfixed u ((Value.yields_iff hitems).1 hu)
      · exact if_neg (mt ValueSet.isEmpty_ofList.1 hnone)

theorem buildsUniversal (nb : Notebook) (v : Value) : BuildsUniversal nb v := by
  rcases construct_universal_cases nb v with ⟨hnothing, hok⟩ | ⟨⟨hgiven, hunusable⟩, hfails⟩ |
    ⟨hyields, hfails⟩
  · have hno (k : FaultClass) : ¬ FailsWith (construct nb v .universal) k :=
      fun h => h.ne_ok _ hok
    exact ⟨iff_of_true ⟨_, hok⟩ hnothing, fun c hc => Except.ok.inj (hc.symm.trans hok),
      iff_of_false (hno _) fun h => hnothing.not_isUnusable h.1 h.2,
      iff_of_false (hno _) fun h => h.not_lacksNames hnothing, hno _⟩
  · have hno (k : FaultClass) (hk : k ≠ .wrongType) : ¬ FailsWith (construct nb v .universal) k :=
      fun h => hk (h.unique hfails)
    exact ⟨iff_of_false (fun ⟨c, hok⟩ => hfails.ne_ok c hok) fun h =>
        h.not_isUnusable hgiven hunusable,
      fun c hok => absurd hok (hfails.ne_ok c), iff_of_true hfails ⟨hgiven, hunusable⟩,
      iff_of_false (hno _ nofun) fun h => h.not_isUnusable hunusable, hno _ nofun⟩
  · have hno (k : FaultClass) (hk : k ≠ .wrongValue) : ¬ FailsWith (construct nb v .universal) k :=
      fun h => hk (h.unique hfails)
    exact ⟨iff_of_false (fun ⟨c, hok⟩ => hfails.ne_ok c hok) hyields.not_lacksNames,
      fun c hok => absurd hok (hfails.ne_ok c),
      iff_of_false (hno _ nofun) fun h => hyields.not_isUnusable h.2,
      iff_of_true hfails hyields, hno _ nofun⟩

/-- Collecting names in a set first changes nothing: what fills the set is looked at but once. -/
theorem construct_collected (nb : Notebook) (names : List Value) :
    (ValueSet.ofValue? (.sequence .tuple names) >>= fun s => construct nb s.toValue .concrete) =
      ofNames nb names := by
  rw [ofNames, construct_concrete_eq (v := .sequence .tuple names) nofun nofun]
  cases hread : ValueSet.ofValue? (.sequence .tuple names) with
  | error f => rfl
  | ok s =>
    show construct nb s.toValue .concrete = _
    rw [construct_concrete_eq (v := s.toValue) nofun nofun,
      ValueSet.ofValue?_toValue (ValueSet.obstacle?_of_ofValue? hread)]

/-- **Contexts are built exactly from legal values, and every failure is of one class.** A concrete
context is built from what is no text and yields texts only, and it enables those; the universal one
is built from nothing. All else fails: with the wrong type, where nothing can be read or something
in it can change; otherwise with a wrong name, or a wrong value if the context is to be universal.
The nullable form and a list of names are built in the same way. -/
theorem construct_exactly (nb : Notebook) :
    (∀ v, BuildsConcrete nb v ∧ BuildsUniversal nb v) ∧
    ofOptional nb .absent = construct nb .absent .universal ∧
    (∀ v, v ≠ .absent → ofOptional nb v = construct nb v .concrete) ∧
    ∀ names : List Value, ofNames nb names = construct nb (.sequence .tuple names) .concrete ∧
      (ValueSet.ofValue? (.sequence .tuple names) >>= fun s => construct nb s.toValue .concrete) =
        ofNames nb names := by
  refine ⟨fun v => ⟨buildsConcrete nb v, buildsUniversal nb v⟩, rfl, fun v hgiven => ?_,
    fun names => ⟨rfl, construct_collected nb names⟩⟩
  cases v with
  | absent => exact absurd rfl hgiven
  | _ => rfl

/-- A generator that repeats a text builds the context of it. A list inside a tuple is the wrong
type even after a number, which alone would be a wrong name, as a text is. Where a universal context
is to be built, a text is a wrong value. -/
theorem construct_exactly_mixed (nb : Notebook) :
    (∃ c, construct nb (.sequence .iterator [.str "a", .str "a"]) .concrete = .ok c ∧
      c.enables "a" = true) ∧
    FailsWith (ofOptional nb (.sequence .list [.int 1, .sequence .tuple [.sequence .list []]]))
      .wrongType ∧
    FailsWith (ofNames nb [.str "a", .int 1]) .wrongName ∧
    FailsWith (construct nb (.str "ab") .concrete) .wrongName ∧
    FailsWith (construct nb (.str "ab") .universal) .wrongValue := by
  obtain ⟨hbuilds, -, hoptional, hnames⟩ := construct_exactly nb
  have hchange : (Value.sequence .tuple [.sequence .list []]).Changeable :=
    .tuple List.mem_cons_self (.list [])
  refine ⟨?_, ?_, ?_, ?_, ?_⟩
  · obtain ⟨c, hc⟩ := (hbuilds (.sequence .iterator [.str "a", .str "a"])).1.ok_iff.2
      ⟨nofun, _, rfl, by simp⟩
    exact ⟨c, hc, ((hbuilds _).1.enables_iff c hc "a").2 ⟨_, rfl, List.mem_cons_self⟩⟩
  · refine hoptional (.sequence .list _) nofun ▸ ?_
    exact (hbuilds _).1.wrongType_iff.2
      (.inr (.inr ⟨_, ⟨_, rfl, List.mem_cons_of_mem _ List.mem_cons_self⟩, hchange⟩))
  · rw [(hnames _).1]
    refine (hbuilds _).1.wrongName_iff.2 (.inr ⟨⟨.int 1, ⟨_, rfl, by simp⟩, nofun⟩, ?_⟩)
    intro w hw
    rcases List.mem_pair.1 ((Value.yields_iff rfl).1 hw) with rfl | rfl <;> exact nofun
  · exact (hbuilds _).1.wrongName_iff.2 (.inl ⟨"ab", rfl⟩)
  · refine (hbuilds _).2.wrongValue_iff.2 ⟨⟨.str "a", _, rfl, by simp⟩, ?_⟩
    intro w hw
    obtain ⟨c, -, rfl⟩ := List.mem_map.1 ((Value.yields_iff rfl).1 hw)
    exact nofun

end Context

end FeatureLattice
