import FeatureLattice.Lattice.Contexts
import FeatureLattice.Proofs.ContextRecord

/-!
# Sessions that build contexts

Contexts are built from values and texts and from one another. In a session of such calls each one
may use what the calls before it obtained, and a call that is refused obtains nothing. Every call
keeps records well formed and answers on them as on the contexts that they stand for. So the records
that a session obtains are well formed, however long it is, and no operation on them goes wrong.
-/
namespace FeatureLattice

/-- A call that yields a context if it is not refused. -/
inductive ContextCall (κ : Type) where
  | construct (features : Value) (kind : ContextKind)
  | universal
  | ofNames (names : List Value)
  | ofOptional (features : Value)
  | ofText (text : String)
  | copy (operand : κ)
  | intersection (left right : κ)
  | union (left right : κ)
  | top
  | bottom
  | meet (left right : κ)
  | join (left right : κ)
  | meetAll (operands : List κ)
  | copyValue (operand : κ)

namespace ContextCall

variable {κ μ : Type}

def operands : ContextCall κ → List κ
  | construct _ _ | universal | ofNames _ | ofOptional _ | ofText _ | top | bottom => []
  | copy r | copyValue r => [r]
  | intersection r q | union r q | meet r q | join r q => [r, q]
  | meetAll rs => rs

def map (f : κ → μ) : ContextCall κ → ContextCall μ
  | construct v k => construct v k
  | universal => universal
  | ofNames names => ofNames names
  | ofOptional v => ofOptional v
  | ofText text => ofText text
  | copy r => copy (f r)
  | intersection r q => intersection (f r) (f q)
  | union r q => union (f r) (f q)
  | top => top
  | bottom => bottom
  | meet r q => meet (f r) (f q)
  | join r q => join (f r) (f q)
  | meetAll rs => meetAll (rs.map f)
  | copyValue r => copyValue (f r)

/-- Put for each place what stands there, if something stands at all of them. -/
def resolve (obtained : List κ) : ContextCall Nat → Option (ContextCall κ)
  | construct v k => some (construct v k)
  | universal => some universal
  | ofNames names => some (ofNames names)
  | ofOptional v => some (ofOptional v)
  | ofText text => some (ofText text)
  | copy i => obtained[i]?.map copy
  | intersection i j => obtained[i]?.bind fun r => obtained[j]?.map (intersection r)
  | union i j => obtained[i]?.bind fun r => obtained[j]?.map (union r)
  | top => some top
  | bottom => some bottom
  | meet i j => obtained[i]?.bind fun r => obtained[j]?.map (meet r)
  | join i j => obtained[i]?.bind fun r => obtained[j]?.map (join r)
  | meetAll places => (places.mapM (obtained[·]?)).map meetAll
  | copyValue i => obtained[i]?.map copyValue

end ContextCall

namespace ContextRecord

/-- The answer to a call on records. -/
def answer (nb : Notebook) : ContextCall ContextRecord → Except RecordFault ContextRecord
  | .construct v k => (construct nb v k).mapError .refused
  | .universal => (universal nb).mapError .refused
  | .ofNames names => (ofNames nb names).mapError .refused
  | .ofOptional v => (ofOptional nb v).mapError .refused
  | .ofText text => (ofText nb text).mapError .refused
  | .copy r => r.copy nb
  | .intersection r q => r.intersection nb q
  | .union r q => r.union nb q
  | .top => top nb
  | .bottom => bottom nb
  | .meet r q => r.intersection nb q
  | .join r q => r.union nb q
  | .meetAll rs => meetAll nb rs
  | .copyValue r => r.copy nb

end ContextRecord

/-- The answer to a call on contexts. A copy of a context is the context. -/
def Context.answer (nb : Notebook) : ContextCall Context → Except Fault Context
  | .construct v k => construct nb v k
  | .universal => .ok universal
  | .ofNames names => ofNames nb names
  | .ofOptional v => ofOptional nb v
  | .ofText text => ofText text
  | .copy c => .ok c
  | .intersection c d => .ok (c.intersection d)
  | .union c d => .ok (c.union d)
  | .top => .ok lattice.top
  | .bottom => .ok empty
  | .meet c d => .ok (lattice.meet c d)
  | .join c d => .ok (c.union d)
  | .meetAll cs => .ok (lattice.meetAll cs)
  | .copyValue c => .ok c

/-- A step of a session: a call with places for operands, and the notes that tags have by then. -/
structure SessionStep where
  notebook : Notebook
  call : ContextCall Nat

section Session

variable {κ ε : Type} (answer : Notebook → ContextCall κ → Except ε κ)

/-- What is obtained after one more step. A call that is refused, or that has no operand at some
place, obtains nothing. -/
def obtainNext (obtained : List κ) (step : SessionStep) : List κ :=
  match step.call.resolve obtained with
  | none => obtained
  | some call =>
    match answer step.notebook call with
    | .ok r => obtained ++ [r]
    | .error _ => obtained

/-- All that the steps of a session obtain, in order. -/
def obtained (steps : List SessionStep) : List κ := steps.foldl (obtainNext answer) []

end Session

namespace ContextCall

variable {κ μ : Type} {call : ContextCall Nat} {rs : List κ}

theorem mem_of_mapM_getElem? {places : List Nat} {found : List κ}
    (h : places.mapM (rs[·]?) = some found) : ∀ r ∈ found, r ∈ rs := by
  induction places generalizing found with
  | nil =>
    obtain rfl : [] = found := by simpa using h
    exact fun r hr => absurd hr List.not_mem_nil
  | cons i places ih =>
    simp only [List.mapM_cons, Option.bind_eq_bind, Option.bind_eq_some_iff, Option.pure_def,
      Option.some.injEq] at h
    obtain ⟨r, hr, found, hfound, rfl⟩ := h
    exact List.forall_mem_cons.2 ⟨List.mem_of_getElem? hr, ih hfound⟩

/-- The operands of a call are among what was obtained. -/
theorem operands_of_resolve {c : ContextCall κ} (h : call.resolve rs = some c) :
    ∀ r ∈ c.operands, r ∈ rs := by
  cases call with
  | construct | universal | ofNames | ofOptional | ofText | top | bottom =>
    cases h
    exact fun r hr => absurd hr List.not_mem_nil
  | copy i | copyValue i =>
    obtain ⟨r, hr, rfl⟩ := Option.map_eq_some_iff.1 h
    exact List.forall_mem_singleton.2 (List.mem_of_getElem? hr)
  | intersection i j | union i j | meet i j | join i j =>
    obtain ⟨r, hr, hcall⟩ := Option.bind_eq_some_iff.1 h
    obtain ⟨q, hq, rfl⟩ := Option.map_eq_some_iff.1 hcall
    exact List.forall_mem_cons.2
      ⟨List.mem_of_getElem? hr, List.forall_mem_singleton.2 (List.mem_of_getElem? hq)⟩
  | meetAll places =>
    obtain ⟨found, hfound, rfl⟩ := Option.map_eq_some_iff.1 h
    exact mem_of_mapM_getElem? hfound

theorem resolve_map (f : κ → μ) :
    call.resolve (rs.map f) = (call.resolve rs).map (map f) := by
  cases call with
  | construct | universal | ofNames | ofOptional | ofText | top | bottom => rfl
  | copy i | copyValue i =>
    simp only [resolve, List.getElem?_map]
    cases rs[i]? <;> rfl
  | intersection i j | union i j | meet i j | join i j =>
    simp only [resolve, List.getElem?_map]
    cases rs[i]? <;> cases rs[j]? <;> rfl
  | meetAll places =>
    have hplaces : places.mapM ((rs.map f)[·]?) = (places.mapM (rs[·]?)).map (List.map f) := by
      induction places with
      | nil => rfl
      | cons i places ih =>
        simp only [List.mapM_cons, List.getElem?_map] at ih ⊢
        rw [ih]
        cases rs[i]? <;> cases places.mapM (rs[·]?) <;> rfl
    simp only [resolve, hplaces]
    cases places.mapM (rs[·]?) <;> rfl

end ContextCall

namespace ContextRecord

variable {rs : List ContextRecord} {nb : Notebook}

/-- A fold of intersections keeps the agreement from one record to the next. -/
theorem agrees_meetAll (h : ∀ r ∈ rs, r.WellFormed) (nb : Notebook) :
    Agrees (meetAll nb rs) (.ok (Context.lattice.meetAll (rs.map meaning))) := by
  suffices hfold : ∀ q : ContextRecord, q.WellFormed →
      Agrees (rs.foldlM (intersection nb) q)
        (.ok ((rs.map meaning).foldl Context.intersection q.meaning)) from
    hfold ⟨none, .universal⟩ wellFormed_universal
  induction rs with
  | nil => exact fun q hq => .ok hq
  | cons r rs ih =>
    intro q hq
    obtain ⟨hr, hrs⟩ := List.forall_mem_cons.1 h
    obtain ⟨p, hp, hwell, hmeaning⟩ := (Agrees.intersection hq hr nb).exists_of_ok
    have hrest := ih hrs p hwell
    rw [hmeaning] at hrest
    rw [List.foldlM_cons, hp]
    exact hrest

/-- Every call on well-formed records agrees with the one on contexts. -/
theorem answer_agrees {call : ContextCall ContextRecord} (h : ∀ r ∈ call.operands, r.WellFormed)
    (nb : Notebook) : Agrees (answer nb call) (Context.answer nb (call.map meaning)) := by
  cases call with
  | construct v k => exact construct_agrees nb v k
  | universal => exact .ok wellFormed_universal
  | ofNames names => exact ofNames_agrees nb names
  | ofOptional v => exact ofOptional_agrees nb v
  | ofText text => exact ofText_agrees nb text
  | copy r => exact .copy (h r (by simp [ContextCall.operands])) nb
  | intersection r q | meet r q =>
    exact .intersection (h r List.mem_cons_self) (h q (by simp [ContextCall.operands])) nb
  | union r q | join r q =>
    exact .union (h r List.mem_cons_self) (h q (by simp [ContextCall.operands])) nb
  | top => exact .ok wellFormed_universal
  | bottom => exact .ok (wellFormed_concrete fun v hv => absurd hv List.not_mem_nil)
  | meetAll rs => exact agrees_meetAll h nb
  | copyValue r => exact .copy (h r (by simp [ContextCall.operands])) nb

/-- One step keeps all records well formed and the two sessions together. -/
theorem obtainNext_meaning (h : ∀ r ∈ rs, r.WellFormed) (step : SessionStep) :
    (∀ r ∈ obtainNext answer rs step, r.WellFormed) ∧
    (obtainNext answer rs step).map meaning = obtainNext Context.answer (rs.map meaning) step := by
  unfold obtainNext
  rw [ContextCall.resolve_map]
  cases hcall : step.call.resolve rs with
  | none => exact ⟨h, rfl⟩
  | some call =>
    have hoperands := ContextCall.operands_of_resolve hcall
    have hagrees := answer_agrees (fun r hr => h r (hoperands r hr)) step.notebook
    simp only [Option.map_some]
    generalize answer step.notebook call = a at hagrees
    generalize Context.answer step.notebook (call.map meaning) = b at hagrees
    cases hagrees with
    | refused f => exact ⟨h, rfl⟩
    | ok hr =>
      exact ⟨List.forall_mem_append.2 ⟨h, List.forall_mem_singleton.2 hr⟩, List.map_append⟩

theorem obtained_meaning (steps : List SessionStep) :
    (∀ r ∈ obtained answer steps, r.WellFormed) ∧
    (obtained answer steps).map meaning = obtained Context.answer steps := by
  suffices hrun : ∀ rs : List ContextRecord, (∀ r ∈ rs, r.WellFormed) →
      (∀ r ∈ steps.foldl (obtainNext answer) rs, r.WellFormed) ∧
      (steps.foldl (obtainNext answer) rs).map meaning =
        steps.foldl (obtainNext Context.answer) (rs.map meaning) from
    hrun [] fun r hr => absurd hr List.not_mem_nil
  induction steps with
  | nil => exact fun rs h => ⟨h, rfl⟩
  | cons step steps ih =>
    intro rs h
    obtain ⟨hstep, hmeaning⟩ := obtainNext_meaning h step
    rw [List.foldl_cons, List.foldl_cons, ← hmeaning]
    exact ih _ hstep

/-- Two records answer as the contexts that they stand for, and nothing goes wrong. -/
structure Faithful (nb : Notebook) (r q : ContextRecord) : Prop where
  enables : ∀ x, r.enables (.str x) = .ok (r.meaning.enables x)
  isSubsetOf : r.isSubsetOf q = .ok (r.meaning.isSubsetOf q.meaning)
  equals : r.equals q = (r.meaning == q.meaning)
  copy : r.copy nb = .ok r
  intersection : ∃ p, r.intersection nb q = .ok p ∧ p.WellFormed ∧
    p.meaning = r.meaning.intersection q.meaning
  union : ∃ p, r.union nb q = .ok p ∧ p.WellFormed ∧ p.meaning = r.meaning.union q.meaning
  written : r.written = .ok r.meaning.written
  literal : r.literal nb = .ok r.meaning.literal

theorem WellFormed.faithful {r q : ContextRecord} (hr : r.WellFormed) (hq : q.WellFormed)
    (nb : Notebook) : Faithful nb r q where
  enables := hr.enables_eq
  isSubsetOf := hr.isSubsetOf_eq hq
  equals := hr.equals_eq hq
  copy := hr.copy_eq nb
  intersection := (Agrees.intersection hr hq nb).exists_of_ok
  union := (Agrees.union hr hq nb).exists_of_ok
  written := hr.written_eq
  literal := hr.literal_eq nb

/-- **All records that calls obtain are well formed, and nothing goes wrong with them.** After any
session the set of each record is missing exactly when its kind is universal and otherwise holds
distinct texts, and the records stand for the contexts that the session obtains. Any further call on
them yields a well-formed record or is refused for the reason for which the one on contexts is, so
no set is missing where it is needed. Membership of a name, order, equality, copy, intersection and
union have their results, and so have the written and the literal form, which need sorting. -/
theorem obtained_faithful (steps : List SessionStep) :
    (∀ r ∈ obtained answer steps, r.WellFormed) ∧
    (obtained answer steps).map meaning = obtained Context.answer steps ∧
    (∀ (nb : Notebook) (call : ContextCall ContextRecord),
      (∀ r ∈ call.operands, r ∈ obtained answer steps) →
      Agrees (answer nb call) (Context.answer nb (call.map meaning))) ∧
    ∀ r ∈ obtained answer steps, ∀ q ∈ obtained answer steps, ∀ nb, Faithful nb r q := by
  obtain ⟨hwell, hmeaning⟩ := obtained_meaning steps
  refine ⟨hwell, hmeaning, fun nb call hoperands => ?_, fun r hr q hq nb => ?_⟩
  · exact answer_agrees (fun r hr => hwell r (hoperands r hr)) nb
  · exact (hwell r hr).faithful (hwell q hq) nb

/-- A session whose third call is refused. -/
def refusedOnce : List SessionStep :=
  [⟨.empty, .construct (.sequence .iterator [.str "ui", .str "net", .str "ui"]) .concrete⟩,
    ⟨.empty, .ofText "\x7bui\x7d"⟩, ⟨.empty, .ofNames [.str "ui", .int 1]⟩,
    ⟨.empty, .intersection 0 1⟩, ⟨.empty, .meetAll []⟩]

theorem obtained_faithful_refusedOnce :
    (obtained answer refusedOnce).map meaning =
      [.of ["net", "ui"], .of ["ui"], .of ["ui"], .universal] ∧
    ∀ r ∈ obtained answer refusedOnce, r.WellFormed ∧
      Agrees (answer .empty (.meetAll [r, r])) (.ok (r.meaning.intersection r.meaning)) ∧
      r.written = .ok r.meaning.written := by
  obtain ⟨hwell, hmeaning, hcalls, hfaithful⟩ := obtained_faithful refusedOnce
  have hcontexts : obtained Context.answer refusedOnce =
      [.of ["net", "ui"], .of ["ui"], .of ["ui"], .universal] := by decide +kernel
  refine ⟨hmeaning.trans hcontexts, fun r hr => ⟨hwell r hr, ?_, ?_⟩⟩
  · exact hcalls .empty (.meetAll [r, r]) fun q hq => by
      obtain rfl : q = r := by simpa [ContextCall.operands] using hq
      exact hr
  · exact (hfaithful r hr r hr .empty).written

end ContextRecord

end FeatureLattice
