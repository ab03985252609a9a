import FeatureLattice.Proofs.Meaning
import FeatureLattice.Proofs.TextSets

/-!
# Contexts as records

A context can also be kept as a record of two fields, a set of values that may be missing and a
kind, and nothing in the type of the record ties the fields to one another or the set to texts. The
operations on such records can go wrong: the set can be missing where it is needed, elements can be
beyond comparison, and an element that is no text cannot be written as a name. A record is well
formed if its set is missing exactly when its kind is universal and holds nothing but texts. On
well-formed records every operation does what the one on contexts does, faults included, and
nothing goes wrong.
-/
namespace FeatureLattice

/-- A context as a record of its set and its kind. -/
structure ContextRecord where
  features : Option ValueSet
  kind : ContextKind

/-- Why an operation on records has no result. -/
inductive RecordFault where
  /-- What the record would be built from is refused. -/
  | refused (f : Fault)
  /-- The set of a record is needed and missing. -/
  | setMissing
  /-- Elements are to be sorted and two of them cannot be compared. -/
  | unordered
  /-- A name is to be written and is no text. -/
  | notText

namespace ContextRecord

/-- The concrete record of a set, if its elements are texts. -/
def ofTexts (nb : Notebook) (s : ValueSet) : Except Fault ContextRecord :=
  match s.elements.find? fun v => v.text?.isNone with
  | none => .ok ⟨some s, .concrete⟩
  | some v => .error (.reported (.featureName v (v.literal nb) ""))

/-- Build a record of the given kind from a value that yields its names. -/
def construct (nb : Notebook) (features : Value) : ContextKind → Except Fault ContextRecord
  | .universal =>
    match features with
    | .absent => .ok ⟨none, .universal⟩
    | v => do
      let s ← ValueSet.ofValue? v
      if s.isEmpty then .ok ⟨none, .universal⟩ else .error .universalWithNames
  | .concrete =>
    match features with
    | .absent => .error .namesMissing
    | .str x =>
      .error (.reported (.featureName (.str x) ((Value.str x).literal nb)
        "use FeatureContext.of(name) for a single feature"))
    | v => ValueSet.ofValue? v >>= ofTexts nb

/-- Build the universal record; its names are an empty tuple. -/
def universal (nb : Notebook) : Except Fault ContextRecord :=
  construct nb (.sequence .tuple []) .universal

/-- Build the concrete record of the given names. -/
def ofNames (nb : Notebook) (names : List Value) : Except Fault ContextRecord := do
  let s ← ValueSet.ofValue? (.sequence .tuple names)
  construct nb s.toValue .concrete

/-- Build a record from the nullable form, in which no value stands for the universal one. -/
def ofOptional (nb : Notebook) : Value → Except Fault ContextRecord
  | .absent => universal nb
  | v => construct nb v .concrete

/-- Build the record that an accepted text denotes. -/
def build (nb : Notebook) : List Char → Except Fault ContextRecord
  | '{' :: s =>
    construct nb (.sequence .list ((Context.readListing s).names.map Value.str)) .concrete
  | _ => universal nb

/-- Read a written context: the text is read to its end before a record is built. -/
def ofText (nb : Notebook) (text : String) : Except Fault ContextRecord :=
  match Context.read text with
  | .ok _ => build nb (Text.skipWhiteSpace text.toList)
  | .error r => .error (.reported (r.toError text))

/-- The set of a record, where there has to be one. -/
def set (r : ContextRecord) : Except RecordFault ValueSet :=
  match r.features with
  | some s => .ok s
  | none => .error .setMissing

/-- Build a concrete record from a set that an operation yields. -/
def ofSet (nb : Notebook) (v : Value) : Except RecordFault ContextRecord :=
  (construct nb v .concrete).mapError .refused

/-- Copy a record together with its set. -/
def copy (nb : Notebook) (r : ContextRecord) : Except RecordFault ContextRecord :=
  if r.kind = .universal then (universal nb).mapError .refused
  else do
    let s ← r.set
    let (v, nb) := s.toValue.copy nb
    ofSet nb v

def intersection (nb : Notebook) (r q : ContextRecord) : Except RecordFault ContextRecord :=
  if r.kind = .universal then q.copy nb
  else if q.kind = .universal then r.copy nb
  else do
    let s ← r.set
    let t ← q.set
    ofSet nb (s.intersection t).toValue

def union (nb : Notebook) (r q : ContextRecord) : Except RecordFault ContextRecord :=
  if r.kind = .universal then r.copy nb
  else if q.kind = .universal then q.copy nb
  else do
    let s ← r.set
    let t ← q.set
    ofSet nb (s.union t).toValue

/-- The top of the lattice of contexts is the universal record. -/
def top (nb : Notebook) : Except RecordFault ContextRecord := (universal nb).mapError .refused

/-- The bottom is built from the empty set. -/
def bottom (nb : Notebook) : Except RecordFault ContextRecord := ofSet nb ValueSet.empty.toValue

/-- The meet of a list of records, taken from the top in order. -/
def meetAll (nb : Notebook) (rs : List ContextRecord) : Except RecordFault ContextRecord := do
  let top ← top nb
  rs.foldlM (intersection nb) top

/-- Whether a value is an enabled feature. -/
def enables (r : ContextRecord) (v : Value) : Except RecordFault Bool :=
  if r.kind = .universal then .ok true
  else do
    let s ← r.set
    (s.lookup v).mapError .refused

def isSubsetOf (r q : ContextRecord) : Except RecordFault Bool :=
  if q.kind = .universal then .ok true
  else if r.kind = .universal then .ok false
  else do
    let s ← r.set
    let t ← q.set
    return s.isSubsetOf t

/-- Equality of records: of the kinds and, unless both are universal, of the sets. -/
def equals (r q : ContextRecord) : Bool :=
  r.kind = q.kind && (r.kind = .universal || r.features == q.features)

/-- Put elements in ascending order, if any two of them can be compared. -/
def sorted (elements : List Value) : Except RecordFault (List Value) :=
  if Value.allComparable elements then .ok (elements.mergeSort Value.notAfter)
  else .error .unordered

/-- The written form of an element as a name. -/
def writtenElement (v : Value) : Except RecordFault (List Char) :=
  match v.text? with
  | some x => .ok (Name.written x.toList)
  | none => .error .notText

/-- The written form of a record; a missing set counts as an empty one. -/
def written (r : ContextRecord) : Except RecordFault String :=
  if r.kind = .universal then .ok "*"
  else do
    let elements ← sorted (r.features.elim [] ValueSet.elements)
    let names ← elements.mapM writtenElement
    return String.ofList ('{' :: (Context.commaSeparated names ++ ['}']))

/-- The literal form of a record. -/
def literal (nb : Notebook) (r : ContextRecord) : Except RecordFault String :=
  if r.kind = .universal then .ok "FeatureContext.ALL"
  else if r.features.all ValueSet.isEmpty then .ok "FeatureContext.NONE"
  else do
    let s ← r.set
    let elements ← sorted s.elements
    return String.ofList ("FeatureContext.of(".toList ++
      Context.commaSeparated (elements.map fun v => (v.literal nb).toList) ++ [')'])

/-- A record as it should be: the set is missing exactly when the kind is universal, and otherwise
holds distinct elements, all of them texts. -/
structure WellFormed (r : ContextRecord) : Prop where
  features_eq_none_iff : r.features = none ↔ r.kind = .universal
  nodup : ∀ s, r.features = some s → s.elements.Nodup
  allTexts : ∀ s, r.features = some s → s.AllTexts

/-- The context that a record stands for. -/
def meaning (r : ContextRecord) : Context :=
  match r.features with
  | none => .universal
  | some s => .of s.texts

variable {r q : ContextRecord} {s t : ValueSet} {nb : Notebook}

theorem wellFormed_universal : WellFormed ⟨none, .universal⟩ where
  features_eq_none_iff := by simp
  nodup := by simp
  allTexts := by simp

theorem wellFormed_concrete (h : s.AllTexts) : WellFormed ⟨some s, .concrete⟩ where
  features_eq_none_iff := by simp
  nodup := by simpa using h.nodup
  allTexts := by simpa using h

/-- There are two forms of well-formed records. -/
theorem WellFormed.cases (h : r.WellFormed) :
    r = ⟨none, .universal⟩ ∨ ∃ s, s.AllTexts ∧ r = ⟨some s, .concrete⟩ := by
  obtain ⟨features, kind⟩ := r
  cases features with
  | none => exact .inl (congrArg _ (h.features_eq_none_iff.1 rfl))
  | some s =>
    refine .inr ⟨s, h.allTexts s rfl, congrArg _ ?_⟩
    cases kind with
    | concrete => rfl
    | universal => exact absurd (h.features_eq_none_iff.2 rfl) (by simp)

theorem meaning_concrete : meaning ⟨some s, .concrete⟩ = .of s.texts := rfl

/-- An answer on records is the one on contexts: a well-formed record that stands for the context,
or a refusal for the same reason. -/
inductive Agrees : Except RecordFault ContextRecord → Except Fault Context → Prop where
  | ok {r : ContextRecord} (h : r.WellFormed) : Agrees (.ok r) (.ok r.meaning)
  | refused (f : Fault) : Agrees (.error (.refused f)) (.error f)

theorem Agrees.exists_of_ok {r? : Except RecordFault ContextRecord} {c : Context}
    (h : Agrees r? (.ok c)) : ∃ r, r? = .ok r ∧ r.WellFormed ∧ r.meaning = c := by
  cases h with
  | ok hr => exact ⟨_, rfl, hr, rfl⟩

/-- The same step before both answers does not part them. -/
theorem Agrees.bind {α : Type} {a? : Except Fault α} {f : α → Except Fault ContextRecord}
    {g : α → Except Fault Context}
    (h : ∀ a, a? = .ok a → Agrees ((f a).mapError .refused) (g a)) :
    Agrees ((a? >>= f).mapError .refused) (a? >>= g) := by
  cases a? with
  | error e => exact .refused e
  | ok a => exact h a rfl

theorem ofTexts_eq (h : s.AllTexts) (nb : Notebook) : ofTexts nb s = .ok ⟨some s, .concrete⟩ := by
  have hfind : (s.elements.find? fun v => v.text?.isNone) = none :=
    List.find?_eq_none.2 fun v hv => by
      obtain ⟨x, rfl⟩ := h v hv
      simp [Value.text?]
  simp only [ofTexts, hfind]

/-- The set is refused for its first element that is no text, and otherwise kept. -/
theorem ofTexts_agrees (nb : Notebook) (s : ValueSet) :
    Agrees ((ofTexts nb s).mapError .refused)
      (match s.names? with
        | .ok names => .ok (.concrete names)
        | .error v => .error (.reported (.featureName v (v.literal nb) ""))) := by
  rw [ValueSet.names?_eq, ofTexts]
  cases hfind : s.elements.find? fun v => v.text?.isNone with
  | some v => exact .refused _
  | none => exact .ok (wellFormed_concrete (ValueSet.allTexts_of_find?_eq_none hfind))

theorem construct_agrees (nb : Notebook) (v : Value) (k : ContextKind) :
    Agrees ((construct nb v k).mapError .refused) (Context.construct nb v k) := by
  cases k with
  | universal =>
    -- Only whether the set that is read is empty matters.
    have hread (s : ValueSet) : Agrees
        ((if s.isEmpty then .ok ⟨none, .universal⟩ else .error .universalWithNames :
          Except Fault ContextRecord).mapError .refused)
        (if s.isEmpty then .ok .universal else .error .universalWithNames) := by
      cases s.isEmpty with
      | true => exact .ok wellFormed_universal
      | false => exact .refused .universalWithNames
    cases v with
    | absent => exact .ok wellFormed_universal
    | _ => exact .bind fun s _ => hread s
  | concrete =>
    cases v with
    | absent => exact .refused _
    | str x => exact .refused _
    | _ => exact .bind fun s _ => ofTexts_agrees nb s

/-- A set is not read anew. -/
theorem construct_toValue (h : ∀ v ∈ s.elements, v.obstacle? = none) (nb : Notebook) :
    construct nb s.toValue .concrete = ofTexts nb s := by
  have hconstruct : construct nb s.toValue .concrete =
      (ValueSet.ofValue? s.toValue >>= ofTexts nb) := rfl
  rw [hconstruct, ValueSet.ofValue?_toValue h]
  rfl

theorem ofSet_eq (h : s.AllTexts) (nb : Notebook) :
    ofSet nb s.toValue = .ok ⟨some s, .concrete⟩ := by
  rw [ofSet, construct_toValue (fun v hv => (h.isElement v hv).obstacle?_eq_none), ofTexts_eq h]
  rfl

theorem ofNames_agrees (nb : Notebook) (names : List Value) :
    Agrees ((ofNames nb names).mapError .refused) (Context.ofNames nb names) :=
  Agrees.bind fun s hs => by
    rw [construct_toValue (ValueSet.obstacle?_of_ofValue? hs)]
    exact ofTexts_agrees nb s

theorem ofOptional_agrees (nb : Notebook) (v : Value) :
    Agrees ((ofOptional nb v).mapError .refused) (Context.ofOptional nb v) := by
  have hgiven := construct_agrees nb v .concrete
  cases v with
  | absent => exact .ok wellFormed_universal
  | _ => exact hgiven

/-- Repetitions do not matter to the context of a list of names. -/
theorem of_distinct (names : List String) : Context.of (distinct names) = .of names :=
  Context.ext_enables fun x => by
    have hocc (xs : List String) : occursIn x xs = true ↔ x ∈ xs := by simp [occursIn_iff]
    rw [Context.enables_of, Context.enables_of, decide_eq_true_eq, decide_eq_true_eq,
      ← hocc, ← hocc, occursIn_distinct]

/-- The record is built from all the names that were read, in order and with repetitions. -/
theorem build_agrees (nb : Notebook) {s rest : List Char} {c : Context}
    (h : Context.readTerm s = .ok (c, rest)) :
    Agrees ((build nb s).mapError .refused) (.ok c) := by
  unfold Context.readTerm at h
  split at h
  · cases h
    exact .ok wellFormed_universal
  · rename_i s
    dsimp only at h
    split at h
    · cases h
      rw [← of_distinct, ← Context.construct_texts nb]
      exact construct_agrees nb (.sequence .list ((Context.readListing s).names.map .str)) .concrete
    · cases h
  · cases h

theorem ofText_agrees (nb : Notebook) (text : String) :
    Agrees ((ofText nb text).mapError .refused) (Context.ofText text) := by
  unfold ofText Context.ofText
  cases hread : Context.read text with
  | error r => exact .refused _
  | ok c =>
    simp only [Context.read, Context.readAll] at hread
    cases hterm : Context.readTerm (Text.skipWhiteSpace text.toList) with
    | error left => simp [hterm] at hread
    | ok found =>
      obtain ⟨d, rest⟩ := found
      have hsame : d = c := by
        simp only [hterm] at hread
        cases hend : Text.skipWhiteSpace rest <;> simp_all
      exact build_agrees nb (hsame ▸ hterm)

/-- A well-formed record is its own copy. -/
theorem WellFormed.copy_eq (h : r.WellFormed) (nb : Notebook) : r.copy nb = .ok r := by
  obtain rfl | ⟨s, hs, rfl⟩ := h.cases
  · rfl
  · simp only [copy, set, hs.copy_eq nb, bind, Except.bind]
    exact ofSet_eq hs nb

theorem enables_of_texts (s : ValueSet) (x : String) :
    (Context.of s.texts).enables x = s.contains (.str x) := by
  rw [Context.enables_of, Bool.eq_iff_iff, decide_eq_true_eq, ValueSet.contains_str_iff]

theorem of_texts_intersection (s t : ValueSet) :
    Context.of (s.intersection t).texts = (Context.of s.texts).intersection (.of t.texts) :=
  Context.ext_enables fun x => by
    rw [Context.enables_intersection, enables_of_texts, enables_of_texts, enables_of_texts,
      ValueSet.contains_intersection]

theorem of_texts_union (s t : ValueSet) :
    Context.of (s.union t).texts = (Context.of s.texts).union (.of t.texts) :=
  Context.ext_enables fun x => by
    rw [Context.enables_union, enables_of_texts, enables_of_texts, enables_of_texts,
      ValueSet.contains_union]

theorem Agrees.copy (h : r.WellFormed) (nb : Notebook) : Agrees (r.copy nb) (.ok r.meaning) :=
  h.copy_eq nb ▸ .ok h

theorem Agrees.intersection (hr : r.WellFormed) (hq : q.WellFormed) (nb : Notebook) :
    Agrees (r.intersection nb q) (.ok (r.meaning.intersection q.meaning)) := by
  obtain rfl | ⟨s, hs, rfl⟩ := hr.cases
  · exact .copy hq nb
  · obtain rfl | ⟨t, ht, rfl⟩ := hq.cases
    · exact .copy hr nb
    · have hst := hs.intersection ht
      have hset : ContextRecord.intersection nb ⟨some s, .concrete⟩ ⟨some t, .concrete⟩ =
          .ok ⟨some (s.intersection t), .concrete⟩ := ofSet_eq hst nb
      rw [hset, meaning_concrete, meaning_concrete, ← of_texts_intersection]
      exact .ok (wellFormed_concrete hst)

theorem Agrees.union (hr : r.WellFormed) (hq : q.WellFormed) (nb : Notebook) :
    Agrees (r.union nb q) (.ok (r.meaning.union q.meaning)) := by
  obtain rfl | ⟨s, hs, rfl⟩ := hr.cases
  · exact .copy hr nb
  · obtain rfl | ⟨t, ht, rfl⟩ := hq.cases
    · exact .copy hq nb
    · have hst := hs.union ht
      have hset : ContextRecord.union nb ⟨some s, .concrete⟩ ⟨some t, .concrete⟩ =
          .ok ⟨some (s.union t), .concrete⟩ := ofSet_eq hst nb
      rw [hset, meaning_concrete, meaning_concrete, ← of_texts_union]
      exact .ok (wellFormed_concrete hst)

theorem sorted_eq (h : s.AllTexts) :
    sorted s.elements = .ok ((NameSet.ofList s.texts).names.map Value.str) := by
  rw [sorted, if_pos h.allComparable, h.mergeSort_eq]

theorem WellFormed.enables_eq (h : r.WellFormed) (x : String) :
    r.enables (.str x) = .ok (r.meaning.enables x) := by
  obtain rfl | ⟨s, hs, rfl⟩ := h.cases
  · rfl
  · rw [meaning_concrete, enables_of_texts]
    rfl

theorem WellFormed.isSubsetOf_eq (hr : r.WellFormed) (hq : q.WellFormed) :
    r.isSubsetOf q = .ok (r.meaning.isSubsetOf q.meaning) := by
  obtain rfl | ⟨t, ht, rfl⟩ := hq.cases
  · cases r.meaning <;> rfl
  · obtain rfl | ⟨s, hs, rfl⟩ := hr.cases
    · rfl
    · have hsame : s.isSubsetOf t = (Context.of s.texts).isSubsetOf (.of t.texts) := by
        rw [Bool.eq_iff_iff, Context.isSubsetOf_iff, hs.isSubsetOf_iff]
        simp only [enables_of_texts]
      exact congrArg _ hsame

theorem WellFormed.equals_eq (hr : r.WellFormed) (hq : q.WellFormed) :
    r.equals q = (r.meaning == q.meaning) := by
  obtain rfl | ⟨s, hs, rfl⟩ := hr.cases
  · obtain rfl | ⟨t, ht, rfl⟩ := hq.cases <;> rfl
  · obtain rfl | ⟨t, ht, rfl⟩ := hq.cases
    · rfl
    · have hequals : equals ⟨some s, .concrete⟩ ⟨some t, .concrete⟩ = (s == t) := rfl
      have hsets : (s == t) = true ↔ Context.of s.texts = .of t.texts := by
        rw [hs.beq_iff ht]
        simp only [← enables_of_texts]
        exact ⟨fun h => Context.ext_enables fun x => by rw [h x], fun h x => by rw [h]⟩
      rw [hequals, meaning_concrete, meaning_concrete]
      exact Bool.eq_iff_iff.2 (hsets.trans beq_iff_eq.symm)

theorem mapM_writtenElement (names : List String) :
    (names.map Value.str).mapM writtenElement =
      .ok (names.map fun x => Name.written x.toList) := by
  rw [List.mapM_map]
  exact List.mapM_pure

theorem WellFormed.written_eq (h : r.WellFormed) : r.written = .ok r.meaning.written := by
  obtain rfl | ⟨s, hs, rfl⟩ := h.cases
  · rfl
  · simp only [written, Option.elim_some, sorted_eq hs, bind, Except.bind, mapM_writtenElement]
    rfl

theorem WellFormed.literal_eq (h : r.WellFormed) (nb : Notebook) :
    r.literal nb = .ok r.meaning.literal := by
  obtain rfl | ⟨s, hs, rfl⟩ := h.cases
  · rfl
  · have hempty : s.isEmpty = true ↔ (NameSet.ofList s.texts).names = [] := by
      rw [ValueSet.isEmpty, hs.elements_eq, List.isEmpty_iff, List.map_eq_nil_iff]
      simp only [List.eq_nil_iff_forall_not_mem, NameSet.mem_names, NameSet.mem_ofList]
    have hquoted : (fun x : String => ((Value.str x).literal nb).toList) =
        fun x => Text.quoteChars x.toList := funext fun x => String.toList_ofList
    have hliteral : (Context.of s.texts).literal = String.ofList
        (if (NameSet.ofList s.texts).names = [] then "FeatureContext.NONE".toList
        else "FeatureContext.of(".toList ++ Context.commaSeparated
          ((NameSet.ofList s.texts).names.map fun x => Text.quoteChars x.toList) ++ [')']) := rfl
    rw [meaning_concrete, hliteral]
    by_cases hnames : (NameSet.ofList s.texts).names = []
    · rw [if_pos hnames]
      simp [literal, hempty.2 hnames]
    · rw [if_neg hnames, ← hquoted]
      have hmore : s.isEmpty = false := Bool.eq_false_iff.2 (mt hempty.1 hnames)
      simp only [literal, reduceCtorEq, if_false, Option.all_some, hmore, Bool.false_eq_true, set,
        bind, Except.bind, sorted_eq hs, List.map_map]
      rfl

end ContextRecord

end FeatureLattice
