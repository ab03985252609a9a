import FeatureLattice.Proofs.ContextSession
import FeatureLattice.Proofs.QuotedText
import FeatureLattice.Proofs.WrittenForm

/-!
# Forms identify contexts

A context has two forms as a text, a written and a literal one. Both list the enabled names in
ascending order, so they do not depend on how the context was built. And from both the list of names
can be told: from the written form because the reader takes the names off it again, from the
literal one because quoted names delimit themselves. So contexts are equal when they have the same
form, whichever of the two is looked at.
-/
namespace FeatureLattice

namespace Context

/-- The written form of a concrete context with the given names. -/
def writtenOf (names : List String) : String :=
  "\x7b" ++ listed (names.map writtenName) ++ "\x7d"

/-- The literal form of a concrete context with the given names. -/
def literalOf (names : List String) : String :=
  if names = [] then "FeatureContext.NONE"
  else "FeatureContext.of(" ++ listed (names.map Text.quote) ++ ")"

/-- A list of names that is to be found in both forms of a context, as no other list is: the enabled
names in ascending order, each once. -/
structure Lists (c : Context) (names : List String) : Prop where
  ascending : names.Pairwise (· < ·)
  mem_iff : ∀ x, x ∈ names ↔ c.enables x = true
  written_iff : ∀ found, c.written = writtenOf found ↔ found = names
  literal_iff : ∀ found, c.literal = literalOf found ↔ found = names

variable {names : List String}

theorem toList_listed {α : Type} {f : α → String} {g : α → List Char} (h : ∀ x, (f x).toList = g x)
    (xs : List α) : (listed (xs.map f)).toList = commaSeparated (xs.map g) := by
  simp [listed, commaSeparated, Function.comp_def, h]

theorem toList_writtenOf (names : List String) :
    (writtenOf names).toList =
      '{' :: (commaSeparated (names.map fun x => Name.written x.toList) ++ ['}']) := by
  have hnames : (listed (names.map writtenName)).toList =
      commaSeparated (names.map fun x => Name.written x.toList) :=
    toList_listed (fun _ => String.toList_ofList) names
  simp [writtenOf, hnames]

theorem toList_literalOf (h : names ≠ []) :
    (literalOf names).toList = "FeatureContext.of(".toList ++
      (commaSeparated (names.map fun x => Text.quoteChars x.toList) ++ [')']) := by
  have hnames : (listed (names.map Text.quote)).toList =
      commaSeparated (names.map fun x => Text.quoteChars x.toList) :=
    toList_listed (fun _ => String.toList_ofList) names
  simp [literalOf, h, hnames]

theorem written_concrete (s : NameSet) : (concrete s).written = writtenOf s.names := by
  apply String.toList_injective
  rw [toList_writtenOf, written, String.toList_ofList, writtenChars]

theorem literal_universal : universal.literal = "FeatureContext.ALL" := by
  have hliteral : universal.literal = String.ofList "FeatureContext.ALL".toList := rfl
  rw [hliteral, String.ofList_toList]

theorem literal_concrete (s : NameSet) : (concrete s).literal = literalOf s.names := by
  -- Opened by hand: the literals make the equations of the definition slow to unfold.
  have hliteral : (concrete s).literal = String.ofList
      (if s.names = [] then "FeatureContext.NONE".toList
      else "FeatureContext.of(".toList ++
        commaSeparated (s.names.map fun x => Text.quoteChars x.toList) ++ [')']) := rfl
  rw [hliteral]
  by_cases h : s.names = []
  · rw [if_pos h, literalOf, if_pos h, String.ofList_toList]
  · apply String.toList_injective
    rw [if_neg h, toList_literalOf h, String.toList_ofList, List.append_assoc]

/-- The reader takes a written list of names off again. -/
theorem names_readListing_written (names : List String) :
    (readListing (commaSeparated (names.map fun x => Name.written x.toList) ++ ['}'])).names =
      names := by
  cases names with
  | nil => rfl
  | cons x names =>
    let more := (names.flatMap fun x => ',' :: ' ' :: Name.written x.toList) ++ ['}']
    have hend : ListingEnd more names := listingEnd_written names
    have hspelling := Name.spelling_written x.toList
    have hsplit : commaSeparated ((x :: names).map fun x => Name.written x.toList) ++ ['}'] =
        Name.written x.toList ++ more := by
      simp [more, commaSeparated_cons, List.flatMap_map]
    have hskip : Text.skipWhiteSpace (Name.written x.toList ++ more) =
        Name.written x.toList ++ more :=
      Text.skipWhiteSpace_append (w := []) blank_nil hspelling.flush
    have hread : Name.read (Text.skipWhiteSpace (Name.written x.toList ++ more)) =
        some (x.toList, more) := by
      rw [hskip]
      exact Name.read_append hspelling (by simpa using hend.endsBare [])
    have hmore : (readMore more).names = names := by
      simpa using (readMore_append hend []).1
    rw [hsplit, readListing_of_name hread, names_cons, hmore, String.ofList_toList]

theorem writtenOf_injective : Function.Injective writtenOf := by
  intro names names' h
  have hchars := congrArg String.toList h
  rw [toList_writtenOf, toList_writtenOf] at hchars
  have hlisting := congrArg (fun s => (readListing s).names) (List.cons.inj hchars).2
  simpa only [names_readListing_written] using hlisting

/-- Words with a comma and a blank between them delimit themselves up to a stop that is no comma. -/
theorem selfDelimiting_commaSeparated {α : Type} {code : α → List Char} {stop : Char}
    (h : SelfDelimiting code) (hstop : StartsApart code stop) (hcomma : ',' ≠ stop) :
    SelfDelimiting fun as : List α => commaSeparated (as.map code) ++ [stop] := by
  have hmore : SelfDelimiting fun as : List α =>
      as.flatMap (fun a => [',', ' '] ++ code a) ++ [stop] :=
    (h.append_left [',', ' ']).flatMap fun a => ⟨',', ' ' :: code a, rfl, hcomma⟩
  have hfirst : ∀ a (as : List α) s, commaSeparated ((a :: as).map code) ++ [stop] ++ s =
      code a ++ (as.flatMap (fun a => [',', ' '] ++ code a) ++ [stop] ++ s) := by
    intro a as s
    simp [commaSeparated_cons, List.flatMap_map]
  have hnone : ∀ s, commaSeparated (([] : List α).map code) ++ [stop] ++ s = stop :: s :=
    fun _ => rfl
  have hapart : ∀ a (as : List α) s t,
      stop :: t ≠ commaSeparated ((a :: as).map code) ++ [stop] ++ s := by
    intro a as s t he
    obtain ⟨c, w, ha, hc⟩ := hstop a
    rw [hfirst, ha] at he
    exact hc (List.cons.inj he).1.symm
  intro as bs s t he
  cases as with
  | nil =>
    cases bs with
    | nil => simpa [hnone] using he
    | cons b bs => exact absurd ((hnone s).symm.trans he) (hapart b bs t s)
  | cons a as =>
    cases bs with
    | nil => exact absurd ((hnone t).symm.trans he.symm) (hapart a as s t)
    | cons b bs =>
      rw [hfirst, hfirst] at he
      obtain ⟨rfl, hrest⟩ := h he
      obtain ⟨rfl, hst⟩ := hmore hrest
      exact ⟨rfl, hst⟩

/-- So do the quoted names of a literal form, up to its closing parenthesis. -/
theorem selfDelimiting_quotedNames : SelfDelimiting fun names : List String =>
    commaSeparated (names.map fun x => Text.quoteChars x.toList) ++ [')'] := by
  have hstart : StartsApart (fun x : String => Text.quoteChars x.toList) ')' := by
    intro x
    refine ⟨_, _, rfl, ?_⟩
    rcases Text.quoteFor_eq x.toList with h | h <;> simp [h]
  have hquoted : SelfDelimiting fun x : String => Text.quoteChars x.toList := by
    intro x y s t h
    obtain ⟨hxy, hst⟩ := Text.selfDelimiting_quoteChars h
    exact ⟨String.toList_injective hxy, hst⟩
  exact selfDelimiting_commaSeparated hquoted hstart (by decide)

/-- Names show in a literal form: the one without names is a word of its own. -/
theorem literalOf_nil_ne (h : names ≠ []) : literalOf [] ≠ literalOf names := by
  intro he
  have hchars := congrArg String.toList he
  rw [toList_literalOf h] at hchars
  simp [literalOf] at hchars

theorem literalOf_injective : Function.Injective literalOf := by
  intro names names' h
  by_cases hn : names = []
  · subst hn
    by_contra hne
    exact literalOf_nil_ne (Ne.symm hne) h
  · by_cases hn' : names' = []
    · subst hn'
      exact absurd h.symm (literalOf_nil_ne hn)
    · have hchars := congrArg String.toList h
      rw [toList_literalOf hn, toList_literalOf hn'] at hchars
      exact selfDelimiting_quotedNames.injective (List.append_cancel_left hchars)

/-- What stands behind the name of the class in the literal form of a context. -/
def literalEnd : Context → List Char
  | universal => ['A', 'L', 'L']
  | concrete s =>
    if s.names = [] then ['N', 'O', 'N', 'E']
    else 'o' :: 'f' :: '(' :: (commaSeparated (s.names.map fun x => Text.quoteChars x.toList) ++ [')'])

theorem toList_literal (c : Context) :
    c.literal.toList = "FeatureContext.".toList ++ c.literalEnd := by
  cases c with
  | universal =>
    rw [literal_universal]
    rfl
  | concrete s =>
    rw [literal_concrete, literalEnd]
    by_cases h : s.names = []
    · rw [if_pos h, literalOf, if_pos h]
      rfl
    · rw [if_neg h, toList_literalOf h]
      rfl

theorem names_injective {s t : NameSet} (h : s.names = t.names) : s = t :=
  NameSet.ext_mem fun x => by rw [← NameSet.mem_names, h, NameSet.mem_names]

/-- The literal form of a context tells where it ends and of which context it is. -/
theorem selfDelimiting_literal : SelfDelimiting fun c : Context => c.literal.toList := by
  simp only [toList_literal]
  refine SelfDelimiting.append_left (fun c d u v he => ?_) _
  -- The three kinds of form differ in their first letters.
  cases c with
  | universal =>
    cases d with
    | universal => exact ⟨rfl, List.append_cancel_left he⟩
    | concrete t =>
      rw [literalEnd, literalEnd] at he
      split at he <;> cases he
  | concrete s =>
    cases d with
    | universal =>
      rw [literalEnd, literalEnd] at he
      split at he <;> cases he
    | concrete t =>
      rw [literalEnd, literalEnd] at he
      by_cases hs : s.names = []
      · rw [if_pos hs] at he
        by_cases ht : t.names = []
        · rw [if_pos ht] at he
          exact ⟨congrArg concrete (names_injective (hs.trans ht.symm)), List.append_cancel_left he⟩
        · rw [if_neg ht] at he
          cases he
      · rw [if_neg hs] at he
        by_cases ht : t.names = []
        · rw [if_pos ht] at he
          cases he
        · rw [if_neg ht] at he
          obtain ⟨hnames, huv⟩ :=
            selfDelimiting_quotedNames.append_left ['o', 'f', '('] (a := s.names) (b := t.names) he
          exact ⟨congrArg concrete (names_injective hnames), huv⟩

theorem written_injective : Function.Injective written := by
  intro c d h
  have hread : (Except.ok c : Except Rejection Context) = .ok d := by
    rw [← read_written c, ← read_written d, h]
  exact Except.ok.inj hread

theorem literal_injective : Function.Injective literal := by
  intro c d h
  exact selfDelimiting_literal.injective (congrArg String.toList h)

/-- The names of a concrete context are the one list that its forms show. -/
theorem lists_names (s : NameSet) : (concrete s).Lists s.names where
  ascending := s.ascending
  mem_iff _ := enables_concrete.symm
  written_iff found := by
    rw [written_concrete, writtenOf_injective.eq_iff, eq_comm]
  literal_iff found := by
    rw [literal_concrete, literalOf_injective.eq_iff, eq_comm]

end Context

namespace ContextRecord

/-- **Contexts are equal when their written forms are, and when their literal forms are.** Both
forms of a concrete context list the enabled names in strictly ascending order, and no other list of
names has that form. The same is true of records that calls obtain, whatever the session: they have
both forms, these are the forms of the contexts that they stand for, and they tell which records are
equal. -/
theorem forms_identify :
    (∀ c d : Context, ((c == d) = true ↔ c.written = d.written) ∧
      ((c == d) = true ↔ c.literal = d.literal)) ∧
    (∀ s : NameSet, ∃ names, (Context.concrete s).Lists names) ∧
    ∀ steps, ∀ r ∈ obtained answer steps, ∀ q ∈ obtained answer steps, ∀ nb,
      Faithful nb r q ∧ (r.kind = .concrete → ∃ names, r.meaning.Lists names) ∧
      (r.equals q = true ↔ r.written = q.written) ∧
      (r.equals q = true ↔ r.literal nb = q.literal nb) := by
  have hwritten : ∀ c d : Context, (c == d) = true ↔ c.written = d.written := by
    intro c d
    rw [beq_iff_eq, Context.written_injective.eq_iff]
  have hliteral : ∀ c d : Context, (c == d) = true ↔ c.literal = d.literal := by
    intro c d
    rw [beq_iff_eq, Context.literal_injective.eq_iff]
  refine ⟨fun c d => ⟨hwritten c d, hliteral c d⟩, fun s => ⟨_, Context.lists_names s⟩, ?_⟩
  intro steps r hr q hq nb
  have hwell := (obtained_meaning steps).1
  have hrq := (hwell r hr).faithful (hwell q hq) nb
  have hqr := (hwell q hq).faithful (hwell r hr) nb
  refine ⟨hrq, fun hkind => ?_, ?_, ?_⟩
  · obtain rfl | ⟨s, -, rfl⟩ := (hwell r hr).cases
    · cases hkind
    · exact ⟨_, Context.lists_names (.ofList s.texts)⟩
  · rw [hrq.equals, hwritten, hrq.written, hqr.written, Except.ok.injEq]
  · rw [hrq.equals, hliteral, hrq.literal, hqr.literal, Except.ok.injEq]

/-- The same names from a list with a repetition and from a text in another order. -/
def twoOrders : List SessionStep :=
  [⟨.empty, .construct (.sequence .list [.str "it's", .str "\"no\"", .str "it's"]) .concrete⟩,
    ⟨.empty, .ofText "\x7b\"\\\"no\\\"\", \"it's\"\x7d"⟩]

/-- Both records have one literal form, with a quote of its own kind around each name. -/
theorem forms_identify_twoOrders :
    ∃ r q, obtained answer twoOrders = [r, q] ∧ r.equals q = true ∧
      r.literal .empty = .ok "FeatureContext.of('\"no\"', \"it's\")" ∧
      q.literal .empty = r.literal .empty := by
  have hcontexts : obtained Context.answer twoOrders =
      [.of ["\"no\"", "it's"], .of ["\"no\"", "it's"]] := by
    decide +kernel
  have hform : (Context.of ["\"no\"", "it's"]).literal =
      "FeatureContext.of('\"no\"', \"it's\")" := by
    decide +kernel
  have hmeaning := (obtained_meaning twoOrders).2
  rw [hcontexts] at hmeaning
  obtain ⟨r, rest, hobtained, hr, hrest⟩ := List.map_eq_cons_iff.1 hmeaning
  obtain ⟨q, rest, rfl, hq, hnone⟩ := List.map_eq_cons_iff.1 hrest
  obtain rfl := List.map_eq_nil_iff.1 hnone
  obtain ⟨-, -, hrecords⟩ := forms_identify
  obtain ⟨hfaithful, -, -, hliteral⟩ :=
    hrecords twoOrders r (by simp [hobtained]) q (by simp [hobtained]) .empty
  have hequal : r.equals q = true := by
    rw [hfaithful.equals, hr, hq]
    exact beq_self_eq_true _
  refine ⟨r, q, hobtained, hequal, ?_, (hliteral.1 hequal).symm⟩
  rw [hfaithful.literal, hr, hform]

end ContextRecord

end FeatureLattice
