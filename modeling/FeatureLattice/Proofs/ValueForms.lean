import FeatureLattice.Proofs.ContextForms
import FeatureLattice.Proofs.SetListing

/-!
# Literal forms tell values apart

The first letters of a literal form tell its kind. A form that others stand behind, as in a tuple or
a set, tells where it ends: numbers at the next stop, which is a comma or a closing bracket, all
other forms by themselves. So a form can be read from the front, and values with the same form are
equal.
-/
namespace FeatureLattice

namespace Text

/-- The character with the code of a byte. -/
theorem toNat_ofNat_byte (b : UInt8) : (Char.ofNat b.toNat).toNat = b.toNat := by
  have hlt : b.toNat < 256 := b.toNat_lt
  have hvalid : b.toNat.isValidChar := .inl (by omega)
  rw [Char.toNat_ofNat, if_pos hvalid]

/-- A byte is read back as the character with its code. -/
theorem readEscaped_escapeByteWithin {quote : Char} (hquote : quote = '\'' ∨ quote = '"')
    (b : UInt8) (s : List Char) :
    readEscaped (escapeByteWithin quote b ++ s) = some (Char.ofNat b.toNat, s) := by
  have hcode := readEscaped_escapeCode (Char.ofNat b.toNat) s
  rw [toNat_ofNat_byte] at hcode
  unfold escapeByteWithin
  split
  · exact readEscaped_escapeWithin hquote _ s
  · exact hcode

theorem startsApart_escapeByteWithin {quote : Char} (hquote : quote = '\'' ∨ quote = '"') :
    StartsApart (escapeByteWithin quote) quote := by
  have hback : '\\' ≠ quote := by
    rcases hquote with rfl | rfl <;> decide
  intro b
  unfold escapeByteWithin
  split
  · exact startsApart_escapeWithin hquote _
  · obtain ⟨w, hw⟩ := escapeCode_eq_cons b.toNat
    exact ⟨'\\', w, hw, hback⟩

/-- A quoted byte string tells where it ends and which bytes it quotes. -/
theorem selfDelimiting_quoteBytes :
    SelfDelimiting fun bs : List UInt8 => (quoteBytes bs).toList := by
  let quote (bs : List UInt8) : Char := quoteFor (bs.map fun b => Char.ofNat b.toNat)
  have hchars (bs : List UInt8) (s : List Char) : (quoteBytes bs).toList ++ s =
      'b' :: quote bs :: (bs.flatMap (escapeByteWithin (quote bs)) ++ [quote bs] ++ s) := by
    rw [quoteBytes, String.toList_ofList]
    rfl
  intro as bs s t he
  rw [hchars, hchars] at he
  have hquote : quote as = quote bs := (List.cons.inj (List.cons.inj he).2).1
  have hrest := (List.cons.inj (List.cons.inj he).2).2
  rw [← hquote] at hrest
  have hcode : SelfDelimiting (escapeByteWithin (quote as)) := by
    intro a b s t h
    have hread := congrArg readEscaped h
    rw [readEscaped_escapeByteWithin (quoteFor_eq _), readEscaped_escapeByteWithin (quoteFor_eq _),
      Option.some_inj] at hread
    obtain ⟨hchar, hst⟩ := Prod.mk.inj hread
    have hcode : a.toNat = b.toNat := by rw [← toNat_ofNat_byte a, hchar, toNat_ofNat_byte]
    exact ⟨UInt8.toNat_inj.1 hcode, hst⟩
  exact hcode.flatMap (startsApart_escapeByteWithin (quoteFor_eq _)) hrest

end Text

namespace Value

variable {v w : Value} {xs ys : List Value} {s t : List Char}

/-- What can stand behind a literal form inside a larger one. -/
def IsStop (c : Char) : Prop := c = ',' ∨ c = ')' ∨ c = '}'

/-- Nothing follows, or a stop does. -/
def Stops (s : List Char) : Prop := ∀ c ∈ s.head?, IsStop c

/-- Kinds of literal forms. -/
inductive FormKind where
  | absent
  | number
  | str
  | bytes
  | context
  | tuple
  | valueSet

/-- The kind of the literal form at the front of a text, as its first letters tell. -/
def FormKind.ofFront? : List Char → Option FormKind
  | 'N' :: _ => some .absent
  | '\'' :: _ => some .str
  | '"' :: _ => some .str
  | 'b' :: _ => some .bytes
  | 'F' :: 'e' :: _ => some .context
  | '(' :: _ => some .tuple
  | 'V' :: _ => some .valueSet
  | ',' :: _ => none
  | ')' :: _ => none
  | '}' :: _ => none
  | [] => none
  | _ => some .number

/-- The kind of a listable value's literal form. -/
def formKind? : Value → Option FormKind
  | absent => some .absent
  | number _ => some .number
  | str _ => some .str
  | bytes _ => some .bytes
  | context _ => some .context
  | sequence .tuple _ => some .tuple
  | collection .valueSet _ => some .valueSet
  | _ => none

theorem ofFront?_numeral {c : Char} (h : IsNumeral c) (s : List Char) :
    FormKind.ofFront? (c :: s) = some .number := by
  -- No letter that another kind starts with is a numeral.
  have hother {d : Char} (hd : ¬ IsNumeral d) : c ≠ d := fun he => hd (he ▸ h)
  unfold FormKind.ofFront?
  split
  any_goals rfl
  all_goals
    rename_i he
    cases he <;> exact absurd rfl (hother (by decide))

theorem ofFront?_number (n : Number) (s : List Char) :
    FormKind.ofFront? (n.text.toList ++ s) = some .number := by
  rcases n.text_cases with ⟨b, rfl⟩ | ⟨hne, hnumerals⟩
  · cases b <;> rfl
  · cases htext : n.text.toList with
    | nil => exact absurd htext hne
    | cons c cs => exact ofFront?_numeral (hnumerals c (by simp [htext])) (cs ++ s)

variable (nb : Notebook)

/-- The characters of a literal form. -/
def formChars (v : Value) : List Char := (v.literal nb).toList

/-- The forms of items behind a first one. -/
def moreForms (xs : List Value) : List Char := xs.flatMap fun v => ',' :: ' ' :: formChars nb v

theorem toList_listed_literals (v : Value) (xs : List Value) :
    (listed ((v :: xs).map fun v => v.literal nb)).toList = formChars nb v ++ moreForms nb xs := by
  rw [Context.toList_listed (g := formChars nb) (fun _ => rfl), List.map_cons,
    Context.commaSeparated_cons, List.flatMap_map, moreForms]

/-- What stands behind the first item of a tuple: if it is the only one, it keeps a comma. -/
def tupleEnd : List Value → List Char
  | [] => [',', ')']
  | v :: xs => moreForms nb (v :: xs) ++ [')']

theorem itemLiterals_eq_map (xs : List Value) : itemLiterals nb xs = xs.map fun v => v.literal nb := by
  induction xs with
  | nil => rfl
  | cons v xs ih => rw [itemLiterals, ih, List.map_cons]

theorem formChars_absent : formChars nb absent = ['N', 'o', 'n', 'e'] := by
  rw [formChars, literal]
  rfl

theorem formChars_tuple_nil : formChars nb (sequence .tuple []) = ['(', ')'] := by
  rw [formChars, literal, itemLiterals]
  decide

theorem formChars_tuple_cons (v : Value) (xs : List Value) :
    formChars nb (sequence .tuple (v :: xs)) = '(' :: (formChars nb v ++ tupleEnd nb xs) := by
  rw [formChars, literal, itemLiterals_eq_map]
  cases xs with
  | nil =>
    have hopen : sequenceLiteral .tuple ([v].map fun v => v.literal nb) =
        "(" ++ v.literal nb ++ ",)" := rfl
    rw [hopen]
    simp [formChars, tupleEnd]
  | cons w xs =>
    have hopen : sequenceLiteral .tuple ((v :: w :: xs).map fun v => v.literal nb) =
        "(" ++ listed ((v :: w :: xs).map fun v => v.literal nb) ++ ")" := rfl
    rw [hopen, String.toList_append, String.toList_append, toList_listed_literals]
    simp [tupleEnd]

theorem formChars_valueSet_nil :
    formChars nb (collection .valueSet []) = "ValueSet(".toList ++ [')'] := by
  rw [formChars, literal_valueSet, if_pos rfl]
  decide

theorem formChars_valueSet {v : Value} (h : listing nb ys = v :: xs) :
    formChars nb (collection .valueSet ys) =
      "ValueSet(".toList ++ '{' :: (formChars nb v ++ (moreForms nb xs ++ ['}', ')'])) := by
  have hne : ys ≠ [] := by
    rintro rfl
    exact absurd ((listing_perm nb []).symm.trans (.of_eq h)) (by simp)
  rw [formChars, literal_valueSet, if_neg hne, h, String.toList_append, String.toList_append,
    toList_listed_literals]
  simp

/-- Every literal form shows its kind in front, whatever follows. -/
theorem IsListable.ofFront?_formChars (hv : v.IsListable) (s : List Char) :
    FormKind.ofFront? (formChars nb v ++ s) = v.formKind? := by
  cases hv with
  | absent =>
    rw [formChars_absent]
    rfl
  | @number n _ => exact ofFront?_number n s
  | str x =>
    have hchars : formChars nb (.str x) = Text.quoteChars x.toList := String.toList_ofList
    rw [hchars, Text.quoteChars]
    rcases Text.quoteFor_eq x.toList with h | h <;> rw [h] <;> rfl
  | bytes bs =>
    rw [formChars, literal, Text.quoteBytes, String.toList_ofList]
    rfl
  | context c =>
    rw [formChars, literal, Context.toList_literal]
    rfl
  | @tuple items _ =>
    cases items with
    | nil =>
      rw [formChars_tuple_nil]
      rfl
    | cons v items =>
      rw [formChars_tuple_cons]
      rfl
  | @valueSet items _ _ =>
    cases hlisting : listing nb items with
    | nil =>
      obtain rfl : items = [] := List.nil_perm.1 (hlisting ▸ listing_perm nb items)
      rw [formChars_valueSet_nil]
      rfl
    | cons v rest =>
      rw [formChars_valueSet nb hlisting]
      rfl

/-- The literal form of a value in front of a text tells, up to equality, of which value it is, and
where the rest of the text starts. -/
def Delimits (v : Value) : Prop := ∀ ⦃w : Value⦄ ⦃s t : List Char⦄, w.IsListable → Stops s →
  Stops t → formChars nb v ++ s = formChars nb w ++ t → same v w = true ∧ s = t

theorem stops_nil : Stops [] := by
  intro c hc
  cases hc

theorem stops_cons {c : Char} (h : IsStop c) (s : List Char) : Stops (c :: s) := by
  intro d hd
  exact Option.some.inj hd ▸ h

theorem stops_moreForms {stop : Char} (h : IsStop stop) (xs : List Value) (s : List Char) :
    Stops (moreForms nb xs ++ stop :: s) := by
  cases xs with
  | nil => exact stops_cons h s
  | cons v xs => exact stops_cons (.inl rfl) _

/-- No literal form starts with a stop. -/
theorem IsListable.formChars_ne_stop {stop : Char} (hv : v.IsListable) (h : IsStop stop) :
    formChars nb v ++ s ≠ stop :: t := by
  intro he
  have hfront := hv.ofFront?_formChars nb s
  rw [he] at hfront
  rcases h with rfl | rfl | rfl <;> cases hv <;> cases hfront

/-- Forms behind stops end where a stop stands that is no comma. -/
theorem moreForms_delimit {stop : Char} (hstop : IsStop stop) (hcomma : stop ≠ ',')
    (hxs : ∀ v ∈ xs, Delimits nb v) (hys : ∀ w ∈ ys, w.IsListable)
    (h : moreForms nb xs ++ stop :: s = moreForms nb ys ++ stop :: t) :
    List.Forall₂ (fun v w => same v w = true) xs ys ∧ s = t := by
  induction xs generalizing ys with
  | nil =>
    cases ys with
    | nil => exact ⟨.nil, (List.cons.inj h).2⟩
    | cons w ys => exact absurd (List.cons.inj h).1 hcomma
  | cons v xs ih =>
    cases ys with
    | nil => exact absurd (List.cons.inj h).1.symm hcomma
    | cons w ys =>
      have hforms : formChars nb v ++ (moreForms nb xs ++ stop :: s) =
          formChars nb w ++ (moreForms nb ys ++ stop :: t) := by
        simpa [moreForms] using h
      obtain ⟨hvw, hrest⟩ := hxs v List.mem_cons_self (hys w List.mem_cons_self)
        (stops_moreForms nb hstop xs s) (stops_moreForms nb hstop ys t) hforms
      obtain ⟨hitems, hst⟩ := ih (fun u hu => hxs u (List.mem_cons_of_mem v hu))
        (fun u hu => hys u (List.mem_cons_of_mem w hu)) hrest
      exact ⟨.cons hvw hitems, hst⟩

theorem stops_tupleEnd (xs : List Value) (s : List Char) : Stops (tupleEnd nb xs ++ s) := by
  cases xs with
  | nil => exact stops_cons (.inl rfl) _
  | cons v xs => exact stops_cons (.inl rfl) _

theorem tupleEnd_delimits (hxs : ∀ v ∈ xs, Delimits nb v) (hys : ∀ w ∈ ys, w.IsListable)
    (h : tupleEnd nb xs ++ s = tupleEnd nb ys ++ t) :
    List.Forall₂ (fun v w => same v w = true) xs ys ∧ s = t := by
  -- Behind a comma there is a blank before an item, and none before the end.
  cases xs with
  | nil =>
    cases ys with
    | nil => exact ⟨.nil, List.append_cancel_left h⟩
    | cons w ys => cases h
  | cons v xs =>
    cases ys with
    | nil => cases h
    | cons w ys =>
      rw [tupleEnd, tupleEnd, List.append_assoc, List.append_assoc] at h
      exact moreForms_delimit nb (.inr (.inl rfl)) (by decide) hxs hys h

/-- Texts without stops end at the first stop. -/
theorem append_cancel_of_stops {p q : List Char} (hp : ∀ c ∈ p, ¬ IsStop c)
    (hq : ∀ c ∈ q, ¬ IsStop c) (hs : Stops s) (ht : Stops t) (h : p ++ s = q ++ t) :
    p = q ∧ s = t := by
  induction p generalizing q with
  | nil =>
    cases q with
    | nil => exact ⟨rfl, h⟩
    | cons d q =>
      have hstop : IsStop d := hs d (by simp [show s = d :: (q ++ t) from h])
      exact absurd hstop (hq d List.mem_cons_self)
  | cons c p ih =>
    cases q with
    | nil =>
      have hstop : IsStop c := ht c (by simp [show t = c :: (p ++ s) from h.symm])
      exact absurd hstop (hp c List.mem_cons_self)
    | cons d q =>
      obtain ⟨rfl, hrest⟩ := List.cons.inj h
      obtain ⟨rfl, hst⟩ := ih (fun e he => hp e (List.mem_cons_of_mem c he))
        (fun e he => hq e (List.mem_cons_of_mem c he)) hrest
      exact ⟨rfl, hst⟩

theorem not_isStop_of_mem_text (n : Number) : ∀ c ∈ n.text.toList, ¬ IsStop c := by
  intro c hc hstop
  rcases n.text_cases with ⟨b, rfl⟩ | ⟨-, hnumerals⟩
  · rcases hstop with rfl | rfl | rfl <;> cases b <;> exact absurd hc (by decide)
  · have hnumeral := hnumerals c hc
    rcases hstop with rfl | rfl | rfl <;> exact absurd hnumeral (by decide)

theorem IsListable.formKind?_eq (hv : v.IsListable) (hw : w.IsListable)
    (h : formChars nb v ++ s = formChars nb w ++ t) : v.formKind? = w.formKind? := by
  rw [← hv.ofFront?_formChars nb s, h, hw.ofFront?_formChars]

/-- Sets are equal if they list equal items. -/
theorem same_of_listing
    (h : List.Forall₂ (fun v w => same v w = true) (listing nb xs) (listing nb ys)) :
    same (collection .valueSet xs) (collection .valueSet ys) = true := by
  refine same_collection_iff.2 ⟨rfl, fun v hv => ?_, fun w hw => ?_⟩
  · obtain ⟨w, hw, hvw⟩ := exists_of_forall₂_left h ((listing_perm nb xs).mem_iff.2 hv)
    exact ⟨w, (listing_perm nb ys).mem_iff.1 hw, hvw⟩
  · obtain ⟨v, hv, hvw⟩ := exists_of_forall₂_right h ((listing_perm nb ys).mem_iff.2 hw)
    exact ⟨v, (listing_perm nb xs).mem_iff.1 hv, hvw⟩

theorem delimits_tuple (hlist : ∀ v ∈ xs, v.IsListable) (hxs : ∀ v ∈ xs, Delimits nb v) :
    Delimits nb (sequence .tuple xs) := by
  intro w s t hw hs ht h
  have hkind := (IsListable.tuple hlist).formKind?_eq nb hw h
  cases hw with
  | @tuple ys hys =>
    rw [same_tuple, sameItems_iff]
    cases xs with
    | nil =>
      cases ys with
      | nil => exact ⟨.nil, List.append_cancel_left h⟩
      | cons w ys =>
        simp only [formChars_tuple_nil, formChars_tuple_cons, List.cons_append, List.append_assoc] at h
        exact absurd (List.cons.inj h).2.symm
          ((hys w List.mem_cons_self).formChars_ne_stop nb (.inr (.inl rfl)))
    | cons v xs =>
      cases ys with
      | nil =>
        simp only [formChars_tuple_nil, formChars_tuple_cons, List.cons_append, List.append_assoc] at h
        exact absurd (List.cons.inj h).2
          ((hlist v List.mem_cons_self).formChars_ne_stop nb (.inr (.inl rfl)))
      | cons w ys =>
        simp only [formChars_tuple_cons, List.cons_append, List.append_assoc] at h
        obtain ⟨hvw, hrest⟩ := hxs v List.mem_cons_self (hys w List.mem_cons_self)
          (stops_tupleEnd nb xs s) (stops_tupleEnd nb ys t) (List.cons.inj h).2
        obtain ⟨hitems, hst⟩ := tupleEnd_delimits nb (fun u hu => hxs u (List.mem_cons_of_mem v hu))
          (fun u hu => hys u (List.mem_cons_of_mem w hu)) hrest
        exact ⟨.cons hvw hitems, hst⟩
  | _ => cases hkind

theorem delimits_valueSet (hunequal : Unequal xs) (hlist : ∀ v ∈ xs, v.IsListable)
    (hxs : ∀ v ∈ xs, Delimits nb v) : Delimits nb (collection .valueSet xs) := by
  intro w s t hw hs ht h
  have hkind := (IsListable.valueSet hunequal hlist).formKind?_eq nb hw h
  cases hw with
  | @valueSet ys _ hys =>
    have hnil (zs : List Value) (hzs : listing nb zs = []) : zs = [] :=
      List.nil_perm.1 (hzs ▸ listing_perm nb zs)
    suffices hitems : List.Forall₂ (fun v w => same v w = true) (listing nb xs) (listing nb ys) ∧
        s = t from ⟨same_of_listing nb hitems.1, hitems.2⟩
    cases hleft : listing nb xs with
    | nil =>
      obtain rfl := hnil xs hleft
      cases hright : listing nb ys with
      | nil =>
        obtain rfl := hnil ys hright
        exact ⟨.nil, List.append_cancel_left h⟩
      | cons w more =>
        rw [formChars_valueSet_nil, formChars_valueSet nb hright, List.append_assoc,
          List.append_assoc] at h
        cases List.append_cancel_left h
    | cons v rest =>
      cases hright : listing nb ys with
      | nil =>
        obtain rfl := hnil ys hright
        rw [formChars_valueSet_nil, formChars_valueSet nb hleft, List.append_assoc,
          List.append_assoc] at h
        cases List.append_cancel_left h
      | cons w more =>
        rw [formChars_valueSet nb hleft, formChars_valueSet nb hright, List.append_assoc,
          List.append_assoc] at h
        have hforms : moreForms nb (v :: rest) ++ '}' :: ')' :: s =
            moreForms nb (w :: more) ++ '}' :: ')' :: t := by
          simpa [moreForms] using List.append_cancel_left h
        obtain ⟨hitems, hst⟩ := moreForms_delimit nb (.inr (.inr rfl)) (by decide)
          (fun u hu => hxs u ((listing_perm nb xs).mem_iff.1 (hleft ▸ hu)))
          (fun u hu => hys u ((listing_perm nb ys).mem_iff.1 (hright ▸ hu))) hforms
        exact ⟨hitems, (List.cons.inj hst).2⟩
  | _ => cases hkind

theorem IsListable.delimits (hv : v.IsListable) : Delimits nb v := by
  induction hv with
  | tuple hitems ih => exact delimits_tuple nb hitems ih
  | valueSet hunequal hitems ih => exact delimits_valueSet nb hunequal hitems ih
  | absent =>
    intro w s t hw _ _ h
    have hkind := IsListable.absent.formKind?_eq nb hw h
    cases hw with
    | absent => exact ⟨rfl, List.append_cancel_left h⟩
    | _ => cases hkind
  | @number a ha =>
    intro w s t hw hs ht h
    have hkind := (IsListable.number ha).formKind?_eq nb hw h
    cases hw with
    | @number b hb =>
      obtain ⟨htext, hst⟩ := append_cancel_of_stops (not_isStop_of_mem_text a)
        (not_isStop_of_mem_text b) hs ht h
      have hvalue := Number.value_eq_of_text ha hb (String.toList_injective htext)
      exact ⟨Number.beq_iff.2 hvalue, hst⟩
    | _ => cases hkind
  | str x =>
    intro w s t hw _ _ h
    have hkind := (IsListable.str x).formKind?_eq nb hw h
    cases hw with
    | str y =>
      have hchars (z : String) : formChars nb (.str z) = Text.quoteChars z.toList :=
        String.toList_ofList
      rw [hchars, hchars] at h
      obtain ⟨hxy, hst⟩ := Text.selfDelimiting_quoteChars h
      exact ⟨decide_eq_true (String.toList_injective hxy), hst⟩
    | _ => cases hkind
  | bytes as =>
    intro w s t hw _ _ h
    have hkind := (IsListable.bytes as).formKind?_eq nb hw h
    cases hw with
    | bytes bs =>
      obtain ⟨hbytes, hst⟩ := Text.selfDelimiting_quoteBytes h
      exact ⟨decide_eq_true hbytes, hst⟩
    | _ => cases hkind
  | context c =>
    intro w s t hw _ _ h
    have hkind := (IsListable.context c).formKind?_eq nb hw h
    cases hw with
    | context d =>
      obtain ⟨hcd, hst⟩ := Context.selfDelimiting_literal h
      exact ⟨decide_eq_true hcd, hst⟩
    | _ => cases hkind

/-- Listable values with the same literal form are equal. -/
theorem IsListable.same_of_literal (hv : v.IsListable) (hw : w.IsListable)
    (h : v.literal nb = w.literal nb) : same v w = true := by
  have hchars : formChars nb v ++ [] = formChars nb w ++ [] := by
    rw [formChars, formChars, h]
  exact (hv.delimits nb hw stops_nil stops_nil hchars).1

end Value

end FeatureLattice
