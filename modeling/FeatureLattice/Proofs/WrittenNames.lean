import FeatureLattice.Proofs.NameGrammar
import Mathlib.Data.List.Basic

/-!
# Written names delimit themselves

Names stand in front of other text, and nothing tells a reader in advance where they end. A quoted
name ends at its own closing mark, whatever follows it. A bare name goes on as long as it can, so
it ends where the following text could not continue it. Hence the written form of a name can be
told apart from what follows, and a written name in front of a quoted one is that name itself.
-/
namespace FeatureLattice.Name

variable {m n s t text name : List Char}

/-- A spelling that starts with a quotation mark is a quoted one. -/
theorem Spelling.exists_quotedBody (h : Spelling text name) (hquote : text.head? = some '"') :
    ∃ body, text = '"' :: (body ++ ['"']) ∧ QuotedBody body name := by
  cases h with
  | bare hc _ =>
    obtain rfl := Option.some.inj hquote
    exact absurd (isBareStart_iff.2 hc) (by decide)
  | quoted hbody => exact ⟨_, rfl, hbody⟩

theorem Spelling.ne_nil (h : Spelling text name) : text ≠ [] := by
  cases h <;> exact List.cons_ne_nil _ _

theorem endsBare_nil : EndsBare [] := by simp [EndsBare]

/-- In front of a text that cannot continue a bare name, the written form of a name is read back. -/
theorem read_written_append (n : List Char) (hs : EndsBare s) :
    read (written n ++ s) = some (n, s) :=
  read_append (spelling_written n) hs

/-- A quoted written form is read back in front of any text. -/
theorem read_written_append_of_quoted (hquote : (written n).head? = some '"') (s : List Char) :
    read (written n ++ s) = some (n, s) := by
  obtain ⟨body, hwritten, hbody⟩ := (spelling_written n).exists_quotedBody hquote
  rw [hwritten]
  exact read_quoted_append hbody s

/-- Written names and what follows them can be told apart. -/
theorem written_append_inj (hs : EndsBare s) (ht : EndsBare t)
    (h : written m ++ s = written n ++ t) : m = n ∧ s = t := by
  have hm := read_written_append m hs
  rw [h, read_written_append n ht] at hm
  exact Prod.mk.inj (Option.some.inj hm.symm)

theorem written_injective : Function.Injective written := by
  intro m n h
  have happend : written m ++ [] = written n ++ [] := by rw [h]
  exact (written_append_inj endsBare_nil endsBare_nil happend).1

/-- A written name in front of a quoted one starts with the same quotation mark, so it is quoted as
well and ends at the same closing mark. -/
theorem eq_of_written_isPrefix (hquote : (written n).head? = some '"')
    (h : written m <+: written n) : m = n := by
  obtain ⟨rest, hrest⟩ := h
  have hquote' : (written m).head? = some '"' := by
    rwa [← hrest, List.head?_append_of_ne_nil _ (spelling_written m).ne_nil] at hquote
  have hm := read_written_append_of_quoted hquote' rest
  have hn := read_written_append_of_quoted hquote []
  rw [List.append_nil, ← hrest, hm] at hn
  exact (Prod.mk.inj (Option.some.inj hn)).1

/-- **Written names delimit themselves.** In front of any text that cannot continue a bare name, the
reader takes the written form of a name, no more and no less, and decodes it to the name. So no two
names are written alike, and no written name is the beginning of another one that is quoted. -/
theorem writtenName_delimits :
    (∀ n s : String, EndsBare s.toList →
      read (writtenName n ++ s).toList = some (n.toList, s.toList)) ∧
    Function.Injective writtenName ∧
    ∀ m n : String, m ≠ n → (writtenName n).toList.head? = some '"' →
      ¬ (writtenName m).toList <+: (writtenName n).toList := by
  have hchars (n : String) : (writtenName n).toList = written n.toList := by
    rw [writtenName, String.toList_ofList]
  refine ⟨fun n s hs => ?_, fun m n h => ?_, fun m n hne hquote h => ?_⟩
  · rw [String.toList_append, hchars]
    exact read_written_append n.toList hs
  · have htexts : written m.toList = written n.toList := by rw [← hchars, h, hchars]
    exact String.toList_injective (written_injective htexts)
  · rw [hchars] at hquote h
    rw [hchars] at h
    exact hne (String.toList_injective (eq_of_written_isPrefix hquote h))

/-- A name of a backslash, a line feed and a quotation mark in front of one more mark, and a bare
name in front of a comma. The backslash alone is no beginning of the first. -/
theorem writtenName_delimits_strange :
    EndsBare "\"\x7d".toList ∧ EndsBare ", b".toList ∧
    read (writtenName "\\\n\"" ++ "\"\x7d").toList = some ("\\\n\"".toList, "\"\x7d".toList) ∧
    read (writtenName "a-1" ++ ", b").toList = some ("a-1".toList, ", b".toList) ∧
    ¬ (writtenName "\\").toList <+: (writtenName "\\\n\"").toList := by
  obtain ⟨hread, -, hprefix⟩ := writtenName_delimits
  have hmark : EndsBare "\"\x7d".toList := by
    intro c hc
    obtain rfl := Option.some.inj hc
    exact fun h => absurd (isBareRest_iff.2 h) (by decide)
  have hcomma : EndsBare ", b".toList := by
    intro c hc
    obtain rfl := Option.some.inj hc
    exact fun h => absurd (isBareRest_iff.2 h) (by decide)
  exact ⟨hmark, hcomma, hread _ _ hmark, hread _ _ hcomma, hprefix _ _ (by decide) (by decide)⟩

end FeatureLattice.Name
