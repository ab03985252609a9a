import FeatureLattice.Proofs.ContextRecord
import FeatureLattice.Proofs.SetEquality

/-!
# Hashes agree with equality

Sets and tables look values up by their hashes: two values are compared only if these are the same.
So looking up asks for the test `==` and nothing else only if equal values have equal hashes. This
is shown of the elements of sets, along their nesting, for all ways to hash plain values and to
combine the hashes of items. Numbers are hashed by value, a set by the hashes of its elements in
whatever order, a concrete context as the set of its names. Membership, the choice of elements when
a set is filled and the places of keys then come out as if nothing were hashed.
-/
namespace FeatureLattice

/-- Of unequal values that are equal to those of another list, each to one, those of the other list
can be put in the same order. -/
theorem Unequal.exists_perm_forall₂ {α : Type} [BEq α] [PartialEquivBEq α] {xs ys : List α}
    (hxs : Unequal xs) (hys : Unequal ys) (hxy : ∀ x ∈ xs, ∃ y ∈ ys, (x == y) = true)
    (hyx : ∀ y ∈ ys, ∃ x ∈ xs, (x == y) = true) :
    ∃ zs : List α, zs.Perm ys ∧ List.Forall₂ (fun x z => (x == z) = true) xs zs := by
  induction xs generalizing ys with
  | nil =>
    have hnone : ys = [] := List.eq_nil_iff_forall_not_mem.2 fun y hy => by simpa using hyx y hy
    exact ⟨[], by rw [hnone], .nil⟩
  | cons x xs ih =>
    obtain ⟨hx, hxs⟩ := List.pairwise_cons.1 hxs
    obtain ⟨y, hy, hxy'⟩ := hxy x List.mem_cons_self
    obtain ⟨before, after, rfl⟩ := List.append_of_mem hy
    have hmiddle : (y :: (before ++ after)).Perm (before ++ y :: after) := List.perm_middle.symm
    obtain ⟨hy, hrest⟩ := List.pairwise_cons.1 (hys.perm hmiddle)
    -- Nothing else equals `x` or `y`, so both can be left out.
    have hxrest : ∀ a ∈ xs, ∃ b ∈ before ++ after, (a == b) = true := by
      intro a ha
      obtain ⟨b, hb, hab⟩ := hxy a (List.mem_cons_of_mem x ha)
      rcases List.mem_cons.1 (hmiddle.mem_iff.2 hb) with rfl | hb
      · have hxa : (x == a) = true := BEq.trans hxy' (BEq.symm hab)
        simp [hx a ha] at hxa
      · exact ⟨b, hb, hab⟩
    have hyrest : ∀ b ∈ before ++ after, ∃ a ∈ xs, (a == b) = true := by
      intro b hb
      obtain ⟨a, ha, hab⟩ := hyx b (hmiddle.mem_iff.1 (List.mem_cons_of_mem y hb))
      rcases List.mem_cons.1 ha with rfl | ha
      · have hyb : (y == b) = true := BEq.trans (BEq.symm hxy') hab
        simp [hy b hb] at hyb
      · exact ⟨a, ha, hab⟩
    obtain ⟨zs, hperm, hzs⟩ := ih hxs hrest hxrest hyrest
    exact ⟨y :: zs, (hperm.cons y).trans hmiddle, .cons hxy' hzs⟩

/-- How values are hashed: plain values by their kinds, numbers by value, tuples from the hashes of
their items in order and sets from those of their elements, where the order has no influence. -/
structure Hashing where
  absent : Int
  number : Extended → Int
  str : String → Int
  bytes : List UInt8 → Int
  universal : Int
  kind : ContextKind → Int
  lattice : NamedLattice → Int
  tuple : List Int → Int
  set : List Int → Int
  set_perm : ∀ {hs ks : List Int}, hs.Perm ks → set hs = set ks

namespace Hashing

variable (h : Hashing)

/-- The hash of a context: that of the set of its names, unless it is the universal one. -/
def context : Context → Int
  | .universal => h.universal
  | .concrete s => h.set (s.names.map h.str)

mutual

/-- The hash of a value that can be an element of a set. A tag is hashed by its name. -/
def hash : Value → Int
  | .absent => h.absent
  | .number n => h.number n.value
  | .str s => h.str s
  | .bytes bs => h.bytes bs
  | .context c => h.context c
  | .kind k => h.kind k
  | .lattice l => h.lattice l
  | .tag t => h.str t.name
  | .sequence _ items => h.tuple (itemHashes items)
  | .collection _ items => h.set (itemHashes items)
  termination_by structural v => v

def itemHashes : List Value → List Int
  | [] => []
  | v :: vs => hash v :: itemHashes vs
  termination_by structural vs => vs

end

theorem itemHashes_eq_map (vs : List Value) : h.itemHashes vs = vs.map h.hash := by
  induction vs with
  | nil => rfl
  | cons v vs ih => rw [itemHashes, ih, List.map_cons]

theorem itemHashes_congr {vs ws : List Value}
    (hvs : ∀ v ∈ vs, ∀ w ∈ ws, (v == w) = true → h.hash v = h.hash w)
    (hvw : List.Forall₂ (fun v w => (v == w) = true) vs ws) :
    h.itemHashes vs = h.itemHashes ws := by
  induction hvw with
  | nil => rfl
  | @cons v w vs ws hvw _ ih =>
    have hhead := hvs v List.mem_cons_self w List.mem_cons_self hvw
    have htail := ih fun a ha b hb =>
      hvs a (List.mem_cons_of_mem v ha) b (List.mem_cons_of_mem w hb)
    rw [itemHashes, itemHashes, hhead, htail]

/-- **Equal elements have equal hashes.** -/
theorem hash_congr {v w : Value} (hv : v.IsElement) (hw : w.IsElement) (hvw : (v == w) = true) :
    h.hash v = h.hash w := by
  replace hvw : Value.same v w = true := hvw
  induction hv generalizing w with
  | number m =>
    cases hw with
    | number n => exact congrArg h.number (Number.beq_iff.1 hvw)
    | _ => cases hvw
  | @tuple vs _ ih =>
    cases hw with
    | @tuple ws hws =>
      obtain ⟨-, -, hitems⟩ := Value.same_sequence_iff.1 hvw
      have hhashes := h.itemHashes_congr (fun v hv w hw => ih v hv (hws w hw)) hitems
      exact congrArg h.tuple hhashes
    | _ => cases hvw
  | @collection form vs _ hvs _ ih =>
    cases hw with
    | @collection form' ws _ hws hws' =>
      obtain ⟨-, hleft, hright⟩ := Value.same_collection_iff.1 hvw
      obtain ⟨zs, hperm, hzs⟩ := hvs.exists_perm_forall₂ hws hleft hright
      have hhashes : h.itemHashes vs = h.itemHashes zs :=
        h.itemHashes_congr (fun v hv z hz => ih v hv (hws' z (hperm.mem_iff.1 hz))) hzs
      have hsorted : (h.itemHashes zs).Perm (h.itemHashes ws) := by
        rw [itemHashes_eq_map, itemHashes_eq_map]
        exact hperm.map h.hash
      exact (congrArg h.set hhashes).trans (h.set_perm hsorted)
    | _ => cases hvw
  | _ => cases hw <;> simp_all [Value.same, hash]

/-! ## Looking up by hash -/

/-- Whether a table finds the first value when it looks for the second: the two are compared only if
their hashes are the same. -/
def finds (v w : Value) : Bool := h.hash v == h.hash w && v == w

variable {v w : Value} {vs : List Value}

theorem finds_eq (hv : v.IsElement) (hw : w.IsElement) : h.finds v w = (v == w) := by
  unfold finds
  cases hvw : v == w with
  | false => rw [Bool.and_false]
  | true => rw [h.hash_congr hv hw hvw, beq_self_eq_true, Bool.and_true]

theorem any_finds (hv : v.IsElement) (hvs : ∀ w ∈ vs, w.IsElement) :
    vs.any (h.finds · v) = occursIn v vs := by
  rw [Bool.eq_iff_iff, List.any_eq_true, occursIn_iff]
  exact exists_congr fun w => and_congr_right fun hw => by rw [h.finds_eq (hvs w hw) hv]

theorem findIdx?_finds (hv : v.IsElement) (hvs : ∀ w ∈ vs, w.IsElement) :
    vs.findIdx? (h.finds · v) = vs.findIdx? (· == v) := by
  induction vs with
  | nil => rfl
  | cons w vs ih =>
    obtain ⟨hw, hvs⟩ := List.forall_mem_cons.1 hvs
    rw [List.findIdx?_cons, List.findIdx?_cons, h.finds_eq hw hv, ih hvs]

/-- The elements that a set has in the end if each value is first looked up by its hash. -/
theorem distinct_finds (hvs : ∀ v ∈ vs, v.IsElement) :
    @distinct Value ⟨h.finds⟩ vs = distinct vs := by
  suffices hfold : ∀ seen : List Value, (∀ v ∈ seen, v.IsElement) →
      vs.foldl (@addNew Value ⟨h.finds⟩) seen = vs.foldl addNew seen from hfold [] nofun
  induction vs with
  | nil => exact fun _ _ => rfl
  | cons v vs ih =>
    intro seen hseen
    obtain ⟨hv, hvs⟩ := List.forall_mem_cons.1 hvs
    have hstep : @addNew Value ⟨h.finds⟩ seen v = addNew seen v := by
      have hocc : @occursIn Value ⟨h.finds⟩ v seen = occursIn v seen := h.any_finds hv hseen
      exact congrArg (fun found : Bool => if found then seen else seen ++ [v]) hocc
    have hseen' : ∀ w ∈ addNew seen v, w.IsElement := by
      intro w hw
      have hfold : w ∈ [v].foldl addNew seen := hw
      rcases mem_of_mem_foldl_addNew hfold with hw | hw
      · exact hseen w hw
      · exact List.mem_singleton.1 hw ▸ hv
    rw [List.foldl_cons, List.foldl_cons, hstep, ih hvs _ hseen']

/-- **Looking up by hash is looking up by equality.** For sets of elements and elements as keys,
membership, the elements that stay when a set is filled, and the places of keys are those that a
table with hashes gives. -/
theorem lookup_by_hash :
    (∀ (a : ValueSet) (v : Value), (∀ w ∈ a.elements, w.IsElement) → v.IsElement →
      a.contains v = a.elements.any (h.finds · v)) ∧
    (∀ vs : List Value, (∀ v ∈ vs, v.IsElement) →
      (ValueSet.ofList vs).elements = @distinct Value ⟨h.finds⟩ vs) ∧
    ∀ keys : List Value, (∀ v ∈ keys, v.IsElement) →
      Value.group keys = .ok (keys.zipIdx.map fun p =>
        ((keys.take p.2).findIdx? (h.finds · p.1)).getD p.2) := by
  refine ⟨fun a v ha hv => (h.any_finds hv ha).symm, fun vs hvs => (h.distinct_finds hvs).symm, ?_⟩
  intro keys hkeys
  have hfree : Value.firstObstacle? keys = none :=
    Value.firstObstacle?_eq_none fun v hv => (hkeys v hv).obstacle?_eq_none
  simp only [Value.group, hfree]
  refine congrArg _ (List.map_congr_left fun p hp => ?_)
  have hv : p.1.IsElement := hkeys p.1 (List.fst_mem_of_mem_zipIdx hp)
  rw [h.findIdx?_finds hv fun w hw => hkeys w (List.mem_of_mem_take hw)]

end Hashing

namespace ContextRecord

variable {h : Hashing} {r q : ContextRecord}

/-- The hash of a record is that of its set, unless it is universal. -/
def hash (h : Hashing) (r : ContextRecord) : Int :=
  if r.kind = .universal then h.universal
  else r.features.elim h.absent fun s => h.hash s.toValue

/-- A well-formed record is hashed as the context that it stands for. -/
theorem WellFormed.hash_eq (hr : r.WellFormed) : r.hash h = h.context r.meaning := by
  obtain rfl | ⟨s, hs, rfl⟩ := hr.cases
  · rfl
  · let names := (NameSet.ofList s.texts).names
    have hnames : s.elements.Perm (names.map Value.str) :=
      hs.mergeSort_eq ▸ (List.mergeSort_perm s.elements Value.notAfter).symm
    have hhashes : (h.itemHashes s.elements).Perm (names.map h.str) := by
      have hmap := hnames.map h.hash
      rwa [List.map_map, ← h.itemHashes_eq_map] at hmap
    exact h.set_perm hhashes

/-- **Equal records have equal hashes.** -/
theorem WellFormed.hash_congr (h : Hashing) (hr : r.WellFormed) (hq : q.WellFormed)
    (hequal : r.equals q = true) : r.hash h = q.hash h := by
  rw [hr.equals_eq hq] at hequal
  rw [hr.hash_eq, hq.hash_eq, eq_of_beq hequal]

end ContextRecord

end FeatureLattice
