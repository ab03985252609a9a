/-!
# Tables by key

A list of pairs is read as a table: a key stands where it came first, with the value it had last.
-/
namespace FeatureLattice

variable {α : Type}

/-- Give a key a value, in its old place or at the end. -/
def putKey (table : List (String × α)) (key : String) (a : α) : List (String × α) :=
  if key ∈ table.map Prod.fst then table.map fun (k, b) => if k = key then (k, a) else (k, b)
  else table ++ [(key, a)]

/-- The table of a list of pairs. -/
def keyed (pairs : List (String × α)) : List (String × α) :=
  pairs.foldl (fun table (key, a) => putKey table key a) []

theorem map_fst_putKey (table : List (String × α)) (key : String) (a : α) :
    (putKey table key a).map Prod.fst =
      if key ∈ table.map Prod.fst then table.map Prod.fst else table.map Prod.fst ++ [key] := by
  unfold putKey
  split
  · rw [List.map_map]
    refine List.map_congr_left fun p _ => ?_
    simp only [Function.comp]
    split <;> rfl
  · simp

theorem nodup_putKey {table : List (String × α)} (h : (table.map Prod.fst).Nodup)
    (key : String) (a : α) : ((putKey table key a).map Prod.fst).Nodup := by
  rw [map_fst_putKey]
  split
  · exact h
  · rename_i hkey
    refine List.nodup_append.2 ⟨h, by simp, fun x hx y hy => ?_⟩
    rw [List.mem_singleton.1 hy]
    exact fun e => hkey (e ▸ hx)

theorem nodup_keyed (pairs : List (String × α)) : ((keyed pairs).map Prod.fst).Nodup := by
  suffices h : ∀ table : List (String × α), (table.map Prod.fst).Nodup →
      ((pairs.foldl (fun table (key, a) => putKey table key a) table).map Prod.fst).Nodup from
    h [] List.nodup_nil
  induction pairs with
  | nil => exact fun _ h => h
  | cons p pairs ih => exact fun table h => ih _ (nodup_putKey h p.1 p.2)

end FeatureLattice
