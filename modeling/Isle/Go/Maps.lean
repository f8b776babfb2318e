import Mathlib.Data.Finset.Dedup
import Mathlib.Data.Finset.Erase

/-!
# Walking a map

The order in which Go's `range` walks a map is not specified, and need not be the same twice. A
`MapOrder` is one choice of it: for every set of keys, an enumeration of them.
-/

/-- An order in which maps are walked. -/
structure MapOrder (α : Type*) where
  keys : Finset α → List α
  nodup_keys : ∀ m, (keys m).Nodup
  mem_keys : ∀ m a, a ∈ keys m ↔ a ∈ m

/-- Some order. -/
noncomputable def MapOrder.some {α : Type*} : MapOrder α where
  keys := Finset.toList
  nodup_keys := Finset.nodup_toList
  mem_keys _ _ := Finset.mem_toList

/-- An order in which a given key comes first where it is a key. -/
noncomputable def MapOrder.startingWith {α : Type*} [DecidableEq α] (a : α) : MapOrder α where
  keys m := if a ∈ m then a :: (m.erase a).toList else m.toList
  nodup_keys m := by
    split_ifs
    · exact List.nodup_cons.2 ⟨by simp, Finset.nodup_toList _⟩
    · exact Finset.nodup_toList m
  mem_keys m b := by
    split_ifs with h
    · by_cases hb : b = a <;> simp [hb, h]
    · exact Finset.mem_toList

theorem MapOrder.keys_startingWith {α : Type*} [DecidableEq α] {a : α} {m : Finset α} (h : a ∈ m) :
    (MapOrder.startingWith a).keys m = a :: (m.erase a).toList := if_pos h
