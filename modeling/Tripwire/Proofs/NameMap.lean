import Mathlib.Data.List.Dedup
import Mathlib.Data.List.Nodup
import Mathlib.Data.List.Pairwise
import Tripwire.NameMap

/-!
The names of a map against its answers: the names are different, a name is among
them exactly if it has an answer, and so the answers tell the size.
-/

namespace Tripwire.NameMap

universe u v

variable {α : Type u} {β : Type v}

theorem nodup_names (map : NameMap α) : map.names.Nodup := by
  refine List.pairwise_map.mpr (map.sorted.imp fun {first second} before same => ?_)
  rw [same] at before
  exact String.lt_irrefl _ before

theorem mem_names_iff (map : NameMap α) (name : String) :
    name ∈ map.names ↔ ∃ value, map.get? name = some value := by
  rw [names, List.mem_map]
  constructor
  · rintro ⟨entry, member, rfl⟩
    exact ⟨entry.2, (map.mem_entries_iff entry).mp member⟩
  · rintro ⟨value, found⟩
    exact ⟨(name, value), (map.mem_entries_iff (name, value)).mpr found, rfl⟩

/-- A map has as many entries as there are different names with an answer. -/
theorem size_eq_of_names {map : NameMap α} {names : List String}
    (answered : ∀ name, (∃ value, map.get? name = some value) ↔ name ∈ names) :
    map.size = names.dedup.length := by
  have shuffled : map.names.Perm names.dedup := by
    refine (List.perm_ext_iff_of_nodup map.nodup_names names.nodup_dedup).mpr fun name => ?_
    rw [mem_names_iff, answered, List.mem_dedup]
  rw [← shuffled.length_eq, NameMap.names, List.length_map, size]

@[simp] theorem get?_mapValues (f : String → α → β) (map : NameMap α) (name : String) :
    (map.mapValues f).get? name = (map.get? name).map (f name) := by
  obtain ⟨entries, sorted⟩ := map
  simp only [get?, mapValues]
  clear sorted
  induction entries with
  | nil => rfl
  | cons head rest ih =>
    obtain ⟨key, old⟩ := head
    simp only [List.map_cons, lookup]
    split
    next same => subst same; rfl
    next => exact ih

end Tripwire.NameMap
