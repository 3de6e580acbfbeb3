import Mathlib.Algebra.Order.BigOperators.Group.List
import Mathlib.Algebra.Order.Ring.Nat
import Mathlib.Data.List.AList
import Mathlib.Data.List.Perm.Subperm

/-!
# Contents of finite maps

The values of a finite map, each expanded to a list, form one concatenated list up to the order
of the keys. `AList.gather` is that list. Looking up, inserting and erasing a key split off
exactly the part that the key contributes.
-/

namespace AList

/-- Concatenate the expansions of all the entries of a finite map. -/
def gather {α β γ : Type*} (expand : α → β → List γ) (table : AList fun _ : α => β) : List γ :=
  table.entries.flatMap fun entry => expand entry.1 entry.2

@[simp]
theorem gather_empty {α β γ : Type*} (expand : α → β → List γ) :
    gather expand (∅ : AList fun _ : α => β) = [] := rfl

/-- A present key can be moved to the front of the entry list. -/
theorem entries_perm_of_lookup {α β : Type*} [DecidableEq α] {table : AList fun _ : α => β}
    {key : α} {value : β} (found : table.lookup key = some value) :
    table.entries.Perm (⟨key, value⟩ :: (table.erase key).entries) := by
  have same : table.entries.Perm (table.insert key value).entries := by
    rw [AList.entries_insert]
    have member : (⟨key, value⟩ : Sigma fun _ : α => β) ∈ table.entries :=
      List.of_mem_dlookup (Option.mem_def.mpr found)
    obtain ⟨other, front, back, fresh, split, erased⟩ :=
      List.exists_of_kerase (List.mem_keys_of_mem member)
    rw [erased, split]
    have value_eq : other = value := by
      have lookup_other : table.lookup key = some other := by
        rw [AList.lookup, split, List.dlookup_append, (List.dlookup_eq_none.mpr fresh)]
        simp
      exact Option.some.inj (lookup_other.symm.trans found)
    subst value_eq
    exact List.perm_middle
  rwa [AList.entries_insert] at same

theorem gather_perm_of_lookup {α β γ : Type*} [DecidableEq α] (expand : α → β → List γ)
    {table : AList fun _ : α => β} {key : α} {value : β}
    (found : table.lookup key = some value) :
    (table.gather expand).Perm (expand key value ++ (table.erase key).gather expand) := by
  simpa [gather] using (entries_perm_of_lookup found).flatMap_right fun entry =>
    expand entry.1 entry.2

@[simp]
theorem gather_insert {α β γ : Type*} [DecidableEq α] (expand : α → β → List γ)
    (table : AList fun _ : α => β) (key : α) (value : β) :
    (table.insert key value).gather expand =
      expand key value ++ (table.erase key).gather expand := by
  have erased : (table.erase key).entries = List.kerase key table.entries := rfl
  simp [gather, AList.entries_insert, erased]

theorem lookup_inserted_self {α β : Type*} [DecidableEq α] {before after : AList fun _ : α => β}
    {key : α} {value : β} (inserted : after = before.insert key value) :
    after.lookup key = some value := by
  rw [inserted, AList.lookup_insert]

theorem lookup_inserted_ne {α β : Type*} [DecidableEq α] {before after : AList fun _ : α => β}
    {key : α} {value : β} (inserted : after = before.insert key value) (other : α)
    (different : other ≠ key) : after.lookup other = before.lookup other := by
  rw [inserted, AList.lookup_insert_ne different]

theorem lookup_inserted {α β : Type*} [DecidableEq α] {before after : AList fun _ : α => β}
    {key : α} {value : β} (inserted : after = before.insert key value) (other : α) :
    after.lookup other = if other = key then some value else before.lookup other := by
  split
  · rename_i same
    rw [same, lookup_inserted_self inserted]
  · rename_i different
    exact lookup_inserted_ne inserted other different

/-- An entry of an updated map is the new one or an old one of another key. -/
theorem lookup_insert_cases {α β : Type*} [DecidableEq α] {table : AList fun _ : α => β}
    {key other : α} {entry known : β} (found : (table.insert key entry).lookup other = some known) :
    other = key ∧ known = entry ∨ other ≠ key ∧ table.lookup other = some known := by
  by_cases same : other = key
  · rw [same, AList.lookup_insert] at found
    exact Or.inl ⟨same, (Option.some.inj found).symm⟩
  · rw [AList.lookup_insert_ne same] at found
    exact Or.inr ⟨same, found⟩

theorem erase_of_lookup_none {α β : Type*} [DecidableEq α] {table : AList fun _ : α => β}
    {key : α} (missing : table.lookup key = none) : table.erase key = table := by
  apply AList.ext
  exact List.kerase_of_notMem_keys (AList.lookup_eq_none.mp missing)

theorem mem_gather {α β γ : Type*} [DecidableEq α] {expand : α → β → List γ}
    {table : AList fun _ : α => β} {item : γ} :
    item ∈ table.gather expand ↔
      ∃ key value, table.lookup key = some value ∧ item ∈ expand key value := by
  simp only [gather, List.mem_flatMap]
  constructor
  · rintro ⟨⟨key, value⟩, member, inside⟩
    exact ⟨key, value, Option.mem_def.mp (AList.mem_lookup_iff.mpr member), inside⟩
  · rintro ⟨key, value, found, inside⟩
    exact ⟨⟨key, value⟩, AList.mem_lookup_iff.mp (Option.mem_def.mpr found), inside⟩

/-- The whole contents weigh at most as much as a list of keys that covers the map. -/
theorem length_gather_le {α β γ : Type*} [DecidableEq α] {expand : α → β → List γ}
    {table : AList fun _ : α => β} {keys : List α} {weight : α → ℕ}
    (covered : ∀ key value, table.lookup key = some value →
      key ∈ keys ∧ (expand key value).length ≤ weight key) :
    (table.gather expand).length ≤ (keys.map weight).sum := by
  have found (entry : Sigma fun _ : α => β) (member : entry ∈ table.entries) :
      table.lookup entry.1 = some entry.2 :=
    Option.mem_def.mp (AList.mem_lookup_iff.mpr member)
  have inside : table.keys.Subperm keys := by
    refine List.Nodup.subperm table.keys_nodup fun key member => ?_
    obtain ⟨value, entry⟩ := List.exists_of_mem_keys member
    exact (covered key value (found ⟨key, value⟩ entry)).1
  obtain ⟨middle, same, fewer⟩ := inside
  calc
    (table.gather expand).length =
        (table.entries.map fun entry => (expand entry.1 entry.2).length).sum := by
      rw [gather, List.length_flatMap]
    _ ≤ (table.entries.map fun entry => weight entry.1).sum :=
      List.sum_le_sum fun entry member => (covered _ _ (found entry member)).2
    _ = (table.keys.map weight).sum := by
      rw [AList.keys, List.keys, List.map_map]
      rfl
    _ = (middle.map weight).sum := (same.map weight).symm.sum_eq
    _ ≤ (keys.map weight).sum := (fewer.map weight).sum_le_sum fun _ _ => Nat.zero_le _

/-- An item occurs at most as often as there are marks, if every entry has as many marks. -/
theorem count_gather_le {α β γ δ : Type*} [DecidableEq α] [BEq γ]
    {expand : α → β → List γ} {mark : α → β → List δ} {table : AList fun _ : α => β} {item : γ}
    (each : ∀ key value, table.lookup key = some value →
      (expand key value).count item ≤ (mark key value).length) :
    (table.gather expand).count item ≤ (table.gather mark).length := by
  rw [gather, gather, List.count_flatMap, List.length_flatMap]
  refine List.sum_le_sum fun entry member => ?_
  exact each entry.1 entry.2 (Option.mem_def.mp (AList.mem_lookup_iff.mpr member))

/-- Contents that tell their keys are not repeated. -/
theorem nodup_gather {α β γ : Type*} [DecidableEq α] {expand : α → β → List γ}
    {table : AList fun _ : α => β} (label : γ → α)
    (each : ∀ key value, table.lookup key = some value → (expand key value).Nodup)
    (labelled : ∀ key value, table.lookup key = some value →
      ∀ item ∈ expand key value, label item = key) : (table.gather expand).Nodup := by
  have found (entry : Sigma fun _ : α => β) (member : entry ∈ table.entries) :
      table.lookup entry.1 = some entry.2 :=
    Option.mem_def.mp (AList.mem_lookup_iff.mpr member)
  rw [gather, List.nodup_flatMap]
  refine ⟨fun entry member => each _ _ (found entry member), ?_⟩
  have keys := List.nodupKeys_iff_pairwise.mp table.nodupKeys
  refine keys.imp_of_mem fun left right different item inside inside' => different ?_
  rw [← labelled _ _ (found _ left) item inside, labelled _ _ (found _ right) item inside']

end AList
