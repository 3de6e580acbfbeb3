import Mathlib.Data.Set.Card

/-!
# Finite maps as sorted lists

A list whose keys increase strictly is a finite map. A binary search splits it at a key: what lies
in front has smaller keys, and what lies behind starts with the key itself or has larger ones.
-/

namespace SortedMap

/-- Keys increase strictly. -/
def Ordered {κ β : Type*} [LinearOrder κ] (key : β → κ) (items : List β) : Prop :=
  items.Pairwise fun first second => key first < key second

/-- Items in front of the lower bound of a key. -/
def before {κ β : Type*} [LinearOrder κ] (key : β → κ) (items : List β) (index : κ) : List β :=
  items.takeWhile fun item => decide (key item < index)

/-- Items from the lower bound of a key on. -/
def behind {κ β : Type*} [LinearOrder κ] (key : β → κ) (items : List β) (index : κ) : List β :=
  items.dropWhile fun item => decide (key item < index)

/-- A sorted list around one key. -/
structure Split {κ β : Type*} [LinearOrder κ] (key : β → κ) (items : List β) (index : κ)
    (front : List β) (found : Option β) (back : List β) : Prop where
  items : items = front ++ (found.toList ++ back)
  front : ∀ item ∈ front, key item < index
  found : ∀ item ∈ found, key item = index
  back : ∀ item ∈ back, index < key item

theorem Ordered.of_back {κ β : Type*} [LinearOrder κ] {key : β → κ} {front back : List β}
    (ordered : Ordered key (front ++ back)) : Ordered key back :=
  (List.pairwise_append.mp ordered).2.1

/-- Where the lower bound splits a sorted list. -/
theorem Ordered.split {κ β : Type*} [LinearOrder κ] {key : β → κ} {items : List β}
    (ordered : Ordered key items) (index : κ) :
    ∃ found back, behind key items index = found.toList ++ back ∧
      Split key items index (before key items index) found back := by
  induction items with
  | nil => exact ⟨none, [], rfl, rfl, by simp [before], by simp, by simp⟩
  | cons item items induction =>
      obtain ⟨larger, tail⟩ := List.pairwise_cons.mp ordered
      by_cases small : key item < index
      · obtain ⟨found, back, rest, split⟩ := induction tail
        refine ⟨found, back, ?_, ?_, ?_, split.found, split.back⟩
        · rw [behind, List.dropWhile_cons_of_pos (by simpa using small)]
          exact rest
        · rw [before, List.takeWhile_cons_of_pos (by simpa using small), List.cons_append]
          exact congrArg _ split.items
        · rw [before, List.takeWhile_cons_of_pos (by simpa using small)]
          intro other member
          rcases List.mem_cons.mp member with rfl | later
          · exact small
          · exact split.front other later
      · have none_before : before key (item :: items) index = [] :=
          List.takeWhile_cons_of_neg (by simpa using small)
        have all_behind : behind key (item :: items) index = item :: items :=
          List.dropWhile_cons_of_neg (by simpa using small)
        rw [none_before, all_behind]
        by_cases same : key item = index
        · refine ⟨some item, items, rfl, rfl, by simp, by simpa using same, ?_⟩
          exact fun other member => same ▸ larger other member
        · have above : index < key item := lt_of_le_of_ne (not_lt.mp small) (Ne.symm same)
          refine ⟨none, item :: items, rfl, rfl, by simp, by simp, ?_⟩
          intro other member
          rcases List.mem_cons.mp member with rfl | later
          · exact above
          · exact above.trans (larger other later)

/-- An item that is not missing replaces what was found. -/
theorem Split.replace {κ β : Type*} [LinearOrder κ] {key : β → κ} {items : List β} {index : κ}
    {front back : List β} {found : Option β} (split : Split key items index front found back)
    (ordered : Ordered key items) {changed : Option β} (kept : ∀ item ∈ changed, key item = index) :
    Ordered key (front ++ (changed.toList ++ back)) ∧
      Split key (front ++ (changed.toList ++ back)) index front changed back := by
  rw [split.items] at ordered
  obtain ⟨sorted_front, sorted_rest, -⟩ := List.pairwise_append.mp ordered
  have sorted_back := Ordered.of_back sorted_rest
  refine ⟨?_, rfl, split.front, kept, split.back⟩
  refine List.pairwise_append.mpr ⟨sorted_front, List.pairwise_append.mpr ⟨?_, sorted_back, ?_⟩, ?_⟩
  · cases changed with
    | none => exact List.Pairwise.nil
    | some item => exact List.pairwise_singleton _ _
  · intro item member other later
    rw [kept item (by simpa using member)]
    exact split.back other later
  · intro item member other later
    have small := split.front item member
    rcases List.mem_append.mp later with same | behind
    · rw [kept other (by simpa using same)]
      exact small
    · exact small.trans (split.back other behind)

theorem Split.mem_found {κ β : Type*} [LinearOrder κ] {key : β → κ} {items : List β} {index : κ}
    {front back : List β} {found : Option β} (split : Split key items index front found back)
    (item : β) : item ∈ items ∧ key item = index ↔ item ∈ found := by
  rw [split.items]
  constructor
  · rintro ⟨inside, same⟩
    rcases List.mem_append.mp inside with early | late
    · exact absurd (split.front item early) (by simp [same])
    · rcases List.mem_append.mp late with here | later
      · simpa using here
      · exact absurd (split.back item later) (by simp [same])
  · intro here
    refine ⟨List.mem_append_right _ (List.mem_append_left _ (by simpa using here)), ?_⟩
    exact split.found item here

/-- The item under a key, searched from its lower bound. -/
def find {κ β : Type*} [LinearOrder κ] (key : β → κ) (items : List β) (index : κ) : Option β :=
  match behind key items index with
  | found :: _ => if key found = index then some found else none
  | [] => none

theorem Ordered.find_eq {κ β : Type*} [LinearOrder κ] {key : β → κ} {items : List β}
    (ordered : Ordered key items) {index : κ} {front back : List β} {found : Option β}
    (split : Split key items index front found back) : find key items index = found := by
  obtain ⟨found', back', rest, split'⟩ := ordered.split index
  have same : found' = found :=
    Option.ext fun item => (split'.mem_found item).symm.trans (split.mem_found item)
  rw [find, rest, ← same]
  cases found' with
  | some item => simp [split'.found item rfl]
  | none =>
      cases back' with
      | nil => rfl
      | cons item back' => simp [(split'.back item List.mem_cons_self).ne']

/-- Changes that keep the keys commute with the search. -/
theorem find_map {κ β : Type*} [LinearOrder κ] {key : β → κ} {change : β → β}
    (keeps : ∀ item, key (change item) = key item) (items : List β) (index : κ) :
    find key (items.map change) index = (find key items index).map change := by
  have moved : behind key (items.map change) index = (behind key items index).map change := by
    simp only [behind, List.dropWhile_map, Function.comp_def, keeps]
  rw [find, find, moved]
  cases behind key items index with
  | nil => rfl
  | cons found back =>
      simp only [List.map_cons, keeps]
      split <;> rfl

theorem Ordered.map {κ β : Type*} [LinearOrder κ] {key : β → κ} {items : List β}
    (ordered : Ordered key items) {change : β → β} (keeps : ∀ item, key (change item) = key item) :
    Ordered key (items.map change) := by
  refine List.pairwise_map.mpr (List.Pairwise.imp (fun less => ?_) ordered)
  rwa [keeps, keeps]

theorem Ordered.mem_find {κ β : Type*} [LinearOrder κ] {key : β → κ} {items : List β}
    (ordered : Ordered key items) (index : κ) (item : β) :
    item ∈ find key items index ↔ item ∈ items ∧ key item = index := by
  obtain ⟨found, back, -, split⟩ := ordered.split index
  rw [ordered.find_eq split, split.mem_found]

/-- A sorted list has as many items as it has keys. -/
theorem Ordered.encard_keys {κ β : Type*} [LinearOrder κ] {key : β → κ} {items : List β}
    (ordered : Ordered key items) :
    {index | (find key items index).isSome}.encard = items.length := by
  have distinct : (items.map key).Nodup :=
    List.pairwise_map.mpr (List.Pairwise.imp ne_of_lt ordered)
  have keys : {index | (find key items index).isSome} = ↑(items.map key).toFinset := by
    ext index
    simp only [Set.mem_ofPred_eq, Option.isSome_iff_exists, List.coe_toFinset, List.mem_map]
    exact exists_congr fun item => ordered.mem_find index item
  rw [keys, Set.encard_coe_eq_coe_finsetCard, List.toFinset_card_of_nodup distinct,
    List.length_map]

end SortedMap
