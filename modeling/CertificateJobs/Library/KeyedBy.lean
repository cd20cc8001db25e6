import Mathlib.Data.List.AList
import Mathlib.Data.List.Induction

/-- A map filled with the elements of a list under their keys: an element replaces an earlier one of the same key. -/
def List.keyedBy {α κ : Type} [DecidableEq κ] (key : α → κ) (l : List α) : AList (fun _ : κ => α) :=
  l.foldl (fun table a => table.insert (key a) a) ∅

namespace KeyedBy

variable {α κ : Type} [DecidableEq κ] {key : α → κ} {l : List α}

theorem keyedBy_append (l : List α) (b : α) : (l ++ [b]).keyedBy key = (l.keyedBy key).insert (key b) b := by
  simp [List.keyedBy]

theorem mem_keyedBy {k : κ} : k ∈ l.keyedBy key ↔ k ∈ l.map key := by
  induction l using List.reverseRecOn with
  | nil => simp [List.keyedBy]
  | append_singleton l b ih => rw [keyedBy_append, AList.mem_insert, ih, List.map_append, List.mem_append, or_comm,
      List.map_singleton, List.mem_singleton]

theorem lookup_keyedBy {k : κ} {a : α} (found : (l.keyedBy key).lookup k = some a) : a ∈ l ∧ key a = k := by
  induction l using List.reverseRecOn with
  | nil => cases found
  | append_singleton l b ih =>
    rw [keyedBy_append] at found
    by_cases last : k = key b
    · subst last
      rw [AList.lookup_insert] at found
      obtain rfl := Option.some.inj found
      exact ⟨by simp, rfl⟩
    · rw [AList.lookup_insert_ne last] at found
      exact ⟨List.mem_append_left _ (ih found).1, (ih found).2⟩

/-- Where different elements have different keys, ranging over the map meets each element of the list once. -/
theorem count_values [DecidableEq α] (injective : ∀ a ∈ l, ∀ b ∈ l, key a = key b → a = b) {visited : List κ}
    (order : visited.Perm (l.keyedBy key).keys) (a : α) :
    (visited.filterMap fun k => (l.keyedBy key).lookup k).count a = if a ∈ l then 1 else 0 := by
  have distinct : (visited.filterMap fun k => (l.keyedBy key).lookup k).Nodup := by
    refine List.Nodup.filterMap ?_ (order.nodup_iff.mpr (AList.keys_nodup _))
    intro k k' b found found'
    rw [← (lookup_keyedBy found).2, ← (lookup_keyedBy found').2]
  have met : a ∈ (visited.filterMap fun k => (l.keyedBy key).lookup k) ↔ a ∈ l := by
    rw [List.mem_filterMap]
    constructor
    · rintro ⟨k, -, found⟩
      exact (lookup_keyedBy found).1
    · intro member
      have present : key a ∈ l.keyedBy key := mem_keyedBy.mpr (List.mem_map_of_mem member)
      obtain ⟨b, found⟩ := Option.isSome_iff_exists.mp (AList.lookup_isSome.mpr present)
      obtain ⟨inside, same⟩ := lookup_keyedBy found
      obtain rfl := injective b inside a member same
      exact ⟨key b, order.mem_iff.mpr present, found⟩
  rw [distinct.count]
  simp only [met]

def takeFrom (key : α → κ) (k : κ) (source l : List α) : List α :=
  l.filter (key · ≠ k) ++ (source.find? (key · = k)).toList

section
variable {k : κ} {source : List α}

theorem mem_takeFrom {a : α} : a ∈ takeFrom key k source l ↔
    (a ∈ l ∧ key a ≠ k) ∨ source.find? (key · = k) = some a := by
  simp [takeFrom, Option.mem_toList]

theorem takeFrom_key {a : α} (found : source.find? (key · = k) = some a) : a ∈ source ∧ key a = k :=
  ⟨List.mem_of_find?_eq_some found, by simpa using List.find?_some found⟩

theorem nodup_takeFrom (distinct : (l.map key).Nodup) : ((takeFrom key k source l).map key).Nodup := by
  rw [takeFrom, List.map_append, List.nodup_append]
  refine ⟨distinct.sublist (List.filter_sublist.map key), ?_, ?_⟩
  · cases source.find? (key · = k) <;> simp
  · intro first inside second new
    obtain ⟨a, kept, rfl⟩ := List.mem_map.mp inside
    obtain ⟨b, found, rfl⟩ := List.mem_map.mp new
    rw [(takeFrom_key (Option.mem_toList.mp found)).2]
    simpa using (List.mem_filter.mp kept).2

theorem find_of_mem (distinct : (l.map key).Nodup) {a : α} (member : a ∈ l) : l.find? (key · = key a) = some a := by
  cases found : l.find? (key · = key a) with
  | none => simpa using List.find?_eq_none.mp found a member
  | some b =>
    obtain ⟨inside, same⟩ := takeFrom_key found
    rw [List.inj_on_of_nodup_map distinct inside member same]

theorem find_takeFrom (j : κ) : (takeFrom key k source l).find? (key · = j) =
    if j = k then source.find? (key · = k) else l.find? (key · = j) := by
  rw [takeFrom, List.find?_append, List.find?_filter]
  by_cases here : j = k
  · subst here
    have gone : l.find? (fun a => decide (decide (key a ≠ j) = true ∧ decide (key a = j) = true)) = none := by
      simp +contextual [List.find?_eq_none]
    rw [gone, if_pos rfl, Option.none_or]
    cases found : source.find? (key · = j) with
    | none => rfl
    | some a => simp [(takeFrom_key found).2]
  · have kept : (fun a => decide (decide (key a ≠ k) = true ∧ decide (key a = j) = true)) = fun a => decide (key a = j) := by
      funext a
      by_cases same : key a = j <;> simp [same, here]
    have other : (source.find? (key · = k)).toList.find? (key · = j) = none := by
      rw [List.find?_eq_none]
      intro a found
      simp [(takeFrom_key (Option.mem_toList.mp found)).2, Ne.symm here]
    rw [kept, other, if_neg here, Option.or_none]

end

end KeyedBy
