import Mathlib.Data.List.Basic

structure Framed {α : Type} (outer inner : α → Bool) (l : List α) : Prop where
  inside : ∀ a ∈ l, inner a = true
  head : ∀ a ∈ l.head?, outer a = true
  last : ∀ a ∈ l.getLast?, outer a = true

namespace Framed

variable {α : Type} {outer inner outer' inner' : α → Bool} {l left right : List α}

instance : Decidable (Framed outer inner l) :=
  decidable_of_iff ((∀ a ∈ l, inner a = true) ∧ (∀ a ∈ l.head?, outer a = true) ∧ ∀ a ∈ l.getLast?, outer a = true)
    ⟨fun facts => ⟨facts.1, facts.2.1, facts.2.2⟩, fun framed => ⟨framed.inside, framed.head, framed.last⟩⟩

theorem mono (framed : Framed outer inner l) (ends : ∀ a, outer a = true → outer' a = true)
    (alphabet : ∀ a, inner a = true → inner' a = true) : Framed outer' inner' l where
  inside a member := alphabet a (framed.inside a member)
  head a first := ends a (framed.head a first)
  last a final := ends a (framed.last a final)

theorem append (framed : Framed outer inner left) (framed' : Framed outer inner right) (nonempty : left ≠ [])
    (nonempty' : right ≠ []) {sep : α} (allowed : inner sep = true) : Framed outer inner (left ++ sep :: right) where
  inside a member := by
    rcases List.mem_append.mp member with early | rest
    · exact framed.inside a early
    · rcases List.mem_cons.mp rest with rfl | late
      · exact allowed
      · exact framed'.inside a late
  head a first := by
    obtain ⟨start, rest, rfl⟩ := List.exists_cons_of_ne_nil nonempty
    exact framed.head a first
  last a final := by
    rw [List.getLast?_append, List.getLast?_cons_of_ne_nil nonempty', List.getLast?_eq_some_getLast nonempty',
      Option.some_or] at final
    exact framed'.last a (by rwa [List.getLast?_eq_some_getLast nonempty'])

theorem intercalate {sep : α} (allowed : inner sep = true) {parts : List (List α)}
    (framed : ∀ part ∈ parts, Framed outer inner part) (nonempty : ∀ part ∈ parts, part ≠ []) :
    Framed outer inner ([sep].intercalate parts) := by
  induction parts with
  | nil => exact ⟨by simp, by simp, by simp⟩
  | cons first rest ih =>
    cases rest with
    | nil => simpa using framed first List.mem_cons_self
    | cons second others =>
      have later := ih (fun part member => framed part (List.mem_cons_of_mem _ member))
        fun part member => nonempty part (List.mem_cons_of_mem _ member)
      have split : [sep].intercalate (first :: second :: others) =
          first ++ sep :: [sep].intercalate (second :: others) := by simp
      have filled : [sep].intercalate (second :: others) ≠ [] := by
        have given := nonempty second (by simp)
        cases others <;> simp [given]
      rw [split]
      exact (framed first List.mem_cons_self).append later (nonempty first List.mem_cons_self) filled allowed

theorem of_splitOn [DecidableEq α] (sep : α) (allowed : inner sep = true)
    (framed : ∀ part ∈ l.splitOn sep, Framed outer inner part) (nonempty : ∀ part ∈ l.splitOn sep, part ≠ []) :
    Framed outer inner l := by
  have whole := intercalate allowed framed nonempty
  rwa [List.intercalate_splitOn] at whole

end Framed
