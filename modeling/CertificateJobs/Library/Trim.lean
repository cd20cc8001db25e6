import Mathlib.Data.List.DropRight

def List.trimBy {α : Type*} (p : α → Bool) (l : List α) : List α := (l.dropWhile p).rdropWhile p

namespace Trim

section
variable {α : Type*} {p sep : α → Bool} {pad : List α}

theorem trimBy_left (blank : ∀ a ∈ pad, p a = true) (l : List α) : (pad ++ l).trimBy p = l.trimBy p := by
  rw [List.trimBy, List.dropWhile_append_of_pos blank, List.trimBy]

theorem rdropWhile_append_of_pos (blank : ∀ a ∈ pad, p a = true) (l : List α) :
    (l ++ pad).rdropWhile p = l.rdropWhile p := by
  rw [List.rdropWhile, List.reverse_append, List.dropWhile_append_of_pos (by simpa using blank), List.rdropWhile]

theorem trimBy_right (blank : ∀ a ∈ pad, p a = true) (l : List α) : (l ++ pad).trimBy p = l.trimBy p := by
  unfold List.trimBy
  rw [List.dropWhile_append]
  split
  · rename_i empty
    have gone : l.dropWhile p = [] := List.isEmpty_iff.mp empty
    rw [gone, List.rdropWhile_nil, List.rdropWhile_eq_nil_iff]
    exact fun a member => blank a ((List.dropWhile_suffix p).subset member)
  · exact rdropWhile_append_of_pos blank _

theorem trimBy_padded (p : α → Bool) (l : List α) : ∃ before after : List α, l = before ++ l.trimBy p ++ after ∧
    (∀ a ∈ before, p a = true) ∧ ∀ a ∈ after, p a = true := by
  refine ⟨l.takeWhile p, (l.dropWhile p).rtakeWhile p, ?_, fun a => List.mem_takeWhile_imp,
    fun a => List.mem_rtakeWhile_imp⟩
  rw [List.trimBy, List.append_assoc, List.rdropWhile_append_rtakeWhile, List.takeWhile_append_dropWhile]

theorem splitOnP_left (inside : ∀ a ∈ pad, sep a = false) (l : List α) :
    (pad ++ l).splitOnP sep = (l.splitOnP sep).modifyHead (pad ++ ·) := by
  induction pad with
  | nil => cases split : l.splitOnP sep <;> exact split
  | cons a rest ih =>
    obtain ⟨first, others⟩ := List.forall_mem_cons.mp inside
    rw [List.cons_append, List.splitOnP_cons_eq_if_modifyHead, first, ih others, List.modifyHead_modifyHead]
    rfl

theorem splitOnP_right (inside : ∀ a ∈ pad, sep a = false) (l : List α) : ∃ init last,
    l.splitOnP sep = init ++ [last] ∧ (l ++ pad).splitOnP sep = init ++ [last ++ pad] := by
  induction l with
  | nil => exact ⟨[], [], rfl, List.splitOnP_eq_singleton inside⟩
  | cons a rest ih =>
    obtain ⟨init, last, plain, padded⟩ := ih
    rw [List.cons_append, List.splitOnP_cons_eq_if_modifyHead, List.splitOnP_cons_eq_if_modifyHead, plain, padded]
    split
    · exact ⟨[] :: init, last, rfl, rfl⟩
    · cases init with
      | nil => exact ⟨[], a :: last, rfl, rfl⟩
      | cons head init => exact ⟨(a :: head) :: init, last, rfl, rfl⟩

/-- Trimming a list before it is split makes no difference to its trimmed parts. -/
theorem splitOnP_trimBy (apart : ∀ a, p a = true → sep a = false) (l : List α) :
    ((l.trimBy p).splitOnP sep).map (List.trimBy p) = (l.splitOnP sep).map (List.trimBy p) := by
  obtain ⟨before, after, whole, blank, blank'⟩ := trimBy_padded p l
  obtain ⟨init, last, plain, padded⟩ := splitOnP_right (fun a member => apart a (blank' a member)) (before ++ l.trimBy p)
  have right : ((before ++ l.trimBy p ++ after).splitOnP sep).map (List.trimBy p) =
      ((before ++ l.trimBy p).splitOnP sep).map (List.trimBy p) := by
    rw [plain, padded, List.map_append, List.map_append, List.map_singleton, List.map_singleton, trimBy_right blank']
  have left : ((before ++ l.trimBy p).splitOnP sep).map (List.trimBy p) =
      ((l.trimBy p).splitOnP sep).map (List.trimBy p) := by
    rw [splitOnP_left fun a member => apart a (blank a member)]
    cases (l.trimBy p).splitOnP sep with
    | nil => rfl
    | cons head rest => rw [List.modifyHead_cons, List.map_cons, List.map_cons, trimBy_left blank]
  rw [← left, ← right, ← whole]

end

end Trim
