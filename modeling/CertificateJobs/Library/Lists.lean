import Mathlib.Data.List.Basic
import Mathlib.Data.List.Perm.Subperm

def List.putFirst {α : Type} (p : α → Bool) (write : α → α) (new : α) (l : List α) : List α :=
  match l.findIdx? p with
  | some i => l.modify i write
  | none => l ++ [new]

namespace PutFirst

variable {α : Type} (p : α → Bool) (write : α → α) (new : α)

theorem putFirst_cons (a : α) (l : List α) :
    (a :: l).putFirst p write new = if p a then write a :: l else a :: l.putFirst p write new := by
  unfold List.putFirst
  rw [List.findIdx?_cons]
  by_cases found : p a = true
  · simp [found]
  · simp only [found, if_false, Bool.false_eq_true]
    cases List.findIdx? p l with
    | none => rfl
    | some i => rfl

theorem putFirst_cases (l : List α) :
    (∃ before a after, l = before ++ a :: after ∧ (∀ b ∈ before, p b = false) ∧ p a = true ∧
      l.putFirst p write new = before ++ write a :: after) ∨
    ((∀ b ∈ l, p b = false) ∧ l.putFirst p write new = l ++ [new]) := by
  induction l with
  | nil => exact .inr ⟨by simp, rfl⟩
  | cons a l ih =>
    rw [putFirst_cons]
    cases found : p a with
    | true => exact .inl ⟨[], a, l, rfl, by simp, found, by simp⟩
    | false =>
      rcases ih with ⟨before, b, after, rfl, others, here, result⟩ | ⟨others, result⟩
      · refine .inl ⟨a :: before, b, after, rfl, ?_, here, by simp [result]⟩
        exact List.forall_mem_cons.mpr ⟨found, others⟩
      · exact .inr ⟨List.forall_mem_cons.mpr ⟨found, others⟩, by simp [result]⟩

end PutFirst

namespace Counting

section
variable {α : Type*} {p q r : α → Bool}

theorem countP_le_add (items : List α)
    (either : ∀ x ∈ items, p x = true → q x = true ∨ r x = true) : items.countP p ≤ items.countP q + items.countP r := by
  induction items with
  | nil => simp
  | cons x rest ih =>
    have tail := ih fun y member => either y (List.mem_cons_of_mem _ member)
    have head := either x List.mem_cons_self
    simp only [List.countP_cons]
    cases holds : p x with
    | false => simp only [Bool.false_eq_true, if_false]; omega
    | true =>
      rcases head holds with left | right
      · simp only [left, if_true]; omega
      · simp only [right, if_true]; omega

theorem countP_add_le (items : List α) (left : ∀ x ∈ items, p x = true → r x = true)
    (right : ∀ x ∈ items, q x = true → r x = true) (apart : ∀ x ∈ items, p x = true → q x = false) :
    items.countP p + items.countP q ≤ items.countP r := by
  induction items with
  | nil => simp
  | cons x rest ih =>
    have tail := ih (fun y member => left y (List.mem_cons_of_mem _ member))
      (fun y member => right y (List.mem_cons_of_mem _ member)) fun y member => apart y (List.mem_cons_of_mem _ member)
    simp only [List.countP_cons]
    cases first : p x with
    | true =>
      rw [left x List.mem_cons_self first, apart x List.mem_cons_self first]
      simp only [if_true, Bool.false_eq_true, if_false]
      omega
    | false =>
      cases second : q x with
      | true =>
        rw [right x List.mem_cons_self second]
        simp only [if_true, Bool.false_eq_true, if_false]
        omega
      | false =>
        simp only [Bool.false_eq_true, if_false]
        omega

end

section
variable {α β : Type*} [DecidableEq β] {key : α → β} {items : List α} {keys : List β}

theorem countP_keys_le (unique : (items.map key).Nodup) : items.countP (key · ∈ keys) ≤ keys.length := by
  rw [List.countP_eq_length_filter]
  have distinct : ((items.filter (key · ∈ keys)).map key).Nodup := unique.sublist (List.filter_sublist.map _)
  have inside : (items.filter (key · ∈ keys)).map key ⊆ keys := by
    intro k member
    obtain ⟨item, kept, rfl⟩ := List.mem_map.mp member
    simpa using (List.mem_filter.mp kept).2
  have bound := (distinct.subperm inside).length_le
  rwa [List.length_map] at bound

theorem le_countP_keys (distinct : keys.Nodup) (known : ∀ k ∈ keys, k ∈ items.map key) :
    keys.length ≤ items.countP (key · ∈ keys) := by
  rw [List.countP_eq_length_filter]
  have inside : keys ⊆ (items.filter (key · ∈ keys)).map key := by
    intro k member
    obtain ⟨item, present, rfl⟩ := List.mem_map.mp (known k member)
    exact List.mem_map.mpr ⟨item, List.mem_filter.mpr ⟨present, decide_eq_true member⟩, rfl⟩
  have bound := (distinct.subperm inside).length_le
  rwa [List.length_map] at bound

end

end Counting

structure Standing (α τ : Type*) where
  value : α
  since : τ

namespace Standing

section
variable {α τ : Type*} [DecidableEq α]

def report (old : Option (Standing α τ)) (value : α) (now : τ) : Standing α τ where
  value := value
  since := match old with
    | some standing => if standing.value = value then standing.since else now
    | none => now

/-- The log ends with reports of the value, the first of them made at `since`, and the report before that, if any, was of
    another value. -/
def EndsLog (standing : Standing α τ) (log : List (α × τ)) : Prop :=
  ∃ before after, log = before ++ (standing.value, standing.since) :: after ∧
    (∀ later ∈ after, later.1 = standing.value) ∧ ∀ last ∈ before.getLast?, last.1 ≠ standing.value

theorem endsLog_first (value : α) (now : τ) : (report none value now).EndsLog [(value, now)] :=
  ⟨[], [], rfl, by simp, by simp⟩

theorem EndsLog.report {standing : Standing α τ} {log : List (α × τ)} (ends : standing.EndsLog log) (value : α)
    (now : τ) : (Standing.report (some standing) value now).EndsLog (log ++ [(value, now)]) := by
  obtain ⟨before, after, rfl, same, other⟩ := ends
  by_cases kept : standing.value = value
  · refine ⟨before, after ++ [(value, now)], by simp [Standing.report, kept], ?_, ?_⟩
    · simpa [Standing.report, or_imp, forall_and, ← kept] using same
    · simpa [Standing.report, ← kept] using other
  · refine ⟨before ++ (standing.value, standing.since) :: after, [], by simp [Standing.report, kept], by simp, ?_⟩
    intro last found
    have member : last ∈ (standing.value, standing.since) :: after := by
      rw [List.getLast?_append_of_ne_nil _ (by simp)] at found
      exact List.mem_of_getLast? found
    rcases List.mem_cons.mp member with rfl | later
    · exact kept
    · rw [same last later]
      exact kept

end

end Standing
