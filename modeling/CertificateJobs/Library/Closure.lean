import Mathlib.Data.List.Basic
import Mathlib.Logic.Relation

namespace Closure

open Relation

variable {α : Type} [DecidableEq α]

def visit (state : List α × List α) (child : α) : List α × List α :=
  if child ∈ state.1 then state else (state.1 ++ [child], state.2 ++ [child])

def collect (next : α → List α) : Nat → List α → List α → List α
  | 0, _, seen => seen
  | _ + 1, [], seen => seen
  | fuel + 1, node :: queue, seen =>
    collect next fuel ((next node).foldl visit (seen, queue)).2 ((next node).foldl visit (seen, queue)).1

theorem mem_seen_visit_all {children : List α} {state : List α × List α} {b : α} :
    b ∈ (children.foldl visit state).1 ↔ b ∈ state.1 ∨ b ∈ children := by
  induction children generalizing state with
  | nil => simp
  | cons child children ih =>
    rw [List.foldl_cons, ih, visit]
    split
    · rename_i present
      constructor
      · rintro (old | new)
        · exact .inl old
        · exact .inr (List.mem_cons_of_mem _ new)
      · rintro (old | new)
        · exact .inl old
        · rcases List.mem_cons.mp new with rfl | new
          · exact .inl present
          · exact .inr new
    · simp only [List.mem_append, List.mem_cons, List.not_mem_nil, or_false]
      tauto

theorem mem_queue_visit_all {children : List α} {state : List α × List α} {b : α} :
    b ∈ (children.foldl visit state).2 ↔ b ∈ state.2 ∨ (b ∈ children ∧ b ∉ state.1) := by
  induction children generalizing state with
  | nil => simp
  | cons child children ih =>
    rw [List.foldl_cons, ih, visit]
    split
    · rename_i present
      simp only [List.mem_cons]
      constructor
      · rintro (old | ⟨new, fresh⟩)
        · exact .inl old
        · exact .inr ⟨.inr new, fresh⟩
      · rintro (old | ⟨rfl | new, fresh⟩)
        · exact .inl old
        · exact absurd present fresh
        · exact .inr ⟨new, fresh⟩
    · rename_i absent
      simp only [List.mem_append, List.mem_cons, List.not_mem_nil, or_false, not_or]
      constructor
      · rintro ((old | rfl) | ⟨new, fresh, -⟩)
        · exact .inl old
        · exact .inr ⟨.inl rfl, absent⟩
        · exact .inr ⟨.inr new, fresh⟩
      · rintro (old | ⟨rfl | new, fresh⟩)
        · exact .inl (.inl old)
        · exact .inl (.inr rfl)
        · by_cases same : b = child
          · exact .inl (.inr same)
          · exact .inr ⟨new, fresh, same⟩

def pending (domain : List α) (state : List α × List α) : Nat :=
  state.2.length + domain.countP (· ∉ state.1)

theorem countP_unseen_lt {domain seen : List α} {child : α} (member : child ∈ domain) (fresh : child ∉ seen) :
    domain.countP (· ∉ seen ++ [child]) < domain.countP (· ∉ seen) := by
  induction domain with
  | nil => cases member
  | cons a domain ih =>
    have mono : domain.countP (· ∉ seen ++ [child]) ≤ domain.countP (· ∉ seen) := by
      apply List.countP_mono_left
      intro b _ unseen
      simp only [List.mem_append, not_or, decide_eq_true_eq] at unseen ⊢
      exact unseen.1
    rw [List.countP_cons, List.countP_cons]
    by_cases same : a = child
    · subst same
      simp only [List.mem_append, List.mem_singleton, or_true, not_true_eq_false, decide_false,
        Bool.false_eq_true, if_false, fresh, not_false_eq_true, decide_true, if_true]
      simp only [List.mem_append, List.mem_singleton] at mono
      omega
    · have rest : child ∈ domain := by
        rcases List.mem_cons.mp member with rfl | rest
        · exact absurd rfl same
        · exact rest
      have smaller := ih rest
      simp only [List.mem_append, List.mem_singleton, same, or_false] at smaller ⊢
      omega

theorem pending_visit_all {domain children : List α} (inside : ∀ b ∈ children, b ∈ domain)
    (state : List α × List α) : pending domain (children.foldl visit state) ≤ pending domain state := by
  induction children generalizing state with
  | nil => exact Nat.le_refl _
  | cons child children ih =>
    apply Nat.le_trans (ih (fun b member => inside b (List.mem_cons_of_mem _ member)) _)
    rw [visit]
    split
    · exact Nat.le_refl _
    · rename_i fresh
      have smaller := countP_unseen_lt (inside child List.mem_cons_self) fresh
      simp only [pending, List.length_append, List.length_singleton]
      omega

theorem nodup_seen_visit_all (children : List α) {state : List α × List α} (distinct : state.1.Nodup) :
    (children.foldl visit state).1.Nodup := by
  induction children generalizing state with
  | nil => exact distinct
  | cons child children ih =>
    apply ih
    rw [visit]
    split
    · exact distinct
    · rename_i fresh
      rw [List.nodup_append]
      refine ⟨distinct, by simp, ?_⟩
      rintro a present _ new rfl
      exact fresh (List.mem_singleton.mp new ▸ present)

section
variable {next : α → List α}

theorem nodup_collect (fuel : Nat) (queue : List α) {seen : List α} (distinct : seen.Nodup) :
    (collect next fuel queue seen).Nodup := by
  induction fuel generalizing queue seen with
  | zero => exact distinct
  | succ fuel ih =>
    cases queue with
    | nil => exact distinct
    | cons node queue => exact ih _ (nodup_seen_visit_all _ distinct)

theorem collect_sound (root : α → Prop) (fuel : Nat) {queue seen : List α}
    (queued : ∀ a ∈ queue, root a ∨ ∃ r, root r ∧ TransGen (fun a b => b ∈ next a) r a)
    (found : ∀ a ∈ seen, ∃ r, root r ∧ TransGen (fun a b => b ∈ next a) r a) :
    ∀ a ∈ collect next fuel queue seen, ∃ r, root r ∧ TransGen (fun a b => b ∈ next a) r a := by
  induction fuel generalizing queue seen with
  | zero => exact found
  | succ fuel ih =>
    cases queue with
    | nil => exact found
    | cons node queue =>
      have children : ∀ b ∈ next node, ∃ r, root r ∧ TransGen (fun a b => b ∈ next a) r b := by
        intro b child
        rcases queued node List.mem_cons_self with top | ⟨r, top, path⟩
        · exact ⟨node, top, .single child⟩
        · exact ⟨r, top, path.tail child⟩
      apply ih
      · intro a member
        rcases mem_queue_visit_all.mp member with old | ⟨new, -⟩
        · exact queued a (List.mem_cons_of_mem _ old)
        · exact .inr (children a new)
      · intro a member
        rcases mem_seen_visit_all.mp member with old | new
        · exact found a old
        · exact children a new

theorem collect_closed {domain : List α} (settled : α → Prop) (inside : ∀ a, ∀ b ∈ next a, b ∈ domain)
    (fuel : Nat) {queue seen : List α} (enough : pending domain (seen, queue) ≤ fuel)
    (waiting : ∀ a, settled a ∨ a ∈ seen → a ∈ queue ∨ ∀ b ∈ next a, b ∈ seen) :
    (∀ a ∈ seen, a ∈ collect next fuel queue seen) ∧
      ∀ a, settled a ∨ a ∈ collect next fuel queue seen → ∀ b ∈ next a, b ∈ collect next fuel queue seen := by
  induction fuel generalizing queue seen with
  | zero =>
    have empty : queue = [] := by
      apply List.eq_nil_of_length_eq_zero
      simp only [pending] at enough
      omega
    subst empty
    refine ⟨fun a member => member, ?_⟩
    intro a member
    rcases waiting a member with impossible | closed
    · cases impossible
    · exact closed
  | succ fuel ih =>
    cases queue with
    | nil =>
      refine ⟨fun a member => member, ?_⟩
      intro a member
      rcases waiting a member with impossible | closed
      · cases impossible
      · exact closed
    | cons node queue =>
      have shrink := pending_visit_all (inside node) (seen, queue)
      have bound : pending domain ((next node).foldl visit (seen, queue)) ≤ fuel := by
        simp only [pending, List.length_cons] at enough shrink ⊢
        omega
      obtain ⟨kept, closed⟩ := ih bound (by
        intro a member
        by_cases same : a = node
        · subst same
          exact .inr fun b child => mem_seen_visit_all.mpr (.inr child)
        · have old : (settled a ∨ a ∈ seen) ∨ (a ∈ next node ∧ a ∉ seen) := by
            rcases member with fixed | member
            · exact .inl (.inl fixed)
            · by_cases before : a ∈ seen
              · exact .inl (.inr before)
              · exact .inr ⟨(mem_seen_visit_all.mp member).resolve_left before, before⟩
          rcases old with old | fresh
          · rcases waiting a old with queued | done
            · rcases List.mem_cons.mp queued with rfl | queued
              · exact absurd rfl same
              · exact .inl (mem_queue_visit_all.mpr (.inl queued))
            · exact .inr fun b child => mem_seen_visit_all.mpr (.inl (done b child))
          · exact .inl (mem_queue_visit_all.mpr (.inr fresh)))
      exact ⟨fun a member => kept a (mem_seen_visit_all.mpr (.inl member)), closed⟩

/-- Starting from a queue of roots, the loop collects exactly what is reachable by one or more edges. -/
theorem mem_collect {domain roots : List α} (inside : ∀ a, ∀ b ∈ next a, b ∈ domain) {fuel : Nat}
    (enough : roots.length + domain.length ≤ fuel) {b : α} :
    b ∈ collect next fuel roots [] ↔ ∃ r ∈ roots, TransGen (fun a b => b ∈ next a) r b := by
  constructor
  · intro member
    exact collect_sound (· ∈ roots) fuel (fun a queued => .inl queued) (by simp) b member
  · rintro ⟨r, root, path⟩
    have bound : pending domain ([], roots) ≤ fuel := by
      have count : domain.countP (· ∉ ([] : List α)) ≤ domain.length := List.countP_le_length
      simp only [pending]
      omega
    obtain ⟨-, closed⟩ := collect_closed (· ∈ roots) inside fuel bound (by
      rintro a (root | impossible)
      · exact .inl root
      · cases impossible)
    induction path with
    | single child => exact closed r (.inl root) _ child
    | tail _ child ih => exact closed _ (.inr ih) _ child

end

end Closure
