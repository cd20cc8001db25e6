import Mathlib.Data.Finset.Card
import Mathlib.Data.List.Perm.Subperm
import Mathlib.Logic.Function.Basic
import Mathlib.Logic.Relation

namespace Kahn

variable {α : Type} [DecidableEq α]

structure State (α : Type) where
  indegree : α → Int
  queue : List α
  visited : Nat

def relax (s : State α) (next : α) : State α :=
  let degree := s.indegree next - 1
  { s with
    indegree := Function.update s.indegree next degree
    queue := if degree = 0 then s.queue ++ [next] else s.queue }

def run (outbound : α → List α) : Nat → State α → State α
  | 0, s => s
  | fuel + 1, s =>
    match s.queue with
    | [] => s
    | node :: queue =>
      run outbound fuel ((outbound node).foldl relax { s with queue := queue, visited := s.visited + 1 })

theorem relax_all_visited (nexts : List α) (s : State α) : (nexts.foldl relax s).visited = s.visited := by
  induction nexts generalizing s with
  | nil => rfl
  | cons next nexts ih => simpa [relax] using ih (relax s next)

theorem relax_all_indegree (nexts : List α) (s : State α) (b : α) :
    (nexts.foldl relax s).indegree b = s.indegree b - nexts.count b := by
  induction nexts generalizing s with
  | nil => simp
  | cons next nexts ih =>
    rw [List.foldl_cons, ih, List.count_cons]
    by_cases same : next = b
    · subst same
      simp only [relax, Function.update_self, beq_self_eq_true, if_true]
      omega
    · have other : b ≠ next := fun h => same h.symm
      simp [relax, Function.update_of_ne other, same]

theorem relax_all_queue (nexts : List α) (s : State α) :
    ∃ extra : List α, (nexts.foldl relax s).queue = s.queue ++ extra ∧ extra.Nodup ∧
      ∀ b, b ∈ extra ↔ 1 ≤ s.indegree b ∧ s.indegree b ≤ nexts.count b := by
  induction nexts generalizing s with
  | nil => exact ⟨[], by simp, by simp, by intro b; simp; omega⟩
  | cons next nexts ih =>
    obtain ⟨extra, queue, nodup, member⟩ := ih (relax s next)
    have own : (relax s next).indegree next = s.indegree next - 1 := by simp [relax]
    have others : ∀ b, b ≠ next → (relax s next).indegree b = s.indegree b := by
      intro b different
      simp [relax, Function.update_of_ne different]
    by_cases zero : s.indegree next - 1 = 0
    · refine ⟨next :: extra, ?_, ?_, ?_⟩
      · rw [List.foldl_cons, queue]
        simp [relax, zero]
      · refine List.nodup_cons.mpr ⟨?_, nodup⟩
        rw [member, own]
        omega
      · intro b
        rw [List.mem_cons, member, List.count_cons]
        by_cases same : b = next
        · subst same
          simp only [true_or, beq_self_eq_true, if_true, true_iff]
          omega
        · have other : next ≠ b := fun h => same h.symm
          simp [same, other, others b same]
    · refine ⟨extra, ?_, nodup, ?_⟩
      · rw [List.foldl_cons, queue]
        simp [relax, zero]
      · intro b
        rw [member, List.count_cons]
        by_cases same : b = next
        · subst same
          rw [own]
          simp only [beq_self_eq_true, if_true]
          omega
        · have other : next ≠ b := fun h => same h.symm
          simp [other, others b same]

/-- What the elimination keeps: `order` lists the nodes already taken, each after its dependencies,
    and the count of every node is the number of its dependencies not yet taken. -/
structure Inv (nodes : List α) (deps : α → List α) (order : List α) (s : State α) : Prop where
  visited : s.visited = order.length
  nodup : (order ++ s.queue).Nodup
  inside : ∀ b ∈ order ++ s.queue, b ∈ nodes
  degree : ∀ b ∈ nodes, s.indegree b = (deps b).countP (· ∉ order)
  ready : ∀ b ∈ nodes, b ∈ order ++ s.queue ↔ s.indegree b = 0
  ordered : ∀ before b after, order = before ++ b :: after → ∀ d ∈ deps b, d ∈ before

section
variable {nodes : List α} {deps outbound : α → List α}

theorem countP_taken (l order : List α) (node : α) (fresh : node ∉ order) :
    (l.countP (· ∉ order ++ [node]) : Int) = l.countP (· ∉ order) - l.count node := by
  induction l with
  | nil => simp
  | cons d l ih =>
    simp only [List.countP_cons, List.count_cons]
    by_cases same : d = node
    · subst same
      simp only [List.mem_append, List.mem_singleton] at ih ⊢
      simp only [or_true, not_true_eq_false, decide_false, Bool.false_eq_true, if_false, fresh,
        not_false_eq_true, decide_true, beq_self_eq_true, if_true]
      push_cast
      omega
    · simp only [List.mem_append, List.mem_singleton] at ih ⊢
      simp only [same, or_false, beq_iff_eq, if_false]
      push_cast
      omega

theorem Inv.step {order queue : List α} {node : α} {s : State α} (inv : Inv nodes deps order s)
    (edges : ∀ b ∈ nodes, (outbound node).count b = (deps b).count node)
    (inside : ∀ b ∈ outbound node, b ∈ nodes) (head : s.queue = node :: queue) :
    Inv nodes deps (order ++ [node])
      ((outbound node).foldl relax { s with queue := queue, visited := s.visited + 1 }) := by
  have nodup := inv.nodup
  rw [head] at nodup
  have fresh : node ∉ order := by
    intro member
    exact (List.nodup_append.mp nodup).2.2 node member node List.mem_cons_self rfl
  obtain ⟨extra, grown, extraNodup, member⟩ :=
    relax_all_queue (outbound node) { s with queue := queue, visited := s.visited + 1 }
  have degree : ∀ b ∈ nodes, ((outbound node).foldl relax
      { s with queue := queue, visited := s.visited + 1 }).indegree b =
        (deps b).countP (· ∉ order ++ [node]) := by
    intro b present
    rw [relax_all_indegree, countP_taken _ _ _ fresh, edges b present]
    simp only [inv.degree b present]
  have same : order ++ [node] ++ (queue ++ extra) = (order ++ node :: queue) ++ extra := by simp
  have newly : ∀ b ∈ extra, b ∈ nodes := by
    intro b new
    have counted := (member b).mp new
    apply inside
    apply List.count_pos_iff.mp
    omega
  refine ⟨?_, ?_, ?_, degree, ?_, ?_⟩
  · rw [relax_all_visited]
    simp [inv.visited]
  · rw [grown, same, List.nodup_append]
    refine ⟨nodup, extraNodup, ?_⟩
    rintro b old _ new rfl
    have zero := (inv.ready b (newly b new)).mp (by rw [head]; exact old)
    have positive := ((member b).mp new).1
    simp only [zero] at positive
    omega
  · rw [grown, same]
    intro b present
    rcases List.mem_append.mp present with old | new
    · exact inv.inside b (by rw [head]; exact old)
    · exact newly b new
  · intro b present
    rw [grown, same, List.mem_append, member, relax_all_indegree, edges b present]
    have before := inv.ready b present
    rw [head] at before
    rw [before]
    have after := degree b present
    rw [relax_all_indegree, edges b present] at after
    have sign : (0 : Int) ≤ (deps b).countP (· ∉ order ++ [node]) := Int.natCast_nonneg _
    have whole : (0 : Int) ≤ (deps b).count node := Int.natCast_nonneg _
    simp only at after ⊢
    omega
  · intro before b after split d dep
    rcases List.eq_nil_or_concat after with rfl | ⟨rest, last, rfl⟩
    · obtain ⟨rfl, single⟩ := List.append_inj' split rfl
      obtain rfl : node = b := by simpa using single
      have present := inv.inside node (by simp [head])
      have zero := (inv.ready node present).mp (by simp [head])
      rw [inv.degree node present] at zero
      have none : (deps node).countP (· ∉ order) = 0 := by omega
      simpa using List.countP_eq_zero.mp none d dep
    · have shorter : order ++ [node] = (before ++ b :: rest) ++ [last] := by simpa using split
      obtain ⟨rfl, -⟩ := List.append_inj' shorter rfl
      exact inv.ordered before b rest rfl d dep

theorem run_inv (edges : ∀ a, ∀ b ∈ nodes, (outbound a).count b = (deps b).count a)
    (inside : ∀ a, ∀ b ∈ outbound a, b ∈ nodes) (fuel : Nat) {order : List α} {s : State α}
    (inv : Inv nodes deps order s) :
    ∃ order', Inv nodes deps order' (run outbound fuel s) ∧
      ((run outbound fuel s).queue = [] ∨ order'.length = order.length + fuel) := by
  induction fuel generalizing order s with
  | zero => exact ⟨order, inv, .inr rfl⟩
  | succ fuel ih =>
    rw [run]
    split
    · rename_i empty
      exact ⟨order, inv, .inl empty⟩
    · rename_i node queue head
      obtain ⟨order', final, ended⟩ := ih (inv.step (edges node) (inside node) head)
      refine ⟨order', final, ended.imp_right fun longer => ?_⟩
      rw [longer, List.length_append, List.length_singleton]
      omega

theorem Inv.taken_subperm {order : List α} {s : State α} (inv : Inv nodes deps order s) : order.Subperm nodes :=
  List.subperm_of_subset (List.nodup_append.mp inv.nodup).1 fun b member => inv.inside b (List.mem_append_left _ member)

/-- When every node was taken, the order they were taken in ranks each node above its dependencies. -/
theorem Inv.rank {order : List α} {s : State α} (inv : Inv nodes deps order s)
    (all : s.visited = nodes.length) (outside : ∀ b, b ∉ nodes → deps b = []) :
    ∃ rank : α → Nat, ∀ b, ∀ d ∈ deps b, rank d < rank b := by
  have nodup : order.Nodup := (List.nodup_append.mp inv.nodup).1
  have complete : ∀ b ∈ nodes, b ∈ order := by
    have perm := inv.taken_subperm.perm_of_length_le (Nat.le_of_eq (all ▸ inv.visited))
    intro b member
    exact perm.mem_iff.mpr member
  refine ⟨fun b => order.idxOf b, ?_⟩
  intro b d dep
  by_cases present : b ∈ nodes
  · obtain ⟨before, after, split⟩ := List.append_of_mem (complete b present)
    have earlier := inv.ordered before b after split d dep
    have absent : b ∉ before := by
      intro member
      rw [split] at nodup
      exact (List.nodup_append.mp nodup).2.2 b member b List.mem_cons_self rfl
    simp only [split]
    rw [List.idxOf_append_of_mem earlier, List.idxOf_append_of_notMem absent, List.idxOf_cons_self]
    have bound := List.idxOf_lt_length_of_mem earlier
    omega
  · rw [outside b present] at dep
    cases dep

/-- Once the queue is empty, whatever can be ranked has been taken. -/
theorem Inv.all_taken {order : List α} {s : State α} (inv : Inv nodes deps order s) (empty : s.queue = [])
    (closed : ∀ b ∈ nodes, ∀ d ∈ deps b, d ∈ nodes) {rank : α → Nat} (ranked : ∀ b, ∀ d ∈ deps b, rank d < rank b) :
    ∀ b ∈ nodes, b ∈ order := by
  have below : ∀ bound, ∀ b ∈ nodes, rank b < bound → b ∈ order := by
    intro bound
    induction bound with
    | zero => exact fun b _ impossible => absurd impossible (Nat.not_lt_zero _)
    | succ bound ih =>
      intro b present small
      have done : (deps b).countP (· ∉ order) = 0 := by
        rw [List.countP_eq_zero]
        intro d dep
        simpa using ih d (closed b present d dep) (by have := ranked b d dep; omega)
      have ready := (inv.ready b present).mpr (by rw [inv.degree b present, done]; rfl)
      rwa [empty, List.append_nil] at ready
  exact fun b present => below (rank b + 1) b present (Nat.lt_succ_self _)

theorem run_complete (edges : ∀ a, ∀ b ∈ nodes, (outbound a).count b = (deps b).count a)
    (inside : ∀ a, ∀ b ∈ outbound a, b ∈ nodes) (distinct : nodes.Nodup)
    (closed : ∀ b ∈ nodes, ∀ d ∈ deps b, d ∈ nodes) {rank : α → Nat} (ranked : ∀ b, ∀ d ∈ deps b, rank d < rank b)
    {s : State α} (inv : Inv nodes deps [] s) : (run outbound (nodes.length + 1) s).visited = nodes.length := by
  obtain ⟨order, final, ended⟩ := run_inv edges inside (nodes.length + 1) inv
  have short := final.taken_subperm.length_le
  rcases ended with empty | long
  · have all := final.all_taken empty closed ranked
    have long := (List.subperm_of_subset distinct all).length_le
    rw [final.visited]
    omega
  · simp only [List.length_nil] at long
    omega

end

/-- The elements of a finite relation without cycles can be counted by what lies below them. -/
theorem rank_of_acyclic {nodes : List α} {r : α → α → Prop} (inside : ∀ a b, r a b → a ∈ nodes)
    (acyclic : ∀ a, ¬ Relation.TransGen r a a) : ∃ rank : α → Nat, ∀ a b, r a b → rank a < rank b := by
  classical
  refine ⟨fun b => (nodes.toFinset.filter fun a => Relation.TransGen r a b).card, ?_⟩
  intro a b edge
  apply Finset.card_lt_card
  rw [Finset.ssubset_iff_of_subset]
  · refine ⟨a, ?_, ?_⟩
    · simp only [Finset.mem_filter, List.mem_toFinset]
      exact ⟨inside a b edge, .single edge⟩
    · simp only [Finset.mem_filter, not_and]
      exact fun _ => acyclic a
  · intro lower member
    simp only [Finset.mem_filter, List.mem_toFinset] at member ⊢
    exact ⟨member.1, member.2.tail edge⟩

end Kahn
