import CertificateJobs.Workflow.GraphSound
import CertificateJobs.Workflow.Nodes
import Mathlib.Data.List.Forall2

namespace CertificateJobs

open Relation

def nodeNames (nodes : List WorkflowNodeState) : List String := nodes.map (·.name)

section
variable {nodes : List WorkflowNodeState}

theorem derefNode_of_mem {name : String} (member : name ∈ nodeNames nodes) :
    ∃ node, derefNode nodes name = some node ∧ node ∈ nodes ∧ node.name = name := by
  obtain ⟨i, node, index, at_i, same⟩ := IndexBy.lookup_of_mem member
  exact ⟨node, by simp [derefNode, nodeStateMap, index, at_i], List.mem_of_getElem? at_i, same⟩

theorem node_of_name {name : String} (known : name ∈ nodeNames nodes) :
    ∃ node ∈ nodes, node.name = name := List.mem_map.mp known

theorem node_eq_of_name (unique : (nodeNames nodes).Nodup) {a b : WorkflowNodeState}
    (left : a ∈ nodes) (right : b ∈ nodes) (same : a.name = b.name) : a = b :=
  List.inj_on_of_nodup_map unique left right same

theorem updateNode_eq (unique : (nodeNames nodes).Nodup) {name : String} (member : name ∈ nodeNames nodes)
    (write : WorkflowNodeState → WorkflowNodeState) :
    updateNode nodes name write = some (nodes.map fun node => if node.name = name then write node else node) := by
  obtain ⟨i, -, index, -, -⟩ := IndexBy.lookup_of_mem member
  simp only [updateNode, nodeStateMap, index, Option.map_some]
  rw [IndexBy.modify_lookup unique index]

theorem mem_nodeStateMap {name : String} : name ∈ nodeStateMap nodes ↔ name ∈ nodeNames nodes :=
  IndexBy.mem_indexBy

theorem nodeNames_map (write : WorkflowNodeState → WorkflowNodeState)
    (keeps : ∀ node ∈ nodes, (write node).name = node.name) : nodeNames (nodes.map write) = nodeNames nodes := by
  simp only [nodeNames, List.map_map]
  exact List.map_congr_left keeps

theorem dependencies_known {cjob : CertificateJob} {maps : GraphMaps} (accepted : Accepted cjob maps)
    (covers : ∀ name ∈ jobNames cjob, name ∈ nodeNames nodes) {n d : String} (dep : d ∈ maps.deps.get n) :
    d ∈ nodeNames nodes :=
  covers d (accepted.ends d n ((accepted.deps n d).mp dep)).1

theorem canRun_eq (policy : FailurePolicy) (unique : (nodeNames nodes).Nodup) (list : List String)
    (known : ∀ d ∈ list, d ∈ nodeNames nodes) :
    ∃ answer, canRun policy nodes list = some answer ∧
      (answer = true ↔ ∀ node ∈ nodes, node.name ∈ list → dependencySatisfied policy node.phase = true) := by
  induction list with
  | nil => exact ⟨true, rfl, by simp⟩
  | cons dep rest ih =>
    obtain ⟨node, found, member, rfl⟩ := derefNode_of_mem (known dep List.mem_cons_self)
    simp only [canRun, found, Option.bind_eq_bind, Option.bind_some]
    by_cases satisfied : dependencySatisfied policy node.phase = true
    · obtain ⟨answer, result, meaning⟩ := ih fun d inside => known d (List.mem_cons_of_mem _ inside)
      rw [if_pos satisfied]
      refine ⟨answer, result, meaning.trans ⟨?_, ?_⟩⟩
      · intro holds other present inside
        rcases List.mem_cons.mp inside with same | inside
        · rw [node_eq_of_name unique present member same]
          exact satisfied
        · exact holds other present inside
      · intro holds other present inside
        exact holds other present (List.mem_cons_of_mem _ inside)
    · rw [if_neg satisfied]
      refine ⟨false, rfl, ?_⟩
      simp only [Bool.false_eq_true, false_iff, not_forall]
      exact ⟨node, member, List.mem_cons_self, satisfied⟩

def Runnable (policy : FailurePolicy) (nodes : List WorkflowNodeState) (deps : NodeLists) (name : String) : Prop :=
  (∃ node ∈ nodes, node.name = name ∧ node.phase = .pending) ∧
    ∀ node ∈ nodes, node.name ∈ deps.get name → dependencySatisfied policy node.phase = true

theorem nodeRuns_eq (policy : FailurePolicy) (deps : NodeLists) (unique : (nodeNames nodes).Nodup)
    (closed : ∀ n, ∀ d ∈ deps.get n, d ∈ nodeNames nodes) {node : WorkflowNodeState} (member : node ∈ nodes) :
    ∃ runs, nodeRuns policy nodes deps node = some runs ∧ (runs = true ↔ Runnable policy nodes deps node.name) := by
  by_cases pending : node.phase = .pending
  · obtain ⟨answer, computed, correct⟩ := canRun_eq policy unique (deps.get node.name) (closed node.name)
    refine ⟨answer, by simp [nodeRuns, pending, computed], correct.trans ⟨?_, ?_⟩⟩
    · intro holds
      exact ⟨⟨node, member, rfl, pending⟩, holds⟩
    · intro holds
      exact holds.2
  · refine ⟨false, by simp [nodeRuns, pending], ?_⟩
    simp only [Bool.false_eq_true, false_iff]
    rintro ⟨⟨other, present, same, waiting⟩, -⟩
    rw [node_eq_of_name unique present member same] at waiting
    exact pending waiting

theorem runnableAmong_eq (policy : FailurePolicy) (deps : NodeLists) (unique : (nodeNames nodes).Nodup)
    (closed : ∀ n, ∀ d ∈ deps.get n, d ∈ nodeNames nodes) (names : List String)
    (known : ∀ name ∈ names, name ∈ nodeNames nodes) :
    ∃ runnable, runnableAmong policy nodes deps names = some runnable ∧ runnable.Sublist names ∧
      ∀ name, name ∈ runnable ↔ name ∈ names ∧ Runnable policy nodes deps name := by
  induction names with
  | nil => exact ⟨[], rfl, .slnil, by simp⟩
  | cons name rest ih =>
    obtain ⟨others, result, sub, meaning⟩ := ih fun n inside => known n (List.mem_cons_of_mem _ inside)
    obtain ⟨node, found, member, rfl⟩ := derefNode_of_mem (known name List.mem_cons_self)
    obtain ⟨runs, computed, correct⟩ := nodeRuns_eq policy deps unique closed member
    refine ⟨if runs then node.name :: others else others, ?_, ?_, ?_⟩
    · simp only [runnableAmong, found, Option.bind_eq_bind, Option.bind_some, computed, result, Option.pure_def]
    · split
      · exact sub.cons_cons _
      · exact sub.cons _
    · intro n
      cases runs with
      | true =>
        have runnable := correct.mp rfl
        simp only [if_true, List.mem_cons, meaning]
        constructor
        · rintro (rfl | ⟨inside, holds⟩)
          · exact ⟨.inl rfl, runnable⟩
          · exact ⟨.inr inside, holds⟩
        · rintro ⟨rfl | inside, holds⟩
          · exact .inl rfl
          · exact .inr ⟨inside, holds⟩
      | false =>
        have blocked : ¬ Runnable policy nodes deps node.name := by
          intro holds
          exact absurd (correct.mpr holds) (by simp)
        simp only [Bool.false_eq_true, if_false, List.mem_cons, meaning]
        constructor
        · rintro ⟨inside, holds⟩
          exact ⟨.inr inside, holds⟩
        · rintro ⟨rfl | inside, holds⟩
          · exact absurd holds blocked
          · exact ⟨inside, holds⟩

theorem runnableNodes_eq (order : MapOrder) (policy : FailurePolicy) (deps : NodeLists)
    (unique : (nodeNames nodes).Nodup) (closed : ∀ n, ∀ d ∈ deps.get n, d ∈ nodeNames nodes) :
    ∃ runnable, runnableNodes order policy nodes deps = some runnable ∧ runnable.Nodup ∧
      ∀ name, name ∈ runnable ↔ Runnable policy nodes deps name := by
  have visited : ∀ name, name ∈ order.visit (nodeStateMap nodes).keys ↔ name ∈ nodeNames nodes := by
    intro name
    rw [MapOrder.mem_visit, ← AList.mem_keys, mem_nodeStateMap]
  obtain ⟨runnable, result, sub, meaning⟩ :=
    runnableAmong_eq policy deps unique closed _ fun name inside => (visited name).mp inside
  refine ⟨runnable, result, ?_, ?_⟩
  · exact sub.nodup ((order.perm _).nodup_iff.mpr (AList.keys_nodup _))
  · intro name
    rw [meaning, visited]
    constructor
    · exact fun both => both.2
    · intro holds
      obtain ⟨node, member, rfl, -⟩ := holds.1
      exact ⟨List.mem_map_of_mem member, holds⟩

theorem mem_descendantNodes (order : MapOrder) (reverse : NodeLists) (roots : List String) {name : String} :
    name ∈ descendantNodes order reverse roots ↔
      ∃ root ∈ roots, TransGen (fun a b => b ∈ reverse.get a) root name := by
  have inside : ∀ a, ∀ b ∈ reverse.get a, b ∈ reverse.entries.flatMap (·.2) := by
    intro a b child
    cases found : reverse.lookup a with
    | none => simp [NodeLists.get, found] at child
    | some values =>
      simp only [NodeLists.get, found, Option.getD_some] at child
      exact List.mem_flatMap.mpr ⟨⟨a, values⟩, AList.mem_lookup_iff.mp found, child⟩
  rw [descendantNodes, List.mem_insertionSort, MapOrder.mem_visit, Closure.mem_collect inside (Nat.le_refl _)]

theorem descendantNodes_accepted {cjob : CertificateJob} {maps : GraphMaps} (accepted : Accepted cjob maps)
    (order : MapOrder) (roots : List String) {name : String} :
    name ∈ descendantNodes order maps.reverse roots ↔ ∃ root ∈ roots, TransGen (Edge cjob) root name := by
  rw [mem_descendantNodes]
  have same : (fun a b => b ∈ maps.reverse.get a) = Edge cjob := by
    funext a b
    exact propext (accepted.reverse a b)
  rw [same]

def skipNamed (message : String) (t : String → Time) (nodes : List WorkflowNodeState) (names : List String) :
    List WorkflowNodeState :=
  nodes.map fun node => if node.phase = .pending ∧ node.name ∈ names then markSkipped message t node else node

theorem nodeNames_skipNamed (message : String) (t : String → Time) (names : List String) :
    nodeNames (skipNamed message t nodes names) = nodeNames nodes := by
  apply nodeNames_map
  intro node _
  split <;> rfl

theorem skipNamed_append (message : String) (t : String → Time) (left right : List String) :
    skipNamed message t (skipNamed message t nodes left) right = skipNamed message t nodes (left ++ right) := by
  simp only [skipNamed, List.map_map]
  apply List.map_congr_left
  intro node _
  simp only [Function.comp_apply, List.mem_append]
  by_cases pending : node.phase = .pending
  · by_cases first : node.name ∈ left
    · simp [pending, first, markSkipped]
    · simp [pending, first]
  · simp [pending]

theorem skipNamed_nil (message : String) (t : String → Time) : skipNamed message t nodes [] = nodes := by
  simp [skipNamed]

theorem skipNamed_started (message : String) (t : String → Time) {names : List String}
    (started : ∀ node ∈ nodes, node.name ∈ names → node.phase ≠ .pending) :
    skipNamed message t nodes names = nodes := by
  conv => rhs; rw [← List.map_id nodes]
  apply List.map_congr_left
  intro node member
  exact if_neg fun both => started node member both.2 both.1

theorem updateNode_skip (message : String) (t : String → Time) (unique : (nodeNames nodes).Nodup)
    {node : WorkflowNodeState} (member : node ∈ nodes) (pending : node.phase = .pending) :
    updateNode nodes node.name (markSkipped message t) = some (skipNamed message t nodes [node.name]) := by
  rw [updateNode_eq unique (List.mem_map_of_mem member)]
  congr 1
  apply List.map_congr_left
  intro other inside
  by_cases same : other.name = node.name
  · simp [node_eq_of_name unique inside member same, pending]
  · simp [same]

theorem skipDescendant_eq (t : String → Time) (unique : (nodeNames nodes).Nodup) {name : String}
    (member : name ∈ nodeNames nodes) :
    skipDescendant t nodes name = some (skipNamed "skipped due to failed dependency" t nodes [name]) := by
  obtain ⟨node, found, present, rfl⟩ := derefNode_of_mem member
  simp only [skipDescendant, found, Option.bind_eq_bind, Option.bind_some]
  split
  · rename_i pending
    exact updateNode_skip _ t unique present pending
  · rename_i started
    rw [skipNamed_started]
    intro other inside same
    rw [node_eq_of_name unique inside present (List.mem_singleton.mp same)]
    exact started

theorem skipAt_eq (t : String → Time) (unique : (nodeNames nodes).Nodup) (i : Nat) :
    skipAt t nodes i =
      some (skipNamed "skipped because workflow stopped after a failure" t nodes (nodeNames nodes)[i]?.toList) := by
  unfold skipAt
  split
  · rename_i absent
    simp [nodeNames, absent, skipNamed_nil]
  · rename_i node present
    have named : (nodeNames nodes)[i]?.toList = [node.name] := by simp [nodeNames, present]
    have member : node ∈ nodes := List.mem_of_getElem? present
    rw [named]
    split
    · rename_i pending
      exact updateNode_skip _ t unique member pending
    · rename_i started
      rw [skipNamed_started]
      intro other inside same
      rw [node_eq_of_name unique inside member (List.mem_singleton.mp same)]
      exact started

theorem foldlM_skip {β : Type} (message : String) (t : String → Time)
    (step : List WorkflowNodeState → β → Option (List WorkflowNodeState)) (targets : β → List String)
    (items : List β) (names : List String)
    (effect : ∀ current, nodeNames current = names → ∀ item ∈ items,
      step current item = some (skipNamed message t current (targets item)))
    (nodes : List WorkflowNodeState) (same : nodeNames nodes = names) :
    items.foldlM step nodes = some (skipNamed message t nodes (items.flatMap targets)) := by
  induction items generalizing nodes with
  | nil => simp [skipNamed_nil]
  | cons item items ih =>
    rw [List.foldlM_cons, effect nodes same item List.mem_cons_self, Option.bind_eq_bind, Option.bind_some,
      ih (fun current names other inside => effect current names other (List.mem_cons_of_mem _ inside)) _
        (by rw [nodeNames_skipNamed, same]),
      skipNamed_append, List.flatMap_cons]

def skipMessage : FailurePolicy → String
  | .continueIndependent => "skipped due to failed dependency"
  | _ => "skipped because workflow stopped after a failure"

def skipTargets (order : MapOrder) (policy : FailurePolicy) (nodes : List WorkflowNodeState) (reverse : NodeLists)
    (failed : List String) : List String :=
  if failed = [] then []
  else match policy with
    | .bestEffort => []
    | .continueIndependent => descendantNodes order reverse failed
    | _ => nodeNames nodes

theorem skipNamed_congr (message : String) (t : String → Time) {left right : List String}
    (same : ∀ name ∈ nodeNames nodes, name ∈ left ↔ name ∈ right) :
    skipNamed message t nodes left = skipNamed message t nodes right := by
  apply List.map_congr_left
  intro node member
  simp only [same node.name (List.mem_map_of_mem member)]

theorem skipAll_eq (t : String → Time) (unique : (nodeNames nodes).Nodup) :
    (List.range nodes.length).foldlM (skipAt t) nodes =
      some (skipNamed "skipped because workflow stopped after a failure" t nodes (nodeNames nodes)) := by
  rw [foldlM_skip "skipped because workflow stopped after a failure" t (skipAt t)
    (fun i => (nodeNames nodes)[i]?.toList) _ (nodeNames nodes) ?_ nodes rfl]
  · congr 1
    apply skipNamed_congr
    intro name member
    simp only [List.mem_flatMap, List.mem_range, Option.mem_toList, member, iff_true]
    obtain ⟨i, bound, at_i⟩ := List.mem_iff_getElem.mp member
    refine ⟨i, by simpa [nodeNames] using bound, ?_⟩
    rw [List.getElem?_eq_getElem bound, at_i]
  · intro current names i _
    rw [skipAt_eq t (by rw [names]; exact unique), names]

/-- `applyFailurePolicy` finds every node it looks up and skips exactly the policy's pending targets. -/
theorem applyFailurePolicy_eq {cjob : CertificateJob} {maps : GraphMaps} (accepted : Accepted cjob maps)
    (order : MapOrder) (policy : FailurePolicy) (failed : List String) (t : String → Time)
    (unique : (nodeNames nodes).Nodup) (covers : ∀ name ∈ jobNames cjob, name ∈ nodeNames nodes) :
    applyFailurePolicy order policy nodes maps.reverse failed t =
      some (skipNamed (skipMessage policy) t nodes (skipTargets order policy nodes maps.reverse failed)) := by
  unfold applyFailurePolicy skipTargets
  by_cases empty : failed = []
  · simp [empty, skipNamed_nil]
  · have nonzero : ¬ failed.length = 0 := fun zero => empty (List.eq_nil_of_length_eq_zero zero)
    rw [if_neg nonzero, if_neg empty]
    cases policy with
    | bestEffort => simp only [skipNamed_nil]
    | continueIndependent =>
      have known : ∀ name ∈ descendantNodes order maps.reverse failed, name ∈ nodeNames nodes := by
        intro name member
        obtain ⟨root, -, path⟩ := (descendantNodes_accepted accepted order failed).mp member
        obtain ⟨before, -, last⟩ := TransGen.tail'_iff.mp path
        exact covers name (accepted.ends before name last).2
      have folded := foldlM_skip "skipped due to failed dependency" t (skipDescendant t) (fun name => [name])
        (descendantNodes order maps.reverse failed) (nodeNames nodes) (by
          intro current names name member
          exact skipDescendant_eq t (by rw [names]; exact unique) (by rw [names]; exact known name member)) nodes rfl
      simpa [skipMessage] using folded
    | stopDownstream => exact skipAll_eq t unique
    | other text => exact skipAll_eq t unique

end

def FailurePolicy.Abandons (policy : FailurePolicy) (cjob : CertificateJob) (failed : List String) (name : String) : Prop :=
  match policy with
  | .bestEffort => False
  | .continueIndependent => ∃ root ∈ failed, TransGen (Edge cjob) root name
  | _ => True

theorem mem_skipTargets {cjob : CertificateJob} {maps : GraphMaps} (accepted : Accepted cjob maps) (order : MapOrder)
    (policy : FailurePolicy) {nodes : List WorkflowNodeState} {failed : List String} (failures : failed ≠ [])
    {name : String} (known : name ∈ nodeNames nodes) :
    name ∈ skipTargets order policy nodes maps.reverse failed ↔ policy.Abandons cjob failed name := by
  unfold skipTargets FailurePolicy.Abandons
  rw [if_neg failures]
  cases policy with
  | bestEffort => simp
  | continueIndependent => exact descendantNodes_accepted accepted order failed
  | stopDownstream => exact iff_true_intro known
  | other text => exact iff_true_intro known

/-- The policy skips the pending nodes that it abandons and leaves all others as they are. -/
theorem failure_policy_exact (orders : MapOrders) (cjob : CertificateJob) (maps : GraphMaps) (order : MapOrder)
    (policy : FailurePolicy) (nodes : List WorkflowNodeState) (failed : List String) (t : String → Time)
    (accepted : buildWorkflowGraph orders cjob = .ok maps) (unique : (nodeNames nodes).Nodup)
    (covers : ∀ name ∈ jobNames cjob, name ∈ nodeNames nodes) (failures : failed ≠ []) :
    ∃ result, applyFailurePolicy order policy nodes maps.reverse failed t = some result ∧
      List.Forall₂ (fun before after =>
        (before.phase = .pending ∧ policy.Abandons cjob failed before.name →
          after = { before with
            phase := .skipped, message := skipMessage policy, completedAt := some (t before.name) }) ∧
        (¬ (before.phase = .pending ∧ policy.Abandons cjob failed before.name) → after = before)) nodes result := by
  have accepted := buildWorkflowGraph_accepted accepted
  refine ⟨_, applyFailurePolicy_eq accepted order policy failed t unique covers, ?_⟩
  rw [skipNamed, List.forall₂_map_right_iff, List.forall₂_same]
  intro node member
  have target := mem_skipTargets accepted order policy failures (List.mem_map_of_mem member)
  constructor
  · rintro ⟨pending, abandoned⟩
    exact if_pos ⟨pending, target.mpr abandoned⟩
  · intro kept
    exact if_neg fun both => kept ⟨both.1, target.mp both.2⟩

def chainJob : CertificateJob where
  ns := "default"
  name := "renewal"
  spec :=
    { jobs := ["a", "b", "c", "d"].map fun name => { name := name }
      workflow := { edges := [⟨"a", "b"⟩, ⟨"b", "c"⟩] } }

def failedChain : List WorkflowNodeState :=
  [{ name := "a", phase := .failed }, { name := "b", phase := .running }, pendingNode "c", pendingNode "d"]

theorem failure_policy_exact_chain :
    ∃ maps result, buildWorkflowGraph {} chainJob = .ok maps ∧
      applyFailurePolicy .listed .continueIndependent failedChain maps.reverse ["a"] (fun _ => 7) = some result ∧
      result.map (·.phase) = [.failed, .running, .skipped, .pending] := by
  have built : buildWorkflowGraph {} chainJob = .ok (builtMaps chainJob) := rfl
  have reached : TransGen (Edge chainJob) "a" "c" :=
    .tail (.single ⟨⟨"a", "b"⟩, by simp [chainJob], rfl, rfl⟩) ⟨⟨"b", "c"⟩, by simp [chainJob], rfl, rfl⟩
  have apart : ¬ TransGen (Edge chainJob) "a" "d" := by
    intro path
    obtain ⟨before, -, edge, listed, -, last⟩ := TransGen.tail'_iff.mp path
    simp only [chainJob, List.mem_cons, List.not_mem_nil, or_false] at listed
    rcases listed with rfl | rfl
    · exact absurd last (by decide)
    · exact absurd last (by decide)
  obtain ⟨result, applied, changes⟩ := failure_policy_exact {} chainJob _ .listed .continueIndependent failedChain ["a"]
    (fun _ => 7) built (by decide) (by decide) (by simp)
  refine ⟨_, result, built, applied, ?_⟩
  unfold failedChain at changes
  rcases changes with _ | ⟨first, _ | ⟨second, _ | ⟨third, _ | ⟨fourth, _ | _⟩⟩⟩⟩
  rw [first.2 (by simp), second.2 (by simp), third.1 ⟨rfl, "a", by simp, reached⟩,
    fourth.2 (by simpa [pendingNode, FailurePolicy.Abandons] using apart)]
  rfl

end CertificateJobs
