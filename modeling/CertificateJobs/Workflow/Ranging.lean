import CertificateJobs.Controller.Cluster
import CertificateJobs.Workflow.Total

namespace CertificateJobs

theorem insertionSort_eq_of_perm {left right : List String} (perm : left.Perm right) :
    left.insertionSort (· ≤ ·) = right.insertionSort (· ≤ ·) := by
  have same : (left.insertionSort (· ≤ ·)).Perm (right.insertionSort (· ≤ ·)) :=
    (List.perm_insertionSort _ left).trans (perm.trans (List.perm_insertionSort _ right).symm)
  exact same.eq_of_pairwise' (List.pairwise_insertionSort _ left) (List.pairwise_insertionSort _ right)

theorem descendantNodes_order_free (order order' : MapOrder) (reverse : NodeLists) {roots roots' : List String}
    (perm : roots.Perm roots') : descendantNodes order reverse roots = descendantNodes order' reverse roots' := by
  have distinct : ∀ (order : MapOrder) (roots : List String), (descendantNodes order reverse roots).Nodup := by
    intro order roots
    have collected : (Closure.collect reverse.get (roots.length + (reverse.entries.flatMap (·.2)).length) roots []).Nodup :=
      Closure.nodup_collect _ roots List.nodup_nil
    exact (List.perm_insertionSort _ _).nodup_iff.mpr ((order.perm _).nodup_iff.mpr collected)
  have members : ∀ name, name ∈ descendantNodes order reverse roots ↔ name ∈ descendantNodes order' reverse roots' := by
    intro name
    simp only [mem_descendantNodes, perm.mem_iff]
  have same := (List.perm_ext_iff_of_nodup (distinct order roots) (distinct order' roots')).mpr members
  exact same.eq_of_pairwise' (List.pairwise_insertionSort _ _) (List.pairwise_insertionSort _ _)

theorem applyFailurePolicy_order_free (order order' : MapOrder) (policy : FailurePolicy)
    (nodes : List WorkflowNodeState) (reverse : NodeLists) {failed failed' : List String} (perm : failed.Perm failed')
    (t : String → Time) :
    applyFailurePolicy order policy nodes reverse failed t = applyFailurePolicy order' policy nodes reverse failed' t := by
  unfold applyFailurePolicy
  rw [perm.length_eq, descendantNodes_order_free order order' reverse perm]

section
variable {policy : FailurePolicy} {nodes : List WorkflowNodeState} {deps : NodeLists}

theorem runnableAmong_perm {names names' : List String} (perm : names.Perm names') {runnable : List String}
    (selected : runnableAmong policy nodes deps names = some runnable) :
    ∃ runnable', runnableAmong policy nodes deps names' = some runnable' ∧ runnable.Perm runnable' := by
  -- Each name is tested on its own, so other orders select the same names, or meet the same nil pointer.
  induction perm generalizing runnable with
  | nil => exact ⟨runnable, selected, .rfl⟩
  | cons name _ ih =>
    obtain ⟨node, found, selected⟩ := Option.bind_eq_some_iff.mp selected
    obtain ⟨runs, tested, selected⟩ := Option.bind_eq_some_iff.mp selected
    obtain ⟨others, rest, result⟩ := Option.bind_eq_some_iff.mp selected
    obtain rfl := Option.some.inj result
    obtain ⟨others', rest', same⟩ := ih rest
    refine ⟨if runs then name :: others' else others', ?_, ?_⟩
    · simp [runnableAmong, found, tested, rest']
    · split
      · exact same.cons name
      · exact same
  | swap first second rest =>
    obtain ⟨node, found, selected⟩ := Option.bind_eq_some_iff.mp selected
    obtain ⟨runs, tested, selected⟩ := Option.bind_eq_some_iff.mp selected
    obtain ⟨inner, later, result⟩ := Option.bind_eq_some_iff.mp selected
    obtain rfl := Option.some.inj result
    obtain ⟨node', found', later⟩ := Option.bind_eq_some_iff.mp later
    obtain ⟨runs', tested', later⟩ := Option.bind_eq_some_iff.mp later
    obtain ⟨others, rest, result⟩ := Option.bind_eq_some_iff.mp later
    obtain rfl := Option.some.inj result
    refine ⟨_, by simp [runnableAmong, found, found', tested, tested', rest]; rfl, ?_⟩
    cases runs <;> cases runs' <;> simp [List.Perm.swap]
  | trans _ _ first second =>
    obtain ⟨middle, selected, left⟩ := first selected
    obtain ⟨last, selected, right⟩ := second selected
    exact ⟨last, selected, left.trans right⟩

theorem runnableNodes_order_free (order order' : MapOrder) :
    (runnableNodes order policy nodes deps).map (·.insertionSort (· ≤ ·)) =
      (runnableNodes order' policy nodes deps).map (·.insertionSort (· ≤ ·)) := by
  have perm : (order.visit (nodeStateMap nodes).keys).Perm (order'.visit (nodeStateMap nodes).keys) :=
    (order.perm _).trans (order'.perm _).symm
  unfold runnableNodes
  cases selected : runnableAmong policy nodes deps (order.visit (nodeStateMap nodes).keys) with
  | some runnable =>
    obtain ⟨runnable', selected', same⟩ := runnableAmong_perm perm selected
    rw [selected', Option.map_some, Option.map_some, insertionSort_eq_of_perm same]
  | none =>
    cases selected' : runnableAmong policy nodes deps (order'.visit (nodeStateMap nodes).keys) with
    | none => rfl
    | some runnable' =>
      obtain ⟨runnable, impossible, -⟩ := runnableAmong_perm perm.symm selected'
      rw [selected] at impossible
      cases impossible

end

section
variable {σ : Type} (c : Client σ) (cjob : CertificateJob) (certificate : Certificate)

theorem fillSlots_order_free (order order' : MapOrder) (runID : String) (nodes : List WorkflowNodeState)
    (deps : NodeLists) (slots : Int) (now : Time) (s : σ) :
    fillSlots c order cjob certificate runID nodes deps slots now s =
      fillSlots c order' cjob certificate runID nodes deps slots now s := by
  have sorted : ∀ order : MapOrder, scheduleRunnableNodes c order cjob certificate runID nodes deps slots now s =
      ((runnableNodes order cjob.spec.failurePolicy nodes deps).map (·.insertionSort (· ≤ ·))).bind fun names =>
        scheduleNodes c cjob certificate runID now names slots nodes s := by
    intro order
    rw [Option.bind_map]
    rfl
  unfold fillSlots
  rw [sorted order, sorted order', runnableNodes_order_free order order']

theorem reconcileCertificateRun_order_free (clock : ClockRead → Time) (orders orders' : MapOrders)
    (state : CertificateExecutionState) (graph : GraphMaps) (s : σ) :
    reconcileCertificateRun c ⟨clock, orders⟩ cjob certificate state graph s =
      reconcileCertificateRun c ⟨clock, orders'⟩ cjob certificate state graph s := by
  unfold reconcileCertificateRun
  dsimp only
  cases observed : (observeWorkflowNodeJobs (c.getJob s certificate.ns) (clock (.certificateRun certificate.name))
      (ensureWorkflowNodeStates cjob state.nodes)).err with
  | some e => rfl
  | none =>
    have failures : ∀ failed : List String, (orders.failed.visit failed).Perm (orders'.failed.visit failed) :=
      fun failed => (orders.failed.perm failed).trans (orders'.failed.perm failed).symm
    simp only [applyFailurePolicy_order_free orders.seen orders'.seen cjob.spec.failurePolicy _ graph.reverse
      (failures _), fillSlots_order_free c cjob certificate orders.nodes orders'.nodes]

/-- A pass has one outcome, whatever order Go ranges over its maps and sets in: the node states, the Jobs it asks for
    one after the other, its flags, its error and what it leaves in the cluster. -/
theorem scheduling_order_free (clock : ClockRead → Time) (state : CertificateExecutionState) (graph : GraphMaps) (s : σ)
    (built : MapOrders) (accepted : buildWorkflowGraph built cjob = .ok graph) :
    ∃ out, ∀ orders, buildWorkflowGraph orders cjob = .ok graph ∧
      reconcileCertificateRun c ⟨clock, orders⟩ cjob certificate state graph s = some out := by
  obtain ⟨out, result⟩ := reconcileCertificateRun_total c cjob certificate (buildWorkflowGraph_accepted accepted)
    ⟨clock, built⟩ state s
  refine ⟨out, fun orders => ⟨buildWorkflowGraph_ok_iff.mpr (buildWorkflowGraph_ok_iff.mp accepted), ?_⟩⟩
  rw [reconcileCertificateRun_order_free c cjob certificate clock orders built, result]

end

theorem scheduling_order_free_pair :
    let spec := flatSpec ["b", "a"] 1 .bestEffort
    let entry : CertificateExecutionState := { ns := "default", name := "web", phase := .pending }
    let pass := fun orders => reconcileCertificateRun clusterClient ⟨fun _ => 0, orders⟩ (sampleCluster spec).cjob
      webCertificate entry (builtMaps (sampleCluster spec).cjob) (sampleCluster spec)
    ∃ out, pass {} = some out ∧ pass { nodes := reversedOrder, failed := reversedOrder, seen := reversedOrder } = some out := by
  intro spec entry pass
  obtain ⟨out, always⟩ := scheduling_order_free clusterClient (sampleCluster spec).cjob webCertificate (fun _ => 0)
    entry (builtMaps (sampleCluster spec).cjob) (sampleCluster spec) {} rfl
  exact ⟨out, (always {}).2, (always _).2⟩

end CertificateJobs
