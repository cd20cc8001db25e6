import CertificateJobs.Runs.Parallelism

namespace CertificateJobs

section
variable {σ : Type} {c : Client σ} {ambient : Ambient} {cjob : CertificateJob} {certificate : Certificate}
  {state : CertificateExecutionState} {graph : GraphMaps} {s : σ} {out : RunOutcome σ} {active : Nat}
  {failed started : List String}

theorem Moves.counted_running {node after : WorkflowNodeState}
    (moves : Moves c ambient cjob certificate state graph s failed started node after) (has : node.jobName ≠ "")
    (counts : (sight (c.getJob s certificate.ns node.jobName)).toOption.any (countsActive node) = true) :
    after.phase = .running := by
  cases moves with
  | seen seen read =>
    rw [read.2] at counts
    rcases writeSight_cases (ambient.clock (.certificateRun certificate.name)) node seen with
      ⟨failure, -⟩ | ⟨rfl, -⟩ | ⟨-, running⟩ | ⟨rfl, started, -⟩
    · cases seen <;> simp_all [Sight.isFailure, countsActive, Except.toOption]
    · simp [Except.toOption, countsActive] at counts
    · exact running
    · simp [Except.toOption, countsActive, started] at counts
  | given idle => exact absurd idle has
  | start idle => exact absurd idle has
  | stay idle => exact absurd idle has

theorem Completed.running_ge (done : Completed c ambient cjob certificate state graph s out active failed started)
    (unique : (nodeNames (ensureWorkflowNodeStates cjob state.nodes)).Nodup) :
    active + started.length ≤ runningCount out.state.nodes := by
  -- The Jobs that a pass counts and the nodes that it starts are different nodes, and it leaves them all running.
  have known : ∀ name ∈ started, name ∈ nodeNames (ensureWorkflowNodeStates cjob state.nodes) := by
    intro name member
    obtain ⟨⟨node, present, rfl, -⟩, -⟩ := done.runnable name member
    rw [← nodeNames_remainingNodes c ambient cjob certificate state graph s failed]
    exact List.mem_map_of_mem present
  have idle : ∀ node ∈ ensureWorkflowNodeStates cjob state.nodes, node.name ∈ started → node.jobName = "" ∧
      node.phase = .pending ∧ node.name ∉ givenUp c ambient cjob certificate state graph s failed :=
    fun node member runs => done.runnable_before unique member (done.runnable node.name runs)
  refine (Nat.add_le_add_left (Counting.le_countP_keys done.distinct known) active).trans ?_
  rw [done.counted, done.result, startedNodes_eq, runningCount, List.countP_map]
  refine Counting.countP_add_le _ ?_ ?_ ?_
  · intro node member counted
    obtain ⟨has, counts⟩ := of_decide_eq_true counted
    exact decide_eq_true ((moves_startedNodes unique done.seen done.runnable member).counted_running has counts)
  · intro node member runs
    have runs := of_decide_eq_true runs
    obtain ⟨fresh, pending, kept⟩ := idle node member runs
    have moves := moves_startedNodes unique done.seen done.runnable member
    simp only [Function.comp_apply, decide_eq_true_eq]
    generalize startNow _ _ _ _ _ _ = after at moves
    cases moves with
    | seen seen read => exact absurd fresh read.1
    | given _ _ given => exact absurd given kept
    | start => rfl
    | stay _ others => exact absurd runs (others pending).2
  · intro node member counted
    obtain ⟨has, -⟩ := of_decide_eq_true counted
    exact decide_eq_false fun runs => has (idle node member runs).1

theorem Completed.runnable_left (done : Completed c ambient cjob certificate state graph s out active failed started)
    {name : String} (waits : Runnable cjob.spec.failurePolicy out.state.nodes graph.deps name) :
    RunnableNow c ambient cjob certificate state graph s failed name ∧ name ∉ started := by
  -- A node that could run on what a pass leaves could run before it started the others, and is none of those.
  obtain ⟨⟨after, inside, rfl, pending⟩, satisfied⟩ := waits
  rw [done.result, startedNodes] at inside satisfied
  obtain ⟨node, present, rfl⟩ := List.mem_map.mp inside
  by_cases runs : node.name ∈ started
  · rw [if_pos runs] at pending
    cases pending
  · rw [if_neg runs] at pending satisfied ⊢
    refine ⟨⟨⟨node, present, rfl, pending⟩, fun dep there named => ?_⟩, runs⟩
    have image := satisfied _ (List.mem_map_of_mem there)
    by_cases begun : dep.name ∈ started
    · simp only [if_pos begun] at image
      cases cjob.spec.failurePolicy <;> simp_all [markStarted, dependencySatisfied]
    · simp only [if_neg begun] at image
      exact image named

end

/-- Scheduling is greedy: after a pass without an error a node only waits for its turn while as many nodes run as the
    spec allows. -/
theorem scheduling_is_greedy {σ : Type} (c : Client σ) (ambient : Ambient) (orders : MapOrders) (cjob : CertificateJob)
    (certificate : Certificate) (state : CertificateExecutionState) (graph : GraphMaps) (s : σ) (out : RunOutcome σ)
    (accepted : buildWorkflowGraph orders cjob = .ok graph) (unique : (nodeNames state.nodes).Nodup)
    (result : reconcileCertificateRun c ambient cjob certificate state graph s = some out) (fine : out.err = none)
    (name : String) (waits : Runnable cjob.spec.failurePolicy out.state.nodes graph.deps name) :
    requestedParallelism cjob ≤ runningCount out.state.nodes := by
  have accepted := buildWorkflowGraph_accepted accepted
  rcases reconcileCertificateRun_cases accepted unique result with ⟨processed, stopped⟩ | ⟨active, failed, started, done⟩
  · exact absurd fine stopped.error
  · obtain ⟨runnable, left⟩ := done.runnable_left waits
    have running := done.running_ge (ensure_unique accepted.names unique)
    rcases done.exhausted fine with all | full
    · exact absurd (all name runnable) left
    · omega

instance (policy : FailurePolicy) (nodes : List WorkflowNodeState) (deps : NodeLists) (name : String) :
    Decidable (Runnable policy nodes deps name) :=
  inferInstanceAs (Decidable ((∃ node ∈ nodes, node.name = name ∧ node.phase = .pending) ∧
    ∀ node ∈ nodes, node.name ∈ deps.get name → dependencySatisfied policy node.phase = true))

def webEntry : CertificateExecutionState := { ns := "default", name := "web", phase := .pending }

theorem scheduling_is_greedy_waiting :
    ∃ graph out, buildWorkflowGraph {} (sampleCluster (flatSpec ["a", "b", "d"] 2 .stopDownstream)).cjob = .ok graph ∧
      reconcileCertificateRun clusterClient stillClock (sampleCluster (flatSpec ["a", "b", "d"] 2 .stopDownstream)).cjob
        webCertificate webEntry graph
        (sampleCluster (flatSpec ["a", "b", "d"] 2 .stopDownstream)) = some out ∧
      Runnable .stopDownstream out.state.nodes graph.deps "d" ∧ 2 ≤ runningCount out.state.nodes := by
  generalize known : sampleCluster (flatSpec ["a", "b", "d"] 2 .stopDownstream) = cluster
  have played : (buildWorkflowGraph {} cluster.cjob).toOption.any (fun graph =>
      (reconcileCertificateRun clusterClient stillClock cluster.cjob webCertificate webEntry graph cluster).any fun out =>
        out.err.isNone ∧ Runnable .stopDownstream out.state.nodes graph.deps "d") = true := by
    rw [← known]
    decide +kernel
  obtain ⟨graph, built, played⟩ := (Option.any_eq_true _ _).mp played
  obtain ⟨out, result, checked⟩ := (Option.any_eq_true _ _).mp played
  obtain ⟨fine, waits⟩ := of_decide_eq_true checked
  have accepted : buildWorkflowGraph {} cluster.cjob = .ok graph := ok_of_toOption built
  have policy : cluster.cjob.spec.failurePolicy = .stopDownstream := by rw [← known]; rfl
  have slots : requestedParallelism cluster.cjob = 2 := by rw [← known]; rfl
  have running := scheduling_is_greedy clusterClient stillClock {} cluster.cjob webCertificate webEntry graph cluster out
    accepted List.nodup_nil result (Option.isNone_iff_eq_none.mp fine) "d" (policy ▸ waits)
  exact ⟨graph, out, accepted, result, waits, by omega⟩

end CertificateJobs
