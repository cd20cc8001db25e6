import CertificateJobs.Controller.Cluster
import CertificateJobs.Workflow.Moves

namespace CertificateJobs

theorem requestedParallelism_pos (cjob : CertificateJob) : 1 ≤ requestedParallelism cjob := le_max_right _ _

theorem deriveWorkflowPhase_cases (nodes : List WorkflowNodeState) :
    (deriveWorkflowPhase nodes = .failed ∧ ∃ node ∈ nodes, node.phase = .failed) ∨
    ((∀ node ∈ nodes, node.phase ≠ .failed) ∧
      ((deriveWorkflowPhase nodes = .running ∧ ∃ node ∈ nodes, node.phase = .running) ∨
      ((∀ node ∈ nodes, node.phase ≠ .running) ∧
        ((deriveWorkflowPhase nodes = .pending ∧ ∃ node ∈ nodes, isTerminalPhase node.phase = false) ∨
        (deriveWorkflowPhase nodes = .succeeded ∧ ∀ node ∈ nodes, isTerminalPhase node.phase = true))))) := by
  unfold deriveWorkflowPhase
  split
  · rename_i failed
    exact .inl ⟨rfl, by simpa using failed⟩
  · rename_i failed
    refine .inr ⟨by simpa using failed, ?_⟩
    split
    · rename_i running
      exact .inl ⟨rfl, by simpa using running⟩
    · rename_i running
      refine .inr ⟨by simpa using running, ?_⟩
      split
      · rename_i pending
        obtain ⟨node, member, phase⟩ := List.any_eq_true.mp pending
        exact .inl ⟨rfl, node, member, by simp [of_decide_eq_true phase, isTerminalPhase]⟩
      · split
        · rename_i terminal
          exact .inr ⟨rfl, by simpa using terminal⟩
        · rename_i terminal
          exact .inl ⟨rfl, by simpa using terminal⟩

section
variable {σ : Type} {c : Client σ} {ambient : Ambient} {cjob : CertificateJob} {certificate : Certificate}
  {state : CertificateExecutionState} {graph : GraphMaps} {s : σ} {out : RunOutcome σ} {active : Nat}
  {failed started : List String}

theorem Moves.defined {node after : WorkflowNodeState}
    (moves : Moves c ambient cjob certificate state graph s failed started node after) (before : node.phase.Defined) :
    after.phase.Defined := by
  cases moves with
  | seen sight read => exact writeSight_defined before
  | given => trivial
  | start => trivial
  | stay => exact before

theorem Moves.pending {node after : WorkflowNodeState}
    (moves : Moves c ambient cjob certificate state graph s failed started node after) (waits : after.phase = .pending) :
    after = node ∧ node.jobName = "" ∧ node.name ∉ givenUp c ambient cjob certificate state graph s failed ∧
      node.name ∉ started := by
  cases moves with
  | seen sight read => exact absurd waits writeSight_not_pending
  | given => simp [markSkipped] at waits
  | start => simp [markStarted] at waits
  | stay idle kept => exact ⟨rfl, idle, kept waits⟩

theorem ensure_defined (defined : ∀ node ∈ state.nodes, node.phase.Defined) :
    ∀ node ∈ ensureWorkflowNodeStates cjob state.nodes, node.phase.Defined := by
  intro node member
  rcases mem_ensure member with old | ⟨name, -, -, rfl⟩
  · exact defined node old
  · trivial

theorem Completed.started_running (done : Completed c ambient cjob certificate state graph s out active failed started)
    {name : String} (member : name ∈ started) : ∃ node ∈ out.state.nodes, node.phase = .running ∧
      node.jobName = buildJobName cjob.name certificate.name name state.runID := by
  obtain ⟨⟨node, inside, rfl, -⟩, -⟩ := done.runnable name member
  rw [done.result, startedNodes]
  refine ⟨_, List.mem_map_of_mem inside, ?_, ?_⟩
  · rw [if_pos member]
    rfl
  · rw [if_pos member]
    rfl

theorem Completed.counted_running (done : Completed c ambient cjob certificate state graph s out active failed started)
    (unique : (nodeNames (ensureWorkflowNodeStates cjob state.nodes)).Nodup) (some : 0 < active) :
    ∃ node ∈ out.state.nodes, node.phase = .running := by
  rw [done.counted, List.countP_pos_iff] at some
  obtain ⟨node, member, counted⟩ := some
  obtain ⟨has, counts⟩ := of_decide_eq_true counted
  obtain ⟨after, inside, moves⟩ := done.moves unique member
  refine ⟨after, inside, ?_⟩
  cases moves with
  | seen seen read =>
    rw [read.2] at counts
    rcases writeSight_cases (ambient.clock (.certificateRun certificate.name)) node seen with
      ⟨failure, -⟩ | ⟨rfl, -⟩ | ⟨-, running⟩ | ⟨rfl, started, -⟩
    · cases seen <;> simp_all [Sight.isFailure, countsActive, Except.toOption]
    · simp [Except.toOption, countsActive] at counts
    · exact running
    · simp [Except.toOption, countsActive, started] at counts
  | given idle => exact absurd idle has
  | start idle => exact absurd idle has
  | stay idle => exact absurd idle has

theorem Completed.none_pending (done : Completed c ambient cjob certificate state graph s out active failed started)
    (accepted : Accepted cjob graph) (unique : (nodeNames (ensureWorkflowNodeStates cjob state.nodes)).Nodup)
    (ok : out.err = none) (defined : ∀ node ∈ out.state.nodes, node.phase.Defined)
    (unfailed : ∀ node ∈ out.state.nodes, node.phase ≠ .failed)
    (unrunning : ∀ node ∈ out.state.nodes, node.phase ≠ .running) :
    ∀ node ∈ out.state.nodes, node.phase ≠ .pending := by
  -- A pending node whose dependencies are all done would have been started, unless something else runs. By strong
  -- induction along the ranks of the acyclicity check no node is left pending.
  obtain ⟨rank, below⟩ := accepted.rank
  intro node
  induction bound : rank node.name using Nat.strong_induction_on generalizing node with
  | _ k ih =>
    intro member pending
    have runnable : RunnableNow c ambient cjob certificate state graph s failed node.name := by
      obtain ⟨origin, present, moves⟩ := done.origin unique member
      obtain ⟨rfl, idle, kept, -⟩ := moves.pending pending
      refine ⟨⟨node, ?_, rfl, pending⟩, ?_⟩
      · rw [remainingNodes_eq]
        refine List.mem_map.mpr ⟨node, present, ?_⟩
        rw [observedNow, observed_idle idle, skipNow, if_neg fun both => kept both.2]
      · intro dep inside named
        have still : dep ∈ out.state.nodes := by
          rw [done.result, startedNodes]
          refine List.mem_map.mpr ⟨dep, inside, if_neg ?_⟩
          intro runs
          obtain ⟨other, running, phase, -⟩ := done.started_running runs
          exact unrunning other running phase
        have edge := below _ _ ((accepted.deps _ _).mp named)
        have waited := ih (rank dep.name) (bound ▸ edge) dep rfl still
        have known := defined dep still
        cases phase : dep.phase with
        | pending => exact absurd phase waited
        | running => exact absurd phase (unrunning dep still)
        | failed => exact absurd phase (unfailed dep still)
        | succeeded => rfl
        | skipped => rfl
        | other text => simp [phase, ExecutionPhase.Defined] at known
    rcases done.exhausted ok with all | full
    · obtain ⟨other, inside, running, -⟩ := done.started_running (all _ runnable)
      exact unrunning other inside running
    · cases started with
      | cons first rest =>
        obtain ⟨other, inside, running, -⟩ := done.started_running List.mem_cons_self
        exact unrunning other inside running
      | nil =>
        have positive := requestedParallelism_pos cjob
        obtain ⟨other, inside, running⟩ := done.counted_running unique (by simp at full; omega)
        exact unrunning other inside running

end

/-- A pass without an error leaves something running or ends the run: an accepted workflow never gets stuck. -/
theorem reconcileCertificateRun_progress {σ : Type} (c : Client σ) (ambient : Ambient) (orders : MapOrders)
    (cjob : CertificateJob) (certificate : Certificate) (state : CertificateExecutionState) (graph : GraphMaps) (s : σ)
    (accepted : buildWorkflowGraph orders cjob = .ok graph) (unique : (nodeNames state.nodes).Nodup)
    (defined : ∀ node ∈ state.nodes, node.phase.Defined) :
    ∃ out, reconcileCertificateRun c ambient cjob certificate state graph s = some out ∧
      (out.err = none → out.state.phase ≠ .pending ∧
        ((∃ node ∈ out.state.nodes, node.phase = .running) ∨ isTerminalPhase out.state.phase = true)) := by
  have accepted := buildWorkflowGraph_accepted accepted
  have ensured := ensure_unique accepted.names unique
  obtain ⟨out, result, ⟨processed, stopped⟩ | ⟨active, failed, started, done⟩⟩ :=
    reconcileCertificateRun_spec c ambient certificate state s accepted unique
  · exact ⟨out, result, fun ok => absurd ok stopped.error⟩
  · refine ⟨out, result, fun ok => ?_⟩
    have phases : ∀ node ∈ out.state.nodes, node.phase.Defined := by
      intro node member
      obtain ⟨origin, present, moves⟩ := done.origin ensured member
      exact moves.defined (ensure_defined defined origin present)
    have derived := (done.success ok).1
    rcases deriveWorkflowPhase_cases out.state.nodes with ⟨phase, -⟩ | ⟨unfailed, ⟨phase, running⟩ | ⟨unrunning, rest⟩⟩
    · rw [derived, phase]
      exact ⟨by simp, .inr rfl⟩
    · rw [derived, phase]
      exact ⟨by simp, .inl running⟩
    · have unpending := done.none_pending accepted ensured ok phases unfailed unrunning
      rcases rest with ⟨-, node, member, open_⟩ | ⟨phase, -⟩
      · have known := phases node member
        cases phase : node.phase <;> simp_all [isTerminalPhase, ExecutionPhase.Defined]
      · rw [derived, phase]
        exact ⟨by simp, .inr rfl⟩

theorem reconcileCertificateRun_progress_edited :
    ∃ graph, buildWorkflowGraph {} (sampleCluster (flatSpec ["a", "b"] 1 .bestEffort)).cjob = .ok graph ∧
      ∃ out, reconcileCertificateRun clusterClient { clock := fun _ => 0 } (sampleCluster (flatSpec ["a", "b"] 1 .bestEffort)).cjob
          { ns := "default", name := "web", spec := { secretName := "tls" } }
          { ns := "default", name := "web", phase := .running, nodes := [pendingNode "a", pendingNode "old"] } graph
          (sampleCluster (flatSpec ["a", "b"] 1 .bestEffort)) = some out ∧
        (out.err = none → out.state.phase ≠ .pending ∧
          ((∃ node ∈ out.state.nodes, node.phase = .running) ∨ isTerminalPhase out.state.phase = true)) := by
  have accepted : (buildWorkflowGraph {} (sampleCluster (flatSpec ["a", "b"] 1 .bestEffort)).cjob).toOption.isSome = true := by
    decide +kernel
  cases built : buildWorkflowGraph {} (sampleCluster (flatSpec ["a", "b"] 1 .bestEffort)).cjob with
  | error e => simp [built, Except.toOption] at accepted
  | ok graph =>
    exact ⟨graph, rfl, reconcileCertificateRun_progress _ _ _ _ _ _ graph _ built (by decide)
      (by simp [pendingNode, ExecutionPhase.Defined])⟩

end CertificateJobs
