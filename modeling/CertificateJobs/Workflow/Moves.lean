import CertificateJobs.Workflow.Pass

namespace CertificateJobs

section
variable {now : Time} {node : WorkflowNodeState} {seen : Sight}

theorem writeSight_cases (now : Time) (node : WorkflowNodeState) (seen : Sight) :
    (seen.isFailure = true ∧ (writeSight now node seen).phase = .failed) ∨
    (seen = .complete ∧ (writeSight now node seen).phase = .succeeded) ∨
    (countsActive node seen = true ∧ (writeSight now node seen).phase = .running) ∨
    (seen = .idle ∧ node.phase ≠ .pending ∧ writeSight now node seen = node) := by
  cases seen with
  | missing => exact .inl ⟨rfl, rfl⟩
  | failed => exact .inl ⟨rfl, rfl⟩
  | complete => exact .inr (.inl ⟨rfl, rfl⟩)
  | active => exact .inr (.inr (.inl ⟨rfl, rfl⟩))
  | idle =>
    by_cases pending : node.phase = .pending
    · exact .inr (.inr (.inl ⟨by simpa [countsActive], by simp [writeSight, pending]⟩))
    · exact .inr (.inr (.inr ⟨rfl, pending, by simp [writeSight, pending]⟩))

theorem writeSight_not_pending : (writeSight now node seen).phase ≠ .pending := by
  rcases writeSight_cases now node seen with ⟨-, phase⟩ | ⟨-, phase⟩ | ⟨-, phase⟩ | ⟨-, started, same⟩
  · simp [phase]
  · simp [phase]
  · simp [phase]
  · rwa [same]

theorem writeSight_failed (after : (writeSight now node seen).phase = .failed) :
    seen.isFailure = true ∨ (seen = .idle ∧ node.phase = .failed) := by
  rcases writeSight_cases now node seen with ⟨failure, -⟩ | ⟨-, phase⟩ | ⟨-, phase⟩ | ⟨idle, -, same⟩
  · exact .inl failure
  · simp [phase] at after
  · simp [phase] at after
  · exact .inr ⟨idle, same ▸ after⟩

theorem writeSight_running (after : (writeSight now node seen).phase = .running) :
    countsActive node seen = true ∨ (seen = .idle ∧ node.phase = .running) := by
  rcases writeSight_cases now node seen with ⟨-, phase⟩ | ⟨-, phase⟩ | ⟨counted, -⟩ | ⟨idle, -, same⟩
  · simp [phase] at after
  · simp [phase] at after
  · exact .inl counted
  · exact .inr ⟨idle, same ▸ after⟩

theorem writeSight_skipped (after : (writeSight now node seen).phase = .skipped) : node.phase = .skipped := by
  rcases writeSight_cases now node seen with ⟨-, phase⟩ | ⟨-, phase⟩ | ⟨-, phase⟩ | ⟨-, -, same⟩
  · simp [phase] at after
  · simp [phase] at after
  · simp [phase] at after
  · rwa [same] at after

theorem writeSight_defined (before : node.phase.Defined) : (writeSight now node seen).phase.Defined := by
  rcases writeSight_cases now node seen with ⟨-, phase⟩ | ⟨-, phase⟩ | ⟨-, phase⟩ | ⟨-, -, same⟩
  · simp [phase, ExecutionPhase.Defined]
  · simp [phase, ExecutionPhase.Defined]
  · simp [phase, ExecutionPhase.Defined]
  · rwa [same]

end

section
variable {σ : Type} (c : Client σ) (ambient : Ambient) (cjob : CertificateJob) (certificate : Certificate)
  (state : CertificateExecutionState) (graph : GraphMaps) (s : σ)

def skipNow (failed : List String) (node : WorkflowNodeState) : WorkflowNodeState :=
  if node.phase = .pending ∧ node.name ∈ givenUp c ambient cjob certificate state graph s failed then
    markSkipped (skipMessage cjob.spec.failurePolicy) (fun node => ambient.clock (.skipNode certificate.name node)) node
  else node

def startNow (names : List String) (node : WorkflowNodeState) : WorkflowNodeState :=
  if node.name ∈ names then
    markStarted (buildJobName cjob.name certificate.name node.name state.runID)
      (ambient.clock (.certificateRun certificate.name)) node
  else node

theorem remainingNodes_eq (failed : List String) :
    remainingNodes c ambient cjob certificate state graph s failed =
      (ensureWorkflowNodeStates cjob state.nodes).map fun node =>
        skipNow c ambient cjob certificate state graph s failed (observedNow c ambient certificate s node) := by
  simp only [remainingNodes, skipNamed, observedNodes, List.map_map]
  rfl

theorem startedNodes_eq (failed names : List String) :
    startedNodes c ambient cjob certificate state graph s failed names =
      (ensureWorkflowNodeStates cjob state.nodes).map fun node =>
        startNow ambient cjob certificate state names
          (skipNow c ambient cjob certificate state graph s failed (observedNow c ambient certificate s node)) := by
  simp only [startedNodes, startNamed, remainingNodes_eq, List.map_map]
  rfl

theorem skipNow_name (failed : List String) (node : WorkflowNodeState) :
    (skipNow c ambient cjob certificate state graph s failed node).name = node.name := by
  unfold skipNow
  split <;> rfl

/-- What a completed pass does to one node. A node with a Job is only observed; a pending node without one is
    given up, started, or left alone. -/
inductive Moves (failed started : List String) (node : WorkflowNodeState) : WorkflowNodeState → Prop
  | seen (sight : Sight) : Seen (c.getJob s certificate.ns) node sight →
      Moves failed started node (writeSight (ambient.clock (.certificateRun certificate.name)) node sight)
  | given : node.jobName = "" → node.phase = .pending →
      node.name ∈ givenUp c ambient cjob certificate state graph s failed →
      Moves failed started node (markSkipped (skipMessage cjob.spec.failurePolicy)
        (fun node => ambient.clock (.skipNode certificate.name node)) node)
  | start : node.jobName = "" → node.phase = .pending →
      node.name ∉ givenUp c ambient cjob certificate state graph s failed → node.name ∈ started →
      RunnableNow c ambient cjob certificate state graph s failed node.name →
      Moves failed started node (markStarted (buildJobName cjob.name certificate.name node.name state.runID)
        (ambient.clock (.certificateRun certificate.name)) node)
  | stay : node.jobName = "" →
      (node.phase = .pending →
        node.name ∉ givenUp c ambient cjob certificate state graph s failed ∧ node.name ∉ started) →
      Moves failed started node node

variable {c ambient cjob certificate state graph s}

theorem RunnableNow.pending {failed : List String} (unique : (nodeNames (ensureWorkflowNodeStates cjob state.nodes)).Nodup)
    {node : WorkflowNodeState} (member : node ∈ ensureWorkflowNodeStates cjob state.nodes)
    (runnable : RunnableNow c ambient cjob certificate state graph s failed node.name) :
    (skipNow c ambient cjob certificate state graph s failed (observedNow c ambient certificate s node)).phase =
      .pending := by
  obtain ⟨⟨other, inside, named, pending⟩, -⟩ := runnable
  rw [remainingNodes_eq] at inside
  obtain ⟨origin, present, rfl⟩ := List.mem_map.mp inside
  rw [skipNow_name, observedNow, observed_name] at named
  rw [node_eq_of_name unique present member named] at pending
  exact pending

theorem moves_startedNodes {failed names : List String}
    (unique : (nodeNames (ensureWorkflowNodeStates cjob state.nodes)).Nodup)
    (reads : ∀ node ∈ ensureWorkflowNodeStates cjob state.nodes, node.jobName ≠ "" →
      ∃ seen, Seen (c.getJob s certificate.ns) node seen)
    (runnable : ∀ name ∈ names, RunnableNow c ambient cjob certificate state graph s failed name)
    {node : WorkflowNodeState} (member : node ∈ ensureWorkflowNodeStates cjob state.nodes) :
    Moves c ambient cjob certificate state graph s failed names node
      (startNow ambient cjob certificate state names
        (skipNow c ambient cjob certificate state graph s failed (observedNow c ambient certificate s node))) := by
  have waits : node.name ∈ names →
      (skipNow c ambient cjob certificate state graph s failed (observedNow c ambient certificate s node)).phase =
        .pending := fun inside => (runnable _ inside).pending unique member
  by_cases idle : node.jobName = ""
  · have same : observedNow c ambient certificate s node = node := observed_idle idle
    rw [same] at waits ⊢
    by_cases given : node.phase = .pending ∧ node.name ∈ givenUp c ambient cjob certificate state graph s failed
    · have skipped : node.name ∉ names := by
        intro inside
        have pending := waits inside
        rw [skipNow, if_pos given] at pending
        simp [markSkipped] at pending
      rw [skipNow, if_pos given, startNow, if_neg (by exact skipped)]
      exact .given idle given.1 given.2
    · rw [skipNow, if_neg given] at waits ⊢
      by_cases inside : node.name ∈ names
      · rw [startNow, if_pos inside]
        exact .start idle (waits inside) (fun up => given ⟨waits inside, up⟩) inside (runnable _ inside)
      · rw [startNow, if_neg inside]
        exact .stay idle fun pending => ⟨fun up => given ⟨pending, up⟩, inside⟩
  · obtain ⟨seen, read⟩ := reads node member idle
    have written : observedNow c ambient certificate s node =
        writeSight (ambient.clock (.certificateRun certificate.name)) node seen := observed_seen read
    have kept : skipNow c ambient cjob certificate state graph s failed (observedNow c ambient certificate s node) =
        observedNow c ambient certificate s node := by
      rw [skipNow, if_neg]
      rw [written]
      exact fun both => writeSight_not_pending both.1
    have outside : node.name ∉ names := by
      intro inside
      have pending := waits inside
      rw [kept, written] at pending
      exact writeSight_not_pending pending
    rw [kept, written, startNow, if_neg (by rw [writeSight_name]; exact outside)]
    exact .seen seen read

theorem Moves.name {failed started : List String} {node after : WorkflowNodeState}
    (moves : Moves c ambient cjob certificate state graph s failed started node after) : after.name = node.name := by
  cases moves with
  | seen sight read => exact writeSight_name node sight
  | given => rfl
  | start => rfl
  | stay => rfl

theorem Completed.seen {out : RunOutcome σ} {active : Nat} {failed started : List String}
    (done : Completed c ambient cjob certificate state graph s out active failed started) :
    ∀ node ∈ ensureWorkflowNodeStates cjob state.nodes, node.jobName ≠ "" →
      ∃ seen, Seen (c.getJob s certificate.ns) node seen := by
  intro node member has
  obtain ⟨seen, read, -⟩ := done.reads node member has
  exact ⟨seen, read⟩

theorem Completed.origin {out : RunOutcome σ} {active : Nat} {failed started : List String}
    (done : Completed c ambient cjob certificate state graph s out active failed started)
    (unique : (nodeNames (ensureWorkflowNodeStates cjob state.nodes)).Nodup) {after : WorkflowNodeState}
    (member : after ∈ out.state.nodes) :
    ∃ node ∈ ensureWorkflowNodeStates cjob state.nodes,
      Moves c ambient cjob certificate state graph s failed started node after := by
  rw [done.result, startedNodes_eq] at member
  obtain ⟨node, present, rfl⟩ := List.mem_map.mp member
  exact ⟨node, present, moves_startedNodes unique done.seen done.runnable present⟩

theorem Completed.moves {out : RunOutcome σ} {active : Nat} {failed started : List String}
    (done : Completed c ambient cjob certificate state graph s out active failed started)
    (unique : (nodeNames (ensureWorkflowNodeStates cjob state.nodes)).Nodup) {node : WorkflowNodeState}
    (member : node ∈ ensureWorkflowNodeStates cjob state.nodes) :
    ∃ after ∈ out.state.nodes, Moves c ambient cjob certificate state graph s failed started node after := by
  rw [done.result, startedNodes_eq]
  exact ⟨_, List.mem_map_of_mem member, moves_startedNodes unique done.seen done.runnable member⟩

theorem Completed.runnable_before {out : RunOutcome σ} {active : Nat} {failed started : List String}
    (done : Completed c ambient cjob certificate state graph s out active failed started)
    (unique : (nodeNames (ensureWorkflowNodeStates cjob state.nodes)).Nodup) {node : WorkflowNodeState}
    (member : node ∈ ensureWorkflowNodeStates cjob state.nodes)
    (runnable : RunnableNow c ambient cjob certificate state graph s failed node.name) :
    node.jobName = "" ∧ node.phase = .pending ∧
      node.name ∉ givenUp c ambient cjob certificate state graph s failed := by
  have waits := runnable.pending unique member
  by_cases idle : node.jobName = ""
  · rw [observedNow, observed_idle idle] at waits
    unfold skipNow at waits
    split at waits
    · cases waits
    · rename_i kept
      exact ⟨idle, waits, fun up => kept ⟨waits, up⟩⟩
  · obtain ⟨seen, read⟩ := done.seen node member idle
    rw [observedNow, observed_seen read, skipNow, if_neg fun both => writeSight_not_pending both.1] at waits
    exact absurd waits writeSight_not_pending

theorem Completed.call_node {out : RunOutcome σ} {active : Nat} {failed started : List String}
    (done : Completed c ambient cjob certificate state graph s out active failed started)
    (unique : (nodeNames (ensureWorkflowNodeStates cjob state.nodes)).Nodup) {call : CreateCall}
    (made : call ∈ out.calls) :
    ∃ node ∈ ensureWorkflowNodeStates cjob state.nodes, node.name = call.node ∧ node.jobName = "" ∧
      node.phase = .pending := by
  have runnable := (done.calls call made).1
  obtain ⟨waiting, inside, named, -⟩ := runnable.1
  rw [remainingNodes_eq] at inside
  obtain ⟨node, member, rfl⟩ := List.mem_map.mp inside
  rw [skipNow_name, observedNow, observed_name] at named
  obtain ⟨idle, pending, -⟩ := done.runnable_before unique member (named ▸ runnable)
  exact ⟨node, member, named, idle, pending⟩

theorem Completed.call_satisfied {out : RunOutcome σ} {active : Nat} {failed started : List String}
    (done : Completed c ambient cjob certificate state graph s out active failed started)
    (unique : (nodeNames (ensureWorkflowNodeStates cjob state.nodes)).Nodup) {call : CreateCall}
    (made : call ∈ out.calls) {node : WorkflowNodeState} (member : node ∈ call.nodes)
    (dependency : node.name ∈ graph.deps.get call.node) :
    dependencySatisfied cjob.spec.failurePolicy node.phase = true := by
  -- At a Create call, every dependency the pass knows of is satisfied: the loop has started none of them.
  obtain ⟨runnable, ⟨before, -, early, states⟩, -⟩ := done.calls call made
  rw [states, startedNodes] at member
  obtain ⟨source, inside, same⟩ := List.mem_map.mp member
  have named : source.name = node.name := by
    rw [← same]
    split <;> rfl
  have satisfied := runnable.2 source inside (named ▸ dependency)
  split at same
  · rename_i begun
    obtain ⟨⟨other, present, otherName, pending⟩, -⟩ := early _ begun
    have distinct : (nodeNames (remainingNodes c ambient cjob certificate state graph s failed)).Nodup := by
      rw [nodeNames_remainingNodes]
      exact unique
    rw [node_eq_of_name distinct present inside otherName] at pending
    simp [pending, dependencySatisfied] at satisfied
  · rwa [same] at satisfied

theorem Completed.callOrigin {out : RunOutcome σ} {active : Nat} {failed started : List String}
    (done : Completed c ambient cjob certificate state graph s out active failed started)
    (unique : (nodeNames (ensureWorkflowNodeStates cjob state.nodes)).Nodup) {call : CreateCall}
    (made : call ∈ out.calls) :
    ∃ before, (∀ after ∈ call.nodes, ∃ node ∈ ensureWorkflowNodeStates cjob state.nodes,
        Moves c ambient cjob certificate state graph s failed before node after) ∧
      (∀ node ∈ ensureWorkflowNodeStates cjob state.nodes, ∃ after ∈ call.nodes,
        Moves c ambient cjob certificate state graph s failed before node after) := by
  -- The nodes that a Create call of the pass found: the ones the loop started before it are running.
  obtain ⟨-, ⟨before, -, runnable, states⟩, -⟩ := done.calls call made
  refine ⟨before, ?_, ?_⟩
  · rw [states, startedNodes_eq]
    intro after member
    obtain ⟨node, present, rfl⟩ := List.mem_map.mp member
    exact ⟨node, present, moves_startedNodes unique done.seen runnable present⟩
  · rw [states, startedNodes_eq]
    intro node member
    exact ⟨_, List.mem_map_of_mem member, moves_startedNodes unique done.seen runnable member⟩

theorem ReadFailed.observed {out : RunOutcome σ} {processed : List String}
    (stopped : ReadFailed c ambient cjob certificate state s out processed) {node : WorkflowNodeState}
    (member : node ∈ ensureWorkflowNodeStates cjob state.nodes) :
    (if node.name ∈ processed then observedNow c ambient certificate s node else node) = node ∨
      ∃ seen, Seen (c.getJob s certificate.ns) node seen ∧ ⟨node.name, node.jobName, seen⟩ ∈ out.sightings ∧
        (if node.name ∈ processed then observedNow c ambient certificate s node else node) =
          writeSight (ambient.clock (.certificateRun certificate.name)) node seen := by
  split
  · rename_i inside
    by_cases idle : node.jobName = ""
    · exact .inl (observed_idle idle)
    · obtain ⟨seen, read, line⟩ := stopped.reads node member inside idle
      exact .inr ⟨seen, read, line, observed_seen read⟩
  · exact .inl rfl

theorem ReadFailed.origin {out : RunOutcome σ} {processed : List String}
    (stopped : ReadFailed c ambient cjob certificate state s out processed) {after : WorkflowNodeState}
    (member : after ∈ out.state.nodes) :
    ∃ node ∈ ensureWorkflowNodeStates cjob state.nodes, after = node ∨
      ∃ seen, Seen (c.getJob s certificate.ns) node seen ∧ ⟨node.name, node.jobName, seen⟩ ∈ out.sightings ∧
        after = writeSight (ambient.clock (.certificateRun certificate.name)) node seen := by
  rw [stopped.result] at member
  obtain ⟨node, present, rfl⟩ := List.mem_map.mp member
  exact ⟨node, present, stopped.observed present⟩

theorem ReadFailed.moves {out : RunOutcome σ} {processed : List String}
    (stopped : ReadFailed c ambient cjob certificate state s out processed) {node : WorkflowNodeState}
    (member : node ∈ ensureWorkflowNodeStates cjob state.nodes) :
    ∃ after ∈ out.state.nodes, after = node ∨
      ∃ seen, Seen (c.getJob s certificate.ns) node seen ∧ ⟨node.name, node.jobName, seen⟩ ∈ out.sightings ∧
        after = writeSight (ambient.clock (.certificateRun certificate.name)) node seen := by
  rw [stopped.result]
  exact ⟨_, List.mem_map_of_mem member, stopped.observed member⟩

end

end CertificateJobs
