import CertificateJobs.Runs.Order
import CertificateJobs.Runs.Outcomes

namespace CertificateJobs

/-- A Job that an earlier reconcile of the run found finished, or gone, is not found so again. -/
def FinishedOnce {σ : Type} (c : Client σ) : PassCondition σ := fun _ log _ pass =>
  ∀ line ∈ log, line.seen.isFinal = true →
    ∀ seen, sight (c.getJob pass.client pass.cert.ns line.jobName) = .ok seen → seen.isFinal = false

theorem writeSight_unfinished {seen : Sight} (unfinished : seen.isFinal = false) (now : Time)
    (node : WorkflowNodeState) : (writeSight now node seen).completedAt = node.completedAt := by
  cases seen with
  | active => rfl
  | idle =>
    simp only [writeSight]
    split <;> rfl
  | missing => cases unfinished
  | complete => cases unfinished
  | failed => cases unfinished

structure WorkflowNodeState.Stamped (log : List Sighting) (node : WorkflowNodeState) : Prop where
  waiting : node.phase = .pending → node.completedAt = none
  read : node.jobName ≠ "" → node.completedAt ≠ none → ∃ line ∈ log, line.jobName = node.jobName ∧ line.seen.isFinal = true

section
variable {log more : List Sighting} {node : WorkflowNodeState}

theorem pendingNode_stamped (log : List Sighting) (name : String) : (pendingNode name).Stamped log :=
  ⟨fun _ => rfl, fun has => absurd rfl has⟩

theorem WorkflowNodeState.Stamped.append (stamped : node.Stamped log) : node.Stamped (log ++ more) := by
  refine ⟨stamped.waiting, fun has some => ?_⟩
  obtain ⟨line, logged, facts⟩ := stamped.read has some
  exact ⟨line, List.mem_append_left _ logged, facts⟩

theorem WorkflowNodeState.Stamped.observe (stamped : node.Stamped log) {seen : Sight}
    (line : ⟨node.name, node.jobName, seen⟩ ∈ more) (now : Time) : (writeSight now node seen).Stamped (log ++ more) := by
  refine ⟨fun pending => absurd pending writeSight_not_pending, ?_⟩
  rw [writeSight_jobName]
  intro has some
  cases final : seen.isFinal with
  | true => exact ⟨_, List.mem_append_right _ line, rfl, final⟩
  | false =>
    rw [writeSight_unfinished final] at some
    exact stamped.append.read has some

end

section
variable {σ : Type} {c : Client σ} {ext : External} {h : EntryHistory σ} {pass trigger : EntryPass σ}
  {out : EntryOutcome σ} {log : List Sighting} {base : CertificateExecutionState} {graph : GraphMaps}
  {run : RunOutcome σ}

def NodesStamped : RunProperty σ := fun _ log nodes => ∀ node ∈ nodes, node.Stamped log

theorem Midway.nodesStamped (mid : Midway c ext h pass out trigger log base graph run)
    (before : NodesStamped trigger log base.nodes) : NodesStamped trigger (log ++ run.sightings) run.state.nodes := by
  have known : ∀ node ∈ ensureWorkflowNodeStates pass.cjob base.nodes, node.Stamped log := by
    intro node member
    rcases mem_ensure member with recorded | ⟨name, -, -, rfl⟩
    · exact before node recorded
    · exact pendingNode_stamped log name
  intro after inside
  rcases mid.spec with ⟨processed, stopped⟩ | ⟨active, failed, started, done⟩
  · obtain ⟨node, member, rfl | ⟨seen, -, line, rfl⟩⟩ := stopped.origin inside
    · exact (known after member).append
    · exact (known node member).observe line _
  · obtain ⟨node, member, moves⟩ := done.origin (ensure_unique mid.accepted.names mid.unique) inside
    cases moves with
    | seen seen read =>
      obtain ⟨seen', read', line⟩ := done.reads node member read.1
      obtain rfl : seen' = seen := Except.ok.inj (read'.2.symm.trans read.2)
      exact (known node member).observe line _
    | given idle => exact ⟨fun waits => (by cases waits), fun has => absurd idle has⟩
    | start _ pending =>
      refine ⟨fun waits => (by cases waits), fun _ some => absurd ?_ some⟩
      exact (known node member).waiting pending
    | stay => exact (known _ member).append

theorem reached_stamped (reached : (entryMachine c ext).Reached (fun _ _ => True) h) : h.Satisfies NodesStamped := by
  obtain ⟨first, starts, run⟩ := reached
  have allowed : (entryMachine c ext).Reached (EntryHistory.Allows c ext fun _ _ _ _ => True) h :=
    ⟨first, starts, run.strengthen (fun _ => True) (fun _ _ _ _ _ _ => trivial)
      (fun _ _ _ _ _ _ _ _ => trivial) trivial⟩
  refine reached_satisfies ?_ (fun _ => trivial) ?_ allowed
  · intro pass _ _ node member
    obtain ⟨name, -, rfl⟩ := mem_initial member
    exact pendingNode_stamped [] name
  · intro _ _ _ _ _ _ _ _ mid before _
    exact mid.nodesStamped before

end

theorem writeSight_started {node : WorkflowNodeState} (started : node.phase ≠ .pending) (now : Time) (seen : Sight) :
    (writeSight now node seen).phase ≠ .pending := by
  rcases writeSight_cases now node seen with ⟨-, phase⟩ | ⟨-, phase⟩ | ⟨-, phase⟩ | ⟨-, -, same⟩
  · simp [phase]
  · simp [phase]
  · simp [phase]
  · rwa [same]

def Cluster.passAt (time : Time) (cluster : Cluster) : EntryPass Cluster :=
  { cluster.pass with ambient := { clock := fun _ => time } }

def stamps (h : EntryHistory Cluster) : List (String × ExecutionPhase × Option Time) :=
  h.entry.nodes.map fun node => (node.name, node.phase, node.completedAt)

def exhaustedClient : Client Cluster := unsteadyClient fun cluster _ => cluster.nextUID = 0

def onceCheck (h : EntryHistory Cluster) (pass : EntryPass Cluster) : Bool :=
  !pass.starts exhaustedClient plainExternal h.entry && h.log.all fun line => line.seen.isFinal = false ∨
    (sight (exhaustedClient.getJob pass.client pass.cert.ns line.jobName)).toOption.all (·.isFinal = false)

theorem onceCheck_continues {h : EntryHistory Cluster} {pass : EntryPass Cluster} (check : onceCheck h pass = true) :
    Continues exhaustedClient plainExternal (FinishedOnce exhaustedClient) h pass := by
  simp only [onceCheck, Bool.and_eq_true, Bool.not_eq_true', List.all_eq_true, decide_eq_true_eq] at check
  refine ⟨check.1, fun _ _ _ _ line inside final seen read => ?_⟩
  have once := (check.2 line inside).resolve_left (by simp [final])
  simpa [read, Except.toOption] using once

def Rereads (time : Time) (h : EntryHistory Cluster) (pass : EntryPass Cluster) : Prop :=
  pass.starts clusterClient plainExternal h.entry = false ∧ (∀ read, pass.ambient.clock read = time) ∧
    ∀ node ∈ h.entry.nodes, node.phase = .succeeded → (pass.client.jobs pass.cert.ns node.jobName).any isJobComplete = true

def Cluster.rereadsAt (time : Time) (cluster : Cluster) (h : EntryHistory Cluster) : Bool :=
  completedShown h (cluster.passAt time)

theorem rereadsAt_rereads {time : Time} {cluster : Cluster} {h : EntryHistory Cluster}
    (shown : cluster.rereadsAt time h = true) : Rereads time h (cluster.passAt time) := by
  simp only [Cluster.rereadsAt, completedShown, Bool.and_eq_true, Bool.not_eq_true', List.all_eq_true,
    decide_eq_true_eq] at shown
  exact ⟨shown.1, fun _ => rfl, fun node member succeeded => (shown.2 node member).resolve_left (not_not.mpr succeeded)⟩

def parallelCluster : Cluster := sampleCluster (flatSpec ["a", "b"] 2 .stopDownstream)

end CertificateJobs
