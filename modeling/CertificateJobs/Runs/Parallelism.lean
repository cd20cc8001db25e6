import CertificateJobs.Library.Lists
import CertificateJobs.Runs.Rules
import CertificateJobs.Workflow.Progress

namespace CertificateJobs

def runningCount (nodes : List WorkflowNodeState) : Nat := nodes.countP (·.phase = .running)

section
variable {σ : Type} (c : Client σ)

/-- What the pass reads fits what is recorded: a node recorded Running has a Job that is finished or has active
    pods, and a Job with active pods belongs to a node recorded Running. -/
def ActiveIsRunning : PassCondition σ := fun _ _ nodes pass =>
  ∀ node ∈ nodes, ∀ seen, Seen (c.getJob pass.client pass.cert.ns) node seen →
    (seen = .idle → node.phase ≠ .running) ∧ (seen = .active → node.phase = .running)

variable {c}

theorem running_of_counted {node : WorkflowNodeState} {seen : Sight} (shaped : node.Shaped) (has : node.jobName ≠ "")
    (fits : seen = .active → node.phase = .running) (counted : countsActive node seen = true) :
    node.phase = .running := by
  cases seen with
  | active => exact fits rfl
  | idle =>
    simp only [countsActive, decide_eq_true_eq] at counted
    rcases shaped with ⟨idle, -⟩ | ⟨-, phase⟩
    · exact absurd idle has
    · simp [counted] at phase
  | missing => cases counted
  | complete => cases counted
  | failed => cases counted

variable {ext : External} {h : EntryHistory σ} {pass trigger : EntryPass σ} {out : EntryOutcome σ}
  {log : List Sighting} {base : CertificateExecutionState} {graph : GraphMaps} {run : RunOutcome σ}

theorem ReadFailed.running_le {processed : List String}
    (stopped : ReadFailed c pass.ambient pass.cjob pass.cert base pass.client run processed)
    (shaped : ∀ node ∈ ensureWorkflowNodeStates pass.cjob base.nodes, node.Shaped)
    (fits : ActiveIsRunning c trigger log (ensureWorkflowNodeStates pass.cjob base.nodes) pass) :
    runningCount run.state.nodes ≤ runningCount (ensureWorkflowNodeStates pass.cjob base.nodes) := by
  rw [stopped.result, runningCount, runningCount, List.countP_map]
  apply List.countP_mono_left
  intro node member running
  simp only [Function.comp_apply, decide_eq_true_eq] at running ⊢
  split at running
  · rename_i inside
    by_cases idle : node.jobName = ""
    · rwa [observedNow, observed_idle idle] at running
    · obtain ⟨seen, read, -⟩ := stopped.reads node member inside idle
      rw [observedNow, observed_seen read] at running
      rcases writeSight_running running with counted | ⟨-, before⟩
      · exact running_of_counted (shaped node member) idle (fits node member seen read).2 counted
      · exact before
  · exact running

theorem Completed.running_le {active : Nat} {failed started : List String}
    (done : Completed c pass.ambient pass.cjob pass.cert base graph pass.client run active failed started)
    (unique : (nodeNames (ensureWorkflowNodeStates pass.cjob base.nodes)).Nodup)
    (shaped : ∀ node ∈ ensureWorkflowNodeStates pass.cjob base.nodes, node.Shaped)
    (fits : ActiveIsRunning c trigger log (ensureWorkflowNodeStates pass.cjob base.nodes) pass) :
    runningCount run.state.nodes ≤ active + started.length := by
  rw [done.result, startedNodes_eq, runningCount, List.countP_map, done.counted]
  refine (Counting.countP_le_add _ ?_).trans (Nat.add_le_add_left (Counting.countP_keys_le unique) _)
  intro node member running
  have moves := moves_startedNodes unique done.seen done.runnable member
  simp only [Function.comp_apply, decide_eq_true_eq] at running ⊢
  generalize startNow _ _ _ _ _ _ = after at moves running
  cases moves with
  | seen seen read =>
    left
    refine ⟨read.1, ?_⟩
    rw [read.2]
    rcases writeSight_running running with counted | ⟨rfl, before⟩
    · exact counted
    · exact absurd before ((fits node member .idle read).1 rfl)
  | given => cases running
  | start _ _ _ inside => exact .inr inside
  | stay idle =>
    rcases shaped node member with ⟨-, pending | skipped⟩ | ⟨has, -⟩
    · rw [pending] at running
      cases running
    · rw [skipped] at running
      cases running
    · exact absurd idle has

theorem Completed.active_le {active : Nat} {failed started : List String}
    (done : Completed c pass.ambient pass.cjob pass.cert base graph pass.client run active failed started)
    (shaped : ∀ node ∈ ensureWorkflowNodeStates pass.cjob base.nodes, node.Shaped)
    (fits : ActiveIsRunning c trigger log (ensureWorkflowNodeStates pass.cjob base.nodes) pass) :
    active ≤ runningCount (ensureWorkflowNodeStates pass.cjob base.nodes) := by
  rw [done.counted]
  apply List.countP_mono_left
  intro node member counted
  simp only [decide_eq_true_eq] at counted ⊢
  obtain ⟨has, counts⟩ := counted
  obtain ⟨seen, read, -⟩ := done.reads node member has
  rw [read.2] at counts
  exact running_of_counted (shaped node member) has (fits node member seen read).2 counts

def WithinParallelism : RunProperty σ := fun trigger _ nodes =>
  (runningCount nodes : Int) ≤ requestedParallelism trigger.cjob

theorem requestedParallelism_congr {left right : CertificateJob} (same : left.spec = right.spec) :
    requestedParallelism left = requestedParallelism right := by
  rw [requestedParallelism, requestedParallelism, same]

theorem Midway.withinParallelism (mid : Midway c ext h pass out trigger log base graph run)
    (before : WithinParallelism trigger log base.nodes) (matched : NodesMatchSpec trigger log base.nodes)
    (held : SpecHeld trigger log base.nodes pass) (fits : ActiveIsRunning c trigger log base.nodes pass) :
    WithinParallelism trigger (log ++ run.sightings) run.state.nodes := by
  have limit := requestedParallelism_congr held
  have unique := mid.unique
  have shaped := mid.shaped
  unfold WithinParallelism at *
  rw [← matched.ensure (jobNames_congr held)] at before fits unique shaped
  rcases mid.spec with ⟨processed, stopped⟩ | ⟨active, failed, started, done⟩
  · have fewer := stopped.running_le shaped fits
    omega
  · have total := done.running_le unique shaped fits
    have counted := done.active_le shaped fits
    have room := done.slots
    omega

theorem initialize_not_running (cjob : CertificateJob) : runningCount (initializeNodeStates cjob) = 0 := by
  rw [runningCount, List.countP_eq_zero]
  intro node member
  obtain ⟨name, -, rfl⟩ := mem_initial member
  simp [pendingNode]

end

/-- As long as the pods that run are those of the nodes recorded Running, no more nodes run at once than the spec
    allows. -/
theorem running_within_parallelism {σ : Type} (c : Client σ) (ext : External) (h : EntryHistory σ)
    (trigger : EntryPass σ)
    (reached : (entryMachine c ext).Reached (EntryHistory.Allows c ext (SpecHeldAnd (ActiveIsRunning c))) h)
    (started : h.trigger = some trigger) : (runningCount h.entry.nodes : Int) ≤ requestedParallelism trigger.cjob := by
  have holds : h.Satisfies fun trigger log nodes =>
      NodesMatchSpec trigger log nodes ∧ WithinParallelism trigger log nodes := by
    refine reached_satisfies ?_ ?_ ?_ reached
    · intro pass graph _
      have positive := requestedParallelism_pos pass.cjob
      refine ⟨nodesMatchSpec_initial pass, ?_⟩
      rw [WithinParallelism, initialize_not_running]
      omega
    · intro pass
      refine ⟨rfl, ?_⟩
      intro node member seen read
      obtain ⟨name, -, rfl⟩ := mem_initial member
      exact absurd rfl read.1
    · rintro h pass out trigger log base graph run mid ⟨matched, within⟩ ⟨held, fits⟩
      exact ⟨mid.nodesMatchSpec matched (jobNames_congr held), mid.withinParallelism within matched held fits⟩
  exact (holds trigger started).2

def activeCheck (h : EntryHistory Cluster) (pass : EntryPass Cluster) : Bool :=
  specKept h pass && h.entry.nodes.all fun node => node.jobName = "" ∨
    (sight (clusterClient.getJob pass.client pass.cert.ns node.jobName)).toOption.all fun seen =>
      (seen = .idle → node.phase ≠ .running) ∧ (seen = .active → node.phase = .running)

theorem activeCheck_allows {h : EntryHistory Cluster} {pass : EntryPass Cluster} (check : activeCheck h pass = true) :
    h.Allows clusterClient plainExternal (SpecHeldAnd (ActiveIsRunning clusterClient)) pass := by
  simp only [activeCheck, Bool.and_eq_true, List.all_eq_true, decide_eq_true_eq] at check
  obtain ⟨kept, fits⟩ := check
  intro noStart going trigger started
  refine ⟨specKept_allows kept noStart going trigger started, fun node member seen read => ?_⟩
  have fitting := (fits node member).resolve_left read.1
  rw [read.2] at fitting
  exact of_decide_eq_true fitting

theorem running_within_parallelism_active :
    ∃ h trigger, (entryMachine clusterClient plainExternal).Reached
        (EntryHistory.Allows clusterClient plainExternal (SpecHeldAnd (ActiveIsRunning clusterClient))) h ∧
      h.trigger = some trigger ∧ h.log.map (·.seen) = [.active] ∧ runningCount h.entry.nodes = 1 ∧
      (runningCount h.entry.nodes : Int) ≤ requestedParallelism trigger.cjob := by
  have played : ((newEntry (sampleCluster (flatSpec ["a", "b"] 1 .stopDownstream))).replay clusterClient plainExternal
      activeCheck (sampleCluster (flatSpec ["a", "b"] 1 .stopDownstream))
      [Cluster.pass, fun s => (s.report "a" { active := 1 }).pass]).any (fun last => last.1.trigger.isSome ∧
        last.1.log.map (·.seen) = [.active] ∧ runningCount last.1.entry.nodes = 1) = true := by
    decide +kernel
  obtain ⟨h, _, reached, checked⟩ :=
    replay_new (EntryHistory.Allows clusterClient plainExternal (SpecHeldAnd (ActiveIsRunning clusterClient))) played
      fun _ _ => activeCheck_allows
  simp only [decide_eq_true_eq] at checked
  obtain ⟨trigger, started⟩ := Option.isSome_iff_exists.mp checked.1
  exact ⟨h, trigger, reached, started, checked.2.1, checked.2.2,
    running_within_parallelism _ _ h trigger reached started⟩

/-- A Job that exists without active pods is not counted: the second pass starts the other node although the spec
    allows one at a time. -/
theorem running_exceeds_parallelism :
    ∃ h trigger, (entryMachine clusterClient plainExternal).Reached
        (EntryHistory.Allows clusterClient plainExternal SpecHeld) h ∧
      h.trigger = some trigger ∧ requestedParallelism trigger.cjob = 1 ∧ runningCount h.entry.nodes = 2 := by
  have played : ((newEntry (sampleCluster (flatSpec ["a", "b"] 1 .stopDownstream))).replay clusterClient plainExternal
      specKept (sampleCluster (flatSpec ["a", "b"] 1 .stopDownstream)) [Cluster.pass, Cluster.pass]).any
      (fun last => last.1.trigger.any (fun trigger => requestedParallelism trigger.cjob = 1) ∧
        runningCount last.1.entry.nodes = 2) = true := by
    decide +kernel
  obtain ⟨h, _, reached, checked⟩ := replay_new (EntryHistory.Allows clusterClient plainExternal SpecHeld) played
    fun _ _ kept => specKept_allows kept
  simp only [decide_eq_true_eq, Option.any_eq_true] at checked
  obtain ⟨⟨trigger, started, limit⟩, two⟩ := checked
  exact ⟨h, trigger, reached, started, by simpa using limit, two⟩

end CertificateJobs
