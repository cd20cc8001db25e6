import CertificateJobs.Library.Slice
import CertificateJobs.Workflow.Objects

namespace CertificateJobs

def WorkflowNodeState.retime (f : Time → Time) (node : WorkflowNodeState) : WorkflowNodeState :=
  { node with startedAt := node.startedAt.map f, completedAt := node.completedAt.map f }

def retimeNodes (f : Time → Time) (nodes : List WorkflowNodeState) : List WorkflowNodeState :=
  nodes.map (·.retime f)

def CertificateExecutionState.retime (f : Time → Time) (entry : CertificateExecutionState) : CertificateExecutionState :=
  { entry with
    lastTriggeredTime := entry.lastTriggeredTime.map f
    lastCompletedTime := entry.lastCompletedTime.map f
    nodes := retimeNodes f entry.nodes }

def Ambient.retime (f : Time → Time) (ambient : Ambient) : Ambient :=
  { ambient with clock := fun read => f (ambient.clock read) }

def CreateCall.retime (f : Time → Time) (call : CreateCall) : CreateCall :=
  { call with nodes := retimeNodes f call.nodes }

def Observation.retime (f : Time → Time) (seen : Observation) : Observation :=
  { seen with nodes := retimeNodes f seen.nodes }

def Scheduling.retime {σ : Type} (f : Time → Time) (scheduling : Scheduling σ) : Scheduling σ :=
  { scheduling with
    nodes := retimeNodes f scheduling.nodes
    calls := scheduling.calls.map (·.retime f) }

def RunOutcome.retime {σ : Type} (f : Time → Time) (run : RunOutcome σ) : RunOutcome σ :=
  { run with
    state := run.state.retime f
    calls := run.calls.map (·.retime f) }

section
variable (f : Time → Time)

theorem nodeStateMap_retime (nodes : List WorkflowNodeState) :
    nodeStateMap (retimeNodes f nodes) = nodeStateMap nodes := by
  refine IndexBy.indexBy_congr ?_
  rw [retimeNodes, List.map_map]
  rfl

theorem derefNode_retime (nodes : List WorkflowNodeState) (name : String) :
    derefNode (retimeNodes f nodes) name = (derefNode nodes name).map (·.retime f) := by
  unfold derefNode
  rw [nodeStateMap_retime]
  cases (nodeStateMap nodes).lookup name with
  | none => rfl
  | some i => simp [retimeNodes]

theorem updateNode_retime (nodes : List WorkflowNodeState) (name : String)
    (write write' : WorkflowNodeState → WorkflowNodeState)
    (same : ∀ node, write' (node.retime f) = (write node).retime f) :
    updateNode (retimeNodes f nodes) name write' = (updateNode nodes name write).map (retimeNodes f) := by
  -- A write that commutes with reading the times off another clock may be made before or after it.
  unfold updateNode
  rw [nodeStateMap_retime]
  cases (nodeStateMap nodes).lookup name with
  | none => rfl
  | some i =>
    simp only [Option.map_some, Option.some.injEq]
    apply List.ext_getElem?
    intro j
    simp only [retimeNodes, List.getElem?_modify, List.getElem?_map]
    cases nodes[j]? with
    | none => rfl
    | some node =>
      by_cases here : i = j
      · simp [here, same]
      · simp [here]

theorem initializeNodeStates_retime (cjob : CertificateJob) :
    retimeNodes f (initializeNodeStates cjob) = initializeNodeStates cjob := by
  refine (List.map_congr_left (g := id) ?_).trans (List.map_id _)
  intro node member
  obtain ⟨job, -, rfl⟩ := List.mem_map.mp ((List.perm_insertionSort _ _).mem_iff.mp member)
  rfl

theorem ensureWorkflowNodeStates_retime (cjob : CertificateJob) (nodes : List WorkflowNodeState) :
    ensureWorkflowNodeStates cjob (retimeNodes f nodes) = retimeNodes f (ensureWorkflowNodeStates cjob nodes) := by
  unfold ensureWorkflowNodeStates
  rw [nodeStateMap_retime]
  simp only [retimeNodes, List.map_append, List.map_map]
  rfl

theorem writeSight_retime (now : Time) (node : WorkflowNodeState) (seen : Sight) :
    writeSight (f now) (node.retime f) seen = (writeSight now node seen).retime f := by
  cases seen with
  | missing | complete | failed | active => rfl
  | idle =>
    simp only [writeSight]
    by_cases pending : node.phase = .pending
    · rw [if_pos pending, if_pos (show (node.retime f).phase = .pending from pending)]
      rfl
    · rw [if_neg pending, if_neg (show (node.retime f).phase ≠ .pending from pending)]

theorem push_retime (now : Time) (node : WorkflowNodeState) (seen : Sight) (rest : Observation) :
    (rest.retime f).push (node.retime f) (f now) seen = (rest.push node now seen).retime f := by
  have counts : countsActive (node.retime f) seen = countsActive node seen := by
    cases seen <;> rfl
  unfold Observation.push
  rw [writeSight_retime, counts]
  cases failure : rest.err with
  | some e => simp [Observation.retime, retimeNodes, failure, WorkflowNodeState.retime]
  | none => simp [Observation.retime, retimeNodes, failure, WorkflowNodeState.retime]

theorem observeWorkflowNodeJobs_retime (getJob : String → Except ApiError Job) (now : Time)
    (nodes : List WorkflowNodeState) :
    observeWorkflowNodeJobs getJob (f now) (retimeNodes f nodes) =
      (observeWorkflowNodeJobs getJob now nodes).retime f := by
  induction nodes with
  | nil => rfl
  | cons node rest ih =>
    have first : retimeNodes f (node :: rest) = node.retime f :: retimeNodes f rest := rfl
    have name : (node.retime f).jobName = node.jobName := rfl
    rw [first, observeWorkflowNodeJobs, observeWorkflowNodeJobs, name, ih]
    split
    · rfl
    · cases sight (getJob node.jobName) with
      | error e => rfl
      | ok seen => exact push_retime f now node seen _

theorem canRun_retime (policy : FailurePolicy) (nodes : List WorkflowNodeState) (names : List String) :
    canRun policy (retimeNodes f nodes) names = canRun policy nodes names := by
  induction names with
  | nil => rfl
  | cons dep rest ih =>
    simp only [canRun, derefNode_retime, ih]
    cases derefNode nodes dep with
    | none => rfl
    | some node => rfl

theorem runnableAmong_retime (policy : FailurePolicy) (nodes : List WorkflowNodeState) (deps : NodeLists)
    (names : List String) :
    runnableAmong policy (retimeNodes f nodes) deps names = runnableAmong policy nodes deps names := by
  have runs : ∀ node : WorkflowNodeState, nodeRuns policy (retimeNodes f nodes) deps (node.retime f) =
      nodeRuns policy nodes deps node := by
    intro node
    simp only [nodeRuns, canRun_retime]
    rfl
  induction names with
  | nil => rfl
  | cons name rest ih =>
    simp only [runnableAmong, derefNode_retime, ih]
    cases derefNode nodes name with
    | none => rfl
    | some node => simp [runs]

theorem markSkipped_retime (t : String → Time) (message : String) (node : WorkflowNodeState) :
    markSkipped message (fun node => f (t node)) (node.retime f) = (markSkipped message t node).retime f := rfl

theorem skipDescendant_retime (t : String → Time) (nodes : List WorkflowNodeState) (name : String) :
    (skipDescendant t nodes name).map (retimeNodes f) = skipDescendant (fun node => f (t node)) (retimeNodes f nodes) name := by
  unfold skipDescendant
  rw [derefNode_retime]
  cases derefNode nodes name with
  | none => rfl
  | some node =>
    have phase : (node.retime f).phase = node.phase := rfl
    simp only [Option.map_some, Option.bind_eq_bind, Option.bind_some, phase]
    split
    · exact (updateNode_retime f nodes name _ _ (markSkipped_retime f t _)).symm
    · rfl

theorem skipAt_retime (t : String → Time) (nodes : List WorkflowNodeState) (i : Nat) :
    (skipAt t nodes i).map (retimeNodes f) = skipAt (fun node => f (t node)) (retimeNodes f nodes) i := by
  have here : (retimeNodes f nodes)[i]? = nodes[i]?.map (·.retime f) := by simp [retimeNodes]
  unfold skipAt
  rw [here]
  cases nodes[i]? with
  | none => rfl
  | some node =>
    have phase : (node.retime f).phase = node.phase := rfl
    have name : (node.retime f).name = node.name := rfl
    simp only [Option.map_some, phase, name]
    split
    · exact (updateNode_retime f nodes node.name _ _ (markSkipped_retime f t _)).symm
    · rfl

theorem applyFailurePolicy_retime (order : MapOrder) (policy : FailurePolicy) (nodes : List WorkflowNodeState)
    (reverse : NodeLists) (failed : List String) (t : String → Time) :
    applyFailurePolicy order policy (retimeNodes f nodes) reverse failed (fun node => f (t node)) =
      (applyFailurePolicy order policy nodes reverse failed t).map (retimeNodes f) := by
  have count : (retimeNodes f nodes).length = nodes.length := by simp [retimeNodes]
  have descendants : ∀ names : List String, (names.foldlM (skipDescendant t) nodes).map (retimeNodes f) =
      names.foldlM (skipDescendant fun node => f (t node)) (retimeNodes f nodes) := fun names =>
    Slices.foldlM_shows (retimeNodes f) (fun _ => True) (fun nodes name _ => skipDescendant_retime f t nodes name)
      (fun _ _ _ _ _ => trivial) names trivial
  have positions : ∀ positions : List Nat, (positions.foldlM (skipAt t) nodes).map (retimeNodes f) =
      positions.foldlM (skipAt fun node => f (t node)) (retimeNodes f nodes) := fun positions =>
    Slices.foldlM_shows (retimeNodes f) (fun _ => True) (fun nodes i _ => skipAt_retime f t nodes i)
      (fun _ _ _ _ _ => trivial) positions trivial
  unfold applyFailurePolicy
  split
  · rfl
  · cases policy with
    | bestEffort => rfl
    | continueIndependent => exact (descendants _).symm
    | stopDownstream | other =>
      rw [count]
      exact (positions _).symm

theorem deriveWorkflowPhase_retime (nodes : List WorkflowNodeState) :
    deriveWorkflowPhase (retimeNodes f nodes) = deriveWorkflowPhase nodes := by
  simp only [deriveWorkflowPhase, retimeNodes, List.any_map, List.all_map]
  rfl

end

section
variable {σ : Type} (f : Time → Time) (c : Client σ) (cjob : CertificateJob) (status : CertificateJobStatus)
  (certificate : Certificate) (runID : String)

/-- Setting an owner reference reads the CertificateJob without its status. -/
def OwnerOfObject : Prop := ∀ s cjob status job,
  c.setControllerReference s { cjob with status := status } job = c.setControllerReference s cjob job

variable {c} (owner : OwnerOfObject c)
include owner

theorem provideJob_retime (nodeName : String) (nodes : List WorkflowNodeState) (s : σ) :
    provideJob c { cjob with status := status } certificate runID nodeName (retimeNodes f nodes) s =
      let first := provideJob c cjob certificate runID nodeName nodes s
      (first.1, first.2.1.map (·.retime f), first.2.2) := by
  have assembled : assembleJob { cjob with status := status } certificate nodeName runID =
    assembleJob cjob certificate nodeName runID := rfl
  simp only [provideJob_sight, sendJob, owner s cjob status, assembled]
  cases sight (c.getJob s certificate.ns (buildJobName cjob.name certificate.name nodeName runID)) with
  | error e => rfl
  | ok seen =>
    cases seen with
    | complete | failed | active | idle => rfl
    | missing =>
      cases c.setControllerReference s cjob (assembleJob cjob certificate nodeName runID) with
      | error e => rfl
      | ok job => rfl

theorem scheduleNodes_retime (now : Time) (names : List String) (slots : Int) (nodes : List WorkflowNodeState) (s : σ) :
    scheduleNodes c { cjob with status := status } certificate runID (f now) names slots (retimeNodes f nodes) s =
      (scheduleNodes c cjob certificate runID now names slots nodes s).map (·.retime f) := by
  induction names generalizing slots nodes s with
  | nil => rfl
  | cons name rest ih =>
    have provided := provideJob_retime f cjob status certificate runID owner name nodes s
    unfold scheduleNodes
    split
    · rfl
    · rw [provided]
      obtain ⟨err, calls, after⟩ := provideJob c cjob certificate runID name nodes s
      cases err with
      | some e => rfl
      | none =>
        have started := updateNode_retime f nodes name
          (markStarted (buildJobName cjob.name certificate.name name runID) now)
          (markStarted (buildJobName cjob.name certificate.name name runID) (f now)) fun _ => rfl
        simp only [Option.bind_eq_bind, started]
        cases updateNode nodes name (markStarted (buildJobName cjob.name certificate.name name runID) now) with
        | none => rfl
        | some next =>
          simp only [Option.map_some, Option.bind_some, ih]
          cases scheduleNodes c cjob certificate runID now rest (slots - 1) next after with
          | none => rfl
          | some later => simp [Scheduling.retime]

theorem fillSlots_retime (order : MapOrder) (nodes : List WorkflowNodeState) (deps : NodeLists) (slots : Int) (now : Time)
    (s : σ) :
    fillSlots c order { cjob with status := status } certificate runID (retimeNodes f nodes) deps slots (f now) s =
      (fillSlots c order cjob certificate runID nodes deps slots now s).map (·.retime f) := by
  unfold fillSlots
  split
  · simp only [scheduleRunnableNodes, runnableNodes, nodeStateMap_retime, runnableAmong_retime, Option.bind_eq_bind]
    cases runnableAmong cjob.spec.failurePolicy nodes deps (order.visit (nodeStateMap nodes).keys) with
    | none => rfl
    | some runnable => exact scheduleNodes_retime f cjob status certificate runID owner now _ slots nodes s
  · rfl

omit owner in
theorem concludeRun_retime (now : Time) (state : CertificateExecutionState) (sightings : List Sighting)
    (scheduling : Scheduling σ) :
    concludeRun (f now) (state.retime f) sightings (scheduling.retime f) =
      (concludeRun now state sightings scheduling).retime f := by
  have failure : (scheduling.retime f).err = scheduling.err := rfl
  have nodes : (scheduling.retime f).nodes = retimeNodes f scheduling.nodes := rfl
  unfold concludeRun
  rw [failure]
  cases scheduling.err with
  | some e => rfl
  | none =>
    simp only [nodes, deriveWorkflowPhase_retime]
    cases isTerminalPhase (deriveWorkflowPhase scheduling.nodes) with
    | true => rfl
    | false => rfl

/-- A pass by another clock is the pass by this clock with its times read off the other one. -/
theorem reconcileCertificateRun_retime (ambient : Ambient) (state : CertificateExecutionState) (graph : GraphMaps) (s : σ) :
    reconcileCertificateRun c (ambient.retime f) { cjob with status := status } certificate (state.retime f) graph s =
      (reconcileCertificateRun c ambient cjob certificate state graph s).map (·.retime f) := by
  have nodes : ensureWorkflowNodeStates { cjob with status := status } (state.retime f).nodes =
    retimeNodes f (ensureWorkflowNodeStates cjob state.nodes) := ensureWorkflowNodeStates_retime f cjob state.nodes
  have now : (ambient.retime f).clock (.certificateRun certificate.name) =
    f (ambient.clock (.certificateRun certificate.name)) := rfl
  have skipped : (fun node => (ambient.retime f).clock (.skipNode certificate.name node)) =
    fun node => f (ambient.clock (.skipNode certificate.name node)) := rfl
  simp only [reconcileCertificateRun, nodes, now, skipped, observeWorkflowNodeJobs_retime]
  generalize observeWorkflowNodeJobs (c.getJob s certificate.ns) (ambient.clock (.certificateRun certificate.name))
    (ensureWorkflowNodeStates cjob state.nodes) = seen
  have failure : (seen.retime f).err = seen.err := rfl
  rw [failure]
  cases seen.err with
  | some e => rfl
  | none =>
    have policy := applyFailurePolicy_retime f ambient.orders.seen cjob.spec.failurePolicy seen.nodes graph.reverse
      (ambient.orders.failed.visit seen.failedNodes) fun node => ambient.clock (.skipNode certificate.name node)
    simp only [Option.bind_eq_bind]
    change (applyFailurePolicy ambient.orders.seen cjob.spec.failurePolicy (retimeNodes f seen.nodes) graph.reverse
      (ambient.orders.failed.visit seen.failedNodes) _).bind _ = _
    rw [policy]
    cases applyFailurePolicy ambient.orders.seen cjob.spec.failurePolicy seen.nodes graph.reverse
      (ambient.orders.failed.visit seen.failedNodes) fun node => ambient.clock (.skipNode certificate.name node) with
    | none => rfl
    | some remaining =>
      have filled := fillSlots_retime f cjob status certificate state.runID owner ambient.orders.nodes remaining graph.deps
        (requestedParallelism cjob - seen.activeCount) (ambient.clock (.certificateRun certificate.name)) s
      simp only [Option.map_some, Option.bind_some]
      change (fillSlots c ambient.orders.nodes { cjob with status := status } certificate state.runID
        (retimeNodes f remaining) graph.deps (requestedParallelism cjob - seen.activeCount) _ s).bind _ = _
      rw [filled]
      cases fillSlots c ambient.orders.nodes cjob certificate state.runID remaining graph.deps
        (requestedParallelism cjob - seen.activeCount) (ambient.clock (.certificateRun certificate.name)) s with
      | none => rfl
      | some scheduling => exact congrArg some (concludeRun_retime f _ state _ scheduling)

end

end CertificateJobs
