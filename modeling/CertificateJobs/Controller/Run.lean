import CertificateJobs.Controller.JobBuilder

namespace CertificateJobs

/-- The API calls of the controller over a client state `σ`. Reads leave the state alone; `createJob`
    returns the object as the server stored it. -/
structure Client (σ : Type) where
  getCertificateJob : σ → String → String → Except ApiError CertificateJob
  listCertificates : σ → String → Except ApiError (List Certificate)
  getSecret : σ → String → String → Except ApiError Secret
  getJob : σ → String → String → Except ApiError Job
  setControllerReference : σ → CertificateJob → Job → Except ApiError Job
  createJob : σ → Job → Except ApiError Job × σ
  updateStatus : σ → CertificateJob → Option ApiError × σ

inductive Sight
  | missing
  | complete
  | failed
  | active
  | idle
  deriving DecidableEq

def sightOf (job : Job) : Sight :=
  if isJobComplete job then .complete
  else if isJobFailed job then .failed
  else if job.status.active > 0 then .active
  else .idle

def sight : Except ApiError Job → Except ApiError Sight
  | .ok job => .ok (sightOf job)
  | .error e => if e.isNotFound then .ok .missing else .error e

def writeSight (now : Time) (node : WorkflowNodeState) : Sight → WorkflowNodeState
  | .missing => { node with phase := .failed, message := "job disappeared", completedAt := some now }
  | .complete => { node with phase := .succeeded, message := "", completedAt := some now }
  | .failed => { node with phase := .failed, message := "job failed", completedAt := some now }
  | .active => { node with phase := .running }
  | .idle => if node.phase = .pending then { node with phase := .running } else node

def countsActive (node : WorkflowNodeState) : Sight → Bool
  | .active => true
  | .idle => node.phase = .pending
  | _ => false

def Sight.isFailure : Sight → Bool
  | .missing | .failed => true
  | _ => false

structure Sighting where
  node : String
  jobName : String
  seen : Sight
  deriving DecidableEq

/-- The result of `observeWorkflowNodeJobs`, with the reads it made as a record for the proofs. -/
structure Observation where
  nodes : List WorkflowNodeState
  activeCount : Nat
  failedNodes : List String
  err : Option ApiError
  sightings : List Sighting

def Observation.push (node : WorkflowNodeState) (now : Time) (seen : Sight) (rest : Observation) : Observation :=
  let sightings := ⟨node.name, node.jobName, seen⟩ :: rest.sightings
  match rest.err with
  | some e => { rest with nodes := writeSight now node seen :: rest.nodes, err := some e, sightings := sightings }
  | none =>
    { nodes := writeSight now node seen :: rest.nodes
      activeCount := rest.activeCount + if countsActive node seen then 1 else 0
      failedNodes := if seen.isFailure then rest.failedNodes.insert node.name else rest.failedNodes
      err := none
      sightings := sightings }

def observeWorkflowNodeJobs (getJob : String → Except ApiError Job) (now : Time) :
    List WorkflowNodeState → Observation
  | [] => ⟨[], 0, [], none, []⟩
  | node :: rest =>
    if node.jobName = "" then
      let after := observeWorkflowNodeJobs getJob now rest
      { after with nodes := node :: after.nodes }
    else
      match sight (getJob node.jobName) with
      | .error e => ⟨node :: rest, 0, [], some e, []⟩
      | .ok seen => (observeWorkflowNodeJobs getJob now rest).push node now seen

def markStarted (jobName : String) (now : Time) (node : WorkflowNodeState) : WorkflowNodeState :=
  { node with jobName := jobName, phase := .running, message := "", startedAt := some now }

/-- A call of Create: the node it is for, the Job sent, the node states at that moment, and the stored
    object if the call succeeded. -/
structure CreateCall where
  node : String
  job : Job
  nodes : List WorkflowNodeState
  stored : Option Job

structure Scheduling (σ : Type) where
  nodes : List WorkflowNodeState
  err : Option ApiError
  calls : List CreateCall
  client : σ

/-- One round of the scheduling loop up to the writes to the node: the existing Job is taken as it is,
    a missing one is created. -/
def provideJob {σ : Type} (c : Client σ) (cjob : CertificateJob) (certificate : Certificate) (runID nodeName : String)
    (nodes : List WorkflowNodeState) (s : σ) : Option ApiError × List CreateCall × σ :=
  match c.getJob s certificate.ns (buildJobName cjob.name certificate.name nodeName runID) with
  | .ok _ => (none, [], s)
  | .error e =>
    if e.isNotFound then
      match c.setControllerReference s cjob (assembleJob cjob certificate nodeName runID) with
      | .error e => (some e, [], s)
      | .ok job =>
        match c.createJob s job with
        | (.error e, s) => (some e, [⟨nodeName, job, nodes, none⟩], s)
        | (.ok stored, s) => (none, [⟨nodeName, job, nodes, some stored⟩], s)
    else (some e, [], s)

def scheduleNodes {σ : Type} (c : Client σ) (cjob : CertificateJob) (certificate : Certificate) (runID : String)
    (now : Time) : List String → Int → List WorkflowNodeState → σ → Option (Scheduling σ)
  -- The loop over the sorted runnable names; `none` is a nil dereference.
  | [], _, nodes, s => some ⟨nodes, none, [], s⟩
  | nodeName :: rest, availableSlots, nodes, s =>
    if availableSlots = 0 then some ⟨nodes, none, [], s⟩
    else
      match provideJob c cjob certificate runID nodeName nodes s with
      | (some e, calls, s) => some ⟨nodes, some e, calls, s⟩
      | (none, calls, s) => do
        let nodes ← updateNode nodes nodeName
          (markStarted (buildJobName cjob.name certificate.name nodeName runID) now)
        let after ← scheduleNodes c cjob certificate runID now rest (availableSlots - 1) nodes s
        return { after with calls := calls ++ after.calls }

def scheduleRunnableNodes {σ : Type} (c : Client σ) (order : MapOrder) (cjob : CertificateJob) (certificate : Certificate)
    (runID : String) (nodes : List WorkflowNodeState) (deps : NodeLists) (availableSlots : Int) (now : Time) (s : σ) :
    Option (Scheduling σ) := do
  let runnable ← runnableNodes order cjob.spec.failurePolicy nodes deps
  scheduleNodes c cjob certificate runID now (runnable.insertionSort (· ≤ ·)) availableSlots nodes s

def fillSlots {σ : Type} (c : Client σ) (order : MapOrder) (cjob : CertificateJob) (certificate : Certificate)
    (runID : String) (nodes : List WorkflowNodeState) (deps : NodeLists) (availableSlots : Int) (now : Time) (s : σ) :
    Option (Scheduling σ) :=
  if availableSlots > 0 then
    scheduleRunnableNodes c order cjob certificate runID nodes deps availableSlots now s
  else some ⟨nodes, none, [], s⟩

structure RunOutcome (σ : Type) where
  state : CertificateExecutionState
  running : Bool
  failed : Bool
  err : Option ApiError
  sightings : List Sighting
  calls : List CreateCall
  client : σ

/-- The end of `reconcileCertificateRun`, after scheduling. -/
def concludeRun {σ : Type} (now : Time) (state : CertificateExecutionState) (sightings : List Sighting)
    (scheduling : Scheduling σ) : RunOutcome σ :=
  match scheduling.err with
  | some e =>
    { state := { state with nodes := scheduling.nodes }, running := true, failed := false, err := some e,
      sightings := sightings, calls := scheduling.calls, client := scheduling.client }
  | none =>
    let phase := deriveWorkflowPhase scheduling.nodes
    { state := { state with
        nodes := scheduling.nodes
        phase := phase
        lastCompletedTime := if isTerminalPhase phase then some now else state.lastCompletedTime }
      running := phase = .running ∨ phase = .pending
      failed := phase = .failed
      err := none
      sightings := sightings
      calls := scheduling.calls
      client := scheduling.client }

def reconcileCertificateRun {σ : Type} (c : Client σ) (ambient : Ambient) (cjob : CertificateJob)
    (certificate : Certificate) (state : CertificateExecutionState) (graph : GraphMaps) (s : σ) :
    Option (RunOutcome σ) :=
  let nodes := ensureWorkflowNodeStates cjob state.nodes
  let now := ambient.clock (.certificateRun certificate.name)
  let seen := observeWorkflowNodeJobs (c.getJob s certificate.ns) now nodes
  match seen.err with
  | some e =>
    some { state := { state with nodes := seen.nodes }, running := false, failed := true, err := some e,
           sightings := seen.sightings, calls := [], client := s }
  | none => do
    let nodes ← applyFailurePolicy ambient.orders.seen cjob.spec.failurePolicy seen.nodes graph.reverse
      (ambient.orders.failed.visit seen.failedNodes)
      (fun node => ambient.clock (.skipNode certificate.name node))
    let scheduling ← fillSlots c ambient.orders.nodes cjob certificate state.runID nodes graph.deps
      (requestedParallelism cjob - seen.activeCount) now s
    return concludeRun now state seen.sightings scheduling

end CertificateJobs
