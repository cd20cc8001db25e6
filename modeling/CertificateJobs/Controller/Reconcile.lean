import CertificateJobs.Controller.Run

namespace CertificateJobs

structure InputPayload where
  certificateSpec : CertificateSpec
  certificateStatus : String
  certificateGen : Int
  secretType : String
  secretData : AList (fun _ : String => List UInt8)
  workflowSpecHash : String

/-- Library code outside the repository: the two JSON encodings, label selector compilation, `meta.SetStatusCondition`
    and the Unicode tables of `%q`. -/
structure External where
  marshalInput : InputPayload → Except String String
  marshalSpec : CertificateJobSpec → Except String String
  labelSelectorAsSelector : LabelSelector → Except String Selector
  setStatusCondition : List Condition → Condition → List Condition
  isPrint : Char → Bool

/-- `meta.SetStatusCondition` as it is documented: a condition of a type that is not there is appended; one of a type that
    is takes the new fields, and its transition time moves only when its status does. -/
structure External.SetsConditions (ext : External) : Prop where
  appended : ∀ (conditions : List Condition) (new : Condition), (∀ old ∈ conditions, old.type ≠ new.type) →
    ext.setStatusCondition conditions new = conditions ++ [new]
  updated : ∀ (before : List Condition) (old : Condition) (after : List Condition) (new : Condition),
    (∀ earlier ∈ before, earlier.type ≠ new.type) → old.type = new.type →
    ext.setStatusCondition (before ++ old :: after) new = before ++ { new with lastTransitionTime :=
      if old.status = new.status then old.lastTransitionTime else new.lastTransitionTime } :: after

def buildInputHash (ext : External) (cert : Certificate) (secret : Secret) (workflowSpecHash : String) :
    Except String String :=
  (ext.marshalInput
    { certificateSpec := cert.spec
      certificateStatus := cert.status
      certificateGen := cert.generation
      secretType := secret.type
      secretData := secret.data
      workflowSpecHash := workflowSpecHash }).map hashString

def buildWorkflowSpecHash (ext : External) (spec : CertificateJobSpec) : Except String String :=
  ((ext.marshalSpec spec).mapError ("unable to hash workflow spec: " ++ ·)).map hashString

structure WorkflowContext where
  now : Time
  workflowSpecHash : String
  graph : GraphMaps

def buildWorkflowContext (ext : External) (ambient : Ambient) (cjob : CertificateJob) :
    Except String WorkflowContext := do
  let workflowSpecHash ← buildWorkflowSpecHash ext cjob.spec
  let graph ← (buildWorkflowGraph ambient.orders cjob).mapError (GraphError.text ext.isPrint)
  return { now := ambient.clock .workflowContext, workflowSpecHash := workflowSpecHash, graph := graph }

structure CertificateWorkflowProgress where
  needsRequeue : Bool := false
  anyFailed : Bool := false
  anyInProgress : Bool := false
  deriving DecidableEq

def CertificateWorkflowProgress.merge (p other : CertificateWorkflowProgress) : CertificateWorkflowProgress :=
  { needsRequeue := p.needsRequeue || other.needsRequeue
    anyFailed := p.anyFailed || other.anyFailed
    anyInProgress := p.anyInProgress || other.anyInProgress }

/-- The test that opens a new run: a first input, or a changed input after a terminal phase. -/
def startsRun (state : CertificateExecutionState) (inputHash : String) : Bool :=
  state.inputHash = "" ∨ (state.inputHash ≠ inputHash ∧ isTerminalPhase state.phase)

def applyInputHashTransition (cjob : CertificateJob) (cert : Certificate) (state : CertificateExecutionState)
    (inputHash : String) (now : Time) : CertificateExecutionState :=
  if startsRun state inputHash then
    { state with
      secretName := cert.spec.secretName
      inputHash := inputHash
      runID := shortHash inputHash 12
      phase := .pending
      message := ""
      lastTriggeredTime := some now
      lastCompletedTime := none
      nodes := initializeNodeStates cjob }
  else if state.inputHash ≠ inputHash then
    { state with message := "input changed while workflow is running; deferring until current run completes" }
  else state

structure EntryOutcome (σ : Type) where
  state : CertificateExecutionState
  progress : CertificateWorkflowProgress
  sightings : List Sighting
  calls : List CreateCall
  client : σ

/-- The branch taken when the Secret cannot be read or the input cannot be hashed. -/
def waitForInput {σ : Type} (cert : Certificate) (state : CertificateExecutionState) (message : String) (s : σ) :
    EntryOutcome σ :=
  if isTerminalPhase state.phase then ⟨state, {}, [], [], s⟩
  else
    ⟨{ state with
        secretName := cert.spec.secretName
        phase := .pending
        message := message
        lastCompletedTime := none },
      { anyInProgress := true, needsRequeue := true }, [], [], s⟩

/-- The end of `reconcileObservedCertificate`, after `reconcileCertificateRun`. -/
def concludeEntry {σ : Type} (run : RunOutcome σ) : EntryOutcome σ :=
  match run.err with
  | some e =>
    ⟨{ run.state with
        phase := .pending
        message := "transient reconcile error: " ++ e.text
        lastCompletedTime := none },
      { anyInProgress := true, needsRequeue := true }, run.sightings, run.calls, run.client⟩
  | none =>
    ⟨run.state,
      { anyInProgress := run.running
        needsRequeue := run.running
        anyFailed := run.failed || run.state.phase = .failed }, run.sightings, run.calls, run.client⟩

/-- `reconcileObservedCertificate` from the input hash on. -/
def reconcileInput {σ : Type} (c : Client σ) (ambient : Ambient) (cjob : CertificateJob) (cert : Certificate)
    (state : CertificateExecutionState) (workflowCtx : WorkflowContext) (inputHash : String) (s : σ) :
    Option (EntryOutcome σ) :=
  let state := applyInputHashTransition cjob cert state inputHash workflowCtx.now
  if isTerminalPhase state.phase then
    some ⟨state, { anyFailed := state.phase = .failed }, [], [], s⟩
  else
    (reconcileCertificateRun c ambient cjob cert state workflowCtx.graph s).map concludeEntry

def reconcileObservedCertificate {σ : Type} (c : Client σ) (ext : External) (ambient : Ambient) (cjob : CertificateJob)
    (cert : Certificate) (state : CertificateExecutionState) (workflowCtx : WorkflowContext) (s : σ) :
    Option (EntryOutcome σ) :=
  if cert.spec.secretName = "" then
    some ⟨{ state with
        secretName := ""
        phase := .failed
        message := "certificate.spec.secretName is empty"
        lastCompletedTime := some workflowCtx.now },
      { anyFailed := true }, [], [], s⟩
  else
    match c.getSecret s cert.ns cert.spec.secretName with
    | .error e =>
      some (waitForInput cert state
        ("waiting for readable secret " ++ cert.ns ++ "/" ++ cert.spec.secretName ++ ": " ++ e.text) s)
    | .ok secret =>
      match buildInputHash ext cert secret workflowCtx.workflowSpecHash with
      | .error e => some (waitForInput cert state ("unable to calculate input hash: " ++ e) s)
      | .ok inputHash => reconcileInput c ambient cjob cert state workflowCtx inputHash s

def observedStateIndex (observed : List CertificateExecutionState) : AList (fun _ : String => Nat) :=
  observed.indexBy fun entry => certificateKey entry.ns entry.name

/-- The loop over the matching certificates: the entries, their index, the keys met so far, the merged
    progress, the Create calls by certificate name, and the client. -/
structure Sweep (σ : Type) where
  observed : List CertificateExecutionState
  stateIndex : AList (fun _ : String => Nat)
  matchedKeys : List String
  progress : CertificateWorkflowProgress
  calls : List (String × CreateCall)
  client : σ

def ensureObservedCertificateState {σ : Type} (sweep : Sweep σ) (cert : Certificate) : Sweep σ × Nat :=
  match sweep.stateIndex.lookup (certificateKey cert.ns cert.name) with
  | some idx => (sweep, idx)
  | none =>
    ({ sweep with
        observed := sweep.observed ++ [{ ns := cert.ns, name := cert.name, phase := .pending }]
        stateIndex := sweep.stateIndex.insert (certificateKey cert.ns cert.name) sweep.observed.length },
      sweep.observed.length)

def sweepCertificate {σ : Type} (c : Client σ) (ext : External) (ambient : Ambient) (cjob : CertificateJob)
    (workflowCtx : WorkflowContext) (sweep : Sweep σ) (cert : Certificate) : Option (Sweep σ) := do
  let ensured := ensureObservedCertificateState sweep cert
  let state ← ensured.1.observed[ensured.2]?
  let out ← reconcileObservedCertificate c ext ambient cjob cert state workflowCtx sweep.client
  return { ensured.1 with
    observed := ensured.1.observed.set ensured.2 out.state
    matchedKeys := sweep.matchedKeys.insert (certificateKey cert.ns cert.name)
    progress := sweep.progress.merge out.progress
    calls := sweep.calls ++ out.calls.map fun call => (cert.name, call)
    client := out.client }

def filterObservedStates (observed : List CertificateExecutionState) (matchedKeys : List String) :
    List CertificateExecutionState :=
  observed.filter fun entry => certificateKey entry.ns entry.name ∈ matchedKeys

def setCondition (ext : External) (ambient : Ambient) (cjob : CertificateJob) (conditions : List Condition) (type : String)
    (status : ConditionStatus) (reason message : String) : List Condition :=
  ext.setStatusCondition conditions
    { type := type
      status := status
      observedGeneration := cjob.generation
      lastTransitionTime := ambient.clock (.setCondition type)
      reason := reason
      message := message }

def applyCertificateJobConditions (ext : External) (ambient : Ambient) (cjob : CertificateJob) (certificateCount : Nat)
    (progress : CertificateWorkflowProgress) : List Condition :=
  let reason := if certificateCount = 0 then "NoMatchingCertificates" else "Reconciled"
  let msg := if certificateCount = 0 then "no matching certificates" else "certificate-job workflow is ready"
  let conditions := cjob.status.conditions
  let conditions :=
    if progress.anyFailed then
      let conditions := setCondition ext ambient cjob conditions "Degraded" .true "WorkflowFailed"
        "one or more certificate workflows failed"
      setCondition ext ambient cjob conditions "Ready" .false "WorkflowFailed"
        "one or more certificate workflows failed"
    else
      let conditions := setCondition ext ambient cjob conditions "Degraded" .false "AsExpected" "no failed workflows"
      setCondition ext ambient cjob conditions "Ready" .true reason msg
  if progress.anyInProgress then
    setCondition ext ambient cjob conditions "Progressing" .true "WorkflowRunning" "one or more workflows are running"
  else
    setCondition ext ambient cjob conditions "Progressing" .false "AsExpected" "no workflows are running"

def certificateSelectorForJob (ext : External) (cjob : CertificateJob) : Except ApiError Selector :=
  (ext.labelSelectorAsSelector cjob.spec.certificateSelector).mapError fun e =>
    .other ("invalid certificateSelector: " ++ e)

def selectorMatchesCertificateLabels (selector : Selector) (certLabels : Labels) : Bool :=
  selector.empty || selector.accepts certLabels

def certificateBefore (a b : Certificate) : Bool :=
  if a.ns = b.ns then a.name ≤ b.name else a.ns ≤ b.ns

def listMatchingCertificates {σ : Type} (c : Client σ) (ext : External) (cjob : CertificateJob) (s : σ) :
    Except ApiError (List Certificate) := do
  let certSelector ← certificateSelectorForJob ext cjob
  let list ← c.listCertificates s cjob.ns
  let all := list.insertionSort fun a b => certificateBefore a b
  return all.filter fun cert => selectorMatchesCertificateLabels certSelector cert.labels

/-- The result of `reconcileCertificateJob`: the status in memory, the delay before the next attempt,
    the error, and the record of Create calls. -/
structure JobOutcome (σ : Type) where
  status : CertificateJobStatus
  requeueAfter : Option Nat
  err : Option ApiError
  calls : List (String × CreateCall)
  client : σ

def invalidSpecConditions (ext : External) (ambient : Ambient) (cjob : CertificateJob) (err : String) : List Condition :=
  let conditions := setCondition ext ambient cjob cjob.status.conditions "Ready" .false "InvalidSpec" err
  let conditions := setCondition ext ambient cjob conditions "Progressing" .false "InvalidSpec"
    "reconciliation blocked by invalid spec"
  setCondition ext ambient cjob conditions "Degraded" .true "InvalidSpec" err

def listFailedConditions (ext : External) (ambient : Ambient) (cjob : CertificateJob) (err : String) : List Condition :=
  let conditions := setCondition ext ambient cjob cjob.status.conditions "Ready" .false "ListFailed" err
  let conditions := setCondition ext ambient cjob conditions "Progressing" .false "ListFailed"
    "unable to list matching certificates"
  setCondition ext ambient cjob conditions "Degraded" .true "ListFailed" err

def reconcileCertificateJob {σ : Type} (c : Client σ) (ext : External) (ambient : Ambient) (cjob : CertificateJob)
    (s : σ) : Option (JobOutcome σ) :=
  match buildWorkflowContext ext ambient cjob with
  | .error e =>
    some { status := { cjob.status with conditions := invalidSpecConditions ext ambient cjob e }
           requeueAfter := none, err := none, calls := [], client := s }
  | .ok workflowCtx =>
    match listMatchingCertificates c ext cjob s with
    | .error e =>
      some { status := { cjob.status with conditions := listFailedConditions ext ambient cjob e.text }
             requeueAfter := none, err := some e, calls := [], client := s }
    | .ok certificates => do
      let sweep ← certificates.foldlM (sweepCertificate c ext ambient cjob workflowCtx)
        { observed := cjob.status.observedCertificates
          stateIndex := observedStateIndex cjob.status.observedCertificates
          matchedKeys := [], progress := {}, calls := [], client := s }
      return {
        status := {
          observedCertificates := filterObservedStates sweep.observed sweep.matchedKeys
          conditions := applyCertificateJobConditions ext ambient cjob certificates.length sweep.progress }
        requeueAfter := if sweep.progress.needsRequeue then some 10 else none
        err := none
        calls := sweep.calls
        client := sweep.client }

structure ReconcileOutcome (σ : Type) where
  requeueAfter : Option Nat
  err : Option ApiError
  wrote : Bool
  calls : List (String × CreateCall)
  client : σ

def reconcile {σ : Type} (c : Client σ) (ext : External) (ambient : Ambient) (ns name : String) (s : σ) :
    Option (ReconcileOutcome σ) :=
  match c.getCertificateJob s ns name with
  | .error e =>
    some { requeueAfter := none, err := if e.isNotFound then none else some e, wrote := false, calls := [], client := s }
  | .ok cjob => do
    let out ← reconcileCertificateJob c ext ambient cjob s
    if equalCertificateJobStatus cjob.status out.status then
      return { requeueAfter := if out.err.isSome then none else out.requeueAfter, err := out.err, wrote := false,
               calls := out.calls, client := out.client }
    else
      match c.updateStatus out.client { cjob with status := out.status } with
      | (some e, s) => return { requeueAfter := none, err := some e, wrote := false, calls := out.calls, client := s }
      | (none, s) =>
        return { requeueAfter := if out.err.isSome then none else out.requeueAfter, err := out.err, wrote := true,
                 calls := out.calls, client := s }

end CertificateJobs
