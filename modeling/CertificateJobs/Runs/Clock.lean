import CertificateJobs.Controller.Conditions
import CertificateJobs.Runs.Input
import CertificateJobs.Workflow.Ranging
import CertificateJobs.Workflow.Retime
import CertificateJobs.Workflow.Verdict

namespace CertificateJobs

def Condition.retime (f : Time → Time) (condition : Condition) : Condition :=
  { condition with lastTransitionTime := f condition.lastTransitionTime }

def CertificateJobStatus.retime (f : Time → Time) (status : CertificateJobStatus) : CertificateJobStatus where
  observedCertificates := status.observedCertificates.map (·.retime f)
  conditions := status.conditions.map (·.retime f)

def WorkflowContext.retime (f : Time → Time) (workflowCtx : WorkflowContext) : WorkflowContext :=
  { workflowCtx with now := f workflowCtx.now }

def EntryOutcome.retime {σ : Type} (f : Time → Time) (out : EntryOutcome σ) : EntryOutcome σ :=
  { out with
    state := out.state.retime f
    calls := out.calls.map (·.retime f) }

def retimeCalls (f : Time → Time) (calls : List (String × CreateCall)) : List (String × CreateCall) :=
  calls.map fun call => (call.1, call.2.retime f)

def Sweep.retime {σ : Type} (f : Time → Time) (sweep : Sweep σ) : Sweep σ :=
  { sweep with
    observed := sweep.observed.map (·.retime f)
    calls := retimeCalls f sweep.calls }

def JobOutcome.retime {σ : Type} (f : Time → Time) (out : JobOutcome σ) : JobOutcome σ :=
  { out with
    status := out.status.retime f
    calls := retimeCalls f out.calls }

section
variable (f : Time → Time)

theorem setStatusCondition_retime {ext : External} (sets : ext.SetsConditions) (conditions : List Condition)
    (new : Condition) :
    ext.setStatusCondition (conditions.map (·.retime f)) (new.retime f) =
      (ext.setStatusCondition conditions new).map (·.retime f) := by
  induction conditions with
  | nil => simp [setStatusCondition_nil sets]
  | cons first rest ih =>
    have type : (first.retime f).type = (new.retime f).type ↔ first.type = new.type := Iff.rfl
    have status : (first.retime f).status = (new.retime f).status ↔ first.status = new.status := Iff.rfl
    rw [List.map_cons, setStatusCondition_cons sets, setStatusCondition_cons sets, ih]
    simp only [type, status]
    split
    · split <;> rfl
    · rfl

theorem settle_retime {ext : External} (sets : ext.SetsConditions) (ambient : Ambient) (cjob : CertificateJob)
    (status : CertificateJobStatus) (conditions : List Condition) (settings : List Setting) :
    settle ext (ambient.retime f) { cjob with status := status } (conditions.map (·.retime f)) settings =
      (settle ext ambient cjob conditions settings).map (·.retime f) := by
  induction settings generalizing conditions with
  | nil => rfl
  | cons first rest ih =>
    have set : setCondition ext (ambient.retime f) { cjob with status := status } (conditions.map (·.retime f)) first.type
        first.status first.reason first.message =
          (setCondition ext ambient cjob conditions first.type first.status first.reason first.message).map (·.retime f) :=
      setStatusCondition_retime f sets conditions ⟨first.type, first.status, cjob.generation,
        ambient.clock (.setCondition first.type), first.reason, first.message⟩
    simp only [settle, List.foldl_cons, set]
    exact ih _

theorem applyInputHashTransition_retime (cjob : CertificateJob) (status : CertificateJobStatus) (cert : Certificate)
    (state : CertificateExecutionState) (inputHash : String) (now : Time) :
    applyInputHashTransition { cjob with status := status } cert (state.retime f) inputHash (f now) =
      (applyInputHashTransition cjob cert state inputHash now).retime f := by
  have starts : startsRun (state.retime f) inputHash = startsRun state inputHash := rfl
  have nodes : initializeNodeStates { cjob with status := status } = retimeNodes f (initializeNodeStates cjob) :=
    (initializeNodeStates_retime f cjob).symm
  have input : (state.retime f).inputHash = state.inputHash := rfl
  unfold applyInputHashTransition
  rw [starts, input]
  split
  · rw [nodes]
    rfl
  · split <;> rfl

theorem buildWorkflowContext_retime (ext : External) (ambient : Ambient) (cjob : CertificateJob)
    (status : CertificateJobStatus) :
    buildWorkflowContext ext (ambient.retime f) { cjob with status := status } =
      (buildWorkflowContext ext ambient cjob).map (·.retime f) := by
  simp only [buildWorkflowContext]
  cases buildWorkflowSpecHash ext cjob.spec with
  | error e => rfl
  | ok hash =>
    change ((buildWorkflowGraph ambient.orders cjob).mapError (GraphError.text ext.isPrint) >>= _) =
      ((buildWorkflowGraph ambient.orders cjob).mapError (GraphError.text ext.isPrint) >>= _).map _
    cases buildWorkflowGraph ambient.orders cjob with
    | error e => rfl
    | ok graph => rfl

end

section
variable {σ : Type} {c : Client σ} (f : Time → Time) (ext : External) (ambient : Ambient) (cjob : CertificateJob)
  (status : CertificateJobStatus) (workflowCtx : WorkflowContext)

theorem concludeEntry_retime (run : RunOutcome σ) : concludeEntry (run.retime f) = (concludeEntry run).retime f := by
  have failure : (run.retime f).err = run.err := rfl
  unfold concludeEntry
  rw [failure]
  cases run.err with
  | some e => rfl
  | none => rfl

theorem waitForInput_retime (cert : Certificate) (state : CertificateExecutionState) (message : String) (s : σ) :
    waitForInput cert (state.retime f) message s = (waitForInput cert state message s).retime f := by
  have phase : (state.retime f).phase = state.phase := rfl
  unfold waitForInput
  rw [phase]
  split <;> rfl

variable (owner : OwnerOfObject c)
include owner

theorem reconcileObservedCertificate_retime (cert : Certificate) (state : CertificateExecutionState) (s : σ) :
    reconcileObservedCertificate c ext (ambient.retime f) { cjob with status := status } cert (state.retime f)
        (workflowCtx.retime f) s =
      (reconcileObservedCertificate c ext ambient cjob cert state workflowCtx s).map (·.retime f) := by
  have hash : (workflowCtx.retime f).workflowSpecHash = workflowCtx.workflowSpecHash := rfl
  have graph : (workflowCtx.retime f).graph = workflowCtx.graph := rfl
  have now : (workflowCtx.retime f).now = f workflowCtx.now := rfl
  unfold reconcileObservedCertificate
  split
  · rfl
  · cases c.getSecret s cert.ns cert.spec.secretName with
    | error e => exact congrArg some (waitForInput_retime f cert state _ s)
    | ok secret =>
      simp only [hash]
      cases buildInputHash ext cert secret workflowCtx.workflowSpecHash with
      | error e => exact congrArg some (waitForInput_retime f cert state _ s)
      | ok input =>
        simp only [reconcileInput, graph, now, applyInputHashTransition_retime]
        generalize applyInputHashTransition cjob cert state input workflowCtx.now = base
        have phase : (base.retime f).phase = base.phase := rfl
        rw [phase]
        split
        · rfl
        · rw [reconcileCertificateRun_retime f cjob status cert owner]
          cases reconcileCertificateRun c ambient cjob cert base workflowCtx.graph s with
          | none => rfl
          | some run => exact congrArg some (concludeEntry_retime f run)

omit owner in
theorem ensureObservedCertificateState_retime (sweep : Sweep σ) (cert : Certificate) :
    ensureObservedCertificateState (sweep.retime f) cert =
      ((ensureObservedCertificateState sweep cert).1.retime f, (ensureObservedCertificateState sweep cert).2) := by
  have index : (sweep.retime f).stateIndex = sweep.stateIndex := rfl
  unfold ensureObservedCertificateState
  rw [index]
  cases sweep.stateIndex.lookup (certificateKey cert.ns cert.name) with
  | some i => rfl
  | none => simp [Sweep.retime, CertificateExecutionState.retime, retimeNodes]

theorem sweepCertificate_retime (sweep : Sweep σ) (cert : Certificate) :
    (sweepCertificate c ext ambient cjob workflowCtx sweep cert).map (·.retime f) =
      sweepCertificate c ext (ambient.retime f) { cjob with status := status } (workflowCtx.retime f) (sweep.retime f)
        cert := by
  simp only [sweepCertificate, ensureObservedCertificateState_retime]
  generalize ensureObservedCertificateState sweep cert = ensured
  have entry : (ensured.1.retime f).observed[ensured.2]? = ensured.1.observed[ensured.2]?.map (·.retime f) := by
    simp [Sweep.retime]
  rw [entry]
  cases ensured.1.observed[ensured.2]? with
  | none => rfl
  | some state =>
    have turn := reconcileObservedCertificate_retime f ext ambient cjob status workflowCtx owner cert state sweep.client
    have client : (sweep.retime f).client = sweep.client := rfl
    simp only [Option.map_some, Option.bind_eq_bind, Option.bind_some, client, turn]
    cases reconcileObservedCertificate c ext ambient cjob cert state workflowCtx sweep.client with
    | none => rfl
    | some out => simp [Sweep.retime, EntryOutcome.retime, retimeCalls, List.map_set]

/-- A reconcile by another clock is the reconcile by this clock with its times read off the other one. -/
theorem reconcileCertificateJob_retime (sets : ext.SetsConditions) (s : σ) :
    reconcileCertificateJob c ext (ambient.retime f) { cjob with status := cjob.status.retime f } s =
      (reconcileCertificateJob c ext ambient cjob s).map (·.retime f) := by
  have listed : listMatchingCertificates c ext { cjob with status := cjob.status.retime f } s =
    listMatchingCertificates c ext cjob s := rfl
  have conditions : ∀ settings, settle ext (ambient.retime f) { cjob with status := cjob.status.retime f }
      (cjob.status.retime f).conditions settings =
        (settle ext ambient cjob cjob.status.conditions settings).map (·.retime f) :=
    settle_retime f sets ambient cjob _ cjob.status.conditions
  have index : observedStateIndex (cjob.status.retime f).observedCertificates =
      observedStateIndex cjob.status.observedCertificates := by
    refine IndexBy.indexBy_congr ?_
    rw [CertificateJobStatus.retime, List.map_map]
    rfl
  simp only [reconcileCertificateJob, buildWorkflowContext_retime, listed, invalidSpecConditions_eq,
    listFailedConditions_eq, applyCertificateJobConditions_eq, conditions, index]
  cases buildWorkflowContext ext ambient cjob with
  | error e => rfl
  | ok workflowCtx =>
    simp only [Except.map]
    cases listMatchingCertificates c ext cjob s with
    | error e => rfl
    | ok certs =>
      have swept := Slices.foldlM_shows (Sweep.retime f) (fun _ => True)
        (fun sweep cert _ => sweepCertificate_retime f ext ambient cjob (cjob.status.retime f) workflowCtx owner sweep cert)
        (fun _ _ _ _ _ => trivial) certs (a := .start cjob s) trivial
      have start : (Sweep.start cjob s).retime f = ⟨(cjob.status.retime f).observedCertificates,
        observedStateIndex cjob.status.observedCertificates, [], {}, [], s⟩ := rfl
      rw [start] at swept
      simp only [← swept, Option.bind_eq_bind]
      change _ = ((certs.foldlM (sweepCertificate c ext ambient cjob workflowCtx) (.start cjob s)).bind _).map _
      cases certs.foldlM (sweepCertificate c ext ambient cjob workflowCtx) (.start cjob s) with
      | none => rfl
      | some sweep =>
        have kept : filterObservedStates (sweep.retime f).observed sweep.matchedKeys =
            (filterObservedStates sweep.observed sweep.matchedKeys).map (·.retime f) := by
          rw [filterObservedStates, filterObservedStates, Sweep.retime, List.filter_map]
          rfl
        exact congrArg (fun entries => some (JobOutcome.mk ⟨entries, _⟩ _ _ _ _)) kept

end

section
variable {σ : Type} (c : Client σ) (ext : External) (clock : ClockRead → Time) (orders orders' : MapOrders)
  (cjob : CertificateJob)

theorem sweepCertificate_order_free (workflowCtx : WorkflowContext) :
    sweepCertificate c ext ⟨clock, orders⟩ cjob workflowCtx = sweepCertificate c ext ⟨clock, orders'⟩ cjob workflowCtx := by
  have turn : ∀ cert state s, reconcileObservedCertificate c ext ⟨clock, orders⟩ cjob cert state workflowCtx s =
      reconcileObservedCertificate c ext ⟨clock, orders'⟩ cjob cert state workflowCtx s := by
    intro cert state s
    simp only [reconcileObservedCertificate, reconcileInput, reconcileCertificateRun_order_free c cjob cert clock orders orders']
  funext sweep cert
  simp only [sweepCertificate, turn]

/-- The map orders matter for the verdict on the spec alone: which of several reserved labels an error names. -/
theorem reconcileCertificateJob_order_free (judged : buildWorkflowGraph orders cjob = buildWorkflowGraph orders' cjob)
    (s : σ) :
    reconcileCertificateJob c ext ⟨clock, orders⟩ cjob s = reconcileCertificateJob c ext ⟨clock, orders'⟩ cjob s := by
  have context : buildWorkflowContext ext ⟨clock, orders⟩ cjob = buildWorkflowContext ext ⟨clock, orders'⟩ cjob := by
    simp only [buildWorkflowContext, judged]
  unfold reconcileCertificateJob
  rw [context]
  cases buildWorkflowContext ext ⟨clock, orders'⟩ cjob with
  | error e => rfl
  | ok workflowCtx =>
    cases listMatchingCertificates c ext cjob s with
    | error e => rfl
    | ok certs =>
      simp only [sweepCertificate_order_free c ext clock orders orders' cjob workflowCtx]
      rfl

end

def CertificateJobStatus.untimed (status : CertificateJobStatus) : CertificateJobStatus := status.retime fun _ => 0

def JobOutcome.untimed {σ : Type} (out : JobOutcome σ) : JobOutcome σ := out.retime fun _ => 0

def Client.answering {σ : Type} (c : Client σ) (cjob : CertificateJob) (refusal : Option ApiError) : Client σ :=
  { c with
    getCertificateJob := fun _ _ _ => .ok cjob
    updateStatus := fun s _ => (refusal, s) }

section
variable {σ : Type} (c : Client σ) (held : CertificateJob) (refusal : Option ApiError)

theorem scheduleNodes_answering (cjob : CertificateJob) (cert : Certificate) (runID : String) (now : Time)
    (names : List String) (slots : Int) (nodes : List WorkflowNodeState) (s : σ) :
    scheduleNodes (c.answering held refusal) cjob cert runID now names slots nodes s =
      scheduleNodes c cjob cert runID now names slots nodes s := by
  induction names generalizing slots nodes s with
  | nil => rfl
  | cons name rest ih =>
    have provided : provideJob (c.answering held refusal) cjob cert runID name nodes s =
      provideJob c cjob cert runID name nodes s := rfl
    simp only [scheduleNodes, provided, ih]

theorem reconcileCertificateJob_answering (ext : External) (ambient : Ambient) (cjob : CertificateJob) (s : σ) :
    reconcileCertificateJob (c.answering held refusal) ext ambient cjob s = reconcileCertificateJob c ext ambient cjob s := by
  have run : ∀ cert state graph s, reconcileCertificateRun (c.answering held refusal) ambient cjob cert state graph s =
      reconcileCertificateRun c ambient cjob cert state graph s := by
    intro cert state graph s
    simp only [reconcileCertificateRun, fillSlots, scheduleRunnableNodes, scheduleNodes_answering]
    rfl
  have turn : ∀ cert state workflowCtx s,
      reconcileObservedCertificate (c.answering held refusal) ext ambient cjob cert state workflowCtx s =
        reconcileObservedCertificate c ext ambient cjob cert state workflowCtx s := by
    intro cert state workflowCtx s
    simp only [reconcileObservedCertificate, reconcileInput, run]
    rfl
  have sweep : ∀ workflowCtx, sweepCertificate (c.answering held refusal) ext ambient cjob workflowCtx =
      sweepCertificate c ext ambient cjob workflowCtx := by
    intro workflowCtx
    funext sweep cert
    simp only [sweepCertificate, turn]
  simp only [reconcileCertificateJob, sweep]
  rfl

end

structure Twins where
  left : CertificateJobStatus
  right : CertificateJobStatus

/-- A reconcile of both copies: they see the same objects, and a status write, if they make one, is answered alike. Each
    has its own clock and its own order of map keys. -/
structure TwinPass (σ : Type) where
  cjob : CertificateJob
  client : σ
  left : Ambient
  right : Ambient
  refusal : Option ApiError

structure Answer (σ : Type) where
  outcome : ReconcileOutcome σ
  stored : CertificateJobStatus

section
variable {σ : Type} (c : Client σ) (ext : External)

structure TwinPass.Reconciles (pass : TwinPass σ) (ambient : Ambient) (status : CertificateJobStatus) (out : JobOutcome σ)
    (answer : Answer σ) : Prop where
  computed : reconcileCertificateJob c ext ambient { pass.cjob with status := status } pass.client = some out
  answered : reconcile (c.answering { pass.cjob with status := status } pass.refusal) ext ambient pass.cjob.ns
    pass.cjob.name pass.client = some answer.outcome
  stored : answer.stored = if answer.outcome.wrote then out.status else status

def twinMachine : Machine Twins (TwinPass σ) where
  start twins := twins.left = twins.right
  step twins pass next := ∃ out answer out' answer', pass.Reconciles c ext pass.left twins.left out answer ∧
    pass.Reconciles c ext pass.right twins.right out' answer' ∧ next = ⟨answer.stored, answer'.stored⟩

variable {c ext} {pass : TwinPass σ} {ambient : Ambient} {status : CertificateJobStatus} {out : JobOutcome σ}
  {answer : Answer σ}

theorem TwinPass.Reconciles.result (turn : pass.Reconciles c ext ambient status out answer) :
    answer.outcome.calls = out.calls ∧
    (pass.refusal = none → answer.stored = out.status ∧ answer.outcome.err = out.err ∧
      answer.outcome.requeueAfter = if out.err.isSome then none else out.requeueAfter) ∧
    (pass.refusal ≠ none → answer.stored = status) := by
  obtain ⟨computed, answered, stored⟩ := turn
  have read : (c.answering { pass.cjob with status := status } pass.refusal).getCertificateJob pass.client pass.cjob.ns
    pass.cjob.name = .ok { pass.cjob with status := status } := rfl
  simp only [reconcile, read, reconcileCertificateJob_answering, computed, Option.bind_eq_bind, Option.bind_some] at answered
  split at answered
  · rename_i same
    rw [← Option.some.inj answered] at stored ⊢
    have kept : status = out.status := of_decide_eq_true same
    exact ⟨rfl, fun _ => ⟨stored.trans kept, rfl, rfl⟩, fun _ => stored⟩
  · cases refused : pass.refusal with
    | some e =>
      simp only [Client.answering, refused] at answered
      rw [← Option.some.inj answered] at stored ⊢
      exact ⟨rfl, fun accepted => (by cases accepted), fun _ => stored⟩
    | none =>
      simp only [Client.answering, refused] at answered
      rw [← Option.some.inj answered] at stored ⊢
      exact ⟨rfl, fun _ => ⟨stored, rfl, rfl⟩, fun refused => absurd rfl refused⟩

variable (c ext) in
theorem TwinPass.reconciles (pass : TwinPass σ) (ambient : Ambient) (status : CertificateJobStatus) :
    ∃ out answer, pass.Reconciles c ext ambient status out answer := by
  obtain ⟨out, computed⟩ := reconcileCertificateJob_total c ext ambient { pass.cjob with status := status } pass.client
  obtain ⟨outcome, answered⟩ := reconcile_total (c.answering { pass.cjob with status := status } pass.refusal) ext ambient
    pass.cjob.ns pass.cjob.name pass.client
  exact ⟨out, ⟨outcome, if outcome.wrote then out.status else status⟩, computed, answered, rfl⟩

variable (ext) in
/-- Every copy's reconcile is, up to the times, the reconcile of a copy whose clock stands still. -/
theorem reconcile_untimed (sets : ext.SetsConditions) (owner : OwnerOfObject c) (ambient : Ambient) (cjob : CertificateJob)
    (s : σ) :
    (reconcileCertificateJob c ext ambient cjob s).map (·.untimed) =
      reconcileCertificateJob c ext ⟨fun _ => 0, ambient.orders⟩ { cjob with status := cjob.status.untimed } s :=
  (reconcileCertificateJob_retime (fun _ => 0) ext ambient cjob owner sets s).symm

theorem TwinPass.Reconciles.untimed (sets : ext.SetsConditions) (owner : OwnerOfObject c) {twins : Twins}
    {out' : JobOutcome σ} {answer' : Answer σ} (turn : pass.Reconciles c ext pass.left twins.left out answer)
    (turn' : pass.Reconciles c ext pass.right twins.right out' answer') (single : pass.cjob.spec.OneReservedKey)
    (same : twins.left.untimed = twins.right.untimed) : out.untimed = out'.untimed := by
  have left := reconcile_untimed ext sets owner pass.left { pass.cjob with status := twins.left } pass.client
  have right := reconcile_untimed ext sets owner pass.right { pass.cjob with status := twins.right } pass.client
  rw [turn.computed, Option.map_some, same] at left
  rw [turn'.computed, Option.map_some] at right
  have steady := (buildWorkflowGraph_steady_iff pass.right.orders { pass.cjob with status := twins.right.untimed }).mpr single
  have judged := reconcileCertificateJob_order_free c ext (fun _ => 0) pass.left.orders pass.right.orders _
    (steady pass.left.orders) pass.client
  exact Option.some.inj (left.trans (judged.trans right.symm))

end

/-- Neither the clock nor the order of map keys decides anything but whether there is something to write: copies of the
    operator that see the same objects send the same Jobs, store the same statuses up to the times in them, and give the
    same answers unless a write is refused, which only a copy that makes one can tell. -/
theorem clock_and_map_order_free {σ : Type} (c : Client σ) (ext : External) (sets : ext.SetsConditions)
    (owner : OwnerOfObject c) (twins : Twins)
    (reached : (twinMachine c ext).Reached (fun _ pass => pass.cjob.spec.OneReservedKey) twins) :
    twins.left.untimed = twins.right.untimed ∧
    ∀ pass : TwinPass σ, pass.cjob.spec.OneReservedKey → ∃ out answer out' answer',
      pass.Reconciles c ext pass.left twins.left out answer ∧ pass.Reconciles c ext pass.right twins.right out' answer' ∧
      out.untimed = out'.untimed ∧
      retimeCalls (fun _ => 0) answer.outcome.calls = retimeCalls (fun _ => 0) answer'.outcome.calls ∧
      answer.stored.untimed = answer'.stored.untimed ∧
      (pass.refusal = none → answer.outcome.requeueAfter = answer'.outcome.requeueAfter ∧
        answer.outcome.err = answer'.outcome.err) := by
  have step : ∀ {pass : TwinPass σ} {twins : Twins} {out out' : JobOutcome σ} {answer answer' : Answer σ},
      pass.cjob.spec.OneReservedKey → twins.left.untimed = twins.right.untimed →
      pass.Reconciles c ext pass.left twins.left out answer → pass.Reconciles c ext pass.right twins.right out' answer' →
      answer.stored.untimed = answer'.stored.untimed := by
    intro pass twins out out' answer answer' single same turn turn'
    by_cases refused : pass.refusal = none
    · rw [(turn.result.2.1 refused).1, (turn'.result.2.1 refused).1]
      exact congrArg JobOutcome.status (turn.untimed sets owner turn' single same)
    · rw [turn.result.2.2 refused, turn'.result.2.2 refused]
      exact same
  have statuses : twins.left.untimed = twins.right.untimed := by
    refine reached.invariant (fun twins => twins.left.untimed = twins.right.untimed) ?_ ?_
    · intro first same
      rw [show first.left = first.right from same]
    · rintro before pass next same single ⟨out, answer, out', answer', turn, turn', rfl⟩
      exact step single same turn turn'
  refine ⟨statuses, ?_⟩
  intro pass single
  obtain ⟨out, answer, turn⟩ := pass.reconciles c ext pass.left twins.left
  obtain ⟨out', answer', turn'⟩ := pass.reconciles c ext pass.right twins.right
  have agree := turn.untimed sets owner turn' single statuses
  refine ⟨out, answer, out', answer', turn, turn', agree, ?_, step single statuses turn turn', fun accepted => ?_⟩
  · rw [turn.result.1, turn'.result.1]
    exact congrArg JobOutcome.calls agree
  · obtain ⟨-, err, requeue⟩ := turn.result.2.1 accepted
    obtain ⟨-, err', requeue'⟩ := turn'.result.2.1 accepted
    have same := congrArg JobOutcome.err agree
    have delay := congrArg JobOutcome.requeueAfter agree
    simp only [JobOutcome.untimed, JobOutcome.retime] at same delay
    simp only [err, err', requeue, requeue', same, delay, and_self]

def apartPass : TwinPass Cluster where
  cjob := (sampleCluster (flatSpec ["b", "a"] 1 .stopDownstream)).cjob
  client := sampleCluster (flatSpec ["b", "a"] 1 .stopDownstream)
  left := stillClock
  right := ⟨fun _ => 7, { deps := reversedOrder, indegree := reversedOrder, nodes := reversedOrder }⟩
  refusal := none

theorem clock_and_map_order_free_apart :
    ∃ twins : Twins, (twinMachine clusterClient plainExternal).Reached (fun _ pass => pass.cjob.spec.OneReservedKey) twins ∧
      twins.left ≠ twins.right ∧ twins.left.untimed = twins.right.untimed := by
  have played : (reconcileCertificateJob clusterClient plainExternal apartPass.left { apartPass.cjob with status := {} }
      apartPass.client).any (fun out => (reconcileCertificateJob clusterClient plainExternal apartPass.right
        { apartPass.cjob with status := {} } apartPass.client).any fun out' => out.status ≠ out'.status) = true := by
    decide +kernel
  obtain ⟨out, left, played⟩ := (Option.any_eq_true _ _).mp played
  obtain ⟨out', right, different⟩ := (Option.any_eq_true _ _).mp played
  obtain ⟨_, answer, turn⟩ := apartPass.reconciles clusterClient plainExternal apartPass.left {}
  obtain rfl := Option.some.inj (turn.computed.symm.trans left)
  obtain ⟨_, answer', turn'⟩ := apartPass.reconciles clusterClient plainExternal apartPass.right {}
  obtain rfl := Option.some.inj (turn'.computed.symm.trans right)
  have built : buildWorkflowGraph {} apartPass.cjob = .ok (builtMaps apartPass.cjob) := rfl
  have single : apartPass.cjob.spec.OneReservedKey := buildWorkflowGraph_oneReservedKey built
  have fresh : (twinMachine clusterClient plainExternal).start ⟨{}, {}⟩ := rfl
  have reached : (twinMachine clusterClient plainExternal).Reached (fun _ pass => pass.cjob.spec.OneReservedKey)
      ⟨answer.stored, answer'.stored⟩ := .step (.of_start fresh) single ⟨_, answer, _, answer', turn, turn', rfl⟩
  refine ⟨_, reached, ?_, (clock_and_map_order_free clusterClient plainExternal plainExternal_setsConditions
    (fun _ _ _ _ => rfl) _ reached).1⟩
  simp only [(turn.result.2.1 rfl).1, (turn'.result.2.1 rfl).1]
  exact of_decide_eq_true different

end CertificateJobs
