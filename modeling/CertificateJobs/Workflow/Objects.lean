import CertificateJobs.Workflow.Pass

namespace CertificateJobs

def refusal {α : Type} : Except ApiError α → Option ApiError
  | .ok _ => none
  | .error e => some e

/-- The API decides about each Job by itself: there is a state of each object, errors included, that alone says what a
    Get or a Create of it returns, and a Create changes no other object and no Secret. Setting an owner reference is no
    call; it depends on the CertificateJob without its status. -/
structure PerObject {σ : Type} (c : Client σ) (Object : Type) where
  object : σ → String → String → Object
  seen : Object → Except ApiError Sight
  create : Object → Job → Option ApiError × Object
  get : ∀ s ns name, sight (c.getJob s ns name) = seen (object s ns name)
  answer : ∀ s job, refusal (c.createJob s job).1 = (create (object s job.ns job.name) job).1
  stored : ∀ s job, object (c.createJob s job).2 job.ns job.name = (create (object s job.ns job.name) job).2
  others : ∀ s job ns name, ¬ (ns = job.ns ∧ name = job.name) →
    object (c.createJob s job).2 ns name = object s ns name
  secrets : ∀ s job, c.getSecret (c.createJob s job).2 = c.getSecret s
  owner : ∀ s s' cjob status job,
    c.setControllerReference s' { cjob with status := status } job = c.setControllerReference s cjob job
  addressed : ∀ s cjob job owned, c.setControllerReference s cjob job = .ok owned →
    owned.ns = job.ns ∧ owned.name = job.name

def PerObject.Agree {σ Object : Type} {c : Client σ} (view : PerObject c Object) (ns : String) (own : String → Prop)
    (s s' : σ) : Prop :=
  ∀ name, own name → view.object s ns name = view.object s' ns name

/-- A Create call without what the server fills in: whether it was accepted is all the controller learns. -/
def CreateCall.request (call : CreateCall) : String × Job × List WorkflowNodeState × Bool :=
  (call.node, call.job, call.nodes, call.stored.isSome)

theorem observe_congr {getJob getJob' : String → Except ApiError Job} (now : Time) (nodes : List WorkflowNodeState)
    (same : ∀ node ∈ nodes, node.jobName ≠ "" → sight (getJob node.jobName) = sight (getJob' node.jobName)) :
    observeWorkflowNodeJobs getJob now nodes = observeWorkflowNodeJobs getJob' now nodes := by
  induction nodes with
  | nil => rfl
  | cons node rest ih =>
    have others := ih fun other inside => same other (List.mem_cons_of_mem _ inside)
    unfold observeWorkflowNodeJobs
    split
    · rw [others]
    · rename_i has
      rw [same node List.mem_cons_self has, others]

section
variable {σ Object : Type} (c : Client σ) (cjob : CertificateJob) (certificate : Certificate) (runID : String)

def sendJob (nodeName : String) (nodes : List WorkflowNodeState) (s : σ) : Option ApiError × List CreateCall × σ :=
  match c.setControllerReference s cjob (assembleJob cjob certificate nodeName runID) with
  | .error e => (some e, [], s)
  | .ok job =>
    (refusal (c.createJob s job).1, [⟨nodeName, job, nodes, (c.createJob s job).1.toOption⟩], (c.createJob s job).2)

theorem sightOf_exists (job : Job) : sightOf job ≠ .missing := by
  unfold sightOf
  split
  · simp
  · split
    · simp
    · split <;> simp

theorem provideJob_sight (nodeName : String) (nodes : List WorkflowNodeState) (s : σ) :
    provideJob c cjob certificate runID nodeName nodes s =
      match sight (c.getJob s certificate.ns (buildJobName cjob.name certificate.name nodeName runID)) with
      | .error e => (some e, [], s)
      | .ok .missing => sendJob c cjob certificate runID nodeName nodes s
      | .ok _ => (none, [], s) := by
  unfold provideJob
  cases read : c.getJob s certificate.ns (buildJobName cjob.name certificate.name nodeName runID) with
  | ok job =>
    simp only [sight]
    cases known : sightOf job with
    | missing => exact absurd known (sightOf_exists job)
    | complete | failed | active | idle => rfl
  | error e =>
    cases notFound : e.isNotFound with
    | false => simp [sight, notFound]
    | true =>
      simp only [sight, notFound, if_true, sendJob]
      cases c.setControllerReference s cjob (assembleJob cjob certificate nodeName runID) with
      | error e => rfl
      | ok job =>
        simp only
        generalize c.createJob s job = made
        obtain ⟨answer, after⟩ := made
        cases answer with
        | error e => rfl
        | ok stored => rfl

end

section
variable {σ Object : Type} {c : Client σ} (view : PerObject c Object) (cjob : CertificateJob)
  (status : CertificateJobStatus) (certificate : Certificate) (runID : String) {own : String → Prop} {s s' : σ}

theorem refusal_none {α : Type} {answer : Except ApiError α} : answer.toOption.isSome = (refusal answer).isNone := by
  cases answer <;> rfl

theorem sendJob_agree (agree : view.Agree certificate.ns own s s') (nodeName : String) (nodes : List WorkflowNodeState)
    (ours : own (buildJobName cjob.name certificate.name nodeName runID)) :
    let left := sendJob c cjob certificate runID nodeName nodes s
    let right := sendJob c { cjob with status := status } certificate runID nodeName nodes s'
    left.1 = right.1 ∧ left.2.1.map (·.request) = right.2.1.map (·.request) ∧
      view.Agree certificate.ns own left.2.2 right.2.2 := by
  have assembled : assembleJob { cjob with status := status } certificate nodeName runID =
    assembleJob cjob certificate nodeName runID := rfl
  simp only [sendJob, assembled, view.owner s s' cjob status]
  cases owned : c.setControllerReference s cjob (assembleJob cjob certificate nodeName runID) with
  | error e => exact ⟨rfl, rfl, agree⟩
  | ok job =>
    obtain ⟨ns, name⟩ := view.addressed s cjob _ job owned
    have here : view.object s job.ns job.name = view.object s' job.ns job.name := by
      rw [ns, name]
      exact agree _ ours
    have answer : refusal (c.createJob s job).1 = refusal (c.createJob s' job).1 := by
      rw [view.answer, view.answer, here]
    refine ⟨answer, ?_, ?_⟩
    · simp only [List.map_cons, List.map_nil, CreateCall.request, refusal_none, answer]
    · intro other inside
      by_cases created : certificate.ns = job.ns ∧ other = job.name
      · rw [created.1, created.2, view.stored, view.stored, here]
      · rw [view.others _ _ _ _ created, view.others _ _ _ _ created]
        exact agree other inside

theorem provideJob_agree (agree : view.Agree certificate.ns own s s') (nodeName : String)
    (nodes : List WorkflowNodeState) (ours : own (buildJobName cjob.name certificate.name nodeName runID)) :
    let left := provideJob c cjob certificate runID nodeName nodes s
    let right := provideJob c { cjob with status := status } certificate runID nodeName nodes s'
    left.1 = right.1 ∧ left.2.1.map (·.request) = right.2.1.map (·.request) ∧
      view.Agree certificate.ns own left.2.2 right.2.2 := by
  have seen : sight (c.getJob s' certificate.ns (buildJobName cjob.name certificate.name nodeName runID)) =
      sight (c.getJob s certificate.ns (buildJobName cjob.name certificate.name nodeName runID)) := by
    rw [view.get, view.get, agree _ ours]
  simp only [provideJob_sight, seen]
  split
  · exact ⟨rfl, rfl, agree⟩
  · exact sendJob_agree view cjob status certificate runID agree nodeName nodes ours
  · exact ⟨rfl, rfl, agree⟩

def Scheduling.outcome (scheduling : Scheduling σ) :
    List WorkflowNodeState × Option ApiError × List (String × Job × List WorkflowNodeState × Bool) :=
  (scheduling.nodes, scheduling.err, scheduling.calls.map (·.request))

theorem scheduleNodes_agree (now : Time) (names : List String) (slots : Int) (nodes : List WorkflowNodeState)
    (agree : view.Agree certificate.ns own s s')
    (ours : ∀ name, own (buildJobName cjob.name certificate.name name runID)) :
    (scheduleNodes c cjob certificate runID now names slots nodes s).map (·.outcome) =
      (scheduleNodes c { cjob with status := status } certificate runID now names slots nodes s').map (·.outcome) := by
  induction names generalizing slots nodes s s' with
  | nil => rfl
  | cons name rest ih =>
    obtain ⟨err, calls, after⟩ := provideJob_agree view cjob status certificate runID agree name nodes (ours name)
    unfold scheduleNodes
    split
    · rfl
    · generalize provideJob c cjob certificate runID name nodes s = left at err calls after ⊢
      generalize provideJob c { cjob with status := status } certificate runID name nodes s' = right
        at err calls after ⊢
      obtain ⟨leftErr, leftCalls, t⟩ := left
      obtain ⟨rightErr, rightCalls, t'⟩ := right
      simp only at err calls after
      subst err
      cases leftErr with
      | some e => simp [Scheduling.outcome, calls]
      | none =>
        simp only [Option.bind_eq_bind]
        cases updateNode nodes name (markStarted (buildJobName cjob.name certificate.name name runID) now) with
        | none => rfl
        | some next =>
          have others := ih (slots - 1) next after
          simp only [Option.bind_some]
          cases scheduled : scheduleNodes c cjob certificate runID now rest (slots - 1) next t with
          | none =>
            rw [scheduled] at others
            rw [Option.map_eq_none_iff.mp others.symm]
            rfl
          | some out =>
            rw [scheduled] at others
            obtain ⟨out', scheduled', same⟩ := Option.map_eq_some_iff.mp others.symm
            rw [scheduled']
            simp only [Scheduling.outcome, Prod.mk.injEq] at same
            simp [Scheduling.outcome, same, calls]

theorem fillSlots_agree (order : MapOrder) (nodes : List WorkflowNodeState) (deps : NodeLists) (slots : Int) (now : Time)
    (agree : view.Agree certificate.ns own s s')
    (ours : ∀ name, own (buildJobName cjob.name certificate.name name runID)) :
    (fillSlots c order cjob certificate runID nodes deps slots now s).map (·.outcome) =
      (fillSlots c order { cjob with status := status } certificate runID nodes deps slots now s').map (·.outcome) := by
  unfold fillSlots
  split
  · simp only [scheduleRunnableNodes, Option.bind_eq_bind]
    cases runnableNodes order cjob.spec.failurePolicy nodes deps with
    | none => rfl
    | some runnable => exact scheduleNodes_agree view cjob status certificate runID now _ slots nodes agree ours
  · rfl

def RunOutcome.outcome (run : RunOutcome σ) : CertificateExecutionState × Bool × Bool × Option ApiError × List Sighting ×
    List (String × Job × List WorkflowNodeState × Bool) :=
  (run.state, run.running, run.failed, run.err, run.sightings, run.calls.map (·.request))

theorem concludeRun_outcome (now : Time) (state : CertificateExecutionState) (sightings : List Sighting)
    {left right : Scheduling σ} (same : left.outcome = right.outcome) :
    (concludeRun now state sightings left).outcome = (concludeRun now state sightings right).outcome := by
  simp only [Scheduling.outcome, Prod.mk.injEq] at same
  obtain ⟨nodes, err, calls⟩ := same
  unfold concludeRun
  rw [err]
  cases right.err with
  | some e => simp [RunOutcome.outcome, nodes, calls]
  | none => simp [RunOutcome.outcome, nodes, calls]

/-- A pass depends on the client only through the Jobs that the nodes record and the ones it may create. -/
theorem reconcileCertificateRun_agree (ambient : Ambient) (state : CertificateExecutionState) (graph : GraphMaps)
    (agree : view.Agree certificate.ns own s s')
    (recorded : ∀ node ∈ ensureWorkflowNodeStates cjob state.nodes, node.jobName ≠ "" → own node.jobName)
    (ours : ∀ name, own (buildJobName cjob.name certificate.name name state.runID)) :
    (reconcileCertificateRun c ambient cjob certificate state graph s).map (·.outcome) =
      (reconcileCertificateRun c ambient { cjob with status := status } certificate state graph s').map (·.outcome) := by
  have nodes : ensureWorkflowNodeStates { cjob with status := status } state.nodes =
    ensureWorkflowNodeStates cjob state.nodes := rfl
  have reads : ∀ node ∈ ensureWorkflowNodeStates cjob state.nodes, node.jobName ≠ "" →
      sight (c.getJob s certificate.ns node.jobName) = sight (c.getJob s' certificate.ns node.jobName) := by
    intro node member has
    rw [view.get, view.get, agree _ (recorded node member has)]
  have seen := observe_congr (ambient.clock (.certificateRun certificate.name)) _ reads
  simp only [reconcileCertificateRun, nodes, ← seen]
  generalize observeWorkflowNodeJobs (c.getJob s certificate.ns) (ambient.clock (.certificateRun certificate.name))
    (ensureWorkflowNodeStates cjob state.nodes) = observation
  cases observation.err with
  | some e => rfl
  | none =>
    simp only [Option.bind_eq_bind]
    cases applyFailurePolicy ambient.orders.seen cjob.spec.failurePolicy observation.nodes graph.reverse
      (ambient.orders.failed.visit observation.failedNodes) fun node => ambient.clock (.skipNode certificate.name node) with
    | none => rfl
    | some remaining =>
      have filled := fillSlots_agree view cjob status certificate state.runID ambient.orders.nodes remaining graph.deps
        (requestedParallelism cjob - observation.activeCount) (ambient.clock (.certificateRun certificate.name)) agree ours
      have slots : requestedParallelism { cjob with status := status } = requestedParallelism cjob := rfl
      simp only [Option.bind_some, slots]
      generalize fillSlots c ambient.orders.nodes cjob certificate state.runID remaining graph.deps
        (requestedParallelism cjob - observation.activeCount) (ambient.clock (.certificateRun certificate.name)) s = left
        at filled ⊢
      cases left with
      | none =>
        rw [Option.map_eq_none_iff.mp filled.symm]
      | some scheduling =>
        obtain ⟨other, found, same⟩ := Option.map_eq_some_iff.mp filled.symm
        rw [found]
        exact congrArg some (concludeRun_outcome _ _ _ same.symm)

end

section
variable {σ Object : Type} {c : Client σ} (view : PerObject c Object) (cjob : CertificateJob) (certificate : Certificate)
  (runID : String) {ns name : String}

theorem sendJob_others (nodeName : String) (nodes : List WorkflowNodeState) (s : σ)
    (foreign : name ≠ buildJobName cjob.name certificate.name nodeName runID) :
    view.object (sendJob c cjob certificate runID nodeName nodes s).2.2 ns name = view.object s ns name := by
  unfold sendJob
  split
  · rfl
  · rename_i job owned
    refine view.others s job ns name fun same => foreign ?_
    rw [same.2, (view.addressed s cjob _ job owned).2]
    rfl

theorem provideJob_others (nodeName : String) (nodes : List WorkflowNodeState) (s : σ)
    (foreign : name ≠ buildJobName cjob.name certificate.name nodeName runID) :
    view.object (provideJob c cjob certificate runID nodeName nodes s).2.2 ns name = view.object s ns name := by
  rw [provideJob_sight]
  split
  · rfl
  · exact sendJob_others view cjob certificate runID nodeName nodes s foreign
  · rfl

theorem scheduleNodes_others (now : Time) (names : List String) (slots : Int) (nodes : List WorkflowNodeState) (s : σ)
    (foreign : ∀ node, name ≠ buildJobName cjob.name certificate.name node runID) {out : Scheduling σ}
    (result : scheduleNodes c cjob certificate runID now names slots nodes s = some out) :
    view.object out.client ns name = view.object s ns name := by
  induction names generalizing slots nodes s out with
  | nil =>
    obtain rfl := Option.some.inj result
    rfl
  | cons node rest ih =>
    have first : view.object (provideJob c cjob certificate runID node nodes s).2.2 ns name = view.object s ns name :=
      provideJob_others view cjob certificate runID node nodes s (foreign node)
    unfold scheduleNodes at result
    split at result
    · obtain rfl := Option.some.inj result
      rfl
    · generalize provideJob c cjob certificate runID node nodes s = provided at first result
      obtain ⟨err, calls, t⟩ := provided
      cases err with
      | some e =>
        obtain rfl := Option.some.inj result
        exact first
      | none =>
        obtain ⟨next, -, result⟩ := Option.bind_eq_some_iff.mp result
        obtain ⟨after, later, result⟩ := Option.bind_eq_some_iff.mp result
        obtain rfl := Option.some.inj result
        exact (ih _ _ _ later).trans first

theorem reconcileCertificateRun_others (ambient : Ambient) (state : CertificateExecutionState) (graph : GraphMaps) (s : σ)
    (foreign : ∀ node, name ≠ buildJobName cjob.name certificate.name node state.runID) {out : RunOutcome σ}
    (result : reconcileCertificateRun c ambient cjob certificate state graph s = some out) :
    view.object out.client ns name = view.object s ns name := by
  simp only [reconcileCertificateRun] at result
  split at result
  · obtain rfl := Option.some.inj result
    rfl
  · obtain ⟨remaining, -, result⟩ := Option.bind_eq_some_iff.mp result
    obtain ⟨scheduling, filled, result⟩ := Option.bind_eq_some_iff.mp result
    obtain rfl := Option.some.inj result
    rw [concludeRun_client]
    unfold fillSlots at filled
    split at filled
    · obtain ⟨runnable, -, scheduled⟩ := Option.bind_eq_some_iff.mp filled
      exact scheduleNodes_others view cjob certificate state.runID _ _ _ _ s foreign scheduled
    · obtain rfl := Option.some.inj filled
      rfl

end

end CertificateJobs
