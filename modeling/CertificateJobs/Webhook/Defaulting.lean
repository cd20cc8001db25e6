import CertificateJobs.Controller.Run
import CertificateJobs.Webhook.Admission

namespace CertificateJobs

def CertificateJobCustomDefaulter.default (certificateJob : CertificateJob) : CertificateJob :=
  let spec := certificateJob.spec
  let ttl := spec.jobTTLSecondsAfterFinished.getD 3600
  { certificateJob with
    spec := { spec with
      parallelism := spec.parallelism.or (some 1)
      jobTTLSecondsAfterFinished := some ttl
      failurePolicy := if spec.failurePolicy = .other "" then .stopDownstream else spec.failurePolicy
      jobs := spec.jobs.map fun job => { job with template := applyJobSecurityDefaults job.template ttl } } }

namespace CertificateJobCustomDefaulter

theorem default_idempotent (cjob : CertificateJob) : default (default cjob) = default cjob := by
  have jobs : ∀ (list : List CertificateJobTemplate) (ttl : Int),
      (list.map fun job => { job with template := applyJobSecurityDefaults job.template ttl }).map
          (fun job => { job with template := applyJobSecurityDefaults job.template ttl }) =
        list.map fun job => { job with template := applyJobSecurityDefaults job.template ttl } := by
    intro list ttl
    rw [List.map_map]
    apply List.map_congr_left
    intro job _
    simp only [Function.comp_apply, applyJobSecurityDefaults_idempotent]
  by_cases unset : cjob.spec.failurePolicy = .other ""
  · simp only [default, Option.getD_some, or_some_twice, jobs, unset, if_true, reduceCtorEq, if_false]
  · simp only [default, Option.getD_some, or_some_twice, jobs, unset, if_false]

theorem jobNames_default (cjob : CertificateJob) : jobNames (default cjob) = jobNames cjob := by
  simp [jobNames, default]

theorem default_valid {cjob : CertificateJob} (templates : TemplatesValid cjob) : TemplatesValid (default cjob) where
  jobs none := templates.jobs (by simpa [default] using none)
  valid := by
    intro job member
    obtain ⟨original, present, rfl⟩ := List.mem_map.mp member
    have valid := templates.valid original present
    exact ⟨valid.named, valid.labels, valid.podLabels, (applyJobSecurityDefaults_hardened valid.permitted _).permitted⟩

theorem default_connected {cjob : CertificateJob} (connected : WellConnected cjob) : WellConnected (default cjob) where
  names := by
    rw [jobNames_default]
    exact connected.names
  ends a b edge := by
    rw [jobNames_default]
    exact connected.ends a b edge
  acyclic := connected.acyclic

theorem builtMaps_default (cjob : CertificateJob) : builtMaps (default cjob) = builtMaps cjob := by
  rw [builtMaps, builtMaps, jobNames_default]
  rfl

theorem requestedParallelism_default (cjob : CertificateJob) :
    requestedParallelism (default cjob) = requestedParallelism cjob := by
  simp only [requestedParallelism, default]
  cases cjob.spec.parallelism <;> rfl

theorem requestedJobTTL_default (cjob : CertificateJob) : requestedJobTTL (default cjob) = requestedJobTTL cjob := rfl

/-- An unset policy and StopDownstream take the same branches everywhere. -/
theorem failurePolicy_default (cjob : CertificateJob) :
    ((default cjob).spec.failurePolicy = cjob.spec.failurePolicy) ∨
      ((default cjob).spec.failurePolicy = .stopDownstream ∧ cjob.spec.failurePolicy = .other "") := by
  unfold default
  by_cases unset : cjob.spec.failurePolicy = .other ""
  · exact .inr ⟨by simp [unset], unset⟩
  · exact .inl (by simp [unset])

theorem dependencySatisfied_default (cjob : CertificateJob) (phase : ExecutionPhase) :
    dependencySatisfied (default cjob).spec.failurePolicy phase = dependencySatisfied cjob.spec.failurePolicy phase := by
  rcases failurePolicy_default cjob with same | ⟨stop, unset⟩
  · rw [same]
  · rw [stop, unset]
    cases phase <;> simp [dependencySatisfied]

theorem canRun_default (cjob : CertificateJob) (nodes : List WorkflowNodeState) (deps : List String) :
    canRun (default cjob).spec.failurePolicy nodes deps = canRun cjob.spec.failurePolicy nodes deps := by
  induction deps with
  | nil => rfl
  | cons dep rest ih => simp only [canRun, dependencySatisfied_default, ih]

theorem runnableNodes_default (cjob : CertificateJob) (order : MapOrder) (nodes : List WorkflowNodeState)
    (deps : NodeLists) :
    runnableNodes order (default cjob).spec.failurePolicy nodes deps =
      runnableNodes order cjob.spec.failurePolicy nodes deps := by
  have among : ∀ names, runnableAmong (default cjob).spec.failurePolicy nodes deps names =
      runnableAmong cjob.spec.failurePolicy nodes deps names := by
    intro names
    induction names with
    | nil => rfl
    | cons name rest ih => simp only [runnableAmong, nodeRuns, canRun_default, ih]
  exact among _

theorem applyFailurePolicy_default (cjob : CertificateJob) (order : MapOrder) (nodes : List WorkflowNodeState)
    (reverse : NodeLists) (failed : List String) (t : String → Time) :
    applyFailurePolicy order (default cjob).spec.failurePolicy nodes reverse failed t =
      applyFailurePolicy order cjob.spec.failurePolicy nodes reverse failed t := by
  rcases failurePolicy_default cjob with same | ⟨stop, unset⟩
  · rw [same]
  · rw [stop, unset]
    rfl

theorem jobTemplatesByName_default (cjob : CertificateJob) (name : String) :
    (jobTemplatesByName (default cjob) name).labels = (jobTemplatesByName cjob name).labels ∧
    (jobTemplatesByName (default cjob) name).annotations = (jobTemplatesByName cjob name).annotations ∧
    ((jobTemplatesByName (default cjob) name).template = (jobTemplatesByName cjob name).template ∨
      (jobTemplatesByName (default cjob) name).template =
        applyJobSecurityDefaults (jobTemplatesByName cjob name).template (requestedJobTTL cjob)) := by
  simp only [jobTemplatesByName, default, List.filter_map, Function.comp_def, List.getLast?_map]
  cases (cjob.spec.jobs.filter (·.name = name)).getLast? with
  | none => exact ⟨rfl, rfl, .inl rfl⟩
  | some job => exact ⟨rfl, rfl, .inr rfl⟩

/-- Defaults that are filled in at admission are the ones the controller would fill in. -/
theorem assembleJob_default (cjob : CertificateJob) (certificate : Certificate) (nodeName runID : String) :
    assembleJob (default cjob) certificate nodeName runID = assembleJob cjob certificate nodeName runID := by
  obtain ⟨labels, annotations, template⟩ := jobTemplatesByName_default cjob nodeName
  have podLabels : (jobTemplatesByName (default cjob) nodeName).template.template.labels =
      (jobTemplatesByName cjob nodeName).template.template.labels := by
    rcases template with same | applied
    · rw [same]
    · rw [applied]
      rfl
  have filled : applyJobSecurityDefaults (jobTemplatesByName (default cjob) nodeName).template (requestedJobTTL cjob) =
      applyJobSecurityDefaults (jobTemplatesByName cjob nodeName).template (requestedJobTTL cjob) := by
    rcases template with same | applied
    · rw [same]
    · rw [applied, applyJobSecurityDefaults_idempotent]
  unfold assembleJob
  dsimp only
  rw [labels, annotations, podLabels, requestedJobTTL_default, applyJobSecurityDefaults_labels, filled]
  rfl

theorem ensureWorkflowNodeStates_default (cjob : CertificateJob) (nodes : List WorkflowNodeState) :
    ensureWorkflowNodeStates (default cjob) nodes = ensureWorkflowNodeStates cjob nodes := by
  simp only [ensureWorkflowNodeStates, default, List.filter_map, List.map_map]
  rfl

section
variable {σ : Type} {c : Client σ} {cjob : CertificateJob}
  (owner : ∀ s job, c.setControllerReference s (default cjob) job = c.setControllerReference s cjob job)
include owner

theorem provideJob_default (certificate : Certificate) (runID nodeName : String) (nodes : List WorkflowNodeState) (s : σ) :
    provideJob c (default cjob) certificate runID nodeName nodes s =
      provideJob c cjob certificate runID nodeName nodes s := by
  simp only [provideJob, assembleJob_default, owner]
  rfl

theorem scheduleNodes_default (certificate : Certificate) (runID : String) (now : Time) (names : List String) (slots : Int)
    (nodes : List WorkflowNodeState) (s : σ) :
    scheduleNodes c (default cjob) certificate runID now names slots nodes s =
      scheduleNodes c cjob certificate runID now names slots nodes s := by
  induction names generalizing slots nodes s with
  | nil => rfl
  | cons name rest ih =>
    simp only [scheduleNodes, provideJob_default owner, ih]
    rfl

theorem reconcileCertificateRun_default (ambient : Ambient) (certificate : Certificate)
    (state : CertificateExecutionState) (graph : GraphMaps) (s : σ) :
    reconcileCertificateRun c ambient (default cjob) certificate state graph s =
      reconcileCertificateRun c ambient cjob certificate state graph s := by
  simp only [reconcileCertificateRun, ensureWorkflowNodeStates_default, applyFailurePolicy_default,
    requestedParallelism_default, fillSlots, scheduleRunnableNodes, runnableNodes_default, scheduleNodes_default owner]

end

end CertificateJobCustomDefaulter

open CertificateJobCustomDefaulter in
/-- Defaulting twice is defaulting once, an accepted object stays accepted with the same graph, and the controller cannot
    tell a defaulted object from the original: the whole of `reconcileCertificateRun` runs alike when the owner reference
    depends on the metadata alone. -/
theorem defaulting_transparent (cjob : CertificateJob) (orders : MapOrders) (maps : GraphMaps)
    (accepted : buildWorkflowGraph orders cjob = .ok maps) :
    default (default cjob) = default cjob ∧
    (∀ orders', buildWorkflowGraph orders' (default cjob) = .ok maps) ∧
    requestedParallelism (default cjob) = requestedParallelism cjob ∧
    (∀ order nodes deps, runnableNodes order (default cjob).spec.failurePolicy nodes deps =
      runnableNodes order cjob.spec.failurePolicy nodes deps) ∧
    (∀ order nodes reverse failed t, applyFailurePolicy order (default cjob).spec.failurePolicy nodes reverse failed t =
      applyFailurePolicy order cjob.spec.failurePolicy nodes reverse failed t) ∧
    (∀ certificate nodeName runID,
      assembleJob (default cjob) certificate nodeName runID = assembleJob cjob certificate nodeName runID) ∧
    (∀ (σ : Type) (c : Client σ),
      (∀ s job, c.setControllerReference s (default cjob) job = c.setControllerReference s cjob job) →
      ∀ ambient certificate state s, reconcileCertificateRun c ambient (default cjob) certificate state maps s =
        reconcileCertificateRun c ambient cjob certificate state maps s) := by
  obtain ⟨templates, connected, rfl⟩ := buildWorkflowGraph_ok_iff.mp accepted
  refine ⟨default_idempotent cjob, ?_, requestedParallelism_default cjob, runnableNodes_default cjob,
    applyFailurePolicy_default cjob, assembleJob_default cjob, ?_⟩
  · intro orders'
    exact buildWorkflowGraph_ok_iff.mpr ⟨default_valid templates, default_connected connected,
      (builtMaps_default cjob).symm⟩
  · intro σ c owner ambient certificate state s
    exact reconcileCertificateRun_default owner ambient certificate state _ s

theorem defaulting_transparent_chain :
    buildWorkflowGraph {} (CertificateJobCustomDefaulter.default (pairJob [⟨"a", "b"⟩])) =
        .ok (builtMaps (pairJob [⟨"a", "b"⟩])) ∧
      CertificateJobCustomDefaulter.default (pairJob [⟨"a", "b"⟩]) ≠ pairJob [⟨"a", "b"⟩] := by
  refine ⟨(defaulting_transparent (pairJob [⟨"a", "b"⟩]) {} (builtMaps (pairJob [⟨"a", "b"⟩])) rfl).2.1 {}, ?_⟩
  intro same
  have policy := congrArg (fun cjob : CertificateJob => cjob.spec.failurePolicy) same
  simp [CertificateJobCustomDefaulter.default, pairJob] at policy

/-- The object as it was submitted, with the token automount setting cleared in every job template. -/
def withoutAutomount (certificateJob : CertificateJob) : CertificateJob :=
  { certificateJob with
    spec := { certificateJob.spec with
      jobs := certificateJob.spec.jobs.map fun job => { job with template := clearAutomount job.template } } }

namespace CertificateJobCustomDefaulter

theorem validateTemplates_default (order : MapOrder) (ttl : Int) (jobs : List CertificateJobTemplate) :
    validateTemplates order (jobs.map fun job => { job with template := applyJobSecurityDefaults job.template ttl }) =
      validateTemplates order (jobs.map fun job => { job with template := clearAutomount job.template }) := by
  induction jobs with
  | nil => rfl
  | cons job rest ih =>
    have head : validateTemplate order { job with template := applyJobSecurityDefaults job.template ttl } =
        validateTemplate order { job with template := clearAutomount job.template } := by
      simp only [validateTemplate, validateJobTemplateSecurity_defaults]
      rfl
    simp only [List.map_cons, validateTemplates, head, ih]

theorem validateCertificateJob_default (order : MapOrder) (cjob : CertificateJob) :
    validateCertificateJob order (default cjob) = validateCertificateJob order (withoutAutomount cjob) := by
  have lengths : (default cjob).spec.jobs.length = (withoutAutomount cjob).spec.jobs.length := by
    simp [default, withoutAutomount]
  have sized : (default cjob).spec.parallelism.any (· < 1) = (withoutAutomount cjob).spec.parallelism.any (· < 1) := by
    simp only [default, withoutAutomount]
    cases cjob.spec.parallelism <;> rfl
  have templates : validateTemplates order (default cjob).spec.jobs =
      validateTemplates order (withoutAutomount cjob).spec.jobs := validateTemplates_default order _ cjob.spec.jobs
  rw [validateCertificateJob, validateCertificateJob, lengths, sized, templates]

end CertificateJobCustomDefaulter

open CertificateJobCustomDefaulter in
/-- What admission says after defaulting is what it would have said of the submitted object, had that object left the
    token automount setting alone: the same verdict whatever order the labels are ranged over in, and for one order the
    same violation. -/
theorem default_hides_automount_only (cjob : CertificateJob) :
    (∀ order order', validateCertificateJob order (default cjob) = .ok () ↔
      validateCertificateJob order' (withoutAutomount cjob) = .ok ()) ∧
    ∀ order, validateCertificateJob order (default cjob) = validateCertificateJob order (withoutAutomount cjob) := by
  refine ⟨?_, fun order => validateCertificateJob_default order cjob⟩
  intro order order'
  rw [validateCertificateJob_default, validateCertificateJob_ok_iff, validateCertificateJob_ok_iff]

end CertificateJobs
