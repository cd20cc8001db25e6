import CertificateJobs.Controller.JobLabels
import CertificateJobs.Library.Machine
import CertificateJobs.Runs.ServiceAccount

/-! The way of a CertificateJob into the cluster. What the API server does with a request is not modelled: it is any
server that stores what the schema and the webhooks make of a request, and reconciles only write the status of that. -/

namespace CertificateJobs

namespace CertificateJobCustomValidator

def validateCreate (order : MapOrder) (certificateJob : CertificateJob) : Except AdmissionError Unit :=
  validateCertificateJob order certificateJob

def validateUpdate (order : MapOrder) (_ certificateJob : CertificateJob) : Except AdmissionError Unit :=
  validateCertificateJob order certificateJob

end CertificateJobCustomValidator

structure Schema where
  fill : CertificateJobSpec → CertificateJobSpec
  accepts : CertificateJobSpec → Bool

inductive JobRequest
  | create (cjob : CertificateJob)
  | update (spec : CertificateJobSpec)
  | delete

def JobRequest.submitted : JobRequest → Option CertificateJobSpec
  | .create cjob => some cjob.spec
  | .update spec => some spec
  | .delete => none

def JobRequest.Validated (order : MapOrder) (stored : Option CertificateJob) (new : CertificateJob) : JobRequest → Prop
  | .create _ => CertificateJobCustomValidator.validateCreate order new = .ok ()
  | .update _ => ∃ old, stored = some old ∧ CertificateJobCustomValidator.validateUpdate order old new = .ok ()
  | .delete => False

/-- What is taken of the API server, which answers a request with what it stores from then on, or refuses it. It stores
    a submitted spec with the defaults of the schema and of the mutating webhook, once the schema and the validating
    webhook have accepted it; and an update that comes out as the object stored is accepted and changes nothing. -/
structure Admits (schema : Schema)
    (serve : MapOrder → Option CertificateJob → JobRequest → Option (Option CertificateJob)) : Prop where
  defaulted : ∀ order stored request new, serve order stored request = some (some new) →
    ∃ spec, request.submitted = some spec ∧
      new.spec = (CertificateJobCustomDefaulter.default { new with spec := schema.fill spec }).spec
  filled : ∀ order stored request new, serve order stored request = some (some new) → schema.fill new.spec = new.spec
  accepted : ∀ order stored request new, serve order stored request = some (some new) → schema.accepts new.spec = true
  validated : ∀ order stored request new, serve order stored request = some (some new) →
    request.Validated order stored new
  unchanged : ∀ order old, CertificateJobCustomDefaulter.default { old with spec := schema.fill old.spec } = old →
    schema.accepts old.spec = true → CertificateJobCustomValidator.validateUpdate order old old = .ok () →
    serve order (some old) (.update old.spec) = some (some old)

inductive ObjectEvent (σ : Type)
  | request (order : MapOrder) (request : JobRequest)
  | reconcile (ambient : Ambient) (client : σ)

/-- The life of a CertificateJob on the server: requests are carried out or refused, reconciles write the status or fail
    to. -/
def objectMachine {σ : Type} (c : Client σ) (ext : External)
    (serve : MapOrder → Option CertificateJob → JobRequest → Option (Option CertificateJob)) :
    Machine (Option CertificateJob) (ObjectEvent σ) where
  start stored := stored = none
  step stored event next := match event with
    | .request order request => next = (serve order stored request).getD stored
    | .reconcile ambient client => ∃ cjob, stored = some cjob ∧
      ∃ out, reconcileCertificateJob c ext ambient cjob client = some out ∧
        (next = some { cjob with status := out.status } ∨ next = stored)

structure CertificateJob.Admitted (schema : Schema) (cjob : CertificateJob) : Prop where
  fixed : CertificateJobCustomDefaulter.default cjob = cjob
  filled : schema.fill cjob.spec = cjob.spec
  accepted : schema.accepts cjob.spec = true
  templates : TemplatesValid cjob
  sized : ∀ parallelism, cjob.spec.parallelism = some parallelism → 1 ≤ parallelism

theorem CertificateJobCustomDefaulter.default_fixed {cjob other : CertificateJob} (fixed : default other = other)
    (same : cjob.spec = other.spec) : default cjob = cjob := by
  have spec := congrArg CertificateJob.spec fixed
  obtain ⟨ns, name, uid, generation, version, spec', status⟩ := cjob
  obtain rfl : spec' = other.spec := same
  exact congrArg (fun spec => CertificateJob.mk ns name uid generation version spec status) spec

theorem CertificateJob.Admitted.transfer {schema : Schema} {cjob other : CertificateJob} (admitted : cjob.Admitted schema)
    (same : other.spec = cjob.spec) : other.Admitted schema where
  fixed := CertificateJobCustomDefaulter.default_fixed admitted.fixed same
  filled := by rw [same]; exact admitted.filled
  accepted := by rw [same]; exact admitted.accepted
  templates := ⟨same ▸ admitted.templates.jobs, same ▸ admitted.templates.valid⟩
  sized := same ▸ admitted.sized

theorem JobRequest.Validated.judged {order : MapOrder} {stored : Option CertificateJob} {new : CertificateJob}
    {request : JobRequest} (validated : request.Validated order stored new) : validateCertificateJob order new = .ok () := by
  cases request with
  | create cjob => exact validated
  | update spec =>
    obtain ⟨old, -, judged⟩ := validated
    exact judged
  | delete => exact validated.elim

section
variable {schema : Schema} {serve : MapOrder → Option CertificateJob → JobRequest → Option (Option CertificateJob)}

theorem Admits.admitted (laws : Admits schema serve) {order : MapOrder} {stored : Option CertificateJob}
    {request : JobRequest} {new : CertificateJob} (served : serve order stored request = some (some new)) :
    new.Admitted schema := by
  obtain ⟨spec, -, defaulted⟩ := laws.defaulted _ _ _ _ served
  obtain ⟨templates, sized⟩ := validateCertificateJob_ok_iff.mp (laws.validated _ _ _ _ served).judged
  have fixed := CertificateJobCustomDefaulter.default_fixed
    (CertificateJobCustomDefaulter.default_idempotent { new with spec := schema.fill spec }) defaulted
  exact ⟨fixed, laws.filled _ _ _ _ served, laws.accepted _ _ _ _ served, templates, sized⟩

variable {σ : Type} {c : Client σ} {ext : External}

theorem reached_admitted (laws : Admits schema serve) {stored : Option CertificateJob}
    (reached : (objectMachine c ext serve).Reached (fun _ _ => True) stored) :
    ∀ cjob, stored = some cjob → cjob.Admitted schema := by
  refine reached.invariant (fun stored => ∀ cjob, stored = some cjob → cjob.Admitted schema) ?_ ?_
  · rintro _ rfl cjob ⟨⟩
  · intro stored event next before _ taken
    cases event with
    | request order request =>
      obtain rfl : next = (serve order stored request).getD stored := taken
      cases served : serve order stored request with
      | none => exact before
      | some next =>
        rintro cjob rfl
        exact laws.admitted served
    | reconcile ambient client =>
      obtain ⟨cjob, rfl, out, -, written | lost⟩ := taken
      · rintro other found
        obtain rfl := Option.some.inj (written.symm.trans found)
        exact (before cjob rfl).transfer rfl
      · rw [lost]
        exact before

end

section
variable {schema : Schema} {cjob : CertificateJob}

theorem CertificateJob.Admitted.parallelism (admitted : cjob.Admitted schema) :
    cjob.spec.parallelism = some (requestedParallelism cjob) := by
  have filled := congrArg (fun cjob : CertificateJob => cjob.spec.parallelism) admitted.fixed
  unfold requestedParallelism
  cases asked : cjob.spec.parallelism with
  | none => simp [CertificateJobCustomDefaulter.default, asked] at filled
  | some n =>
    have positive := admitted.sized n asked
    simp [positive]

theorem CertificateJob.Admitted.ttl (admitted : cjob.Admitted schema) :
    cjob.spec.jobTTLSecondsAfterFinished = some (requestedJobTTL cjob) := by
  have filled := congrArg (fun cjob : CertificateJob => cjob.spec.jobTTLSecondsAfterFinished) admitted.fixed
  unfold requestedJobTTL
  cases asked : cjob.spec.jobTTLSecondsAfterFinished with
  | none => simp [CertificateJobCustomDefaulter.default, asked] at filled
  | some n => rfl

theorem CertificateJob.Admitted.hardened (admitted : cjob.Admitted schema) :
    ∀ job ∈ cjob.spec.jobs, applyJobSecurityDefaults job.template (requestedJobTTL cjob) = job.template := by
  have jobs := congrArg (fun cjob : CertificateJob => cjob.spec.jobs) admitted.fixed
  simp only [CertificateJobCustomDefaulter.default, admitted.ttl, Option.getD_some] at jobs
  intro job member
  have same := List.map_eq_map_iff.mp (jobs.trans (List.map_id _).symm) job member
  exact congrArg CertificateJobTemplate.template same

theorem jobTemplatesByName_mem {name : String} (known : name ∈ jobNames cjob) :
    jobTemplatesByName cjob name ∈ cjob.spec.jobs ∧ (jobTemplatesByName cjob name).name = name := by
  obtain ⟨job, member, named⟩ := List.mem_map.mp known
  have listed : job ∈ cjob.spec.jobs.filter (·.name = name) := List.mem_filter.mpr ⟨member, decide_eq_true named⟩
  rw [jobTemplatesByName, List.getLast?_eq_some_getLast (List.ne_nil_of_mem listed)]
  obtain ⟨inside, same⟩ := List.mem_filter.mp (List.getLast_mem (List.ne_nil_of_mem listed))
  exact ⟨inside, of_decide_eq_true same⟩

theorem CertificateJob.Admitted.assembleJob_spec (admitted : cjob.Admitted schema) {name : String}
    (known : name ∈ jobNames cjob) (cert : Certificate) (runID : String) :
    ∃ job ∈ cjob.spec.jobs, job.name = name ∧ (assembleJob cjob cert name runID).spec =
      injectCertificateSecret { job.template with template := { job.template.template with
        labels := mergeMapsWithBasePrecedence (operatorLabels cjob cert name runID) job.template.template.labels } }
        cert.spec.secretName := by
  obtain ⟨member, named⟩ := jobTemplatesByName_mem known
  refine ⟨_, member, named, ?_⟩
  simp only [assembleJob]
  rw [applyJobSecurityDefaults_labels, admitted.hardened _ member]

end

/-- What the server stores is what the operator goes by, along any history of requests and reconciles. Submitting the
    object again changes nothing, no fallback of the controller comes into play, the spec is refused for its graph only,
    and a Job runs the template that is stored, with the operator's labels and the Secret added to it. -/
theorem stored_object_is_canonical {σ : Type} (c : Client σ) (ext : External) (schema : Schema)
    (serve : MapOrder → Option CertificateJob → JobRequest → Option (Option CertificateJob))
    (laws : Admits schema serve) (cjob : CertificateJob)
    (keeps : ∀ s cjob job owned, c.setControllerReference s cjob job = .ok owned → owned.spec = job.spec)
    (reached : (objectMachine c ext serve).Reached (fun _ _ => True) (some cjob)) :
    (∀ order, serve order (some cjob) (.update cjob.spec) = some (some cjob)) ∧
    cjob.spec.parallelism = some (requestedParallelism cjob) ∧
    cjob.spec.jobTTLSecondsAfterFinished = some (requestedJobTTL cjob) ∧
    (∀ orders, (∃ maps, buildWorkflowGraph orders cjob = .ok maps) ↔ WellConnected cjob) ∧
    ∀ ambient s out, reconcileCertificateJob c ext ambient cjob s = some out → ∀ call ∈ out.calls,
      call.2.node ∈ jobNames cjob → ∃ job ∈ cjob.spec.jobs, job.name = call.2.node ∧ ∃ cert runID, call.2.job.spec =
        injectCertificateSecret { job.template with template := { job.template.template with
          labels := mergeMapsWithBasePrecedence (operatorLabels cjob cert call.2.node runID)
            job.template.template.labels } } cert.spec.secretName := by
  have admitted := reached_admitted laws reached cjob rfl
  refine ⟨?_, admitted.parallelism, admitted.ttl, ?_, ?_⟩
  · intro order
    have same : CertificateJobCustomDefaulter.default { cjob with spec := schema.fill cjob.spec } = cjob := by
      rw [admitted.filled]
      exact admitted.fixed
    exact laws.unchanged order cjob same admitted.accepted
      (validateCertificateJob_ok_iff.mpr ⟨admitted.templates, admitted.sized⟩)
  · intro orders
    simp [buildWorkflowGraph_ok_iff, admitted.templates]
  · intro ambient s out result call made known
    obtain ⟨cert, runID, before, owned⟩ := reconcileCertificateJob_requested result call made
    obtain ⟨job, member, named, spec⟩ := admitted.assembleJob_spec known cert runID
    exact ⟨job, member, named, cert, runID, (keeps _ _ _ _ owned).trans spec⟩

def crdSchema : Schema where
  fill spec := { spec with
    parallelism := spec.parallelism.or (some 1)
    jobTTLSecondsAfterFinished := spec.jobTTLSecondsAfterFinished.or (some 3600) }
  accepts spec := 1 ≤ spec.jobs.length ∧ spec.jobs.length ≤ 32

def admission (schema : Schema) (order : MapOrder) (cjob : CertificateJob) : Option (Option CertificateJob) :=
  let defaulted := CertificateJobCustomDefaulter.default { cjob with spec := schema.fill cjob.spec }
  if schema.accepts defaulted.spec ∧ validateCertificateJob order defaulted = .ok () then some (some defaulted) else none

def plainServe (order : MapOrder) (stored : Option CertificateJob) : JobRequest → Option (Option CertificateJob)
  | .create cjob => if stored.isSome then none else admission crdSchema order { cjob with status := {}, generation := 1 }
  | .update spec => stored.bind fun old => admission crdSchema order { old with spec := spec }
  | .delete => if stored.isSome then some none else none

theorem plainServe_some {order : MapOrder} {stored : Option CertificateJob} {request : JobRequest} {new : CertificateJob}
    (served : plainServe order stored request = some (some new)) :
    ∃ cjob : CertificateJob, request.submitted = some cjob.spec ∧
      new = CertificateJobCustomDefaulter.default { cjob with spec := crdSchema.fill cjob.spec } ∧
      crdSchema.accepts new.spec = true ∧ validateCertificateJob order new = .ok () ∧
      (request = .update cjob.spec → stored.isSome = true) ∧ request ≠ .delete := by
  have taken : ∀ cjob, admission crdSchema order cjob = some (some new) →
      new = CertificateJobCustomDefaulter.default { cjob with spec := crdSchema.fill cjob.spec } ∧
        crdSchema.accepts new.spec = true ∧ validateCertificateJob order new = .ok () := by
    intro cjob admitted
    simp only [admission, Option.ite_none_right_eq_some, Option.some.injEq] at admitted
    obtain ⟨⟨accepted, judged⟩, rfl⟩ := admitted
    exact ⟨rfl, accepted, judged⟩
  cases request with
  | create cjob =>
    simp only [plainServe] at served
    split at served
    · cases served
    · obtain ⟨same, accepted, judged⟩ := taken _ served
      exact ⟨{ cjob with status := {}, generation := 1 }, rfl, same, accepted, judged, by simp, by simp⟩
  | update spec =>
    obtain ⟨old, found, admitted⟩ := Option.bind_eq_some_iff.mp served
    obtain ⟨same, accepted, judged⟩ := taken _ admitted
    exact ⟨{ old with spec := spec }, rfl, same, accepted, judged, by simp [found], by simp⟩
  | delete =>
    simp only [plainServe] at served
    split at served <;> cases served

theorem plainServe_admits : Admits crdSchema plainServe where
  defaulted order stored request new served := by
    obtain ⟨cjob, submitted, rfl, -⟩ := plainServe_some served
    exact ⟨cjob.spec, submitted, rfl⟩
  filled order stored request new served := by
    obtain ⟨cjob, -, rfl, -⟩ := plainServe_some served
    simp only [crdSchema, CertificateJobCustomDefaulter.default, or_some_twice, Option.some_or]
  accepted order stored request new served := by
    obtain ⟨-, -, -, accepted, -⟩ := plainServe_some served
    exact accepted
  validated order stored request new served := by
    obtain ⟨cjob, submitted, -, -, judged, present, kept⟩ := plainServe_some served
    cases request with
    | create _ => exact judged
    | update spec =>
      obtain rfl := Option.some.inj submitted
      obtain ⟨old, rfl⟩ := Option.isSome_iff_exists.mp (present rfl)
      exact ⟨old, rfl, judged⟩
    | delete => exact absurd rfl kept
  unchanged order old same accepted judged := by
    have judged : validateCertificateJob order old = .ok () := judged
    simp [plainServe, admission, same, accepted, judged]

def createdJob : CertificateJob :=
  CertificateJobCustomDefaulter.default { accountJob with spec := crdSchema.fill accountJob.spec, generation := 1 }

theorem createdJob_played :
    (reconcileCertificateJob clusterClient plainExternal stillClock createdJob (sampleCluster createdJob.spec)).any
      (fun out => out.calls.any fun call => call.2.node ∈ jobNames createdJob) = true := by
  decide +kernel

theorem stored_object_is_canonical_created :
    plainServe .listed none (.create accountJob) = some (some createdJob) ∧ createdJob.spec ≠ accountJob.spec ∧
      plainServe reversedOrder (some createdJob) (.update createdJob.spec) = some (some createdJob) ∧
      ∃ out, reconcileCertificateJob clusterClient plainExternal stillClock createdJob (sampleCluster createdJob.spec) =
        some out ∧ ∃ call ∈ out.calls, ∃ job ∈ createdJob.spec.jobs, job.name = call.2.node ∧
          ∃ labels secretName, call.2.job.spec = injectCertificateSecret { job.template with
            template := { job.template.template with labels := labels } } secretName := by
  have served : plainServe .listed none (.create accountJob) = some (some createdJob) := rfl
  have reached : (objectMachine clusterClient plainExternal plainServe).Reached (fun _ _ => True) (some createdJob) :=
    (Machine.Reached.of_start rfl).step trivial (l := .request .listed (.create accountJob)) (by
      show some createdJob = (plainServe .listed none (.create accountJob)).getD none
      rw [served]
      rfl)
  have canonical := stored_object_is_canonical clusterClient plainExternal crdSchema plainServe plainServe_admits createdJob
    (by rintro _ _ _ _ ⟨⟩; rfl) reached
  obtain ⟨out, result, played⟩ := (Option.any_eq_true _ _).mp createdJob_played
  obtain ⟨call, made, known⟩ := List.any_eq_true.mp played
  obtain ⟨job, member, named, cert, runID, spec⟩ :=
    canonical.2.2.2.2 stillClock _ out result call made (of_decide_eq_true known)
  exact ⟨served, by decide, canonical.1 reversedOrder, out, result, call, made, job, member, named, _, _, spec⟩

end CertificateJobs
