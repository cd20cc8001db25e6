import CertificateJobs.Workflow.GraphSound

namespace CertificateJobs

open Relation

inductive AdmissionError
  | noJobs
  | parallelism
  | emptyName
  | jobLabels (name : String) (cause : SecurityError)
  | podLabels (name : String) (cause : SecurityError)
  | security (name : String) (cause : SecurityError)
  deriving DecidableEq

def AdmissionError.text (isPrint : Char → Bool) : AdmissionError → String
  | .noJobs => "spec.jobs must contain at least one template"
  | .parallelism => "spec.parallelism must be >= 1"
  | .emptyName => "job template name cannot be empty"
  | .jobLabels name cause => "job " ++ quoted isPrint name ++ " has invalid labels: " ++ cause.text isPrint
  | .podLabels name cause => "job " ++ quoted isPrint name ++ " has invalid pod template labels: " ++ cause.text isPrint
  | .security name cause => "job " ++ quoted isPrint name ++ " violates security policy: " ++ cause.text isPrint

def validateTemplate (order : MapOrder) (job : CertificateJobTemplate) : Except AdmissionError Unit :=
  if job.name = "" then .error .emptyName
  else do
    (validateReservedLabels order job.labels).mapError (.jobLabels job.name)
    (validateReservedLabels order job.template.template.labels).mapError (.podLabels job.name)
    (validateJobTemplateSecurity job.template).mapError (.security job.name)

def validateTemplates (order : MapOrder) : List CertificateJobTemplate → Except AdmissionError Unit
  | [] => .ok ()
  | job :: rest => do
    validateTemplate order job
    validateTemplates order rest

def validateCertificateJob (order : MapOrder) (certificateJob : CertificateJob) : Except AdmissionError Unit :=
  if certificateJob.spec.jobs.length = 0 then .error .noJobs
  else if certificateJob.spec.parallelism.any (· < 1) then .error .parallelism
  else validateTemplates order certificateJob.spec.jobs

theorem validateTemplate_ok_iff {order : MapOrder} {job : CertificateJobTemplate} :
    validateTemplate order job = .ok () ↔ job.Valid := by
  unfold validateTemplate
  split
  · rename_i empty
    simp only [reduceCtorEq, false_iff]
    exact fun valid => valid.named empty
  · rename_i named
    rw [then_ok_iff, then_ok_iff, mapError_ok_iff, mapError_ok_iff, mapError_ok_iff, validateReservedLabels_ok_iff,
      validateReservedLabels_ok_iff, validateJobTemplateSecurity_ok_iff]
    constructor
    · rintro ⟨labels, podLabels, permitted⟩
      exact ⟨named, labels, podLabels, permitted⟩
    · exact fun valid => ⟨valid.labels, valid.podLabels, valid.permitted⟩

theorem validateTemplates_ok_iff {order : MapOrder} (jobs : List CertificateJobTemplate) :
    validateTemplates order jobs = .ok () ↔ ∀ job ∈ jobs, job.Valid := by
  induction jobs with
  | nil => simp [validateTemplates]
  | cons job rest ih => rw [validateTemplates, then_ok_iff, validateTemplate_ok_iff, ih, List.forall_mem_cons]

theorem validateCertificateJob_ok_iff {order : MapOrder} {cjob : CertificateJob} :
    validateCertificateJob order cjob = .ok () ↔
      TemplatesValid cjob ∧ ∀ parallelism, cjob.spec.parallelism = some parallelism → 1 ≤ parallelism := by
  have small : cjob.spec.parallelism.any (· < 1) = true ↔
      ¬ ∀ parallelism, cjob.spec.parallelism = some parallelism → 1 ≤ parallelism := by
    cases cjob.spec.parallelism <;> simp
  unfold validateCertificateJob
  split
  · rename_i none
    simp only [reduceCtorEq, false_iff]
    exact fun all => all.1.jobs (List.length_eq_zero_iff.mp none)
  · rename_i some
    split
    · rename_i low
      simp only [reduceCtorEq, false_iff]
      exact fun all => small.mp low all.2
    · rename_i sized
      rw [validateTemplates_ok_iff]
      constructor
      · exact fun valid => ⟨⟨fun none => some (by rw [none]; rfl), valid⟩, not_not.mp fun low => sized (small.mpr low)⟩
      · exact fun all => all.1.valid

/-- Admission checks the templates one by one and never looks at the graph they make up. The two verdicts agree exactly
    on the objects that admission rejects and on those whose names and edges form a graph without cycles. -/
theorem admission_agrees_iff (order : MapOrder) (orders : MapOrders) (cjob : CertificateJob)
    (sized : ∀ parallelism, cjob.spec.parallelism = some parallelism → 1 ≤ parallelism) :
    (validateCertificateJob order cjob = .ok () ↔ ∃ maps, buildWorkflowGraph orders cjob = .ok maps) ↔
      (TemplatesValid cjob → WellConnected cjob) := by
  have admitted : validateCertificateJob order cjob = .ok () ↔ TemplatesValid cjob :=
    validateCertificateJob_ok_iff.trans (and_iff_left sized)
  have built : (∃ maps, buildWorkflowGraph orders cjob = .ok maps) ↔ TemplatesValid cjob ∧ WellConnected cjob := by
    simp [buildWorkflowGraph_ok_iff]
  rw [admitted, built]
  constructor
  · exact fun agree templates => (agree.mp templates).2
  · exact fun connected => ⟨fun templates => ⟨templates, connected templates⟩, And.left⟩

def pairJob (edges : List CertificateWorkflowEdge) : CertificateJob where
  ns := "default"
  name := "renewal"
  spec :=
    { jobs := ["a", "b"].map fun name =>
        { name := name, template := { template := { spec := { containers := [{ name := "main" }] } } } }
      workflow := { edges := edges } }

theorem admission_agrees_iff_chain :
    validateCertificateJob .listed (pairJob [⟨"a", "b"⟩]) = .ok () ↔
      ∃ maps, buildWorkflowGraph {} (pairJob [⟨"a", "b"⟩]) = .ok maps := by
  have accepted : buildWorkflowGraph {} (pairJob [⟨"a", "b"⟩]) = .ok (builtMaps (pairJob [⟨"a", "b"⟩])) := rfl
  exact (admission_agrees_iff .listed {} (pairJob [⟨"a", "b"⟩]) (by simp [pairJob])).mpr
    fun _ => (buildWorkflowGraph_ok_iff.mp accepted).2.1

/-- Two jobs that depend on each other are admitted and then never run. -/
theorem admission_accepts_cycle :
    ∃ cjob : CertificateJob, cjob.spec.parallelism = none ∧ validateCertificateJob .listed cjob = .ok () ∧
      buildWorkflowGraph {} cjob = .error .cycle ∧
      ¬ (validateCertificateJob .listed cjob = .ok () ↔ ∃ maps, buildWorkflowGraph {} cjob = .ok maps) := by
  have rejected : buildWorkflowGraph {} (pairJob [⟨"a", "b"⟩, ⟨"b", "a"⟩]) = .error .cycle := rfl
  refine ⟨pairJob [⟨"a", "b"⟩, ⟨"b", "a"⟩], rfl, rfl, rejected, ?_⟩
  intro agree
  obtain ⟨maps, accepted⟩ := agree.mp rfl
  rw [rejected] at accepted
  cases accepted

end CertificateJobs
