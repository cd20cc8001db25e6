import CertificateJobs.Controller.Cluster
import CertificateJobs.Runs.Sweep
import CertificateJobs.Webhook.Defaulting

namespace CertificateJobs

/-- The account that the API server lets a pod run under: the deprecated alias counts if the field itself is empty. -/
def PodSpec.effectiveServiceAccount (pod : PodSpec) : String :=
  if pod.serviceAccountName ≠ "" then pod.serviceAccountName else pod.serviceAccount

theorem injectCertificateSecret_accounts (spec : JobSpec) (secretName : String) :
    (injectCertificateSecret spec secretName).template.spec.serviceAccountName = spec.template.spec.serviceAccountName ∧
      (injectCertificateSecret spec secretName).template.spec.serviceAccount = spec.template.spec.serviceAccount := by
  unfold injectCertificateSecret
  split <;> exact ⟨rfl, rfl⟩

theorem assembleJob_account {cjob : CertificateJob} (templates : TemplatesValid cjob) (certificate : Certificate)
    (nodeName runID : String) :
    (assembleJob cjob certificate nodeName runID).spec.template.spec.effectiveServiceAccount =
      (jobTemplatesByName cjob nodeName).template.template.spec.serviceAccount := by
  have named : (assembleJob cjob certificate nodeName runID).spec.template.spec.serviceAccountName =
      (jobTemplatesByName cjob nodeName).template.template.spec.serviceAccountName :=
    (injectCertificateSecret_accounts _ _).1
  have empty : (jobTemplatesByName cjob nodeName).template.template.spec.serviceAccountName = "" := by
    unfold jobTemplatesByName
    cases found : (cjob.spec.jobs.filter (·.name = nodeName)).getLast? with
    | none => rfl
    | some job =>
      have member := (List.mem_filter.mp (List.mem_of_getLast? found)).1
      exact (templates.valid job member).permitted.serviceAccountName
  rw [PodSpec.effectiveServiceAccount, if_neg (not_not.mpr (named.trans empty))]
  exact (injectCertificateSecret_accounts _ _).2

theorem jobTemplatesByName_default_account (cjob : CertificateJob) (name : String) :
    (jobTemplatesByName (CertificateJobCustomDefaulter.default cjob) name).template.template.spec.serviceAccount =
      (jobTemplatesByName cjob name).template.template.spec.serviceAccount := by
  obtain ⟨-, -, same | applied⟩ := CertificateJobCustomDefaulter.jobTemplatesByName_default cjob name
  · rw [same]
  · rw [applied]
    rfl

/-- A Job that is created from an admitted CertificateJob runs under an account of its author's choice exactly if the
    template of its node names one in the field that the security policy does not look at. -/
theorem created_account_iff {σ : Type} (c : Client σ) (ext : External) (ambient : Ambient) (order : MapOrder)
    (cjob : CertificateJob) (s : σ) (out : JobOutcome σ)
    (keeps : ∀ s cjob job owned, c.setControllerReference s cjob job = .ok owned → owned.spec = job.spec)
    (admitted : validateCertificateJob order (CertificateJobCustomDefaulter.default cjob) = .ok ())
    (result : reconcileCertificateJob c ext ambient (CertificateJobCustomDefaulter.default cjob) s = some out) :
    ∀ call ∈ out.calls, call.2.job.spec.template.spec.effectiveServiceAccount = "" ↔
      (jobTemplatesByName cjob call.2.node).template.template.spec.serviceAccount = "" := by
  intro call made
  obtain ⟨cert, runID, before, owned⟩ := reconcileCertificateJob_requested result call made
  rw [keeps _ _ _ _ owned, assembleJob_account (validateCertificateJob_ok_iff.mp admitted).1,
    jobTemplatesByName_default_account]

def accountJob : CertificateJob where
  ns := "default"
  name := "renewal"
  spec :=
    { jobs := [{ name := "a", template := { template := { spec := { serviceAccount := "admin" } } } }, { name := "b" }]
      parallelism := some 2 }

def accountCluster : Cluster :=
  { sampleCluster accountJob.spec with cjob := CertificateJobCustomDefaulter.default accountJob }

theorem accountCluster_played :
    (reconcileCertificateJob clusterClient plainExternal stillClock accountCluster.cjob accountCluster).any (fun out =>
      (out.calls.any fun call => call.2.node = "b") ∧
      out.calls.any fun call => call.2.job.spec.template.spec.effectiveServiceAccount = "admin") = true := by
  decide +kernel

theorem created_account_iff_unnamed :
    ∃ out, reconcileCertificateJob clusterClient plainExternal stillClock accountCluster.cjob accountCluster = some out ∧
      ∃ call ∈ out.calls, call.2.node = "b" ∧ call.2.job.spec.template.spec.effectiveServiceAccount = "" := by
  obtain ⟨out, result, played⟩ := (Option.any_eq_true _ _).mp accountCluster_played
  obtain ⟨call, made, node⟩ := List.any_eq_true.mp (of_decide_eq_true played).1
  have account := created_account_iff clusterClient plainExternal stillClock .listed accountJob accountCluster out
    (by rintro _ _ _ _ ⟨⟩; rfl) rfl result call made
  exact ⟨out, result, call, made, of_decide_eq_true node, account.mpr (by rw [of_decide_eq_true node]; rfl)⟩

/-- The first node's Job runs as `admin`: neither webhook nor controller object to the alias. -/
theorem created_account_chosen :
    validateCertificateJob .listed (CertificateJobCustomDefaulter.default accountJob) = .ok () ∧
      (∃ maps, buildWorkflowGraph {} (CertificateJobCustomDefaulter.default accountJob) = .ok maps) ∧
      ∃ out, reconcileCertificateJob clusterClient plainExternal stillClock
          (CertificateJobCustomDefaulter.default accountJob) accountCluster = some out ∧
        ∃ call ∈ out.calls, call.2.job.spec.template.spec.effectiveServiceAccount ≠ "" := by
  obtain ⟨out, result, played⟩ := (Option.any_eq_true _ _).mp accountCluster_played
  obtain ⟨call, made, account⟩ := List.any_eq_true.mp (of_decide_eq_true played).2
  exact ⟨rfl, ⟨_, rfl⟩, out, result, call, made, by rw [of_decide_eq_true account]; decide⟩

end CertificateJobs
