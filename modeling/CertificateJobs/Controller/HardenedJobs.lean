import CertificateJobs.Controller.JobBuilder
import CertificateJobs.Library.Lists
import CertificateJobs.Security.Policy

namespace CertificateJobs

theorem ensureVolumeMount_context (volumeName path : String) (container : Container) :
    (ensureVolumeMount volumeName path container).securityContext = container.securityContext := by
  unfold ensureVolumeMount
  split <;> rfl

theorem injectVolume_eq (volumes : List Volume) (secretName : String) :
    injectVolume volumes secretName = volumes.putFirst (·.name = secretVolumeName)
      (fun volume => { volume with secret := some secretName })
      { name := secretVolumeName, secret := some secretName } := rfl

theorem injectVolume_permitted {volumes : List Volume} (permitted : ∀ volume ∈ volumes, volume.Permitted)
    (secretName : String) : ∀ volume ∈ injectVolume volumes secretName, volume.Permitted := by
  intro volume member
  rw [injectVolume_eq] at member
  rcases PutFirst.putFirst_cases (fun volume : Volume => decide (volume.name = secretVolumeName))
    (fun volume => { volume with secret := some secretName }) { name := secretVolumeName, secret := some secretName }
    volumes with ⟨left, old, right, rfl, -, -, result⟩ | ⟨-, result⟩
  · rw [result] at member
    have original := permitted old (List.mem_append_right _ List.mem_cons_self)
    rcases List.mem_append.mp member with early | rest
    · exact permitted volume (List.mem_append_left _ early)
    · rcases List.mem_cons.mp rest with rfl | late
      · exact original
      · exact permitted volume (List.mem_append_right _ (List.mem_cons_of_mem _ late))
  · rw [result] at member
    rcases List.mem_append.mp member with old | new
    · exact permitted volume old
    · rw [List.mem_singleton.mp new]
      exact ⟨rfl, by simp⟩

theorem injectCertificateSecret_hardened {spec : JobSpec} (hardened : spec.template.spec.Hardened) (secretName : String) :
    (injectCertificateSecret spec secretName).template.spec.Hardened := by
  unfold injectCertificateSecret
  split
  · exact hardened
  · refine { hardened with volumes := injectVolume_permitted hardened.volumes secretName, containers := ?_ }
    intro container member
    rw [← List.map_append] at member
    obtain ⟨original, present, rfl⟩ := List.mem_map.mp member
    obtain ⟨context, set, facts⟩ := hardened.containers original present
    exact ⟨context, by rw [ensureVolumeMount_context, set], facts⟩

theorem mem_operatorLabels {cjob : CertificateJob} {certificate : Certificate} {nodeName runID key : String} :
    key ∈ operatorLabels cjob certificate nodeName runID ↔ key ∈ reservedOperatorLabels := by
  simp [operatorLabels, reservedOperatorLabels, List.toAList, List.dedupKeys]

theorem assembleJob_podLabels (cjob : CertificateJob) (certificate : Certificate) (nodeName runID : String) :
    (assembleJob cjob certificate nodeName runID).spec.template.labels =
      mergeMapsWithBasePrecedence (operatorLabels cjob certificate nodeName runID)
        (jobTemplatesByName cjob nodeName).template.template.labels := by
  have untouched : ∀ (spec : JobSpec) (secretName : String),
      (injectCertificateSecret spec secretName).template.labels = spec.template.labels := by
    intro spec secretName
    unfold injectCertificateSecret
    split <;> rfl
  simp only [assembleJob, untouched, applyJobSecurityDefaults]

structure CarriesLabels (operator user labels : Labels) : Prop where
  set : ∀ key ∈ reservedOperatorLabels, ∃ value, operator.lookup key = some value ∧ labels.lookup key = some value
  kept : ∀ key value, user.lookup key = some value → labels.lookup key = some value

theorem mergeMapsWithBasePrecedence_carries {cjob : CertificateJob} {certificate : Certificate} {nodeName runID : String}
    {order : MapOrder} {user : Labels} (free : validateReservedLabels order user = .ok ()) :
    CarriesLabels (operatorLabels cjob certificate nodeName runID) user
      (mergeMapsWithBasePrecedence (operatorLabels cjob certificate nodeName runID) user) where
  set key reserved := by
    have own : key ∈ operatorLabels cjob certificate nodeName runID := mem_operatorLabels.mpr reserved
    obtain ⟨value, found⟩ := Option.isSome_iff_exists.mp (AList.lookup_isSome.mpr own)
    exact ⟨value, found, by rw [mergeMapsWithBasePrecedence, AList.lookup_union_left own, found]⟩
  kept key value found := by
    have present : key ∈ user := AList.lookup_isSome.mp (by rw [found]; rfl)
    have other := (validateReservedLabels_ok_iff order user).mp free key present
    rw [mergeMapsWithBasePrecedence, AList.lookup_union_right (fun own => other (mem_operatorLabels.mp own)), found]

/-- The Job that is built from a validated template, whatever the TTL, the Secret and the names. -/
theorem assembleJob_hardened (cjob : CertificateJob) (certificate : Certificate) (nodeName runID : String)
    (order : MapOrder) (secure : validateJobTemplateSecurity (jobTemplatesByName cjob nodeName).template = .ok ())
    (jobLabels : validateReservedLabels order (jobTemplatesByName cjob nodeName).labels = .ok ())
    (podLabels : validateReservedLabels order (jobTemplatesByName cjob nodeName).template.template.labels = .ok ()) :
    (assembleJob cjob certificate nodeName runID).spec.template.spec.Hardened ∧
    validateJobTemplateSecurity (assembleJob cjob certificate nodeName runID).spec = .ok () ∧
    CarriesLabels (operatorLabels cjob certificate nodeName runID) (jobTemplatesByName cjob nodeName).labels
      (assembleJob cjob certificate nodeName runID).labels ∧
    CarriesLabels (operatorLabels cjob certificate nodeName runID)
      (jobTemplatesByName cjob nodeName).template.template.labels
      (assembleJob cjob certificate nodeName runID).spec.template.labels := by
  have permitted := (validateJobTemplateSecurity_ok_iff _).mp secure
  have hardened : (assembleJob cjob certificate nodeName runID).spec.template.spec.Hardened := by
    apply injectCertificateSecret_hardened
    apply applyJobSecurityDefaults_hardened
    exact permitted
  refine ⟨hardened, (validateJobTemplateSecurity_ok_iff _).mpr hardened.permitted,
    mergeMapsWithBasePrecedence_carries jobLabels, ?_⟩
  rw [assembleJob_podLabels]
  exact mergeMapsWithBasePrecedence_carries podLabels

def openTemplate : CertificateJobTemplate where
  name := "deploy"
  labels := List.toAList [⟨"team", "web"⟩]
  template := { template := { spec := {
    initContainers := [{ name := "setup", securityContext := some { capabilities := some { drop := ["NET_RAW"] } } }]
    containers := [{ name := "main" }] } } }

theorem assembleJob_hardened_open :
    let cjob : CertificateJob := { ns := "default", name := "renewal", spec := { jobs := [openTemplate] } }
    let certificate : Certificate := { ns := "default", name := "web", spec := { secretName := "tls" } }
    validateJobTemplateSecurity openTemplate.template = .ok () ∧
      (assembleJob cjob certificate "deploy" "0123456789ab").spec.template.spec.Hardened ∧
      (assembleJob cjob certificate "deploy" "0123456789ab").labels.lookup "team" = some "web" := by
  intro cjob certificate
  obtain ⟨hardened, -, labels, -⟩ := assembleJob_hardened cjob certificate "deploy" "0123456789ab" .listed rfl rfl rfl
  exact ⟨rfl, hardened, labels.kept "team" "web" rfl⟩

end CertificateJobs
