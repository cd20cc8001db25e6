import CertificateJobs.Library.Sha256
import CertificateJobs.Workflow.Nodes

namespace CertificateJobs

def hashString (input : String) : String := Sha256.hexSum input

def shortHash (s : String) (n : Nat) : String :=
  if s.length ≤ n then s else String.ofList (s.toList.take n)

def trimDashes (text : List Char) : List Char :=
  ((text.dropWhile (· = '-')).reverse.dropWhile (· = '-')).reverse

def lowerRune (c : Char) : Char :=
  -- `unicode.ToLower`, except that letters whose lower case is not ASCII are left alone: the caller turns those
  -- into dashes either way.
  if c = '\u212a' then 'k' else if c = '\u0130' then 'i' else c.toLower

def dnsRune (c : Char) : Char :=
  if ('a' ≤ c ∧ c ≤ 'z') ∨ ('0' ≤ c ∧ c ≤ '9') ∨ c = '-' then c else '-'

def sanitizeDNS1123 (text : String) : String :=
  let out := trimDashes (text.toList.map fun c => dnsRune (lowerRune c))
  if out = [] then "job" else String.ofList out

@[irreducible] def buildJobName (cjobName certName nodeName runID : String) : String :=
  let suffix := shortHash (hashString (cjobName ++ "/" ++ certName ++ "/" ++ nodeName ++ "/" ++ runID)) 12
  let base := sanitizeDNS1123 (cjobName ++ "-" ++ certName ++ "-" ++ nodeName ++ "-" ++ runID)
  let prefixLen := max (63 - suffix.length - 1) 1
  let base := if base.length > prefixLen then String.ofList (trimDashes (base.toList.take prefixLen)) else base
  let base := if base = "" then "job" else base
  base ++ "-" ++ suffix

def secretVolumeName : String := "certificate-input"

def secretMountPath : String := "/var/run/certificate-input"

def ensureVolumeMount (volumeName path : String) (container : Container) : Container :=
  match container.volumeMounts.findIdx? (·.name = volumeName) with
  | some i =>
    { container with
      volumeMounts := container.volumeMounts.modify i fun mount => { mount with mountPath := path, readOnly := true } }
  | none =>
    { container with
      volumeMounts := container.volumeMounts ++ [{ name := volumeName, mountPath := path, readOnly := true }] }

def injectVolume (volumes : List Volume) (secretName : String) : List Volume :=
  match volumes.findIdx? (·.name = secretVolumeName) with
  | some i => volumes.modify i fun volume => { volume with secret := some secretName }
  | none => volumes ++ [{ name := secretVolumeName, secret := some secretName }]

def injectCertificateSecret (spec : JobSpec) (secretName : String) : JobSpec :=
  if secretName = "" then spec
  else
    let podSpec := spec.template.spec
    { spec with
      template := { spec.template with
        spec := { podSpec with
          volumes := injectVolume podSpec.volumes secretName
          initContainers := podSpec.initContainers.map (ensureVolumeMount secretVolumeName secretMountPath)
          containers := podSpec.containers.map (ensureVolumeMount secretVolumeName secretMountPath) } } }

def mergeMaps (base extras : Labels) : Labels := extras ∪ base

def mergeMapsWithBasePrecedence (base extras : Labels) : Labels := base ∪ extras

def requestedParallelism (cjob : CertificateJob) : Int := max (cjob.spec.parallelism.getD 1) 1

def requestedJobTTL (cjob : CertificateJob) : Int := cjob.spec.jobTTLSecondsAfterFinished.getD 3600

def jobTemplatesByName (cjob : CertificateJob) (name : String) : CertificateJobTemplate :=
  -- A later template of the same name replaces an earlier one; a missing name reads as the zero template.
  ((cjob.spec.jobs.filter (·.name = name)).getLast?).getD {}

def operatorLabels (cjob : CertificateJob) (certificate : Certificate) (nodeName runID : String) : Labels :=
  List.toAList
    [⟨"app.kubernetes.io/managed-by", "certificate-job-operator"⟩,
     ⟨"certificates.rezzell.com/certificatejob", cjob.name⟩,
     ⟨"certificates.rezzell.com/certificate", certificate.name⟩,
     ⟨"certificates.rezzell.com/certificate-namespace", certificate.ns⟩,
     ⟨"certificates.rezzell.com/workflow-node", nodeName⟩,
     ⟨"certificates.rezzell.com/run-id", runID⟩]

/-- The Job that `scheduleRunnableNodes` assembles before it sets the owner reference. -/
def assembleJob (cjob : CertificateJob) (certificate : Certificate) (nodeName runID : String) : Job :=
  let template := jobTemplatesByName cjob nodeName
  let baseLabels := operatorLabels cjob certificate nodeName runID
  let spec := { template.template with
    template := { template.template.template with
      labels := mergeMapsWithBasePrecedence baseLabels template.template.template.labels } }
  { name := buildJobName cjob.name certificate.name nodeName runID
    ns := certificate.ns
    labels := mergeMapsWithBasePrecedence baseLabels template.labels
    annotations := mergeMaps ∅ template.annotations
    spec := injectCertificateSecret (applyJobSecurityDefaults spec (requestedJobTTL cjob)) certificate.spec.secretName }

example : sanitizeDNS1123 "\u212aelvin.\u0130O" = "kelvin-io" := by decide

example : (buildJobName "Job" "Cert" "Node" "Run-1").toList.take 20 = "job-cert-node-run-1-".toList := by
  decide +kernel

end CertificateJobs
