import CertificateJobs.Controller.HardenedJobs
import CertificateJobs.Controller.JobNames

namespace CertificateJobs

structure IsDNS1123Subdomain (text : String) : Prop where
  short : text.length ≤ 253
  labels : ∀ part ∈ text.toList.splitOn '.', part ≠ [] ∧ Framed isDNS1123Alphanumeric isDNS1123Rune part

/-- The pattern of the CRD for the name of a template, which sets no length. -/
structure MatchesNamePattern (text : String) : Prop where
  nonempty : text ≠ ""
  framed : Framed isDNS1123Alphanumeric isDNS1123Rune text.toList

def isLabelAlphanumeric (c : Char) : Bool := isDNS1123Alphanumeric c || ('A' ≤ c && c ≤ 'Z')

def isLabelRune (c : Char) : Bool := isLabelAlphanumeric c || c = '-' || c = '_' || c = '.'

structure IsLabelValue (text : String) : Prop where
  short : text.length ≤ 63
  framed : Framed isLabelAlphanumeric isLabelRune text.toList

theorem isLabelAlphanumeric_of_dns {c : Char} (plain : isDNS1123Alphanumeric c = true) : isLabelAlphanumeric c = true := by
  simp [isLabelAlphanumeric, plain]

theorem isLabelRune_of_dns {c : Char} (allowed : isDNS1123Rune c = true) : isLabelRune c = true := by
  unfold isDNS1123Rune at allowed
  rcases Bool.or_eq_true_iff.mp allowed with plain | dash
  · simp [isLabelRune, isLabelAlphanumeric_of_dns plain]
  · simp [isLabelRune, of_decide_eq_true dash]

theorem framed_labelValue {text : List Char} (framed : Framed isDNS1123Alphanumeric isDNS1123Rune text) :
    Framed isLabelAlphanumeric isLabelRune text :=
  framed.mono (fun _ => isLabelAlphanumeric_of_dns) fun _ => isLabelRune_of_dns

theorem IsDNS1123Subdomain.labelValue_iff {text : String} (valid : IsDNS1123Subdomain text) :
    IsLabelValue text ↔ text.length ≤ 63 := by
  refine ⟨fun value => value.short, fun short => ⟨short, Framed.of_splitOn '.' rfl ?_ ?_⟩⟩
  · exact fun part member => framed_labelValue (valid.labels part member).2
  · exact fun part member => (valid.labels part member).1

theorem MatchesNamePattern.labelValue_iff {text : String} (valid : MatchesNamePattern text) :
    IsLabelValue text ↔ text.length ≤ 63 :=
  ⟨fun value => value.short, fun short => ⟨short, framed_labelValue valid.framed⟩⟩

theorem shortHash_labelValue (input : String) : IsLabelValue (shortHash (hashString input) 12) :=
  ⟨by rw [shortHash_length]; decide, framed_labelValue (shortHash_framed input)⟩

section
variable (cjob : CertificateJob) (certificate : Certificate) (nodeName runID : String)

theorem lookup_merged (user : Labels) {key : String} (reserved : key ∈ reservedOperatorLabels) :
    (mergeMapsWithBasePrecedence (operatorLabels cjob certificate nodeName runID) user).lookup key =
      (operatorLabels cjob certificate nodeName runID).lookup key :=
  AList.lookup_union_left (mem_operatorLabels.mpr reserved)

theorem operatorLabels_all_iff (property : String → Prop) :
    (∀ key ∈ reservedOperatorLabels, ∀ value,
      (operatorLabels cjob certificate nodeName runID).lookup key = some value → property value) ↔
      ∀ value ∈ ["certificate-job-operator", cjob.name, certificate.name, certificate.ns, nodeName, runID],
        property value := by
  have entries : (operatorLabels cjob certificate nodeName runID).entries.map (·.2) =
      ["certificate-job-operator", cjob.name, certificate.name, certificate.ns, nodeName, runID] := by
    simp [operatorLabels, List.toAList, List.dedupKeys]
  rw [← entries, List.forall_mem_map]
  constructor
  · intro holds entry member
    have found := AList.mem_lookup_iff.mpr member
    exact holds entry.1 (mem_operatorLabels.mp (AList.lookup_isSome.mp (Option.isSome_of_mem found))) entry.2 found
  · intro holds key _ value found
    exact holds ⟨key, value⟩ (AList.mem_lookup_iff.mp found)

end

/-- The values of the operator's labels on a Job and on its pods are admissible exactly if the names that are copied
    into them are short; the run IDs that the controller assigns always are. -/
theorem operator_labels_admissible_iff (cjob : CertificateJob) (certificate : Certificate) (nodeName runID : String)
    (job : IsDNS1123Subdomain cjob.name) (cert : IsDNS1123Subdomain certificate.name)
    (space : IsDNS1123Subdomain certificate.ns) (node : MatchesNamePattern nodeName) :
    ((∀ key ∈ reservedOperatorLabels, ∀ value,
        (assembleJob cjob certificate nodeName runID).labels.lookup key = some value ∨
          (assembleJob cjob certificate nodeName runID).spec.template.labels.lookup key = some value →
        IsLabelValue value) ↔
      (∀ name ∈ [cjob.name, certificate.name, certificate.ns, nodeName], name.length ≤ 63) ∧ IsLabelValue runID) ∧
    ∀ input, IsLabelValue (shortHash (hashString input) 12) := by
  refine ⟨?_, shortHash_labelValue⟩
  have labels : ∀ key ∈ reservedOperatorLabels, ∀ value,
      ((assembleJob cjob certificate nodeName runID).labels.lookup key = some value ∨
        (assembleJob cjob certificate nodeName runID).spec.template.labels.lookup key = some value) ↔
      (operatorLabels cjob certificate nodeName runID).lookup key = some value := by
    intro key reserved value
    rw [assembleJob_podLabels, lookup_merged _ _ _ _ _ reserved]
    have own : (assembleJob cjob certificate nodeName runID).labels.lookup key = _ :=
      lookup_merged cjob certificate nodeName runID _ reserved
    rw [own, or_self]
  have rewritten : (∀ key ∈ reservedOperatorLabels, ∀ value,
      (assembleJob cjob certificate nodeName runID).labels.lookup key = some value ∨
        (assembleJob cjob certificate nodeName runID).spec.template.labels.lookup key = some value →
      IsLabelValue value) ↔ ∀ key ∈ reservedOperatorLabels, ∀ value,
      (operatorLabels cjob certificate nodeName runID).lookup key = some value → IsLabelValue value :=
    forall₃_congr fun key reserved value => imp_congr_left (labels key reserved value)
  have manager : IsLabelValue "certificate-job-operator" := ⟨by decide, by decide⟩
  rw [rewritten, operatorLabels_all_iff]
  simp only [List.forall_mem_cons, List.not_mem_nil, false_implies, implies_true, and_true, job.labelValue_iff,
    cert.labelValue_iff, space.labelValue_iff, node.labelValue_iff, manager, true_and, and_assoc]

theorem operator_labels_admissible_iff_short :
    let cjob : CertificateJob := { ns := "default", name := "renewal", spec := { jobs := [] } }
    let certificate : Certificate := { ns := "default", name := "web.example.org", spec := { secretName := "tls" } }
    (assembleJob cjob certificate "deploy" "0123456789ab").labels.lookup "certificates.rezzell.com/certificate" =
      some "web.example.org" ∧ IsLabelValue "web.example.org" := by
  intro cjob certificate
  have admissible := (operator_labels_admissible_iff cjob certificate "deploy" "0123456789ab" ⟨by decide, by decide⟩
    ⟨by decide, by decide⟩ ⟨by decide, by decide⟩ ⟨by decide, by decide⟩).1.mpr ⟨by decide, by decide, by decide⟩
  have found : (assembleJob cjob certificate "deploy" "0123456789ab").labels.lookup
    "certificates.rezzell.com/certificate" = some "web.example.org" := rfl
  exact ⟨found, admissible "certificates.rezzell.com/certificate" (by decide) "web.example.org" (.inl found)⟩

def longName : String := String.ofList (List.replicate 64 'a')

theorem operator_labels_too_long :
    let cjob : CertificateJob := { ns := "default", name := longName, spec := { jobs := [{ name := longName }] } }
    let certificate : Certificate := { ns := "default", name := "web", spec := { secretName := "tls" } }
    IsDNS1123Subdomain longName ∧ MatchesNamePattern longName ∧ ¬ IsLabelValue longName ∧
    (assembleJob cjob certificate longName "0123456789ab").labels.lookup
      "certificates.rezzell.com/certificatejob" = some longName ∧
    (assembleJob cjob certificate longName "0123456789ab").labels.lookup
      "certificates.rezzell.com/workflow-node" = some longName := by
  refine ⟨⟨by decide +kernel, by decide +kernel⟩, ⟨by decide +kernel, by decide +kernel⟩, ?_, rfl, rfl⟩
  intro value
  exact absurd value.short (by decide +kernel)

end CertificateJobs
