import CertificateJobs.Api.Types

namespace CertificateJobs

def quoted (isPrint : Char → Bool) (text : String) : String :=
  -- `%q`. Up to U+00FF `strconv` lists the printable characters in its code; beyond, `isPrint` stands for its
  -- tables.
  let digit (n : Nat) : Char := if n < 10 then Char.ofNat (48 + n) else Char.ofNat (87 + n)
  let hex (digits n : Nat) : List Char := (List.range digits).reverse.map fun i => digit (n >>> (4 * i) % 16)
  let printed (c : Char) : Bool :=
    if c.toNat < 256 then (32 ≤ c.toNat ∧ c.toNat < 127) ∨ (161 ≤ c.toNat ∧ c.toNat ≠ 173) else isPrint c
  let escaped (c : Char) : List Char :=
    if c = '"' ∨ c = '\\' then ['\\', c] else
    if printed c then [c] else
    if c = '\n' then ['\\', 'n'] else
    if c = '\r' then ['\\', 'r'] else
    if c = '\t' then ['\\', 't'] else
    if c.toNat = 7 then ['\\', 'a'] else
    if c.toNat = 8 then ['\\', 'b'] else
    if c.toNat = 11 then ['\\', 'v'] else
    if c.toNat = 12 then ['\\', 'f'] else
    if c.toNat < 32 ∨ c.toNat = 127 then '\\' :: 'x' :: hex 2 c.toNat else
    if c.toNat < 65536 then '\\' :: 'u' :: hex 4 c.toNat else '\\' :: 'U' :: hex 8 c.toNat
  String.ofList ('"' :: text.toList.flatMap escaped ++ ['"'])

example : quoted (fun _ => false) "a\u200b\u00ad\n" = "\"a\\u200b\\u00ad\\n\"" := by decide

def reservedOperatorLabels : List String :=
  ["app.kubernetes.io/managed-by",
   "certificates.rezzell.com/certificatejob",
   "certificates.rezzell.com/certificate",
   "certificates.rezzell.com/certificate-namespace",
   "certificates.rezzell.com/workflow-node",
   "certificates.rezzell.com/run-id"]

inductive SecurityError
  | hostNetwork
  | hostPID
  | hostIPC
  | serviceAccountName
  | automountServiceAccountToken
  | podRunsAsRoot
  | podRunAsNonRootFalse
  | hostPathVolume (volume : String)
  | projectedServiceAccountToken (volume : String)
  | privileged (container : String)
  | allowPrivilegeEscalation (container : String)
  | addsCapabilities (container : String)
  | containerRunsAsRoot (container : String)
  | containerRunAsNonRootFalse (container : String)
  | reservedLabel (label : String)
  deriving DecidableEq

def SecurityError.text (isPrint : Char → Bool) : SecurityError → String
  | .hostNetwork => "hostNetwork is not allowed"
  | .hostPID => "hostPID is not allowed"
  | .hostIPC => "hostIPC is not allowed"
  | .serviceAccountName => "serviceAccountName override is not allowed"
  | .automountServiceAccountToken => "automountServiceAccountToken=true is not allowed"
  | .podRunsAsRoot => "pod cannot run as root"
  | .podRunAsNonRootFalse => "pod runAsNonRoot=false is not allowed"
  | .hostPathVolume volume => "hostPath volume " ++ quoted isPrint volume ++ " is not allowed"
  | .projectedServiceAccountToken volume =>
    "projected serviceAccountToken volume " ++ quoted isPrint volume ++ " is not allowed"
  | .privileged container => "container " ++ quoted isPrint container ++ " cannot run privileged"
  | .allowPrivilegeEscalation container =>
    "container " ++ quoted isPrint container ++ " cannot allow privilege escalation"
  | .addsCapabilities container => "container " ++ quoted isPrint container ++ " cannot add linux capabilities"
  | .containerRunsAsRoot container => "container " ++ quoted isPrint container ++ " cannot run as root"
  | .containerRunAsNonRootFalse container =>
    "container " ++ quoted isPrint container ++ " runAsNonRoot=false is not allowed"
  | .reservedLabel label => "label " ++ quoted isPrint label ++ " is reserved by the operator"

def boolPointerTrue (v : Option Bool) : Bool := v = some true

def containsCapability (capabilities : List String) : Bool := "ALL" ∈ capabilities

def validatePodSecurityContext : Option PodSecurityContext → Except SecurityError Unit
  | none => .ok ()
  | some context =>
    if context.runAsUser = some 0 then .error .podRunsAsRoot
    else if context.runAsNonRoot = some false then .error .podRunAsNonRootFalse
    else .ok ()

def validateVolumes : List Volume → Except SecurityError Unit
  | [] => .ok ()
  | volume :: rest =>
    if volume.hostPath.isSome then .error (.hostPathVolume volume.name)
    else if (volume.projected.getD []).any (·.serviceAccountToken) then
      .error (.projectedServiceAccountToken volume.name)
    else validateVolumes rest

def validateContainer (container : Container) : Except SecurityError Unit :=
  match container.securityContext with
  | none => .ok ()
  | some context =>
    if boolPointerTrue context.privileged then .error (.privileged container.name)
    else if boolPointerTrue context.allowPrivilegeEscalation then
      .error (.allowPrivilegeEscalation container.name)
    else if (context.capabilities.any fun capabilities => 0 < capabilities.add.length) then
      .error (.addsCapabilities container.name)
    else if context.runAsUser = some 0 then .error (.containerRunsAsRoot container.name)
    else if context.runAsNonRoot = some false then .error (.containerRunAsNonRootFalse container.name)
    else .ok ()

def validateContainers : List Container → Except SecurityError Unit
  | [] => .ok ()
  | container :: rest => do
    validateContainer container
    validateContainers rest

def validateJobTemplateSecurity (spec : JobSpec) : Except SecurityError Unit :=
  let podSpec := spec.template.spec
  if podSpec.hostNetwork then .error .hostNetwork
  else if podSpec.hostPID then .error .hostPID
  else if podSpec.hostIPC then .error .hostIPC
  else if podSpec.serviceAccountName ≠ "" then .error .serviceAccountName
  else if boolPointerTrue podSpec.automountServiceAccountToken then .error .automountServiceAccountToken
  else do
    validatePodSecurityContext podSpec.securityContext
    validateVolumes podSpec.volumes
    validateContainers (podSpec.initContainers ++ podSpec.containers)

def validateReservedLabels (order : MapOrder) (labels : Labels) : Except SecurityError Unit :=
  -- The first reserved key met while ranging over the map is the one reported.
  match (order.visit labels.keys).find? (· ∈ reservedOperatorLabels) with
  | some key => .error (.reservedLabel key)
  | none => .ok ()

def runtimeDefault : SeccompProfile := ⟨"RuntimeDefault"⟩

def applyContainerSecurityDefaults (container : Container) : Container :=
  let context := container.securityContext.getD {}
  let capabilities : Capabilities :=
    match context.capabilities with
    | none => { drop := ["ALL"] }
    | some capabilities =>
      if containsCapability capabilities.drop then capabilities
      else { capabilities with drop := capabilities.drop ++ ["ALL"] }
  { container with
    securityContext := some { context with
      allowPrivilegeEscalation := context.allowPrivilegeEscalation.or (some false)
      seccompProfile := context.seccompProfile.or (some runtimeDefault)
      runAsNonRoot := context.runAsNonRoot.or (some true)
      capabilities := some capabilities } }

def applyJobSecurityDefaults (spec : JobSpec) (defaultTTL : Int) : JobSpec :=
  let podSpec := spec.template.spec
  let context := podSpec.securityContext.getD {}
  { spec with
    ttlSecondsAfterFinished := spec.ttlSecondsAfterFinished.or (some defaultTTL)
    template := { spec.template with
      spec := { podSpec with
        automountServiceAccountToken := some false
        enableServiceLinks := podSpec.enableServiceLinks.or (some false)
        securityContext := some { context with
          seccompProfile := context.seccompProfile.or (some runtimeDefault)
          runAsNonRoot := context.runAsNonRoot.or (some true) }
        initContainers := podSpec.initContainers.map applyContainerSecurityDefaults
        containers := podSpec.containers.map applyContainerSecurityDefaults } } }

end CertificateJobs
