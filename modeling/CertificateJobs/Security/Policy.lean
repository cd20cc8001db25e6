import CertificateJobs.Security.Template

namespace CertificateJobs

structure SecurityContext.Permitted (context : SecurityContext) : Prop where
  privileged : context.privileged ≠ some true
  escalation : context.allowPrivilegeEscalation ≠ some true
  capabilities : ∀ capabilities, context.capabilities = some capabilities → capabilities.add = []
  user : context.runAsUser ≠ some 0
  nonRoot : context.runAsNonRoot ≠ some false

def Container.Permitted (container : Container) : Prop :=
  ∀ context, container.securityContext = some context → context.Permitted

def Volume.Permitted (volume : Volume) : Prop :=
  volume.hostPath = none ∧
    ∀ sources, volume.projected = some sources → ∀ source ∈ sources, source.serviceAccountToken = false

def PodSecurityContext.Permitted (context : PodSecurityContext) : Prop :=
  context.runAsUser ≠ some 0 ∧ context.runAsNonRoot ≠ some false

structure PodSpec.Permitted (pod : PodSpec) : Prop where
  hostNetwork : pod.hostNetwork = false
  hostPID : pod.hostPID = false
  hostIPC : pod.hostIPC = false
  serviceAccountName : pod.serviceAccountName = ""
  automount : pod.automountServiceAccountToken ≠ some true
  context : ∀ context, pod.securityContext = some context → context.Permitted
  volumes : ∀ volume ∈ pod.volumes, volume.Permitted
  containers : ∀ container ∈ pod.initContainers ++ pod.containers, container.Permitted

theorem bind_ok_iff {ε α β : Type} {first : Except ε α} {next : α → Except ε β} {b : β} :
    (first >>= next) = .ok b ↔ ∃ a, first = .ok a ∧ next a = .ok b := by
  cases first with
  | error e => simp [bind, Except.bind]
  | ok a => simp [bind, Except.bind]

theorem then_ok_iff {ε β : Type} {first : Except ε Unit} {next : Except ε β} {b : β} :
    (first >>= fun _ => next) = .ok b ↔ first = .ok () ∧ next = .ok b := by
  rw [bind_ok_iff]
  constructor
  · rintro ⟨⟨⟩, passed, later⟩
    exact ⟨passed, later⟩
  · rintro ⟨passed, later⟩
    exact ⟨(), passed, later⟩

theorem validatePodSecurityContext_ok_iff (context : Option PodSecurityContext) :
    validatePodSecurityContext context = .ok () ↔ ∀ present, context = some present → present.Permitted := by
  cases context with
  | none => simp [validatePodSecurityContext]
  | some context =>
    simp only [validatePodSecurityContext, Option.some.injEq, forall_eq', PodSecurityContext.Permitted]
    split
    · rename_i root
      simp [root]
    · rename_i user
      split
      · rename_i root
        simp [root]
      · rename_i nonRoot
        simp [user, nonRoot]

theorem validateVolumes_ok_iff (volumes : List Volume) :
    validateVolumes volumes = .ok () ↔ ∀ volume ∈ volumes, volume.Permitted := by
  induction volumes with
  | nil => simp [validateVolumes]
  | cons volume rest ih =>
    rw [validateVolumes, List.forall_mem_cons]
    cases path : volume.hostPath with
    | some path' => simp [Volume.Permitted, path]
    | none =>
      have projections : (volume.projected.getD []).any (·.serviceAccountToken) = false ↔
          ∀ sources, volume.projected = some sources → ∀ source ∈ sources, source.serviceAccountToken = false := by
        cases volume.projected <;> simp
      cases token : (volume.projected.getD []).any (·.serviceAccountToken) with
      | true =>
        rw [token] at projections
        simp [Volume.Permitted, ← projections]
      | false => simp [Volume.Permitted, path, ← projections, token, ih]

theorem validateContainer_ok_iff (container : Container) :
    validateContainer container = .ok () ↔ container.Permitted := by
  unfold validateContainer Container.Permitted
  cases container.securityContext with
  | none => simp
  | some context =>
    simp only [boolPointerTrue, decide_eq_true_eq, Option.some.injEq, forall_eq']
    have added : (context.capabilities.any fun capabilities => 0 < capabilities.add.length) = true ↔
        ¬ ∀ capabilities, context.capabilities = some capabilities → capabilities.add = [] := by
      cases context.capabilities <;> simp [List.length_pos_iff]
    split
    · rename_i privileged
      simp only [reduceCtorEq, false_iff]
      exact fun permitted => permitted.privileged privileged
    rename_i privileged
    split
    · rename_i escalation
      simp only [reduceCtorEq, false_iff]
      exact fun permitted => permitted.escalation escalation
    rename_i escalation
    split
    · rename_i adds
      simp only [reduceCtorEq, false_iff]
      exact fun permitted => added.mp adds permitted.capabilities
    rename_i adds
    split
    · rename_i root
      simp only [reduceCtorEq, false_iff]
      exact fun permitted => permitted.user root
    rename_i user
    split
    · rename_i root
      simp only [reduceCtorEq, false_iff]
      exact fun permitted => permitted.nonRoot root
    rename_i nonRoot
    simp only [true_iff]
    exact ⟨privileged, escalation, not_not.mp fun some => adds (added.mpr some), user, nonRoot⟩

theorem validateContainers_ok_iff (containers : List Container) :
    validateContainers containers = .ok () ↔ ∀ container ∈ containers, container.Permitted := by
  induction containers with
  | nil => simp [validateContainers]
  | cons container rest ih =>
    rw [validateContainers, then_ok_iff, List.forall_mem_cons, validateContainer_ok_iff, ih]

theorem validateJobTemplateSecurity_ok_iff (spec : JobSpec) :
    validateJobTemplateSecurity spec = .ok () ↔ spec.template.spec.Permitted := by
  unfold validateJobTemplateSecurity
  dsimp only
  split
  · rename_i network
    simp only [reduceCtorEq, false_iff]
    exact fun permitted => by simp [permitted.hostNetwork] at network
  rename_i network
  split
  · rename_i pid
    simp only [reduceCtorEq, false_iff]
    exact fun permitted => by simp [permitted.hostPID] at pid
  rename_i pid
  split
  · rename_i ipc
    simp only [reduceCtorEq, false_iff]
    exact fun permitted => by simp [permitted.hostIPC] at ipc
  rename_i ipc
  split
  · rename_i account
    simp only [reduceCtorEq, false_iff]
    exact fun permitted => account permitted.serviceAccountName
  rename_i account
  split
  · rename_i automount
    simp only [reduceCtorEq, false_iff]
    exact fun permitted => permitted.automount (of_decide_eq_true automount)
  rename_i automount
  rw [then_ok_iff, then_ok_iff, validatePodSecurityContext_ok_iff, validateVolumes_ok_iff, validateContainers_ok_iff]
  constructor
  · rintro ⟨context, volumes, containers⟩
    exact ⟨by simpa using network, by simpa using pid, by simpa using ipc, by simpa using account,
      by simpa [boolPointerTrue] using automount, context, volumes, containers⟩
  · exact fun permitted => ⟨permitted.context, permitted.volumes, permitted.containers⟩

theorem validateReservedLabels_ok_iff (order : MapOrder) (labels : Labels) :
    validateReservedLabels order labels = .ok () ↔ ∀ key ∈ labels, key ∉ reservedOperatorLabels := by
  unfold validateReservedLabels
  cases found : (order.visit labels.keys).find? (· ∈ reservedOperatorLabels) with
  | none =>
    simp only [List.find?_eq_none, MapOrder.mem_visit, decide_eq_true_eq] at found
    simp only [true_iff]
    exact fun key present => found key (AList.mem_keys.mpr present)
  | some key =>
    have reserved := List.find?_some found
    have present := MapOrder.mem_visit.mp (List.mem_of_find?_eq_some found)
    simp only [reduceCtorEq, false_iff]
    exact fun free => free key (AList.mem_keys.mp present) (of_decide_eq_true reserved)

structure SecurityContext.Hardened (context : SecurityContext) : Prop where
  nonRoot : context.runAsNonRoot = some true
  user : context.runAsUser ≠ some 0
  escalation : context.allowPrivilegeEscalation = some false
  privileged : context.privileged ≠ some true
  capabilities : ∃ capabilities, context.capabilities = some capabilities ∧ capabilities.add = [] ∧
    "ALL" ∈ capabilities.drop
  seccomp : context.seccompProfile.isSome = true

def Container.Hardened (container : Container) : Prop :=
  ∃ context, container.securityContext = some context ∧ context.Hardened

structure PodSpec.Hardened (pod : PodSpec) : Prop where
  hostNetwork : pod.hostNetwork = false
  hostPID : pod.hostPID = false
  hostIPC : pod.hostIPC = false
  serviceAccountName : pod.serviceAccountName = ""
  automount : pod.automountServiceAccountToken = some false
  context : ∃ context, pod.securityContext = some context ∧ context.runAsNonRoot = some true ∧
    context.runAsUser ≠ some 0 ∧ context.seccompProfile.isSome = true
  volumes : ∀ volume ∈ pod.volumes, volume.Permitted
  containers : ∀ container ∈ pod.initContainers ++ pod.containers, container.Hardened

theorem SecurityContext.Hardened.permitted {context : SecurityContext} (hardened : context.Hardened) :
    context.Permitted := by
  obtain ⟨capabilities, present, none, -⟩ := hardened.capabilities
  refine ⟨hardened.privileged, by simp [hardened.escalation], ?_, hardened.user, by simp [hardened.nonRoot]⟩
  intro other same
  obtain rfl : other = capabilities := Option.some.inj (same.symm.trans present)
  exact none

theorem Container.Hardened.permitted {container : Container} (hardened : container.Hardened) : container.Permitted := by
  obtain ⟨context, present, facts⟩ := hardened
  intro other same
  obtain rfl : other = context := Option.some.inj (same.symm.trans present)
  exact facts.permitted

theorem PodSpec.Hardened.permitted {pod : PodSpec} (hardened : pod.Hardened) : pod.Permitted where
  hostNetwork := hardened.hostNetwork
  hostPID := hardened.hostPID
  hostIPC := hardened.hostIPC
  serviceAccountName := hardened.serviceAccountName
  automount := by simp [hardened.automount]
  context := by
    obtain ⟨context, present, nonRoot, user, -⟩ := hardened.context
    intro other same
    obtain rfl : other = context := Option.some.inj (same.symm.trans present)
    exact ⟨user, by simp [nonRoot]⟩
  volumes := hardened.volumes
  containers container member := (hardened.containers container member).permitted

theorem or_some_eq {value : Option Bool} {wanted : Bool} (allowed : value ≠ some (!wanted)) :
    value.or (some wanted) = some wanted := by
  cases value with
  | none => rfl
  | some present =>
    cases present <;> cases wanted <;> simp at allowed ⊢

theorem applyContainerSecurityDefaults_hardened {container : Container} (permitted : container.Permitted) :
    (applyContainerSecurityDefaults container).Hardened := by
  have fields : (container.securityContext.getD {}).Permitted := by
    cases present : container.securityContext with
    | none => exact ⟨by simp, by simp, by simp, by simp, by simp⟩
    | some context => exact permitted context present
  refine ⟨_, rfl, or_some_eq fields.nonRoot, fields.user, or_some_eq fields.escalation, fields.privileged, ⟨_, rfl, ?_⟩, ?_⟩
  · cases present : (container.securityContext.getD {}).capabilities with
    | none => simp
    | some capabilities =>
      have none := fields.capabilities capabilities present
      by_cases all : containsCapability capabilities.drop = true
      · simp only [all, if_true]
        exact ⟨none, of_decide_eq_true all⟩
      · simp [all, none]
  · cases (container.securityContext.getD {}).seccompProfile <;> rfl

theorem applyJobSecurityDefaults_hardened {spec : JobSpec} (permitted : spec.template.spec.Permitted) (ttl : Int) :
    (applyJobSecurityDefaults spec ttl).template.spec.Hardened := by
  have fields : (spec.template.spec.securityContext.getD {}).Permitted := by
    cases present : spec.template.spec.securityContext with
    | none => exact ⟨by simp, by simp⟩
    | some context => exact permitted.context context present
  refine ⟨permitted.hostNetwork, permitted.hostPID, permitted.hostIPC, permitted.serviceAccountName, rfl,
    ⟨_, rfl, or_some_eq fields.2, fields.1, ?_⟩, permitted.volumes, ?_⟩
  · cases (spec.template.spec.securityContext.getD {}).seccompProfile <;> rfl
  · intro container member
    simp only [applyJobSecurityDefaults, ← List.map_append] at member
    obtain ⟨original, present, rfl⟩ := List.mem_map.mp member
    exact applyContainerSecurityDefaults_hardened (permitted.containers original present)

theorem or_some_twice {α : Type} (value : Option α) (wanted : α) :
    (value.or (some wanted)).or (some wanted) = value.or (some wanted) := by
  cases value <;> rfl

theorem applyContainerSecurityDefaults_idempotent (container : Container) :
    applyContainerSecurityDefaults (applyContainerSecurityDefaults container) = applyContainerSecurityDefaults container := by
  have dropped : ∀ capabilities : Capabilities,
      containsCapability (if containsCapability capabilities.drop then capabilities
        else { capabilities with drop := capabilities.drop ++ ["ALL"] }).drop = true := by
    intro capabilities
    by_cases all : containsCapability capabilities.drop = true
    · rw [if_pos all, all]
    · rw [if_neg all]
      simp [containsCapability]
  simp only [applyContainerSecurityDefaults, Option.getD_some, or_some_twice]
  cases (container.securityContext.getD {}).capabilities with
  | none => rfl
  | some capabilities => simp only [dropped, if_true]

theorem applyJobSecurityDefaults_idempotent (spec : JobSpec) (ttl : Int) :
    applyJobSecurityDefaults (applyJobSecurityDefaults spec ttl) ttl = applyJobSecurityDefaults spec ttl := by
  have containers : ∀ list : List Container,
      (list.map applyContainerSecurityDefaults).map applyContainerSecurityDefaults =
        list.map applyContainerSecurityDefaults := by
    intro list
    rw [List.map_map]
    apply List.map_congr_left
    intro container _
    exact applyContainerSecurityDefaults_idempotent container
  simp only [applyJobSecurityDefaults, Option.getD_some, or_some_twice, containers]

theorem applyJobSecurityDefaults_labels (spec : JobSpec) (merged : Labels) (ttl : Int) :
    applyJobSecurityDefaults { spec with template := { spec.template with labels := merged } } ttl =
      { applyJobSecurityDefaults spec ttl with
        template := { (applyJobSecurityDefaults spec ttl).template with labels := merged } } := rfl

theorem or_true_eq_some_false (value : Option Bool) : value.or (some true) = some false ↔ value = some false := by
  cases value <;> simp

/-- Filling in a container's defaults changes no verdict, not even which violation is named. -/
theorem validateContainer_defaults (container : Container) :
    validateContainer (applyContainerSecurityDefaults container) = validateContainer container := by
  have escalation : ∀ value : Option Bool, boolPointerTrue (value.or (some false)) = boolPointerTrue value := by
    intro value
    cases value <;> rfl
  unfold validateContainer applyContainerSecurityDefaults
  cases container.securityContext with
  | none => rfl
  | some context =>
    simp only [Option.getD_some, escalation, or_true_eq_some_false, Option.any_some]
    cases context.capabilities with
    | none => rfl
    | some capabilities =>
      by_cases all : containsCapability capabilities.drop = true
      · simp only [all, if_true, Option.any_some]
      · simp only [all, Bool.false_eq_true, if_false, Option.any_some]

theorem validateContainers_defaults (containers : List Container) :
    validateContainers (containers.map applyContainerSecurityDefaults) = validateContainers containers := by
  induction containers with
  | nil => rfl
  | cons container rest ih => simp only [List.map_cons, validateContainers, validateContainer_defaults, ih]

theorem validatePodSecurityContext_defaults (context : Option PodSecurityContext) (seccomp : Option SeccompProfile) :
    validatePodSecurityContext (some { context.getD {} with
        seccompProfile := seccomp, runAsNonRoot := (context.getD {}).runAsNonRoot.or (some true) }) =
      validatePodSecurityContext context := by
  cases context with
  | none => rfl
  | some context => simp only [validatePodSecurityContext, Option.getD_some, or_true_eq_some_false]

def clearAutomount (spec : JobSpec) : JobSpec :=
  { spec with
    template := { spec.template with spec := { spec.template.spec with automountServiceAccountToken := none } } }

theorem validateJobTemplateSecurity_defaults (spec : JobSpec) (ttl : Int) :
    validateJobTemplateSecurity (applyJobSecurityDefaults spec ttl) =
      validateJobTemplateSecurity (clearAutomount spec) := by
  have automount : boolPointerTrue (some false) = boolPointerTrue none := rfl
  simp only [validateJobTemplateSecurity, applyJobSecurityDefaults, clearAutomount, validatePodSecurityContext_defaults,
    ← List.map_append, validateContainers_defaults, automount]
  rfl

end CertificateJobs
