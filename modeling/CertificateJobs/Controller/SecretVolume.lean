import CertificateJobs.Controller.HardenedJobs
import Mathlib.Data.List.Forall2

namespace CertificateJobs

def Volume.sourceCount (volume : Volume) : Nat :=
  volume.hostPath.toList.length + volume.projected.toList.length + volume.secret.toList.length + volume.others.length

/-- What the API server wants of the volumes and mounts of a pod. -/
structure PodSpec.Mountable (pod : PodSpec) : Prop where
  names : (pod.volumes.map (·.name)).Nodup
  sources : ∀ volume ∈ pod.volumes, volume.sourceCount = 1
  paths : ∀ container ∈ pod.initContainers ++ pod.containers, (container.volumeMounts.map (·.mountPath)).Nodup

structure Container.GetsSecret (before after : Container) : Prop where
  mount : ∃ left mount right, after.volumeMounts = left ++ mount :: right ∧ mount.name = secretVolumeName ∧
    mount.mountPath = secretMountPath ∧ mount.readOnly = true ∧
    (∀ other ∈ left ++ right, other.mountPath ≠ secretMountPath) ∧
    (before.volumeMounts = left ++ right ∨
      ∃ old, old.name = secretVolumeName ∧ before.volumeMounts = left ++ old :: right)
  paths : (after.volumeMounts.map (·.mountPath)).Nodup
  rest : after = { before with volumeMounts := after.volumeMounts }

structure UsableSecret (secretName : String) (before after : PodSpec) : Prop where
  volume : after.volumes.filter (·.name = secretVolumeName) = [{ name := secretVolumeName, secret := some secretName }]
  otherVolumes : after.volumes.filter (·.name ≠ secretVolumeName) = before.volumes.filter (·.name ≠ secretVolumeName)
  initContainers : List.Forall₂ Container.GetsSecret before.initContainers after.initContainers
  containers : List.Forall₂ Container.GetsSecret before.containers after.containers

theorem ensureVolumeMount_eq (container : Container) : ensureVolumeMount secretVolumeName secretMountPath container =
    { container with
      volumeMounts := container.volumeMounts.putFirst (·.name = secretVolumeName)
        (fun mount => { mount with mountPath := secretMountPath, readOnly := true })
        { name := secretVolumeName, mountPath := secretMountPath, readOnly := true } } := by
  unfold ensureVolumeMount List.putFirst
  cases container.volumeMounts.findIdx? (·.name = secretVolumeName) with
  | none => rfl
  | some i => rfl

theorem paths_nodup_iff {left right : List VolumeMount} {mount : VolumeMount}
    (before : ((left ++ right).map (·.mountPath)).Nodup) :
    ((left ++ mount :: right).map (·.mountPath)).Nodup ↔
      ∀ other ∈ left ++ right, other.mountPath ≠ mount.mountPath := by
  rw [List.map_append, List.map_cons, List.nodup_middle, ← List.map_append, List.nodup_cons, and_iff_left before]
  constructor
  · intro free other member same
    exact free (same ▸ List.mem_map_of_mem member)
  · intro free taken
    obtain ⟨other, member, same⟩ := List.mem_map.mp taken
    exact free other member same

/-- The mount is put between `left` and `right`, so the path must not be taken there. -/
theorem getsSecret_at {before after : Container} {left right : List VolumeMount} {mount : VolumeMount}
    (result : after.volumeMounts = left ++ mount :: right) (name : mount.name = secretVolumeName)
    (path : mount.mountPath = secretMountPath) (readOnly : mount.readOnly = true)
    (origin : before.volumeMounts = left ++ right ∨
      ∃ old, old.name = secretVolumeName ∧ before.volumeMounts = left ++ old :: right)
    (rest : after = { before with volumeMounts := after.volumeMounts })
    (others : ((left ++ right).map (·.mountPath)).Nodup) :
    before.GetsSecret after ↔ ∀ other ∈ left ++ right, other.mountPath ≠ secretMountPath := by
  have free : _ ↔ ∀ other ∈ left ++ right, other.mountPath ≠ mount.mountPath := paths_nodup_iff others
  rw [← result, path] at free
  constructor
  · exact fun gets => free.mp gets.paths
  · exact fun elsewhere => ⟨⟨left, mount, right, result, name, path, readOnly, elsewhere, origin⟩, free.mpr elsewhere, rest⟩

theorem getsSecret_iff {container : Container} (distinct : (container.volumeMounts.map (·.mountPath)).Nodup) :
    container.GetsSecret (ensureVolumeMount secretVolumeName secretMountPath container) ↔
      ∀ mount ∈ container.volumeMounts, mount.mountPath = secretMountPath →
        container.volumeMounts.find? (·.name = secretVolumeName) = some mount := by
  rw [ensureVolumeMount_eq]
  rcases PutFirst.putFirst_cases (fun mount : VolumeMount => decide (mount.name = secretVolumeName))
    (fun mount => { mount with mountPath := secretMountPath, readOnly := true })
    { name := secretVolumeName, mountPath := secretMountPath, readOnly := true } container.volumeMounts with
    ⟨left, old, right, split, earlier, named, result⟩ | ⟨unnamed, result⟩
  · have named := of_decide_eq_true named
    have others : ((left ++ right).map (·.mountPath)).Nodup := by
      rw [split, List.map_append, List.map_cons, List.nodup_middle, ← List.map_append] at distinct
      exact (List.nodup_cons.mp distinct).2
    have elsewhere : ∀ other ∈ left ++ right, other.mountPath ≠ old.mountPath := by
      rw [split] at distinct
      exact (paths_nodup_iff others).mp distinct
    have first : container.volumeMounts.find? (·.name = secretVolumeName) = some old := by
      rw [split, List.find?_append, List.find?_eq_none.mpr fun mount member => by simp [earlier mount member]]
      simp [named]
    have written : ({ old with mountPath := secretMountPath, readOnly := true } : VolumeMount).name = secretVolumeName := named
    rw [getsSecret_at result written rfl rfl (.inr ⟨old, named, split⟩) rfl others, first]
    constructor
    · intro free mount member path
      rw [split] at member
      rcases List.mem_append.mp member with early | late
      · exact absurd path (free mount (List.mem_append_left _ early))
      · rcases List.mem_cons.mp late with rfl | late
        · rfl
        · exact absurd path (free mount (List.mem_append_right _ late))
    · intro only other member path
      have present : other ∈ container.volumeMounts := by
        rw [split]
        rcases List.mem_append.mp member with early | late
        · exact List.mem_append_left _ early
        · exact List.mem_append_right _ (List.mem_cons_of_mem _ late)
      obtain rfl := Option.some.inj (only other present path)
      exact elsewhere _ member rfl
  · have none : container.volumeMounts.find? (·.name = secretVolumeName) = none :=
      List.find?_eq_none.mpr fun mount member => by simp [unnamed mount member]
    have whole : container.volumeMounts = container.volumeMounts ++ [] := (List.append_nil _).symm
    rw [getsSecret_at result rfl rfl rfl (.inl whole) rfl (by rwa [List.append_nil]), none, List.append_nil]
    simp

theorem Volume.only_secret_iff {volume : Volume} (single : volume.sourceCount = 1) (secretName : String) :
    ({ volume with secret := some secretName } : Volume) = { name := volume.name, secret := some secretName } ↔
      volume.secret.isSome = true := by
  obtain ⟨name, hostPath, projected, secret, others⟩ := volume
  simp only [Volume.sourceCount] at single
  simp only [Volume.mk.injEq, true_and]
  cases secret with
  | none =>
    simp only [Option.toList_none, List.length_nil] at single
    simp only [Option.isSome_none, Bool.false_eq_true, iff_false]
    rintro ⟨rfl, rfl, rfl⟩
    simp at single
  | some old =>
    simp only [Option.toList_some, List.length_singleton] at single
    have empty : hostPath.toList.length = 0 ∧ projected.toList.length = 0 ∧ others.length = 0 := by omega
    simpa using empty

theorem injectVolume_usable_iff {volumes : List Volume} (names : (volumes.map (·.name)).Nodup)
    (sources : ∀ volume ∈ volumes, volume.sourceCount = 1) (secretName : String) :
    (injectVolume volumes secretName).filter (·.name ≠ secretVolumeName) = volumes.filter (·.name ≠ secretVolumeName) ∧
      ((injectVolume volumes secretName).filter (·.name = secretVolumeName) =
        [{ name := secretVolumeName, secret := some secretName }] ↔
        ∀ volume ∈ volumes, volume.name = secretVolumeName → volume.secret.isSome = true) := by
  rw [injectVolume_eq]
  rcases PutFirst.putFirst_cases (fun volume : Volume => decide (volume.name = secretVolumeName))
    (fun volume => { volume with secret := some secretName }) { name := secretVolumeName, secret := some secretName }
    volumes with ⟨left, old, right, rfl, -, named, result⟩ | ⟨unnamed, result⟩
  · have named := of_decide_eq_true named
    have others : ∀ volume ∈ left ++ right, volume.name ≠ secretVolumeName := by
      rw [List.map_append, List.map_cons, List.nodup_middle, ← List.map_append] at names
      intro volume member same
      exact (List.nodup_cons.mp names).1 (named.trans same.symm ▸ List.mem_map_of_mem member)
    have early : left.filter (·.name = secretVolumeName) = [] := List.filter_eq_nil_iff.mpr fun volume member => by
      simpa using others volume (List.mem_append_left _ member)
    have late : right.filter (·.name = secretVolumeName) = [] := List.filter_eq_nil_iff.mpr fun volume member => by
      simpa using others volume (List.mem_append_right _ member)
    have single := sources old (List.mem_append_right _ List.mem_cons_self)
    rw [result]
    refine ⟨by simp [List.filter_append, named], ?_⟩
    rw [List.filter_append, List.filter_cons, early, late, if_pos (by simpa using named), List.nil_append,
      List.singleton_inj, ← named, Volume.only_secret_iff single]
    constructor
    · intro secret volume member same
      rcases List.mem_append.mp member with inLeft | inRest
      · exact absurd (same.trans named) (others volume (List.mem_append_left _ inLeft))
      · rcases List.mem_cons.mp inRest with rfl | inRight
        · exact secret
        · exact absurd (same.trans named) (others volume (List.mem_append_right _ inRight))
    · exact fun all => all old (List.mem_append_right _ List.mem_cons_self) rfl
  · have none : volumes.filter (·.name = secretVolumeName) = [] := List.filter_eq_nil_iff.mpr fun volume member => by
      simpa using unnamed volume member
    rw [result]
    refine ⟨by simp [List.filter_append], ?_⟩
    rw [List.filter_append, none]
    simp only [decide_true, List.filter_cons_of_pos, List.filter_nil, List.nil_append, true_iff]
    exact fun volume member same => absurd same (of_decide_eq_false (unnamed volume member))

/-- Nothing in the template stands in the way of the Secret: a volume of that name is a Secret already, and no mount is
    at its path but the one that is rewritten. -/
structure PodSpec.FreeForSecret (pod : PodSpec) : Prop where
  volume : ∀ volume ∈ pod.volumes, volume.name = secretVolumeName → volume.secret.isSome = true
  path : ∀ container ∈ pod.initContainers ++ pod.containers, ∀ mount ∈ container.volumeMounts,
    mount.mountPath = secretMountPath → container.volumeMounts.find? (·.name = secretVolumeName) = some mount

/-- The injected Secret can be used by every container exactly if nothing in the template stands in its way. -/
theorem injected_secret_usable_iff (spec : JobSpec) (secretName : String) (named : secretName ≠ "")
    (mountable : spec.template.spec.Mountable) :
    UsableSecret secretName spec.template.spec (injectCertificateSecret spec secretName).template.spec ↔
      spec.template.spec.FreeForSecret := by
  obtain ⟨kept, volume⟩ := injectVolume_usable_iff mountable.names mountable.sources secretName
  have gets : ∀ container ∈ spec.template.spec.initContainers ++ spec.template.spec.containers, _ ↔ _ :=
    fun container member => getsSecret_iff (mountable.paths container member)
  have each : ∀ containers : List Container,
      List.Forall₂ Container.GetsSecret containers
        (containers.map (ensureVolumeMount secretVolumeName secretMountPath)) ↔
      ∀ container ∈ containers, container.GetsSecret (ensureVolumeMount secretVolumeName secretMountPath container) := by
    intro containers
    rw [List.forall₂_map_right_iff, List.forall₂_same]
  unfold injectCertificateSecret
  rw [if_neg named]
  constructor
  · intro usable
    refine ⟨volume.mp usable.volume, ?_⟩
    intro container member
    refine (gets container member).mp ?_
    rcases List.mem_append.mp member with initial | main
    · exact (each _).mp usable.initContainers container initial
    · exact (each _).mp usable.containers container main
  · intro free
    refine ⟨volume.mpr free.volume, kept, (each _).mpr ?_, (each _).mpr ?_⟩
    · intro container initial
      have member := List.mem_append_left spec.template.spec.containers initial
      exact (gets container member).mpr (free.path container member)
    · intro container main
      have member := List.mem_append_right spec.template.spec.initContainers main
      exact (gets container member).mpr (free.path container member)

def podTemplate (volumes : List Volume) (mounts : List VolumeMount) : JobSpec :=
  { template := { spec := { volumes := volumes, containers := [{ name := "main", volumeMounts := mounts }] } } }

theorem injected_secret_usable_iff_replaced :
    let spec := podTemplate [{ name := "certificate-input", secret := some "old" }, { name := "cache", others := ["emptyDir"] }]
      [{ name := "cache", mountPath := "/cache" }, { name := "certificate-input", mountPath := "/tls" }]
    spec.template.spec.Mountable ∧
      UsableSecret "tls" spec.template.spec (injectCertificateSecret spec "tls").template.spec := by
  intro spec
  have mountable : spec.template.spec.Mountable := ⟨by decide, by decide, by decide⟩
  exact ⟨mountable, (injected_secret_usable_iff spec "tls" (by decide) mountable).mpr ⟨by decide, by decide⟩⟩

/-- An `emptyDir` of the operator's volume name gets the Secret as a second source; a volume that is mounted at the
    operator's path shares it with the Secret. -/
theorem injected_secret_unusable :
    let emptyDir := podTemplate [{ name := "certificate-input", others := ["emptyDir"] }] []
    let taken := podTemplate [{ name := "config", others := ["configMap"] }]
      [{ name := "config", mountPath := "/var/run/certificate-input" }]
    (validateJobTemplateSecurity emptyDir = .ok () ∧ emptyDir.template.spec.Mountable ∧
      ¬ UsableSecret "tls" emptyDir.template.spec (injectCertificateSecret emptyDir "tls").template.spec) ∧
    (validateJobTemplateSecurity taken = .ok () ∧ taken.template.spec.Mountable ∧
      ¬ UsableSecret "tls" taken.template.spec (injectCertificateSecret taken "tls").template.spec) := by
  intro emptyDir taken
  refine ⟨⟨rfl, ⟨by decide, by decide, by decide⟩, fun usable => ?_⟩, rfl, ⟨by decide, by decide, by decide⟩,
    fun usable => ?_⟩
  · have twice : (injectCertificateSecret emptyDir "tls").template.spec.volumes.filter (·.name = secretVolumeName) =
      [{ name := "certificate-input", secret := some "tls", others := ["emptyDir"] }] := rfl
    have only := twice.symm.trans usable.volume
    revert only
    decide
  · have shared : (injectCertificateSecret taken "tls").template.spec.containers =
      [{ name := "main", volumeMounts := [{ name := "config", mountPath := "/var/run/certificate-input" },
        { name := "certificate-input", mountPath := "/var/run/certificate-input", readOnly := true }] }] := rfl
    have mounts := usable.containers
    rw [shared] at mounts
    obtain ⟨_, paths, _⟩ := (List.forall₂_cons.mp mounts).1
    revert paths
    decide

end CertificateJobs
