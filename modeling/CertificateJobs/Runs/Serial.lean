import CertificateJobs.Runs.WellFormed

namespace CertificateJobs

section
variable {σ : Type} (c : Client σ) (ext : External) (ns name : String) (history : σ → List CertificateJob)

/-- What is taken of the API server and of the caches in front of it: `history` lists the versions of one CertificateJob
    that the server has stored, the oldest first. Their resource versions differ, a Get returns one of them, which may be
    an old one, and a status update is stored only on top of the version that it names. It may be stored although the
    answer says otherwise. -/
structure KeepsVersions : Prop where
  distinct : ∀ s, ((history s).map (·.resourceVersion)).Nodup
  named : ∀ s, ∀ cjob ∈ history s, cjob.ns = ns ∧ cjob.name = name
  read : ∀ s cjob, c.getCertificateJob s ns name = .ok cjob → cjob ∈ history s
  created : ∀ s job, history (c.createJob s job).2 = history s
  updated : ∀ s cjob, cjob.ns = ns → cjob.name = name → history (c.updateStatus s cjob).2 = history s ∨
    ∃ latest version, (history s).getLast? = some latest ∧ cjob.resourceVersion = latest.resourceVersion ∧
      history (c.updateStatus s cjob).2 = history s ++ [{ latest with status := cjob.status, resourceVersion := version }]

inductive VersionEvent
  | reconcile (ambient : Ambient)
  | others

/-- Any number of reconciles of one CertificateJob, by one manager or several. A reconcile counts as one step, made when
    it writes: what it has read until then may be of any age. The others edit the object, replace it by a new one of the
    same name, or change anything else. -/
def versionMachine : Machine σ VersionEvent where
  start s := ∃ cjob, history s = [cjob] ∧ cjob.status.observedCertificates = []
  step s event s' := match event with
    | .reconcile ambient => ∃ out, reconcile c ext ambient ns name s = some out ∧ s' = out.client
    | .others => history s' = history s ∨ ∃ cjob, history s' = history s ++ [cjob] ∧
        (cjob.status.observedCertificates = [] ∨ ∃ latest, (history s).getLast? = some latest ∧ cjob.status = latest.status)

/-- How one stored version comes from the one before it: an edit keeps the status, a new object has none, and a reconcile
    has worked on exactly that version. -/
def CertificateJob.Succeeds (before after : CertificateJob) : Prop :=
  after.status = before.status ∨ after.status.observedCertificates = [] ∨
    ∃ ambient s out, reconcileCertificateJob c ext ambient before s = some out ∧
      after = { before with status := out.status, resourceVersion := after.resourceVersion }

/-- What a reconcile may leave of the history: itself, or a version more that it has computed from the latest one. -/
def LeavesVersions (ambient : Ambient) (s : σ) (versions : List CertificateJob) : Prop :=
  versions = history s ∨ ∃ latest inner version, (history s).getLast? = some latest ∧
    reconcileCertificateJob c ext ambient latest s = some inner ∧
    versions = history s ++ [{ latest with status := inner.status, resourceVersion := version }]

variable {c ext ns name history} {s : σ} {ambient : Ambient}

theorem KeepsVersions.update (laws : KeepsVersions c ns name history) {cjob : CertificateJob} (member : cjob ∈ history s)
    {inner : JobOutcome σ} (performed : reconcileCertificateJob c ext ambient cjob s = some inner) :
    LeavesVersions c ext history ambient s
      (history (c.updateStatus inner.client { cjob with status := inner.status }).2) := by
  -- A status update carries the resource version that was read, so what is stored has been computed from the
  -- latest version.
  have kept : history inner.client = history s :=
    (reconcileCertificateJob_creates performed).frame history laws.created
  obtain ⟨here, named⟩ := laws.named s cjob member
  rcases laws.updated inner.client { cjob with status := inner.status } here named with
    same | ⟨latest, version, last, same, stored⟩
  · exact .inl (same.trans kept)
  · rw [kept] at last stored
    obtain rfl : cjob = latest := List.inj_on_of_nodup_map (laws.distinct s) member (List.mem_of_getLast? last) same
    exact .inr ⟨cjob, inner, version, last, performed, stored⟩

theorem KeepsVersions.reconcile (laws : KeepsVersions c ns name history) {out : ReconcileOutcome σ}
    (result : reconcile c ext ambient ns name s = some out) :
    LeavesVersions c ext history ambient s (history out.client) := by
  cases read : c.getCertificateJob s ns name with
  | error e =>
    simp only [CertificateJobs.reconcile, read] at result
    obtain rfl := Option.some.inj result
    exact .inl rfl
  | ok cjob =>
    simp only [CertificateJobs.reconcile, read] at result
    obtain ⟨inner, performed, result⟩ := Option.bind_eq_some_iff.mp result
    have updated := laws.update (laws.read s cjob read) performed
    split at result
    · obtain rfl := Option.some.inj result
      exact .inl ((reconcileCertificateJob_creates performed).frame history laws.created)
    · split at result
      · rename_i e after answer
        obtain rfl := Option.some.inj result
        rw [answer] at updated
        exact updated
      · rename_i after answer
        obtain rfl := Option.some.inj result
        rw [answer] at updated
        exact updated

structure Serial (c : Client σ) (ext : External) (ns name : String) (versions : List CertificateJob) : Prop where
  chain : versions.IsChain (CertificateJob.Succeeds c ext)
  reached : ∀ cjob ∈ versions, (statusMachine c ext).Reached (JobPass.Of ns name) cjob.status

theorem Serial.append {versions : List CertificateJob} (serial : Serial c ext ns name versions) {cjob : CertificateJob}
    (succeeds : ∀ latest, versions.getLast? = some latest → latest.Succeeds c ext cjob)
    (reached : (statusMachine c ext).Reached (JobPass.Of ns name) cjob.status) :
    Serial c ext ns name (versions ++ [cjob]) where
  chain := List.isChain_append.mpr ⟨serial.chain, List.isChain_singleton cjob, by simpa using succeeds⟩
  reached := by
    intro other member
    rcases List.mem_append.mp member with old | new
    · exact serial.reached other old
    · obtain rfl := List.mem_singleton.mp new
      exact reached

end

/-- Reconciles of one CertificateJob may overlap, read stale versions and lose their writes, and others may edit or
    replace the object in between. Every version that the server stores succeeds the one before it by one reconcile of
    exactly that version, an edit or a replacement; so every status it ever stores is one that reconciles run one after
    the other reach, and whatever holds of those holds under concurrency. -/
theorem statuses_serializable {σ : Type} (c : Client σ) (ext : External) (ns name : String)
    (history : σ → List CertificateJob) (laws : KeepsVersions c ns name history) (s : σ)
    (reached : (versionMachine c ext ns name history).Reached (fun _ _ => True) s) :
    (history s).IsChain (CertificateJob.Succeeds c ext) ∧
      ∀ cjob ∈ history s, (statusMachine c ext).Reached (JobPass.Of ns name) cjob.status := by
  have serial : Serial c ext ns name (history s) := by
    refine reached.invariant (fun s => Serial c ext ns name (history s)) ?_ ?_
    · rintro s ⟨cjob, only, empty⟩
      rw [only]
      refine ⟨List.isChain_singleton cjob, fun other member => ?_⟩
      obtain rfl := List.mem_singleton.mp member
      exact .of_start empty
    · intro s event s' before _ taken
      cases event with
      | reconcile ambient =>
        obtain ⟨out, result, rfl⟩ := taken
        rcases laws.reconcile result with same | ⟨latest, inner, version, last, performed, stored⟩
        · rw [same]
          exact before
        · rw [stored]
          have member := List.mem_of_getLast? last
          refine before.append (fun other found => ?_) ((before.reached latest member).step (l := ⟨ambient, latest, s⟩)
            (laws.named s latest member) ⟨rfl, inner, performed, .inl rfl⟩)
          obtain rfl := Option.some.inj (last.symm.trans found)
          exact .inr (.inr ⟨ambient, s, inner, performed, rfl⟩)
      | others =>
        rcases taken with same | ⟨cjob, stored, empty | ⟨latest, last, same⟩⟩
        · rw [same]
          exact before
        · rw [stored]
          exact before.append (fun _ _ => .inr (.inl empty)) (.of_start empty)
        · rw [stored]
          refine before.append (fun other found => ?_) (same ▸ before.reached latest (List.mem_of_getLast? last))
          obtain rfl := Option.some.inj (last.symm.trans found)
          exact .inl same
  exact ⟨serial.chain, serial.reached⟩

structure StatusStore where
  cluster : Cluster
  statuses : List CertificateJobStatus
  held : Nat := 0

def storedJob : CertificateJob := (sampleCluster (flatSpec ["a"] 1 .stopDownstream)).cjob

def unaryVersion (n : Nat) : String := String.ofList (List.replicate n '1')

def StatusStore.versions (s : StatusStore) : List CertificateJob :=
  s.statuses.mapIdx fun n status => { storedJob with status := status, resourceVersion := unaryVersion n }

def storeClient : Client StatusStore where
  getCertificateJob s ns name :=
    if ns = storedJob.ns ∧ name = storedJob.name then
      (s.versions[s.held]?).elim (notFound "certificatejobs.certificates.rezzell.com" name) .ok
    else notFound "certificatejobs.certificates.rezzell.com" name
  listCertificates s := clusterClient.listCertificates s.cluster
  getSecret s := clusterClient.getSecret s.cluster
  getJob s := clusterClient.getJob s.cluster
  setControllerReference s := clusterClient.setControllerReference s.cluster
  createJob s job := ((clusterClient.createJob s.cluster job).1,
    { s with cluster := (clusterClient.createJob s.cluster job).2 })
  updateStatus s cjob :=
    if s.statuses ≠ [] ∧ cjob.resourceVersion = unaryVersion (s.statuses.length - 1) then
      (none, { s with statuses := s.statuses ++ [cjob.status] })
    else (some (.other "the object has been modified; please apply your changes to the latest version and try again"), s)

theorem storeClient_keepsVersions : KeepsVersions storeClient "default" "renewal" StatusStore.versions where
  distinct s := by
    rw [List.nodup_iff_injective_getElem]
    intro i j same
    simp only [StatusStore.versions, List.getElem_map, List.getElem_mapIdx] at same
    have lengths := congrArg String.length same
    simpa [unaryVersion, Fin.ext_iff] using lengths
  named s cjob member := by
    obtain ⟨n, status, -, rfl⟩ := List.mem_mapIdx.mp member
    exact ⟨rfl, rfl⟩
  read s cjob found := by
    simp only [storeClient, storedJob, sampleCluster, and_self, if_true] at found
    cases stored : s.versions[s.held]? with
    | none => simp [stored, notFound] at found
    | some other =>
      simp only [stored, Option.elim_some, Except.ok.injEq] at found
      exact found ▸ List.mem_of_getElem? stored
  created _ _ := rfl
  updated s cjob _ _ := by
    simp only [storeClient]
    split
    · rename_i current
      obtain ⟨some, same⟩ := current
      obtain ⟨before, status, split⟩ := (List.eq_nil_or_concat' s.statuses).resolve_left some
      have last : s.versions.getLast? =
          .some { storedJob with status := status, resourceVersion := unaryVersion before.length } := by
        simp [StatusStore.versions, split]
      refine .inr ⟨_, unaryVersion s.statuses.length, last, ?_, ?_⟩
      · simpa [split] using same
      · simp [StatusStore.versions]
    · exact .inl rfl

def firstVersion : StatusStore := ⟨sampleCluster (flatSpec ["a"] 1 .stopDownstream), [{}], 0⟩

def StatusStore.reconcile (s : StatusStore) : Option (ReconcileOutcome StatusStore) :=
  CertificateJobs.reconcile storeClient plainExternal stillClock "default" "renewal" s

/-- Two reconciles start from the same version: the first one stores its status, the second one is refused. -/
theorem statuses_serializable_refused : ∃ s : StatusStore,
    (versionMachine storeClient plainExternal "default" "renewal" StatusStore.versions).Reached (fun _ _ => True) s ∧
    s.versions.map (·.status.observedCertificates.length) = [0, 1] ∧
    s.versions.IsChain (CertificateJob.Succeeds storeClient plainExternal) ∧
    ∀ cjob ∈ s.versions, (statusMachine storeClient plainExternal).Reached (JobPass.Of "default" "renewal") cjob.status := by
  have played : firstVersion.reconcile.any (fun first => first.wrote ∧
      first.client.reconcile.any fun second => second.err.isSome ∧
        second.client.versions.map (·.status.observedCertificates.length) = [0, 1]) = true := by
    decide +kernel
  obtain ⟨first, result, checked⟩ := (Option.any_eq_true _ _).mp played
  obtain ⟨-, checked⟩ := of_decide_eq_true checked
  obtain ⟨second, result', checked⟩ := (Option.any_eq_true _ _).mp checked
  obtain ⟨-, sizes⟩ := of_decide_eq_true checked
  have fresh : (versionMachine storeClient plainExternal "default" "renewal" StatusStore.versions).start firstVersion :=
    ⟨_, rfl, rfl⟩
  have step : ∀ s out, StatusStore.reconcile s = some out →
      (versionMachine storeClient plainExternal "default" "renewal" StatusStore.versions).step s (.reconcile stillClock)
        out.client :=
    fun _ out result => ⟨out, result, rfl⟩
  have reached : (versionMachine storeClient plainExternal "default" "renewal" StatusStore.versions).Reached
      (fun _ _ => True) second.client :=
    ((Machine.Reached.of_start fresh).step trivial (step _ first result)).step trivial (step _ second result')
  exact ⟨second.client, reached, sizes, statuses_serializable _ _ _ _ _ storeClient_keepsVersions second.client reached⟩

end CertificateJobs
