import CertificateJobs.Runs.Sweep

namespace CertificateJobs

def jobFinished (job : Job) : Bool := isJobComplete job || isJobFailed job

def Finished (cluster : Cluster) (job : Job) : Prop :=
  ∀ current, cluster.jobs job.ns job.name = some current → current.uid = job.uid → jobFinished current = true

/-- What may happen to the cluster without the controller: specs, certificates, labels and Secrets change at will, Jobs
    come under new UIDs and go, and a Job that is there stays finished once it is. -/
structure Evolves (before after : Cluster) : Prop where
  uids : before.nextUID ≤ after.nextUID
  jobs : ∀ ns name job, after.jobs ns name = some job → before.nextUID ≤ job.uid ∨
    ∃ old, before.jobs ns name = some old ∧ old.uid = job.uid ∧ (jobFinished old = true → jobFinished job = true)

theorem Evolves.refl (cluster : Cluster) : Evolves cluster cluster :=
  ⟨le_rfl, fun _ _ job found => .inr ⟨job, found, rfl, id⟩⟩

theorem Evolves.trans {first second third : Cluster} (early : Evolves first second) (late : Evolves second third) :
    Evolves first third := by
  refine ⟨early.uids.trans late.uids, ?_⟩
  intro ns name job found
  rcases late.jobs ns name job found with new | ⟨middle, there, same, stays⟩
  · exact .inl (early.uids.trans new)
  · rcases early.jobs ns name middle there with new | ⟨old, before, same', stays'⟩
    · exact .inl (same ▸ new)
    · exact .inr ⟨old, before, same'.trans same, stays ∘ stays'⟩

theorem Finished.evolves {before after : Cluster} {job : Job} (finished : Finished before job)
    (evolves : Evolves before after) (known : job.uid < before.nextUID) : Finished after job := by
  intro current found same
  rcases evolves.jobs _ _ current found with new | ⟨old, there, uid, stays⟩
  · omega
  · exact stays (finished old there (uid.trans same))

/-- What the API does with the Jobs that are sent to it: an owner reference leaves the name, a Create stores the Job, and
    one that fails may have been carried out all the same. Nothing is said of what is read. -/
structure StoresJobs (c : Client Cluster) : Prop where
  owned : ∀ {s cjob job owned}, c.setControllerReference s cjob job = .ok owned →
    owned.name = job.name ∧ owned.ns = job.ns
  created : ∀ s job, c.createJob s job = Cluster.createJob s job ∨
    ∃ e after, c.createJob s job = (.error e, after) ∧ after.cjob = s.cjob ∧ Evolves s after

theorem createJob_evolves (cluster : Cluster) (job : Job) : Evolves cluster (cluster.createJob job).2 := by
  unfold Cluster.createJob
  split
  · exact .refl cluster
  · refine ⟨Nat.le_succ _, ?_⟩
    intro ns name current found
    simp only at found
    split at found
    · obtain rfl := Option.some.inj found
      exact .inl le_rfl
    · exact .inr ⟨current, found, rfl, id⟩

theorem createJob_stored {cluster after : Cluster} {job stored : Job}
    (created : cluster.createJob job = (.ok stored, after)) :
    stored = { job with uid := cluster.nextUID } ∧ after.nextUID = cluster.nextUID + 1 := by
  unfold Cluster.createJob at created
  split at created
  · cases created
  · cases created
    exact ⟨rfl, rfl⟩

section
variable {c : Client Cluster} (stores : StoresJobs c)
include stores

theorem StoresJobs.evolves {before after : Cluster} (run : Creates c before after) : Evolves before after := by
  induction run with
  | refl => exact .refl before
  | tail _ step ih =>
    obtain ⟨job, rfl⟩ := step
    refine ih.trans ?_
    rcases stores.created _ job with same | ⟨e, after, failed, -, evolves⟩
    · rw [same]
      exact createJob_evolves _ job
    · rw [failed]
      exact evolves

theorem StoresJobs.cjob {before after : Cluster} (run : Creates c before after) : after.cjob = before.cjob := by
  refine run.frame Cluster.cjob fun s job => ?_
  rcases stores.created s job with same | ⟨e, after, failed, kept, -⟩
  · rw [same, Cluster.createJob]
    split <;> rfl
  · rw [failed]
    exact kept

theorem StoresJobs.call {cjob : CertificateJob} {cert : Certificate} {runID : String} {s final before after : Cluster}
    {call : CreateCall} {answer : Except ApiError Job} {job : Job}
    (made : CallMade c cjob cert runID s final call before after answer) (stored : call.stored = some job) :
    job.ns = cert.ns ∧ job.name = buildJobName cjob.name cert.name call.node runID ∧ job.uid < final.nextUID := by
  have ok : answer = .ok job := ok_of_toOption (made.stored.symm.trans stored)
  obtain ⟨name, ns⟩ := stores.owned made.owned
  have created := made.created
  rcases stores.created before call.job with same | ⟨e, _, failed, -⟩
  · rw [same, ok] at created
    obtain ⟨rfl, next⟩ := createJob_stored created
    have later := (stores.evolves made.later).uids
    refine ⟨ns, name, ?_⟩
    simp only
    omega
  · rw [failed, ok] at created
    cases created

end

structure Life where
  cluster : Cluster
  entry : CertificateExecutionState
  created : List Job := []

/-- What happens to them. A reconcile may lose its status write, and an entry whose certificate does not match the
    selector is dropped. -/
inductive LifeEvent
  | change (cluster : Cluster)
  | reconcile (client : Client Cluster) (ambient : Ambient) (cert : Certificate) (written : Bool)
  | drop

def Life.pass (w : Life) (ambient : Ambient) (cert : Certificate) : EntryPass Cluster :=
  ⟨ambient, w.cluster.cjob, cert, w.cluster⟩

def Life.reconcile (ext : External) (client : Client Cluster) (ambient : Ambient) (cert : Certificate) (written : Bool)
    (w : Life) : Option Life :=
  ((w.pass ambient cert).perform client ext w.entry).map fun out =>
    { cluster := out.client
      entry := if written then out.state else w.entry
      created := w.created ++ out.calls.filterMap (·.stored) }

def freshEntry (ns name : String) : CertificateExecutionState := { ns := ns, name := name, phase := .pending }

def lifeMachine (ext : External) (ns name : String) : Machine Life LifeEvent where
  start w := w.entry = freshEntry ns name ∧ w.created = []
  step w event w' :=
    match event with
    | .change cluster => Evolves w.cluster cluster ∧ w' = { w with cluster := cluster }
    | .reconcile client ambient cert written =>
      StoresJobs client ∧ cert.ns = ns ∧ cert.name = name ∧ w.reconcile ext client ambient cert written = some w'
    | .drop => w' = { w with entry := freshEntry ns name }

/-- A whole reconcile of the CertificateJob is, for each certificate, a stretch of its life: a pass between the Jobs
    created for the certificates before and after it, or a drop. -/
theorem reconcileCertificateJob_life {ext : External} {client : Client Cluster} {ambient : Ambient} {cluster : Cluster}
    {workflowCtx : WorkflowContext} {certs : List Certificate} {out : JobOutcome Cluster} (stores : StoresJobs client)
    (unique : (cluster.cjob.status.observedCertificates.map (·.key)).Nodup)
    (context : buildWorkflowContext ext ambient cluster.cjob = .ok workflowCtx)
    (listed : listMatchingCertificates client ext cluster.cjob cluster = .ok certs) (distinct : (certs.map (·.key)).Nodup)
    (result : reconcileCertificateJob client ext ambient cluster.cjob cluster = some out) (cert : Certificate)
    (known : cert ∈ certs ∨ cert.key ∉ certs.map (·.key)) (created : List Job) :
    ∃ w, (lifeMachine ext cert.ns cert.name).Leads (fun _ _ => True)
        ⟨cluster, entryFor cluster.cjob.status.observedCertificates cert, created⟩ w ∧
      w.entry = entryFor out.status.observedCertificates cert ∧ w.cluster = out.client := by
  obtain ⟨visits, turns⟩ := reconcileCertificateJob_reconciled context listed distinct result
  have change : ∀ {w : Life} {later : Cluster}, Creates client w.cluster later →
      (lifeMachine ext cert.ns cert.name).Leads (fun _ _ => True) w { w with cluster := later } := by
    intro w later creates
    exact .step (.refl w) trivial (l := .change later) ⟨stores.evolves creates, rfl⟩
  rcases known with member | unmatched
  · obtain ⟨visit, inside, rfl⟩ := turns.visit_of member
    have turn := turns.performed visit inside
    rw [currentEntry_unique unique] at turn
    obtain ⟨earlier, later⟩ := turns.creates.2 visit inside
    have cjob : visit.client.cjob = cluster.cjob := stores.cjob earlier
    let start : Life := ⟨cluster, entryFor cluster.cjob.status.observedCertificates visit.cert, created⟩
    let done : Life := ⟨visit.out.client, visit.out.state, created ++ visit.out.calls.filterMap (·.stored)⟩
    have passed : (lifeMachine ext visit.cert.ns visit.cert.name).step { start with cluster := visit.client }
        (.reconcile client ambient visit.cert true) done := by
      refine ⟨stores, rfl, rfl, ?_⟩
      simp only [Life.reconcile, Life.pass, cjob, start]
      rw [turn]
      rfl
    refine ⟨{ done with cluster := out.client }, ?_, ?_, rfl⟩
    · exact ((change earlier).step trivial passed).trans (change later)
    · have kept := (turns.entries_unique unique visit.out.state).mpr ⟨visit, inside, rfl⟩
      exact (entryFor_mem (reconcileCertificateJob_unique unique result) kept (turns.key inside)).symm
  · have absent : cert.key ∉ out.status.observedCertificates.map (·.key) := by
      intro present
      obtain ⟨entry, member, key⟩ := List.mem_map.mp present
      obtain ⟨visit, inside, rfl⟩ := (turns.entries_unique unique entry).mp member
      rw [turns.key inside] at key
      rw [← turns.visited, List.map_map] at unmatched
      exact unmatched (key ▸ List.mem_map_of_mem inside)
    refine ⟨⟨out.client, freshEntry cert.ns cert.name, created⟩, ?_, (entryFor_new absent).symm, rfl⟩
    exact (Machine.Leads.step (.refl _) trivial (l := .drop) rfl).trans (change turns.creates.1)

end CertificateJobs
