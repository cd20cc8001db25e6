import CertificateJobs.Controller.Cluster
import CertificateJobs.Workflow.Scheduling

namespace CertificateJobs

def Job.OwnedBy (job : Job) (cjob : CertificateJob) : Prop :=
  job.controller = some cjob.uid ∧ job.deletionTimestamp = none

instance (job : Job) (cjob : CertificateJob) : Decidable (job.OwnedBy cjob) :=
  inferInstanceAs (Decidable (_ ∧ _))

/-- What the API does with the Jobs sent to it, where `jobs` are those that the server holds: an owner reference is set as
    asked for; a Create stores the Job as it was sent or, if it fails, may store nothing; and it does not touch other
    Jobs or what is read of them. What a Get finds need not be what the server holds. -/
structure ServesJobs {σ : Type} (c : Client σ) (jobs : σ → String → String → Option Job) : Prop where
  owner : ∀ s cjob job owned, c.setControllerReference s cjob job = .ok owned →
    owned.ns = job.ns ∧ owned.name = job.name ∧ owned.controller = some cjob.uid ∧
      owned.deletionTimestamp = job.deletionTimestamp
  stores : ∀ s job answer after, c.createJob s job = (answer, after) →
    (∃ stored, jobs after job.ns job.name = some stored ∧ stored.controller = job.controller ∧
      stored.deletionTimestamp = job.deletionTimestamp) ∨
    ((∃ e, answer = .error e) ∧ jobs after job.ns job.name = jobs s job.ns job.name ∧
      c.getJob after job.ns job.name = c.getJob s job.ns job.name)
  others : ∀ s job ns name, ¬ (ns = job.ns ∧ name = job.name) →
    jobs (c.createJob s job).2 ns name = jobs s ns name ∧ c.getJob (c.createJob s job).2 ns name = c.getJob s ns name

section
variable {nodes after : List WorkflowNodeState} {name : String} {write : WorkflowNodeState → WorkflowNodeState}

theorem updateNode_origin (updated : updateNode nodes name write = some after) :
    ∀ node ∈ after, node ∈ nodes ∨ ∃ old ∈ nodes, old.name = name ∧ node = write old := by
  obtain ⟨i, index, rfl⟩ := Option.map_eq_some_iff.mp updated
  obtain ⟨found, -, position, named⟩ := IndexBy.lookup_latest index
  intro node member
  obtain ⟨j, at_j⟩ := List.mem_iff_getElem?.mp member
  rw [List.getElem?_modify] at at_j
  by_cases here : i = j
  · subst here
    rw [position] at at_j
    obtain rfl : write found = node := by simpa using at_j
    exact .inr ⟨found, List.mem_of_getElem? position, named, rfl⟩
  · exact .inl (List.mem_of_getElem? (by simpa [here] using at_j))

end

section
variable {σ : Type} (c : Client σ) (jobs : σ → String → String → Option Job) (cjob : CertificateJob) (ns : String)

def NamesOwned (s : σ) (name : String) : Prop := ∃ job, jobs s ns name = some job ∧ job.OwnedBy cjob

def Untouched (s t : σ) (name : String) : Prop :=
  jobs t ns name = jobs s ns name ∧ c.getJob t ns name = c.getJob s ns name

def Made (s t : σ) (name : String) : Prop := (∃ e, c.getJob s ns name = .error e) ∧ NamesOwned jobs cjob ns t name

def Works (s t : σ) : Prop := ∀ name, Untouched c jobs ns s t name ∨ Made c jobs cjob ns s t name

def Provided (s t : σ) (name : String) : Prop :=
  (Untouched c jobs ns s t name ∧ ∃ found, c.getJob s ns name = .ok found) ∨ Made c jobs cjob ns s t name

variable {c jobs cjob ns} {s t u : σ} {name : String}

theorem Works.refl (s : σ) : Works c jobs cjob ns s s := fun _ => .inl ⟨rfl, rfl⟩

theorem Untouched.trans (early : Untouched c jobs ns s t name) (late : Untouched c jobs ns t u name) :
    Untouched c jobs ns s u name := ⟨late.1.trans early.1, late.2.trans early.2⟩

theorem Made.keep (made : Made c jobs cjob ns s t name) (works : Works c jobs cjob ns t u) :
    Made c jobs cjob ns s u name := by
  rcases works name with same | again
  · refine ⟨made.1, ?_⟩
    rw [NamesOwned, same.1]
    exact made.2
  · exact ⟨made.1, again.2⟩

theorem Made.after (works : Works c jobs cjob ns s t) (made : Made c jobs cjob ns t u name) :
    Made c jobs cjob ns s u name := by
  rcases works name with same | before
  · rw [Made, ← same.2]
    exact made
  · exact ⟨before.1, made.2⟩

theorem Works.trans (early : Works c jobs cjob ns s t) (late : Works c jobs cjob ns t u) : Works c jobs cjob ns s u := by
  intro name
  rcases late name with same | made
  · exact (early name).imp (fun before => before.trans same) fun before => before.keep late
  · exact .inr (made.after early)

theorem Provided.keep (provided : Provided c jobs cjob ns s t name) (works : Works c jobs cjob ns t u) :
    Provided c jobs cjob ns s u name := by
  rcases provided with ⟨same, found, read⟩ | made
  · rcases works name with still | ⟨⟨e, missing⟩, -⟩
    · exact .inl ⟨same.trans still, found, read⟩
    · rw [same.2, read] at missing
      cases missing
  · exact .inr (made.keep works)

theorem Provided.after (works : Works c jobs cjob ns s t) (provided : Provided c jobs cjob ns t u name) :
    Provided c jobs cjob ns s u name := by
  rcases provided with ⟨same, found, read⟩ | made
  · rcases works name with before | before
    · exact .inl ⟨before.trans same, found, before.2 ▸ read⟩
    · refine .inr ⟨before.1, ?_⟩
      rw [NamesOwned, same.1]
      exact before.2
  · exact .inr (made.after works)

theorem Provided.namesOwned_iff (provided : Provided c jobs cjob ns s t name) : NamesOwned jobs cjob ns t name ↔
    ((∃ found, c.getJob s ns name = .ok found) → NamesOwned jobs cjob ns s name) := by
  rcases provided with ⟨same, found⟩ | ⟨⟨e, missing⟩, owned⟩
  · rw [NamesOwned, same.1]
    exact ⟨fun owned _ => owned, fun owned => owned found⟩
  · refine iff_of_true owned ?_
    rintro ⟨found, read⟩
    rw [missing] at read
    cases read

end

section
variable {σ : Type} {c : Client σ} {jobs : σ → String → String → Option Job} {cjob : CertificateJob}
  {certificate : Certificate} {runID : String}

theorem createJob_works (server : ServesJobs c jobs) {s : σ} {nodeName : String} {e : ApiError} {job : Job}
    (missing : c.getJob s certificate.ns (buildJobName cjob.name certificate.name nodeName runID) = .error e)
    (owned : c.setControllerReference s cjob (assembleJob cjob certificate nodeName runID) = .ok job) :
    Works c jobs cjob certificate.ns s (c.createJob s job).2 ∧
      ((c.createJob s job).1.toOption.isSome = true → Made c jobs cjob certificate.ns s (c.createJob s job).2
        (buildJobName cjob.name certificate.name nodeName runID)) := by
  obtain ⟨ns, named, controller, deletion⟩ := server.owner _ _ _ _ owned
  have here : job.ns = certificate.ns := ns
  have name : job.name = buildJobName cjob.name certificate.name nodeName runID := named
  have stores := server.stores s job _ _ rfl
  rw [here, name] at stores
  have fate : Made c jobs cjob certificate.ns s (c.createJob s job).2
        (buildJobName cjob.name certificate.name nodeName runID) ∨
      ((∃ e, (c.createJob s job).1 = .error e) ∧ Untouched c jobs certificate.ns s (c.createJob s job).2
        (buildJobName cjob.name certificate.name nodeName runID)) := by
    rcases stores with ⟨stored, held, controls, dies⟩ | ⟨failed, same⟩
    · exact .inl ⟨⟨e, missing⟩, stored, held, controls.trans controller, dies.trans deletion⟩
    · exact .inr ⟨failed, same⟩
  refine ⟨fun other => ?_, fun accepted => ?_⟩
  · by_cases same : other = buildJobName cjob.name certificate.name nodeName runID
    · rw [same]
      exact fate.symm.imp_left And.right
    · exact .inl (server.others s job certificate.ns other fun both => same (both.2.trans name))
  · rcases fate with made | ⟨⟨e, failed⟩, -⟩
    · exact made
    · rw [failed] at accepted
      cases accepted

variable (cjob certificate runID) in
theorem provideJob_works (server : ServesJobs c jobs) (nodeName : String) (nodes : List WorkflowNodeState) (s : σ) :
    Works c jobs cjob certificate.ns s (provideJob c cjob certificate runID nodeName nodes s).2.2 ∧
      ((provideJob c cjob certificate runID nodeName nodes s).1 = none →
        Provided c jobs cjob certificate.ns s (provideJob c cjob certificate runID nodeName nodes s).2.2
          (buildJobName cjob.name certificate.name nodeName runID)) := by
  unfold provideJob
  split
  · rename_i found read
    exact ⟨.refl s, fun _ => .inl ⟨⟨rfl, rfl⟩, found, read⟩⟩
  · rename_i e missing
    split
    · split
      · exact ⟨.refl s, fun none => by cases none⟩
      · rename_i job owned
        obtain ⟨works, made⟩ := createJob_works server missing owned
        split
        · rename_i failure after created
          rw [created] at works
          exact ⟨works, fun none => by cases none⟩
        · rename_i stored after created
          rw [created] at works made
          exact ⟨works, fun _ => .inr (made rfl)⟩
    · exact ⟨.refl s, fun none => by cases none⟩

theorem scheduleNodes_works (server : ServesJobs c jobs) {now : Time} (names : List String) (slots : Int)
    (nodes : List WorkflowNodeState) (s : σ) {out : Scheduling σ}
    (result : scheduleNodes c cjob certificate runID now names slots nodes s = some out) :
    Works c jobs cjob certificate.ns s out.client ∧
      ∀ node ∈ out.nodes, node ∈ nodes ∨ Provided c jobs cjob certificate.ns s out.client node.jobName := by
  induction names generalizing slots nodes s out with
  | nil =>
    obtain rfl := Option.some.inj result
    exact ⟨.refl s, fun _ => .inl⟩
  | cons name rest ih =>
    obtain ⟨works, provides⟩ := provideJob_works cjob certificate runID server name nodes s
    unfold scheduleNodes at result
    split at result
    · obtain rfl := Option.some.inj result
      exact ⟨.refl s, fun _ => .inl⟩
    · split at result
      · rename_i provided
        obtain rfl := Option.some.inj result
        rw [provided] at works
        exact ⟨works, fun _ => .inl⟩
      · rename_i provided
        rw [provided] at works provides
        obtain ⟨marked, updated, result⟩ := Option.bind_eq_some_iff.mp result
        obtain ⟨final, later, done⟩ := Option.bind_eq_some_iff.mp result
        obtain rfl := Option.some.inj done
        obtain ⟨goesOn, recorded⟩ := ih _ _ _ later
        refine ⟨works.trans goesOn, fun node member => ?_⟩
        rcases recorded node member with inside | recorded
        · rcases updateNode_origin updated node inside with old | ⟨old, -, -, rfl⟩
          · exact .inl old
          · exact .inr ((provides rfl).keep goesOn)
        · exact .inr (recorded.after works)

end

/-- A name that `scheduleRunnableNodes` records names a Job of the CertificateJob on the server exactly if, where a Get
    before the call finds a Job under it, it named one already. -/
theorem recorded_jobs_owned_iff {σ : Type} (c : Client σ) (order : MapOrder) (cjob : CertificateJob)
    (certificate : Certificate) (runID : String) (nodes : List WorkflowNodeState) (deps : NodeLists)
    (availableSlots : Int) (now : Time) (s : σ) (out : Scheduling σ) (jobs : σ → String → String → Option Job)
    (server : ServesJobs c jobs)
    (scheduled : scheduleRunnableNodes c order cjob certificate runID nodes deps availableSlots now s = some out) :
    ∀ node ∈ out.nodes, node ∉ nodes → (NamesOwned jobs cjob certificate.ns out.client node.jobName ↔
      ((∃ found, c.getJob s certificate.ns node.jobName = .ok found) →
        NamesOwned jobs cjob certificate.ns s node.jobName)) := by
  obtain ⟨runnable, -, result⟩ := Option.bind_eq_some_iff.mp scheduled
  obtain ⟨-, recorded⟩ := scheduleNodes_works server _ _ _ _ result
  intro node member new
  exact ((recorded node member).resolve_left new).namesOwned_iff

theorem clusterClient_servesJobs : ServesJobs clusterClient Cluster.jobs where
  owner := by
    rintro _ _ _ _ ⟨⟩
    exact ⟨rfl, rfl, rfl, rfl⟩
  stores := by
    intro s job answer after created
    simp only [clusterClient, Cluster.createJob] at created ⊢
    split at created
    · obtain ⟨rfl, rfl⟩ := Prod.mk.inj created
      exact .inr ⟨⟨_, rfl⟩, rfl, rfl⟩
    · obtain ⟨rfl, rfl⟩ := Prod.mk.inj created
      exact .inl ⟨{ job with uid := s.nextUID }, by simp, rfl, rfl⟩
  others := by
    intro s job ns name other
    simp only [clusterClient, Cluster.createJob]
    split
    · exact ⟨rfl, rfl⟩
    · simp [other]

def Cluster.schedule (cluster : Cluster) : Option (Scheduling Cluster) :=
  scheduleRunnableNodes clusterClient .listed cluster.cjob webCertificate "0123456789ab"
    (initializeNodeStates cluster.cjob) (builtMaps cluster.cjob).deps 1 0 cluster

def Cluster.recreate (cluster : Cluster) : Cluster :=
  { cluster with cjob := { cluster.cjob with uid := cluster.cjob.uid + 1, status := {} } }

theorem schedule_played :
    (sampleCluster (flatSpec ["a"] 1 .stopDownstream)).schedule.any (fun first =>
      (first.client.schedule.any fun out => out.nodes.any fun node =>
        node ∉ initializeNodeStates first.client.cjob ∧
          (first.client.jobs webCertificate.ns node.jobName).any (·.OwnedBy first.client.cjob)) ∧
      first.client.recreate.schedule.any fun out => out.nodes.any fun node =>
        node ∉ initializeNodeStates first.client.recreate.cjob ∧
          (out.client.jobs webCertificate.ns node.jobName).any (¬ ·.OwnedBy first.client.recreate.cjob)) = true := by
  decide +kernel

theorem clusterClient_getJob {cluster : Cluster} {ns name : String} {job : Job} :
    clusterClient.getJob cluster ns name = .ok job ↔ cluster.jobs ns name = some job := by
  simp only [clusterClient]
  cases cluster.jobs ns name <;> simp [notFound]

theorem recorded_jobs_owned_iff_again :
    ∃ (cluster : Cluster) (out : Scheduling Cluster), cluster.schedule = some out ∧
      ∃ node ∈ out.nodes, node ∉ initializeNodeStates cluster.cjob ∧
        (∃ found, clusterClient.getJob cluster webCertificate.ns node.jobName = .ok found) ∧
        NamesOwned Cluster.jobs cluster.cjob webCertificate.ns out.client node.jobName := by
  obtain ⟨first, -, played⟩ := (Option.any_eq_true _ _).mp schedule_played
  obtain ⟨out, scheduled, checked⟩ := (Option.any_eq_true _ _).mp (of_decide_eq_true played).1
  obtain ⟨node, member, checked⟩ := List.any_eq_true.mp checked
  obtain ⟨new, checked⟩ := of_decide_eq_true checked
  obtain ⟨job, held, owned⟩ := (Option.any_eq_true _ _).mp checked
  refine ⟨first.client, out, scheduled, node, member, new, ⟨job, clusterClient_getJob.mpr held⟩, ?_⟩
  rw [recorded_jobs_owned_iff clusterClient .listed first.client.cjob webCertificate "0123456789ab" _ _ 1 0 first.client
    out Cluster.jobs clusterClient_servesJobs scheduled node member new]
  exact fun _ => ⟨job, held, of_decide_eq_true owned⟩

/-- The CertificateJob that was created anew takes the Job of its predecessor for its own. -/
theorem recorded_job_of_predecessor :
    ∃ (first out : Scheduling Cluster), (sampleCluster (flatSpec ["a"] 1 .stopDownstream)).schedule = some first ∧
      first.client.recreate.schedule = some out ∧
      ∃ node ∈ out.nodes, node ∉ initializeNodeStates first.client.recreate.cjob ∧
        ¬ NamesOwned Cluster.jobs first.client.recreate.cjob webCertificate.ns out.client node.jobName := by
  obtain ⟨first, opened, played⟩ := (Option.any_eq_true _ _).mp schedule_played
  obtain ⟨out, scheduled, checked⟩ := (Option.any_eq_true _ _).mp (of_decide_eq_true played).2
  obtain ⟨node, member, checked⟩ := List.any_eq_true.mp checked
  obtain ⟨new, checked⟩ := of_decide_eq_true checked
  obtain ⟨job, found, foreign⟩ := (Option.any_eq_true _ _).mp checked
  refine ⟨first, out, opened, scheduled, node, member, new, ?_⟩
  rintro ⟨other, held, owned⟩
  rw [Option.some.inj (found.symm.trans held)] at foreign
  exact of_decide_eq_true foreign owned

end CertificateJobs
