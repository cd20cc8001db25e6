import CertificateJobs.Controller.JobNames
import CertificateJobs.Runs.Input
import CertificateJobs.Workflow.Effects

namespace CertificateJobs

def EntryOutcome.outcome {σ : Type} (out : EntryOutcome σ) : CertificateExecutionState × CertificateWorkflowProgress ×
    List Sighting × List (String × Job × List WorkflowNodeState × Bool) :=
  (out.state, out.progress, out.sightings, out.calls.map (·.request))

section
variable {σ Object : Type} {c : Client σ} (view : PerObject c Object) {ext : External} {ambient : Ambient}
  {cjob : CertificateJob} {cert : Certificate} {own : String → Prop} {s s' : σ} {entry : CertificateExecutionState}

theorem concludeEntry_outcome {left right : RunOutcome σ} (same : left.outcome = right.outcome) :
    (concludeEntry left).outcome = (concludeEntry right).outcome := by
  simp only [RunOutcome.outcome, Prod.mk.injEq] at same
  obtain ⟨state, running, failed, err, sightings, calls⟩ := same
  unfold concludeEntry
  rw [err]
  cases right.err with
  | some e => simp [EntryOutcome.outcome, state, sightings, calls]
  | none => simp [EntryOutcome.outcome, state, running, failed, sightings, calls]

theorem reconcileInput_agree (status : CertificateJobStatus) (workflowCtx : WorkflowContext) (hash : String)
    (agree : view.Agree cert.ns own s s') (recorded : ∀ node ∈ entry.nodes, own node.jobName)
    (ours : ∀ name runID, own (buildJobName cjob.name cert.name name runID)) :
    (reconcileInput c ambient cjob cert entry workflowCtx hash s).map (·.outcome) =
      (reconcileInput c ambient { cjob with status := status } cert entry workflowCtx hash s').map (·.outcome) := by
  have transition : applyInputHashTransition { cjob with status := status } cert entry hash workflowCtx.now =
    applyInputHashTransition cjob cert entry hash workflowCtx.now := rfl
  have records : ∀ node ∈ (applyInputHashTransition cjob cert entry hash workflowCtx.now).nodes,
      node.jobName ≠ "" → own node.jobName := by
    intro node member has
    rcases applyInputHashTransition_cases cjob cert entry hash workflowCtx.now with
      ⟨-, nodes, -⟩ | ⟨-, message, same⟩
    · rw [nodes] at member
      obtain ⟨name, -, rfl⟩ := mem_initial member
      exact absurd rfl has
    · rw [same] at member
      exact recorded node member
  simp only [reconcileInput, transition]
  generalize applyInputHashTransition cjob cert entry hash workflowCtx.now = base at records ⊢
  split
  · rfl
  · have run := reconcileCertificateRun_agree view cjob status cert ambient base workflowCtx.graph agree
      (fun node member has => by
        rcases mem_ensure member with old | ⟨name, -, -, rfl⟩
        · exact records node old has
        · exact absurd rfl has) (fun name => ours name base.runID)
    generalize reconcileCertificateRun c ambient cjob cert base workflowCtx.graph s = left at run ⊢
    cases left with
    | none => rw [Option.map_eq_none_iff.mp run.symm]
    | some out =>
      obtain ⟨other, found, same⟩ := Option.map_eq_some_iff.mp run.symm
      rw [found]
      exact congrArg some (concludeEntry_outcome same.symm)

/-- A pass depends on the client only through the certificate's Secret and its own Jobs. -/
theorem perform_agree (status : CertificateJobStatus)
    (secret : c.getSecret s cert.ns cert.spec.secretName = c.getSecret s' cert.ns cert.spec.secretName)
    (agree : view.Agree cert.ns own s s') (recorded : ∀ node ∈ entry.nodes, own node.jobName)
    (ours : ∀ name runID, own (buildJobName cjob.name cert.name name runID)) :
    (EntryPass.perform c ext ⟨ambient, cjob, cert, s⟩ entry).map (·.outcome) =
      (EntryPass.perform c ext ⟨ambient, { cjob with status := status }, cert, s'⟩ entry).map (·.outcome) := by
  have context : buildWorkflowContext ext ambient { cjob with status := status } =
    buildWorkflowContext ext ambient cjob := rfl
  simp only [EntryPass.perform, context]
  cases buildWorkflowContext ext ambient cjob with
  | error e => rfl
  | ok workflowCtx =>
    simp only [Except.toOption, Option.bind_some, reconcileObservedCertificate, ← secret]
    have waits : ∀ message, (waitForInput cert entry message s).outcome = (waitForInput cert entry message s').outcome := by
      intro message
      unfold waitForInput
      split <;> rfl
    split
    · rfl
    · cases c.getSecret s cert.ns cert.spec.secretName with
      | error e => exact congrArg some (waits _)
      | ok secret =>
        simp only
        cases buildInputHash ext cert secret workflowCtx.workflowSpecHash with
        | error e => exact congrArg some (waits _)
        | ok hash => exact reconcileInput_agree view status workflowCtx hash agree recorded ours

theorem perform_others {pass : EntryPass σ} {out : EntryOutcome σ} (performed : pass.perform c ext entry = some out)
    {ns name : String} (foreign : ∀ node runID, name ≠ buildJobName pass.cjob.name pass.cert.name node runID) :
    view.object out.client ns name = view.object pass.client ns name := by
  rcases perform_cases c ext performed with quiet | ⟨graph, base, run, ran⟩
  · rw [quiet.client]
  · rw [ran.concluded, concludeEntry_client]
    exact reconcileCertificateRun_others view pass.cjob pass.cert pass.ambient base graph pass.client
      (fun node => foreign node base.runID) ran.result

end

section
variable {σ : Type} {s t : σ} {before after : List (Visit σ)} {visit : Visit σ}

theorem Chained.frame {α : Type} (read : σ → α) (chained : Chained s (before ++ visit :: after) t)
    (steps : ∀ earlier ∈ before, read earlier.out.client = read earlier.client) : read visit.client = read s := by
  induction before generalizing s with
  | nil => rw [chained.1]
  | cons first rest ih =>
    obtain ⟨rfl, chained⟩ := chained
    rw [ih chained fun earlier inside => steps earlier (List.mem_cons_of_mem _ inside)]
    exact steps first List.mem_cons_self

def requestsFor (cert : Certificate) (calls : List (String × CreateCall)) :
    List (String × Job × List WorkflowNodeState × Bool) :=
  (calls.filter fun call => call.1 = cert.name).map (·.2.request)

theorem requestsFor_foreign {cert : Certificate} (visits : List (Visit σ))
    (others : ∀ visit ∈ visits, visit.cert.name ≠ cert.name) :
    requestsFor cert (visits.flatMap fun visit => visit.out.calls.map fun call => (visit.cert.name, call)) = [] := by
  rw [requestsFor, List.map_eq_nil_iff, List.filter_eq_nil_iff]
  intro call made
  obtain ⟨visit, inside, paired⟩ := List.mem_flatMap.mp made
  obtain ⟨_, -, rfl⟩ := List.mem_map.mp paired
  simpa using others visit inside

theorem requestsFor_visits (others : ∀ other ∈ before ++ after, other.cert.name ≠ visit.cert.name) :
    requestsFor visit.cert ((before ++ visit :: after).flatMap fun visit =>
      visit.out.calls.map fun call => (visit.cert.name, call)) = visit.out.calls.map (·.request) := by
  have first := requestsFor_foreign before fun other inside => others other (List.mem_append_left _ inside)
  have last := requestsFor_foreign after fun other inside => others other (List.mem_append_right _ inside)
  unfold requestsFor at first last ⊢
  rw [List.flatMap_append, List.flatMap_cons, List.filter_append, List.filter_append, List.map_append, List.map_append,
    first, last]
  simp [List.filter_map, Function.comp_def]

end

def OwnJob (cjob : CertificateJob) (cert : Certificate) (name : String) : Prop :=
  (∃ entry ∈ cjob.status.observedCertificates, entry.key = cert.key ∧ ∃ node ∈ entry.nodes, node.jobName = name) ∨
    ∃ node runID, name = buildJobName cjob.name cert.name node runID

theorem currentEntry_owns (cjob : CertificateJob) (cert : Certificate) :
    ∀ node ∈ (currentEntry cjob.status.observedCertificates cert).nodes, OwnJob cjob cert node.jobName := by
  intro node member
  rcases currentEntry_cases cjob.status.observedCertificates cert with latest | ⟨-, new⟩
  · have present := (IndexBy.mem_latest_or_stale _).mpr (.inl latest)
    exact .inl ⟨_, present, currentEntry_key _ _, node, member, rfl⟩
  · rw [new] at member
    cases member

section
variable {σ Object : Type} {c : Client σ} (view : PerObject c Object) {ext : External} {ambient : Ambient}
  {cjob : CertificateJob} {cert : Certificate} {s s' : σ} {certs : List Certificate} {out : JobOutcome σ}
  {visits : List (Visit σ)}

theorem Reconciled.visit_split (turns : Reconciled c ext ambient cjob s certs out visits)
    (distinct : (certs.map (·.key)).Nodup) (member : cert ∈ certs) :
    ∃ before visit after, visits = before ++ visit :: after ∧ visit.cert = cert ∧
      ∀ other ∈ before ++ after, other.cert ∈ certs ∧ other.cert.key ≠ cert.key := by
  obtain ⟨visit, inside, rfl⟩ := turns.visit_of member
  obtain ⟨before, after, split⟩ := List.append_of_mem inside
  refine ⟨before, visit, after, split, rfl, ?_⟩
  intro other present
  have keys : (visit.cert.key :: (before ++ after).map (·.cert.key)).Nodup := by
    rw [← turns.visited, split, List.map_map, List.map_append, List.map_cons, List.nodup_middle, ← List.map_append]
      at distinct
    exact distinct
  have there : other ∈ visits := by
    rw [split]
    rcases List.mem_append.mp present with early | late
    · exact List.mem_append_left _ early
    · exact List.mem_append_right _ (List.mem_cons_of_mem _ late)
  refine ⟨turns.matched there, fun same => (List.nodup_cons.mp keys).1 ?_⟩
  exact same ▸ List.mem_map_of_mem present

theorem Reconciled.left_for (turns : Reconciled c ext ambient cjob s certs out visits)
    (unique : (cjob.status.observedCertificates.map (·.key)).Nodup) (distinct : (certs.map (·.key)).Nodup)
    {visit : Visit σ} (inside : visit ∈ visits) {entry : CertificateExecutionState} (key : entry.key = visit.cert.key) :
    entry ∈ out.status.observedCertificates ↔ entry = visit.out.state := by
  rw [turns.entries_unique unique]
  constructor
  · rintro ⟨other, there, rfl⟩
    have certs_ := turns.visited ▸ distinct
    rw [List.map_map] at certs_
    rw [List.inj_on_of_nodup_map certs_ there inside ((turns.key there).symm.trans key)]
  · rintro rfl
    exact ⟨visit, inside, rfl⟩

theorem Reconciled.turn_of (turns : Reconciled c ext ambient cjob s certs out visits)
    (distinct : (certs.map (·.key)).Nodup) (member : cert ∈ certs) (own : String → Prop)
    (foreign : ∀ other ∈ certs, other.key ≠ cert.key → ∀ name, own name → ∀ node runID,
      name ≠ buildJobName cjob.name other.name node runID)
    (named : ∀ other ∈ certs, other.key ≠ cert.key → other.name ≠ cert.name) :
    ∃ visit ∈ visits, visit.cert = cert ∧ view.Agree cert.ns own visit.client s ∧
      c.getSecret visit.client = c.getSecret s ∧ requestsFor cert out.calls = visit.out.calls.map (·.request) := by
  obtain ⟨before, visit, after, split, rfl, others⟩ := turns.visit_split distinct member
  have inside : visit ∈ visits := split ▸ List.mem_append_right _ List.mem_cons_self
  refine ⟨visit, inside, rfl, ?_, (turns.creates.2 visit inside).1.frame c.getSecret view.secrets, ?_⟩
  · intro name mine
    have chained := turns.chained
    rw [split] at chained
    refine chained.frame (fun client => view.object client visit.cert.ns name) ?_
    intro earlier early
    obtain ⟨matched, different⟩ := others earlier (List.mem_append_left _ early)
    have performed := turns.performed earlier (split ▸ List.mem_append_left _ early)
    exact perform_others view performed (foreign earlier.cert matched different name mine)
  · rw [turns.calls, split]
    refine requestsFor_visits ?_
    intro other present
    obtain ⟨matched, different⟩ := others other present
    exact named other.cert matched different

/-- Two reconciles do the same in their turns for a certificate if these find the same entry, Secret and Jobs. -/
theorem Reconciled.outcome_agree {status : CertificateJobStatus} {certs' : List Certificate} {only : JobOutcome σ}
    {visits' : List (Visit σ)} {visit visit' : Visit σ} (turns : Reconciled c ext ambient cjob s certs out visits)
    (turns' : Reconciled c ext ambient { cjob with status := status } s' certs' only visits')
    (inside : visit ∈ visits) (inside' : visit' ∈ visits') (certificate : visit'.cert = visit.cert)
    (entry : currentEntry status.observedCertificates visit.cert =
      currentEntry cjob.status.observedCertificates visit.cert)
    (secret : c.getSecret visit.client visit.cert.ns visit.cert.spec.secretName =
      c.getSecret visit'.client visit.cert.ns visit.cert.spec.secretName)
    (agree : view.Agree visit.cert.ns (OwnJob cjob visit.cert) visit.client visit'.client) :
    visit.out.outcome = visit'.out.outcome := by
  have outcome : (EntryPass.perform c ext ⟨ambient, cjob, visit.cert, visit.client⟩
        (currentEntry cjob.status.observedCertificates visit.cert)).map (·.outcome) =
      (EntryPass.perform c ext ⟨ambient, { cjob with status := status }, visit.cert, visit'.client⟩
        (currentEntry cjob.status.observedCertificates visit.cert)).map (·.outcome) :=
    perform_agree view status secret agree (currentEntry_owns cjob visit.cert) fun node runID => .inr ⟨node, runID, rfl⟩
  have performed' := turns'.performed visit' inside'
  rw [certificate, entry] at performed'
  rw [turns.performed visit inside, performed', Option.map_some, Option.map_some, Option.some.injEq] at outcome
  exact outcome

theorem listMatchingCertificates_named
    (within : ∀ all, c.listCertificates s cjob.ns = .ok all → ∀ cert ∈ all, cert.ns = cjob.ns)
    (listed : listMatchingCertificates c ext cjob s = .ok certs) (member : cert ∈ certs) :
    ∀ other ∈ certs, other.key ≠ cert.key → other.name ≠ cert.name := by
  have spaces : ∀ cert ∈ certs, cert.ns = cjob.ns := by
    intro cert matched
    obtain ⟨all, answer, present⟩ := listMatchingCertificates_mem listed matched
    exact within all answer cert present
  intro other matched different equal
  exact different (by rw [Certificate.key, Certificate.key, spaces other matched, spaces cert member, equal])

end

/-- What a reconcile does for a certificate is what it does if there is no other matching certificate, whatever the
    entries, Secrets, Jobs and errors of the others are, if the Jobs of the certificate are none of theirs. -/
theorem certificate_isolated {σ Object : Type} (c : Client σ) (view : PerObject c Object) (ext : External)
    (ambient : Ambient) (cjob : CertificateJob) (status : CertificateJobStatus) (s s' : σ) (certs : List Certificate)
    (cert : Certificate) (unique : (cjob.status.observedCertificates.map (·.key)).Nodup)
    (unique' : (status.observedCertificates.map (·.key)).Nodup)
    (within : ∀ all, c.listCertificates s cjob.ns = .ok all → ∀ cert ∈ all, cert.ns = cjob.ns)
    (listing : ∀ all, c.listCertificates s cjob.ns = .ok all → (all.map (·.key)).Nodup)
    (listed : listMatchingCertificates c ext cjob s = .ok certs) (member : cert ∈ certs)
    (alone : listMatchingCertificates c ext { cjob with status := status } s' = .ok [cert])
    (names : ∀ other ∈ certs, other.key ≠ cert.key → ∀ node runID node' runID',
      buildJobName cjob.name cert.name node runID ≠ buildJobName cjob.name other.name node' runID')
    (recorded : ∀ other ∈ certs, other.key ≠ cert.key → ∀ entry ∈ cjob.status.observedCertificates,
      entry.key = cert.key → ∀ node ∈ entry.nodes, ∀ node' runID',
        node.jobName ≠ buildJobName cjob.name other.name node' runID')
    (same : ∀ entry : CertificateExecutionState, entry.key = cert.key →
      (entry ∈ cjob.status.observedCertificates ↔ entry ∈ status.observedCertificates))
    (secret : c.getSecret s cert.ns cert.spec.secretName = c.getSecret s' cert.ns cert.spec.secretName)
    (jobs : view.Agree cert.ns (OwnJob cjob cert) s s') :
    ∃ out only, reconcileCertificateJob c ext ambient cjob s = some out ∧
      reconcileCertificateJob c ext ambient { cjob with status := status } s' = some only ∧
      (∀ entry : CertificateExecutionState, entry.key = cert.key →
        (entry ∈ out.status.observedCertificates ↔ entry ∈ only.status.observedCertificates)) ∧
      requestsFor cert out.calls = requestsFor cert only.calls := by
  obtain ⟨out, result⟩ := reconcileCertificateJob_total c ext ambient cjob s
  obtain ⟨only, result'⟩ := reconcileCertificateJob_total c ext ambient { cjob with status := status } s'
  refine ⟨out, only, result, result', ?_⟩
  cases context : buildWorkflowContext ext ambient cjob with
  | error e =>
    have recontext : buildWorkflowContext ext ambient { cjob with status := status } = .error e := context
    simp only [reconcileCertificateJob, context] at result
    simp only [reconcileCertificateJob, recontext] at result'
    obtain rfl := Option.some.inj result
    obtain rfl := Option.some.inj result'
    exact ⟨same, rfl⟩
  | ok workflowCtx =>
    have recontext : buildWorkflowContext ext ambient { cjob with status := status } = .ok workflowCtx := context
    have distinct := listMatchingCertificates_distinct listing listed
    obtain ⟨visits, turns⟩ := reconcileCertificateJob_reconciled context listed distinct result
    obtain ⟨visits', turns'⟩ := reconcileCertificateJob_reconciled recontext alone (List.nodup_singleton _) result'
    have named := listMatchingCertificates_named within listed member
    have foreign : ∀ other ∈ certs, other.key ≠ cert.key → ∀ name, OwnJob cjob cert name → ∀ node runID,
        name ≠ buildJobName cjob.name other.name node runID := by
      rintro other matched different name (⟨entry, inside, key, node, present, rfl⟩ | ⟨node, runID, rfl⟩) node' runID'
      · exact recorded other matched different entry inside key node present node' runID'
      · exact names other matched different node runID node' runID'
    obtain ⟨visit, inside, rfl, here, secrets, requests⟩ := turns.turn_of view distinct member _ foreign named
    have single : ∀ other ∈ [visit.cert], other.key ≠ visit.cert.key → False :=
      fun other matched different => different (congrArg _ (List.mem_singleton.mp matched))
    obtain ⟨visit', inside', cert, here', secrets', requests'⟩ := turns'.turn_of view (List.nodup_singleton _)
      List.mem_cons_self (OwnJob cjob visit.cert) (fun other matched different => (single other matched different).elim)
      (fun other matched different => (single other matched different).elim)
    have entry : currentEntry status.observedCertificates visit.cert =
        currentEntry cjob.status.observedCertificates visit.cert := by
      rw [currentEntry_unique unique, currentEntry_unique unique', entryFor_congr unique unique' same]
    have agree : view.Agree visit.cert.ns (OwnJob cjob visit.cert) visit.client visit'.client :=
      fun name mine => (here name mine).trans ((jobs name mine).trans (here' name mine).symm)
    have outcome := turns.outcome_agree view turns' inside inside' cert entry (by rw [secrets, secrets', secret]) agree
    simp only [EntryOutcome.outcome, Prod.mk.injEq] at outcome
    refine ⟨?_, by rw [requests, requests', outcome.2.2.2]⟩
    intro left key
    rw [turns.left_for unique distinct inside key,
      turns'.left_for unique' (List.nodup_singleton _) inside' (key.trans (congrArg _ cert.symm)), outcome.1]

section
variable {σ Object : Type} {c : Client σ} (view : PerObject c Object) {ext : External} {ambient : Ambient}
  {cjob : CertificateJob} {s : σ}

theorem perform_effect {pass : EntryPass σ} {entry : CertificateExecutionState} {out : EntryOutcome σ}
    (performed : pass.perform c ext entry = some out) (ns name : String) :
    view.object out.client ns name = view.after ns name out.calls (view.object pass.client ns name) := by
  rcases perform_cases c ext performed with quiet | ⟨graph, base, run, ran⟩
  · rw [quiet.client, quiet.calls]
    rfl
  · rw [ran.concluded, concludeEntry_client, concludeEntry_calls]
    exact reconcileCertificateRun_effect view pass.cjob pass.cert ran.result ns name

theorem reconcileCertificateJob_effect {out : JobOutcome σ}
    (result : reconcileCertificateJob c ext ambient cjob s = some out) (ns name : String) :
    view.object out.client ns name = view.after ns name (out.calls.map (·.2)) (view.object s ns name) := by
  unfold reconcileCertificateJob at result
  split at result
  · obtain rfl := Option.some.inj result
    rfl
  · rename_i workflowCtx context
    split at result
    · obtain rfl := Option.some.inj result
      rfl
    · rename_i certs listed
      obtain ⟨last, loop, result⟩ := Option.bind_eq_some_iff.mp result
      obtain rfl := Option.some.inj result
      refine Sweep.Indexed.invariant certs (fun sweep =>
        view.object sweep.client ns name = view.after ns name (sweep.calls.map (·.2)) (view.object s ns name))
        ?_ (by rfl) context loop (by rfl)
      intro cert _ sweep turn before performed
      have calls : (sweep.record cert turn).calls.map (·.2) = sweep.calls.map (·.2) ++ turn.calls := by
        rw [Sweep.record_calls, List.map_append, List.map_map]
        congr 1
        exact List.map_id _
      rw [calls, PerObject.after_append, ← before]
      exact perform_effect view performed ns name

end

def clusterView : PerObject clusterClient (Option Sight) where
  object cluster ns name := (cluster.jobs ns name).map sightOf
  seen job := .ok (job.getD .missing)
  create job sent := match job with
    | some seen => (some (.alreadyExists ("jobs.batch \"" ++ sent.name ++ "\" already exists")), some seen)
    | none => (none, some (sightOf sent))
  get cluster ns name := by
    cases found : cluster.jobs ns name with
    | none => simp [clusterClient, found, notFound, sight, ApiError.isNotFound]
    | some job => simp [clusterClient, found, sight]
  answer cluster job := by
    cases found : cluster.jobs job.ns job.name with
    | none => simp [clusterClient, Cluster.createJob, found, refusal]
    | some old => simp [clusterClient, Cluster.createJob, found, refusal]
  stored cluster job := by
    cases found : cluster.jobs job.ns job.name with
    | none => simp [clusterClient, Cluster.createJob, found]; rfl
    | some old => simp [clusterClient, Cluster.createJob, found]
  others cluster job ns name other := by
    cases found : cluster.jobs job.ns job.name with
    | none => simp [clusterClient, Cluster.createJob, found, other]
    | some old => simp [clusterClient, Cluster.createJob, found]
  secrets := clusterClient_secrets
  owner _ _ _ _ _ := rfl
  addressed _ _ _ _ owned := by
    obtain rfl := Except.ok.inj owned
    exact ⟨rfl, rfl⟩

def apiCertificate : Certificate := { ns := "default", name := "api", spec := { secretName := "tls" } }

def pairCluster : Cluster :=
  { sampleCluster (flatSpec ["a", "b"] 1 .stopDownstream) with certificates := [webCertificate, apiCertificate] }

theorem web_begins (node runID : String) :
    (buildJobName "renewal" "web" node runID).toList.take 11 = "renewal-web".toList := by
  have text : ("renewal" ++ "-" ++ "web" ++ "-" ++ node ++ "-" ++ runID).toList =
    "renewal-web".toList ++ ("-" ++ node ++ "-" ++ runID).toList := by simp
  exact (List.prefix_iff_eq_take.mp (buildJobName_begins text (by decide) (by decide) (by decide) (by decide)
    (by decide))).symm

theorem api_begins (node runID : String) :
    (buildJobName "renewal" "api" node runID).toList.take 11 = "renewal-api".toList := by
  have text : ("renewal" ++ "-" ++ "api" ++ "-" ++ node ++ "-" ++ runID).toList =
    "renewal-api".toList ++ ("-" ++ node ++ "-" ++ runID).toList := by simp
  exact (List.prefix_iff_eq_take.mp (buildJobName_begins text (by decide) (by decide) (by decide) (by decide)
    (by decide))).symm

theorem pair_names (node runID node' runID' : String) :
    buildJobName "renewal" "web" node runID ≠ buildJobName "renewal" "api" node' runID' := by
  intro same
  have equal := (web_begins node runID).symm.trans (same ▸ api_begins node' runID')
  revert equal
  decide

theorem pair_foreign : ∀ other ∈ [apiCertificate, webCertificate], other.key ≠ webCertificate.key →
    ∀ node runID node' runID', buildJobName "renewal" webCertificate.name node runID ≠
      buildJobName "renewal" other.name node' runID' := by
  intro other member different
  rcases List.mem_cons.mp member with rfl | last
  · exact pair_names
  · exact absurd (congrArg _ (List.mem_singleton.mp last)) different

def Cluster.only (cluster : Cluster) (cert : Certificate) : Cluster := { cluster with certificates := [cert] }

def midwayEntry (cert : Certificate) : CertificateExecutionState :=
  { ns := cert.ns, name := cert.name, inputHash := "earlier", runID := "earlier", phase := .running
    nodes := [{ name := "a", phase := .running, jobName := buildJobName "renewal" cert.name "a" "earlier" },
      { name := "b", phase := .pending }] }

def midwayCluster : Cluster :=
  { pairCluster with
    cjob := { pairCluster.cjob with
      status := { observedCertificates := [midwayEntry webCertificate, midwayEntry apiCertificate] } }
    jobs := fun ns name =>
      if ns = "default" ∧ ((midwayEntry webCertificate).nodes ++ (midwayEntry apiCertificate).nodes).any (·.jobName = name)
      then some { assembleJob pairCluster.cjob webCertificate "a" "earlier" with name := name, status := completeStatus }
      else none }

theorem midway_recorded : ∀ entry ∈ midwayCluster.cjob.status.observedCertificates, entry.key = webCertificate.key →
    ∀ node ∈ entry.nodes, ∀ node' runID', node.jobName ≠ buildJobName "renewal" "api" node' runID' := by
  have begins : midwayCluster.cjob.status.observedCertificates.all (fun entry => entry.key ≠ webCertificate.key ∨
      entry.nodes.all fun node => node.jobName.toList.take 11 ≠ "renewal-api".toList) = true := by
    decide +kernel
  intro entry member key node present node' runID' same
  have checked := of_decide_eq_true (List.all_eq_true.mp begins entry member)
  have different := of_decide_eq_true (List.all_eq_true.mp (checked.resolve_left fun other => other key) node present)
  exact different (same ▸ api_begins node' runID')

theorem certificate_isolated_pair :
    ∃ out only : JobOutcome Cluster,
      reconcileCertificateJob clusterClient plainExternal stillClock midwayCluster.cjob midwayCluster = some out ∧
      reconcileCertificateJob clusterClient plainExternal stillClock
        { midwayCluster.cjob with status := { observedCertificates := [midwayEntry webCertificate] } }
        (midwayCluster.only webCertificate) = some only ∧
      (∀ entry : CertificateExecutionState, entry.key = webCertificate.key →
        (entry ∈ out.status.observedCertificates ↔ entry ∈ only.status.observedCertificates)) ∧
      requestsFor webCertificate out.calls = requestsFor webCertificate only.calls ∧
      (requestsFor webCertificate out.calls).length = 1 ∧ out.calls.length = 2 := by
  have counts : (reconcileCertificateJob clusterClient plainExternal stillClock midwayCluster.cjob midwayCluster).any
      (fun out => (requestsFor webCertificate out.calls).length = 1 ∧ out.calls.length = 2) = true := by
    decide +kernel
  have distinct : (midwayCluster.certificates.map (·.key)).Nodup ∧
      (midwayCluster.cjob.status.observedCertificates.map (·.key)).Nodup := by decide +kernel
  have recorded : ∀ other ∈ [apiCertificate, webCertificate], other.key ≠ webCertificate.key →
      ∀ entry ∈ midwayCluster.cjob.status.observedCertificates, entry.key = webCertificate.key → ∀ node ∈ entry.nodes,
        ∀ node' runID', node.jobName ≠ buildJobName "renewal" other.name node' runID' := by
    intro other member different
    rcases List.mem_cons.mp member with rfl | last
    · exact midway_recorded
    · exact absurd (congrArg _ (List.mem_singleton.mp last)) different
  have same : ∀ entry : CertificateExecutionState, entry.key = webCertificate.key →
      (entry ∈ midwayCluster.cjob.status.observedCertificates ↔ entry ∈ [midwayEntry webCertificate]) := by
    intro entry key
    have shown : midwayCluster.cjob.status.observedCertificates =
      [midwayEntry webCertificate, midwayEntry apiCertificate] := rfl
    rw [shown, List.mem_cons, List.mem_singleton, List.mem_singleton, or_iff_left]
    rintro rfl
    revert key
    decide
  obtain ⟨out, only, result, result', entries, requests⟩ := certificate_isolated clusterClient clusterView plainExternal
    stillClock midwayCluster.cjob { observedCertificates := [midwayEntry webCertificate] } midwayCluster
    (midwayCluster.only webCertificate) [apiCertificate, webCertificate] webCertificate distinct.2 (List.nodup_singleton _)
    (clusterClient_namespace midwayCluster _) (clusterClient_listing distinct.1 _) rfl (by simp) rfl pair_foreign recorded
    same rfl (fun _ _ => rfl)
  rw [result, Option.any_some, decide_eq_true_eq] at counts
  exact ⟨out, only, result, result', entries, requests, counts⟩

def apiJobName : String :=
  buildJobName "renewal" "api" "a" (shortHash
    ((EntryPass.inputHash clusterClient plainExternal ⟨stillClock, pairCluster.cjob, apiCertificate, pairCluster⟩).getD "")
    12)

def borrowingCluster : Cluster :=
  { pairCluster with
    cjob := { pairCluster.cjob with
      status := { observedCertificates :=
        [{ ns := "default", name := "web", inputHash := "earlier", phase := .running
           nodes := [{ name := "a", phase := .running, jobName := apiJobName }] }] } } }

/-- The other certificate's turn comes first and creates the Job that the entry waits for. -/
theorem certificate_disturbed :
    ∃ out only : JobOutcome Cluster,
      (borrowingCluster.cjob.status.observedCertificates.map (·.key)).Nodup ∧
      listMatchingCertificates clusterClient plainExternal borrowingCluster.cjob borrowingCluster =
        .ok [apiCertificate, webCertificate] ∧
      listMatchingCertificates clusterClient plainExternal borrowingCluster.cjob (borrowingCluster.only webCertificate) =
        .ok [webCertificate] ∧
      (∀ node runID node' runID',
        buildJobName "renewal" "web" node runID ≠ buildJobName "renewal" "api" node' runID') ∧
      reconcileCertificateJob clusterClient plainExternal stillClock borrowingCluster.cjob borrowingCluster = some out ∧
      reconcileCertificateJob clusterClient plainExternal stillClock borrowingCluster.cjob
        (borrowingCluster.only webCertificate) = some only ∧
      (entryFor out.status.observedCertificates webCertificate).phase = .running ∧
      (entryFor only.status.observedCertificates webCertificate).phase = .failed := by
  have played : (reconcileCertificateJob clusterClient plainExternal stillClock borrowingCluster.cjob
      borrowingCluster).any (fun out => (entryFor out.status.observedCertificates webCertificate).phase = .running) = true ∧
      (reconcileCertificateJob clusterClient plainExternal stillClock borrowingCluster.cjob
        (borrowingCluster.only webCertificate)).any
          (fun only => (entryFor only.status.observedCertificates webCertificate).phase = .failed) = true := by
    decide +kernel
  obtain ⟨out, result, running⟩ := (Option.any_eq_true _ _).mp played.1
  obtain ⟨only, result', failed⟩ := (Option.any_eq_true _ _).mp played.2
  exact ⟨out, only, List.nodup_singleton _, rfl, rfl, pair_names, result, result', of_decide_eq_true running,
    of_decide_eq_true failed⟩

end CertificateJobs
