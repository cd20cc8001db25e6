import CertificateJobs.Runs.Sweep
import CertificateJobs.Workflow.Progress

namespace CertificateJobs

section
variable {σ : Type} {c : Client σ} {ext : External} {pass : EntryPass σ} {entry : CertificateExecutionState}
  {out : EntryOutcome σ}

theorem going_not_started (opened : entry.inputHash ≠ "") (going : isTerminalPhase entry.phase = false) :
    pass.starts c ext entry = false := by
  cases input : pass.inputHash c ext with
  | none => simp [EntryPass.starts, input]
  | some hash => simp [EntryPass.starts, input, startsRun, opened, going]

theorem perform_keeps_run (performed : pass.perform c ext entry = some out) (opened : entry.inputHash ≠ "")
    (going : isTerminalPhase entry.phase = false) :
    out.state.inputHash = entry.inputHash ∧ out.state.runID = entry.runID ∧
      out.state.lastTriggeredTime = entry.lastTriggeredTime := by
  rcases perform_cases c ext performed with quiet | ⟨graph, base, run, ran⟩
  · obtain ⟨secretName, phase, message, completed, written⟩ := quiet.rewritten
    rw [written]
    exact ⟨rfl, rfl, rfl⟩
  · obtain ⟨message, same⟩ := ran.same (going_not_started opened going)
    obtain ⟨phase, message', completed, written⟩ := ran.rewritten
    rw [written, same]
    exact ⟨rfl, rfl, rfl⟩

theorem derived_phase_terminal (nodes : List WorkflowNodeState) :
    isTerminalPhase (deriveWorkflowPhase nodes) =
      !decide (deriveWorkflowPhase nodes = .running ∨ deriveWorkflowPhase nodes = .pending) := by
  rcases deriveWorkflowPhase_cases nodes with ⟨phase, -⟩ | ⟨-, ⟨phase, -⟩ | ⟨-, ⟨phase, -⟩ | ⟨phase, -⟩⟩⟩ <;>
    simp [phase, isTerminalPhase]

theorem concludeEntry_asks {graph : GraphMaps} {base : CertificateExecutionState} {run : RunOutcome σ}
    (result : reconcileCertificateRun c pass.ambient pass.cjob pass.cert base graph pass.client = some run) :
    (concludeEntry run).progress.needsRequeue = !isTerminalPhase (concludeEntry run).state.phase ∧
      (concludeEntry run).progress.anyInProgress = !isTerminalPhase (concludeEntry run).state.phase := by
  unfold concludeEntry
  cases failure : run.err with
  | some e => exact ⟨rfl, rfl⟩
  | none =>
    obtain ⟨phase, running⟩ := (reconcileCertificateRun_outline result).2.2 failure
    have ended : isTerminalPhase run.state.phase = !run.running := by
      rw [running, phase]
      exact derived_phase_terminal _
    simp only [ended, Bool.not_not, and_self]

/-- A pass asks for another one, and counts as in progress, exactly if it leaves an entry that is not terminal. -/
theorem perform_asks (performed : pass.perform c ext entry = some out) :
    out.progress.needsRequeue = !isTerminalPhase out.state.phase ∧
      out.progress.anyInProgress = !isTerminalPhase out.state.phase := by
  obtain ⟨workflowCtx, context⟩ := perform_context performed
  by_cases named : pass.cert.spec.secretName = ""
  · rw [perform_unnamed context named] at performed
    obtain rfl := Option.some.inj performed
    exact ⟨rfl, rfl⟩
  · cases input : pass.inputHash c ext with
    | none =>
      obtain ⟨message, waits⟩ := perform_blind context named input
      obtain rfl := Option.some.inj (waits.symm.trans performed)
      unfold waitForInput
      split
      · rename_i terminal
        simp only [terminal, Bool.not_true, and_self]
      · exact ⟨rfl, rfl⟩
    | some hash =>
      rw [perform_input context input] at performed
      simp only [reconcileInput] at performed
      split at performed
      · rename_i terminal
        obtain rfl := Option.some.inj performed
        simp only [terminal, Bool.not_true, and_self]
      · obtain ⟨run, result, rfl⟩ := Option.map_eq_some_iff.mp performed
        exact concludeEntry_asks result

/-- An entry that a pass leaves as it is, with no further pass asked for, has taken in the input. -/
theorem perform_unchanged (performed : pass.perform c ext entry = some out) (unchanged : out.state = entry)
    (asks : out.progress.needsRequeue = false) {hash : String} (input : pass.inputHash c ext = some hash) :
    entry.inputHash = hash := by
  have terminal : isTerminalPhase entry.phase = true := by
    rw [(perform_asks performed).1, unchanged] at asks
    simpa using asks
  rcases perform_cases c ext performed with quiet | ⟨graph, base, run, ran⟩
  · have kept := quiet.noStart
    simp only [EntryPass.starts, input, Option.any_some, startsRun, terminal, and_true, decide_eq_false_iff_not, not_or,
      not_not] at kept
    exact kept.2
  · cases opens : pass.starts c ext entry with
    | true =>
      obtain ⟨phase, message, completed, written⟩ := ran.rewritten
      have taken := (ran.fresh opens).2.1
      rw [input] at taken
      rw [← unchanged, written]
      exact (Option.some.inj taken).symm
    | false =>
      obtain ⟨message, same⟩ := ran.same opens
      have going := ran.going
      rw [same, terminal] at going
      cases going

end

structure JobPass (σ : Type) where
  ambient : Ambient
  cjob : CertificateJob
  client : σ

/-- The statuses of a CertificateJob: a reconcile's result is written or, if the write fails, lost. -/
def statusMachine {σ : Type} (c : Client σ) (ext : External) : Machine CertificateJobStatus (JobPass σ) where
  start status := status.observedCertificates = []
  step status pass next := pass.cjob.status = status ∧
    ∃ out, reconcileCertificateJob c ext pass.ambient pass.cjob pass.client = some out ∧
      (next = out.status ∨ next = status)

section
variable {σ : Type} {c : Client σ} {ext : External} {ambient : Ambient} {cjob : CertificateJob} {s : σ}

theorem reached_unique {ok : CertificateJobStatus → JobPass σ → Prop} {status : CertificateJobStatus}
    (reached : (statusMachine c ext).Reached ok status) : (status.observedCertificates.map (·.key)).Nodup := by
  refine reached.invariant (fun status => (status.observedCertificates.map (·.key)).Nodup) ?_ ?_
  · intro first empty
    rw [show first.observedCertificates = [] from empty]
    exact List.nodup_nil
  · rintro before pass next unique - ⟨rfl, out, result, rfl | rfl⟩
    · exact reconcileCertificateJob_unique unique result
    · exact unique

theorem listMatchingCertificates_listed {certs : List Certificate}
    (listed : listMatchingCertificates c ext cjob s = .ok certs) :
    ∃ all, c.listCertificates s cjob.ns = .ok all ∧
      certs.Sublist (all.insertionSort fun a b => certificateBefore a b) := by
  unfold listMatchingCertificates at listed
  cases selector : certificateSelectorForJob ext cjob with
  | error e => simp [selector, bind, Except.bind] at listed
  | ok compiled =>
    cases answer : c.listCertificates s cjob.ns with
    | error e => simp [selector, answer, bind, Except.bind] at listed
    | ok all =>
      simp only [selector, answer, bind, Except.bind, pure, Except.pure, Except.ok.injEq] at listed
      rw [← listed]
      exact ⟨all, rfl, List.filter_sublist⟩

theorem listMatchingCertificates_mem {certs : List Certificate}
    (listed : listMatchingCertificates c ext cjob s = .ok certs) {cert : Certificate} (member : cert ∈ certs) :
    ∃ all, c.listCertificates s cjob.ns = .ok all ∧ cert ∈ all := by
  obtain ⟨all, answer, part⟩ := listMatchingCertificates_listed listed
  exact ⟨all, answer, (List.mem_insertionSort _).mp (part.subset member)⟩

theorem listMatchingCertificates_distinct {certs : List Certificate}
    (listing : ∀ all, c.listCertificates s cjob.ns = .ok all → (all.map (·.key)).Nodup)
    (listed : listMatchingCertificates c ext cjob s = .ok certs) : (certs.map (·.key)).Nodup := by
  obtain ⟨all, answer, part⟩ := listMatchingCertificates_listed listed
  have sorted := ((List.perm_insertionSort (fun a b => certificateBefore a b) all).map (·.key)).nodup_iff.mpr
    (listing all answer)
  exact sorted.sublist (part.map _)

theorem reconcile_unwritten {ns name : String} {out : ReconcileOutcome σ}
    (read : c.getCertificateJob s ns name = .ok cjob) (result : reconcile c ext ambient ns name s = some out)
    (ok : out.err = none) (settled : out.requeueAfter = none) (unwritten : out.wrote = false) :
    ∃ inner, reconcileCertificateJob c ext ambient cjob s = some inner ∧ inner.status = cjob.status ∧
      inner.requeueAfter = none ∧ inner.err = none := by
  simp only [reconcile, read] at result
  obtain ⟨inner, performed, result⟩ := Option.bind_eq_some_iff.mp result
  refine ⟨inner, performed, ?_⟩
  split at result
  · rename_i same
    obtain rfl := Option.some.inj result
    have fine : inner.err = none := ok
    simp only [fine, Option.isSome_none, Bool.false_eq_true, if_false] at settled
    exact ⟨(of_decide_eq_true same).symm, settled, fine⟩
  · split at result
    · obtain rfl := Option.some.inj result
      cases ok
    · obtain rfl := Option.some.inj result
      cases unwritten

end

/-- Certificates and entries are told apart by their keys, as in the source. If a reconcile ends quietly, every matched
    certificate with a readable Secret is recorded under its current input; and a run that is going on keeps its
    input, its id and its start. -/
theorem input_change_not_lost {σ : Type} (c : Client σ) (ext : External) (ambient : Ambient) (ns name : String)
    (cjob : CertificateJob) (s : σ) (read : c.getCertificateJob s ns name = .ok cjob)
    (reached : (statusMachine c ext).Reached (fun _ _ => True) cjob.status)
    (listing : ∀ all, c.listCertificates s cjob.ns = .ok all → (all.map (·.key)).Nodup)
    (steady : ∀ s job, c.getSecret (c.createJob s job).2 = c.getSecret s) :
    (∀ out specHash graph certs, reconcile c ext ambient ns name s = some out →
      out.err = none → out.requeueAfter = none → out.wrote = false →
      buildWorkflowSpecHash ext cjob.spec = .ok specHash → buildWorkflowGraph ambient.orders cjob = .ok graph →
      listMatchingCertificates c ext cjob s = .ok certs →
      ∀ cert ∈ certs, cert.spec.secretName ≠ "" →
      ∀ secret, c.getSecret s cert.ns cert.spec.secretName = .ok secret →
      ∀ hash, buildInputHash ext cert secret specHash = .ok hash →
        ∃ entry ∈ cjob.status.observedCertificates, entry.key = cert.key ∧ entry.inputHash = hash) ∧
    (∀ out, reconcileCertificateJob c ext ambient cjob s = some out →
      ∀ entry ∈ cjob.status.observedCertificates, entry.inputHash ≠ "" → isTerminalPhase entry.phase = false →
      ∀ after ∈ out.status.observedCertificates, after.key = entry.key →
        after.inputHash = entry.inputHash ∧ after.runID = entry.runID ∧
          after.lastTriggeredTime = entry.lastTriggeredTime) := by
  have unique := reached_unique reached
  refine ⟨?_, ?_⟩
  · intro out specHash graph certs result ok settled unwritten hashed accepted listed cert member named secret readable
      hash input
    obtain ⟨inner, performed, same, calm, -⟩ := reconcile_unwritten read result ok settled unwritten
    have context : buildWorkflowContext ext ambient cjob =
        .ok ⟨ambient.clock .workflowContext, specHash, graph⟩ := buildWorkflowContext_ok_iff.mpr ⟨hashed, accepted, rfl⟩
    obtain ⟨visits, turns⟩ := reconcileCertificateJob_reconciled context listed
      (listMatchingCertificates_distinct listing listed) performed
    obtain ⟨visit, inside, rfl⟩ := turns.visit_of member
    have kept := (turns.entries_unique unique visit.out.state).mpr ⟨visit, inside, rfl⟩
    rw [same] at kept
    have turn := turns.performed visit inside
    rw [currentEntry_unique unique, entryFor_mem unique kept (turns.key inside)] at turn
    have quiet : visit.out.progress.needsRequeue = false := by
      have none := turns.requeue.symm.trans calm
      simp only [ite_eq_right_iff, reduceCtorEq, imp_false, Bool.not_eq_true, List.any_eq_false] at none
      exact none visit inside
    refine ⟨visit.out.state, kept, turns.key inside, ?_⟩
    refine perform_unchanged turn rfl quiet ?_
    rw [turns.inputHash steady inside, inputHash_eq context named]
    simp [readable, input, Except.toOption]
  · intro out result entry member opened going after inside key
    have untouched : out.status.observedCertificates = cjob.status.observedCertificates → after = entry := by
      intro same
      rw [same] at inside
      exact List.inj_on_of_nodup_map unique inside member key
    rcases reconcileCertificateJob_cases result with ⟨same, -⟩ | ⟨workflowCtx, certs, -, context, listed, -⟩
    · rw [untouched same]
      exact ⟨rfl, rfl, rfl⟩
    · obtain ⟨visits, turns⟩ := reconcileCertificateJob_reconciled context listed
        (listMatchingCertificates_distinct listing listed) result
      obtain ⟨visit, visited, rfl⟩ := (turns.entries_unique unique after).mp inside
      have turn := turns.performed visit visited
      rw [currentEntry_unique unique, entryFor_mem unique member (key.symm.trans (turns.key visited))] at turn
      exact perform_keeps_run turn opened going

def Cluster.round (cluster : Cluster) : Option Cluster :=
  (reconcileCertificateJob clusterClient plainExternal cluster.pass.ambient cluster.cjob cluster).map fun out =>
    { out.client with cjob := { cluster.cjob with status := out.status } }

theorem round_reached (ok : CertificateJobStatus → JobPass Cluster → Prop) (cluster : Cluster) {next : Cluster}
    (allowed : ok cluster.cjob.status ⟨cluster.pass.ambient, cluster.cjob, cluster⟩)
    (reached : (statusMachine clusterClient plainExternal).Reached ok cluster.cjob.status)
    (round : cluster.round = some next) : (statusMachine clusterClient plainExternal).Reached ok next.cjob.status := by
  obtain ⟨out, result, rfl⟩ := Option.map_eq_some_iff.mp round
  exact reached.step allowed ⟨rfl, out, result, .inl rfl⟩

theorem clusterClient_secrets (cluster : Cluster) (job : Job) :
    clusterClient.getSecret (clusterClient.createJob cluster job).2 = clusterClient.getSecret cluster := by
  simp only [clusterClient, Cluster.createJob]
  split <;> rfl

theorem clusterClient_namespace (cluster : Cluster) (ns : String) :
    ∀ all, clusterClient.listCertificates cluster ns = .ok all → ∀ cert ∈ all, cert.ns = ns := by
  rintro _ ⟨⟩ cert member
  simpa using (List.mem_filter.mp member).2

theorem clusterClient_listing {cluster : Cluster} (distinct : (cluster.certificates.map (·.key)).Nodup) (ns : String) :
    ∀ all, clusterClient.listCertificates cluster ns = .ok all → (all.map (·.key)).Nodup := by
  rintro _ ⟨⟩
  exact distinct.sublist (List.filter_sublist.map _)

theorem input_change_not_lost_at_rest :
    ∃ cluster cert secret specHash entry,
      (statusMachine clusterClient plainExternal).Reached (fun _ _ => True) cluster.cjob.status ∧
      (reconcile clusterClient plainExternal cluster.pass.ambient "default" "renewal" cluster).any (fun out =>
        out.err.isNone ∧ out.requeueAfter = none ∧ out.wrote = false) ∧
      cert ∈ cluster.certificates ∧ clusterClient.getSecret cluster cert.ns cert.spec.secretName = .ok secret ∧
      buildWorkflowSpecHash plainExternal cluster.cjob.spec = .ok specHash ∧
      entry ∈ cluster.cjob.status.observedCertificates ∧ entry.key = cert.key ∧
      buildInputHash plainExternal cert secret specHash = .ok entry.inputHash := by
  have played : ((sampleCluster (flatSpec ["a"] 1 .stopDownstream)).round.bind fun first =>
      (first.report "a" completeStatus).round).any (fun cluster =>
        (reconcile clusterClient plainExternal cluster.pass.ambient "default" "renewal" cluster).any (fun out =>
          out.err.isNone ∧ out.requeueAfter = none ∧ out.wrote = false) ∧
        (cluster.cjob.ns = "default" ∧ cluster.cjob.name = "renewal") ∧ (cluster.certificates.map (·.key)).Nodup ∧
        (buildWorkflowGraph cluster.pass.ambient.orders cluster.cjob).toOption.isSome ∧
        (listMatchingCertificates clusterClient plainExternal cluster.cjob cluster).toOption.any (fun certs =>
          certs.any fun cert => cert.spec.secretName ≠ "" ∧ (cluster.secrets cert.ns cert.spec.secretName).isSome)) =
      true := by
    decide +kernel
  obtain ⟨cluster, rounds, checked⟩ := (Option.any_eq_true _ _).mp played
  obtain ⟨quiet, identity, distinct, accepted, matched⟩ := of_decide_eq_true checked
  obtain ⟨first, opened, closed⟩ := Option.bind_eq_some_iff.mp rounds
  have fresh : (statusMachine clusterClient plainExternal).start
      (sampleCluster (flatSpec ["a"] 1 .stopDownstream)).cjob.status := rfl
  have started := round_reached (fun _ _ => True) _ trivial (.of_start fresh) opened
  have reached := round_reached _ (first.report "a" completeStatus) trivial started closed
  obtain ⟨out, result, ended⟩ := (Option.any_eq_true _ _).mp quiet
  obtain ⟨ok, settled, unwritten⟩ := of_decide_eq_true ended
  obtain ⟨graph, built⟩ := Option.isSome_iff_exists.mp accepted
  obtain ⟨certs, listed, present⟩ := (Option.any_eq_true _ _).mp matched
  obtain ⟨cert, member, readable⟩ := List.any_eq_true.mp present
  obtain ⟨named, stored⟩ := of_decide_eq_true readable
  obtain ⟨secret, found⟩ := Option.isSome_iff_exists.mp stored
  have read : clusterClient.getSecret cluster cert.ns cert.spec.secretName = .ok secret := by
    simp [clusterClient, found]
  obtain ⟨entry, inside, key, input⟩ := (input_change_not_lost clusterClient plainExternal cluster.pass.ambient "default"
    "renewal" cluster.cjob cluster (if_pos identity) reached (clusterClient_listing distinct _) clusterClient_secrets).1
    out _ graph certs result (by simpa using ok) settled unwritten rfl (ok_of_toOption built) (ok_of_toOption listed)
    cert member named secret read _ rfl
  refine ⟨cluster, cert, secret, _, entry, reached, quiet, ?_, read, rfl, inside, key, by rw [input]; rfl⟩
  obtain ⟨all, answer, inside⟩ := listMatchingCertificates_mem (ok_of_toOption listed) member
  obtain rfl := Except.ok.inj answer
  exact (List.mem_filter.mp inside).1

end CertificateJobs
