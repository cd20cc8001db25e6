import CertificateJobs.Runs.Input

namespace CertificateJobs

structure WorkflowNodeState.WellFormed (jobName : String → String) (node : WorkflowNodeState) : Prop where
  idle : node.jobName = "" ↔ node.phase = .pending ∨ node.phase = .skipped
  started : node.startedAt.isSome = true ↔ node.jobName ≠ ""
  named : node.jobName ≠ "" → node.jobName = jobName node.name

structure CertificateExecutionState.WellFormed (cjobName : String) (entry : CertificateExecutionState) : Prop where
  triggered : entry.inputHash ≠ "" → entry.runID = String.ofList (entry.inputHash.toList.take 12)
  untriggered : entry.inputHash = "" → entry.runID = "" ∧ entry.nodes = []
  completed : entry.lastCompletedTime.isSome = isTerminalPhase entry.phase
  distinct : (nodeNames entry.nodes).Nodup
  nodes : ∀ node ∈ entry.nodes, node.WellFormed fun name => buildJobName cjobName entry.name name entry.runID

theorem shortHash_eq_take (text : String) (n : Nat) : shortHash text n = String.ofList (text.toList.take n) := by
  unfold shortHash
  split
  · rename_i short
    rw [List.take_of_length_le (by rwa [String.length_toList]), String.ofList_toList]
  · rfl

section
variable {jobName : String → String}

theorem pendingNode_wellFormed (jobName : String → String) (name : String) : (pendingNode name).WellFormed jobName :=
  ⟨iff_of_true rfl (.inl rfl), by simp [pendingNode], fun has => absurd rfl has⟩

@[simp] theorem writeSight_startedAt (now : Time) (node : WorkflowNodeState) (seen : Sight) :
    (writeSight now node seen).startedAt = node.startedAt := by
  cases seen <;> simp only [writeSight]
  split <;> rfl

theorem writeSight_wellFormed {node : WorkflowNodeState} (before : node.WellFormed jobName) (has : node.jobName ≠ "")
    (now : Time) (seen : Sight) : (writeSight now node seen).WellFormed jobName := by
  refine ⟨?_, by simpa using before.started, by simpa using before.named⟩
  rw [writeSight_jobName]
  refine iff_of_false has ?_
  rintro (waiting | skipped)
  · exact writeSight_not_pending waiting
  · exact has (before.idle.mpr (.inr (writeSight_skipped skipped)))

theorem markSkipped_wellFormed {node : WorkflowNodeState} (before : node.WellFormed jobName) (idle : node.jobName = "")
    (message : String) (t : String → Time) : (markSkipped message t node).WellFormed jobName :=
  ⟨iff_of_true idle (.inr rfl), before.started, before.named⟩

theorem markStarted_wellFormed (node : WorkflowNodeState) (now : Time) (nonempty : jobName node.name ≠ "") :
    (markStarted (jobName node.name) now node).WellFormed jobName :=
  ⟨iff_of_false nonempty (by simp [markStarted]), iff_of_true rfl nonempty, fun _ => rfl⟩

end

section
variable {σ : Type} {c : Client σ} {ext : External} {pass : EntryPass σ} {entry : CertificateExecutionState}
  {out : EntryOutcome σ}

theorem concludeEntry_completed {ambient : Ambient} {cjob : CertificateJob} {cert : Certificate} {graph : GraphMaps}
    {s : σ} {run : RunOutcome σ} (going : isTerminalPhase entry.phase = false)
    (before : entry.lastCompletedTime.isSome = isTerminalPhase entry.phase)
    (result : reconcileCertificateRun c ambient cjob cert entry graph s = some run) :
    (concludeEntry run).state.lastCompletedTime.isSome = isTerminalPhase (concludeEntry run).state.phase := by
  unfold concludeEntry
  cases failure : run.err with
  | some e => rfl
  | none =>
    simp only [reconcileCertificateRun] at result
    split at result
    · obtain rfl := Option.some.inj result
      cases failure
    · obtain ⟨remaining, -, result⟩ := Option.bind_eq_some_iff.mp result
      obtain ⟨scheduling, -, result⟩ := Option.bind_eq_some_iff.mp result
      obtain rfl := Option.some.inj result
      rw [concludeRun_err] at failure
      simp only [concludeRun, failure]
      cases ended : isTerminalPhase (deriveWorkflowPhase scheduling.nodes) with
      | true => rfl
      | false => rw [if_neg (by simp), before, going]

theorem applyInputHashTransition_completed (cjob : CertificateJob) (cert : Certificate) (hash : String) (now : Time)
    (before : entry.lastCompletedTime.isSome = isTerminalPhase entry.phase) :
    (applyInputHashTransition cjob cert entry hash now).lastCompletedTime.isSome =
      isTerminalPhase (applyInputHashTransition cjob cert entry hash now).phase := by
  unfold applyInputHashTransition
  split
  · rfl
  · split
    · exact before
    · exact before

theorem waitForInput_completed (cert : Certificate) (message : String) (s : σ)
    (before : entry.lastCompletedTime.isSome = isTerminalPhase entry.phase) :
    (waitForInput cert entry message s).state.lastCompletedTime.isSome =
      isTerminalPhase (waitForInput cert entry message s).state.phase := by
  unfold waitForInput
  split
  · exact before
  · rfl

theorem perform_completed (performed : pass.perform c ext entry = some out)
    (before : entry.lastCompletedTime.isSome = isTerminalPhase entry.phase) :
    out.state.lastCompletedTime.isSome = isTerminalPhase out.state.phase := by
  obtain ⟨workflowCtx, context⟩ := perform_context performed
  by_cases named : pass.cert.spec.secretName = ""
  · rw [perform_unnamed context named] at performed
    obtain rfl := Option.some.inj performed
    rfl
  · cases input : pass.inputHash c ext with
    | none =>
      obtain ⟨message, waits⟩ := perform_blind context named input
      obtain rfl := Option.some.inj (waits.symm.trans performed)
      exact waitForInput_completed _ _ _ before
    | some hash =>
      have base := applyInputHashTransition_completed pass.cjob pass.cert hash workflowCtx.now before
      rw [perform_input context input] at performed
      simp only [reconcileInput] at performed
      split at performed
      · obtain rfl := Option.some.inj performed
        exact base
      · rename_i going
        obtain ⟨run, result, rfl⟩ := Option.map_eq_some_iff.mp performed
        exact concludeEntry_completed (by simpa using going) base result

variable {graph : GraphMaps} {base : CertificateExecutionState} {run : RunOutcome σ} {cjobName : String}

theorem Ran.named (ran : Ran c ext pass entry out graph base run) (before : entry.WellFormed cjobName) :
    base.runID = String.ofList (base.inputHash.toList.take 12) ∧
      ∀ node ∈ base.nodes, node.WellFormed fun name => buildJobName cjobName entry.name name base.runID := by
  cases starts : pass.starts c ext entry with
  | true =>
    obtain ⟨nodes, -, runID⟩ := ran.fresh starts
    rw [nodes, runID]
    refine ⟨shortHash_eq_take _ _, ?_⟩
    intro node member
    obtain ⟨name, -, rfl⟩ := mem_initial member
    exact pendingNode_wellFormed _ name
  | false =>
    have opened := ran.triggered
    obtain ⟨message, same⟩ := ran.same starts
    rw [same] at opened ⊢
    exact ⟨before.triggered opened, before.nodes⟩

theorem perform_wellFormed (performed : pass.perform c ext entry = some out) (ofJob : pass.cjob.name = cjobName)
    (ofCert : pass.cert.name = entry.name) (before : entry.WellFormed cjobName) : out.state.WellFormed cjobName := by
  have completed := perform_completed performed before.completed
  rcases perform_cases c ext performed with quiet | ⟨graph, base, run, ran⟩
  · obtain ⟨secretName, phase, message, ended, written⟩ := quiet.rewritten
    rw [written] at completed ⊢
    exact ⟨before.triggered, before.untriggered, completed, before.distinct, before.nodes⟩
  · have unique := ran.unique before.distinct
    obtain ⟨runID, nodes⟩ := ran.named before
    obtain ⟨phase, message, ended, written⟩ := ran.rewritten
    have distinct : (nodeNames out.state.nodes).Nodup := by
      rw [ran.concluded, concludeEntry_nodes, reconcileCertificateRun_names ran.accepted unique ran.result]
      exact ensure_unique ran.accepted.names unique
    rw [← ofJob, ← ofCert] at nodes
    have after := reconcileCertificateRun_nodes ran.accepted unique ran.result
      (WorkflowNodeState.WellFormed fun name => buildJobName pass.cjob.name pass.cert.name name base.runID)
      (pendingNode_wellFormed _) (fun _ now sight held has => writeSight_wellFormed held has now sight)
      (fun _ message t held idle => markSkipped_wellFormed held idle message t)
      (fun node now _ => markStarted_wellFormed node now (buildJobName_ne_empty _ _ _ _)) nodes
    rw [written] at completed distinct ⊢
    refine ⟨fun _ => runID, fun none => absurd none ran.triggered, completed, distinct, ?_⟩
    rw [ofJob, ofCert, ← ran.identity.2] at after
    exact after

end

def JobPass.Of {σ : Type} (ns name : String) : CertificateJobStatus → JobPass σ → Prop :=
  fun _ pass => pass.cjob.ns = ns ∧ pass.cjob.name = name

section
variable {σ : Type} {c : Client σ} {ext : External} {ns name : String} {status : CertificateJobStatus}

/-- To show a property of every entry, show it of a new one and of what one pass makes of an entry. -/
theorem reached_entries (holds : CertificateExecutionState → Prop)
    (listing : ∀ s all, c.listCertificates s ns = .ok all → ∀ cert ∈ all, cert.ns = ns)
    (new : ∀ certName, holds { ns := ns, name := certName, phase := .pending })
    (keep : ∀ (pass : EntryPass σ) entry out, pass.cjob.name = name → pass.cert.ns = ns → entry.key = pass.cert.key →
      holds entry → pass.perform c ext entry = some out → holds out.state)
    (reached : (statusMachine c ext).Reached (JobPass.Of ns name) status) :
    ∀ entry ∈ status.observedCertificates, holds entry := by
  refine reached.invariant (fun status => ∀ entry ∈ status.observedCertificates, holds entry) ?_ ?_
  · intro first empty
    rw [show first.observedCertificates = [] from empty]
    simp
  · rintro before pass next held ⟨here, named⟩ ⟨rfl, out, result, rfl | rfl⟩
    · have within : ∀ certs, listMatchingCertificates c ext pass.cjob pass.client = .ok certs →
          ∀ cert ∈ certs, cert.ns = ns := by
        intro certs listed cert member
        obtain ⟨all, answer, inside⟩ := listMatchingCertificates_mem listed member
        rw [here] at answer
        exact listing _ all answer cert inside
      refine reconcileCertificateJob_entries holds ?_ ?_ result held
      · intro certs listed cert member
        rw [within certs listed cert member]
        exact new cert.name
      · intro certs listed cert member client entry out key
        exact keep ⟨pass.ambient, pass.cjob, cert, client⟩ entry out named (within certs listed cert member) key
    · exact held

theorem reached_wellFormed (listing : ∀ s all, c.listCertificates s ns = .ok all → ∀ cert ∈ all, cert.ns = ns)
    (reached : (statusMachine c ext).Reached (JobPass.Of ns name) status) :
    ∀ entry ∈ status.observedCertificates, entry.ns = ns ∧ entry.WellFormed name := by
  refine reached_entries (fun entry => entry.ns = ns ∧ entry.WellFormed name) listing ?_ ?_ reached
  · intro certName
    exact ⟨rfl, by simp, by simp, rfl, List.nodup_nil, by simp⟩
  · intro pass entry out ofJob here key held performed
    obtain ⟨entryNs, wellFormed⟩ := held
    have same : pass.cert.name = entry.name := by
      unfold CertificateExecutionState.key Certificate.key at key
      rw [entryNs, here] at key
      exact (certificateKey_name key).symm
    exact ⟨(perform_identity performed).1.trans entryNs, perform_wellFormed performed ofJob same wellFormed⟩

end

/-- Every entry that the reconciles of a CertificateJob can reach from an empty status is well formed. -/
theorem entries_well_formed {σ : Type} (c : Client σ) (ext : External) (ns name : String) (status : CertificateJobStatus)
    (listing : ∀ s all, c.listCertificates s ns = .ok all → ∀ cert ∈ all, cert.ns = ns)
    (reached : (statusMachine c ext).Reached (JobPass.Of ns name) status) :
    ∀ entry ∈ status.observedCertificates, entry.WellFormed name :=
  fun entry member => (reached_wellFormed listing reached entry member).2

theorem entries_well_formed_started :
    ∃ status, (statusMachine clusterClient plainExternal).Reached (JobPass.Of "default" "renewal") status ∧
      (∃ entry ∈ status.observedCertificates, ∃ node ∈ entry.nodes, node.jobName ≠ "") ∧
      ∀ entry ∈ status.observedCertificates, entry.WellFormed "renewal" := by
  have played : (sampleCluster (flatSpec ["a"] 1 .stopDownstream)).round.any (fun cluster =>
      cluster.cjob.status.observedCertificates.any fun entry => entry.nodes.any fun node => node.jobName ≠ "") = true := by
    decide +kernel
  obtain ⟨cluster, round, checked⟩ := (Option.any_eq_true _ _).mp played
  have fresh : (statusMachine clusterClient plainExternal).start
      (sampleCluster (flatSpec ["a"] 1 .stopDownstream)).cjob.status := rfl
  have reached := round_reached (JobPass.Of "default" "renewal") _ ⟨rfl, rfl⟩ (.of_start fresh) round
  refine ⟨_, reached, by simpa using checked, ?_⟩
  exact entries_well_formed clusterClient plainExternal "default" "renewal" _
    (fun cluster => clusterClient_namespace cluster "default") reached

end CertificateJobs
