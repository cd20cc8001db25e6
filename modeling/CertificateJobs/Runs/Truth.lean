import CertificateJobs.Controller.Conditions
import CertificateJobs.Runs.Input

namespace CertificateJobs

def conditionStatus (conditions : List Condition) (type : String) : Option ConditionStatus :=
  (findStatusCondition conditions type).map (·.status)

/-- Degraded and Ready say whether some certificate's workflow failed. -/
def CertificateJobStatus.TellsTruth (status : CertificateJobStatus) : Prop :=
  ((∃ entry ∈ status.observedCertificates, entry.phase = .failed) →
    conditionStatus status.conditions "Degraded" = some .true ∧
      conditionStatus status.conditions "Ready" = some .false) ∧
  ((∀ entry ∈ status.observedCertificates, entry.phase ≠ .failed) →
    conditionStatus status.conditions "Degraded" = some .false ∧
      conditionStatus status.conditions "Ready" = some .true)

theorem Shows.status {conditions : List Condition} {type reason message : String} {status : ConditionStatus}
    {generation : Int} (shown : Shows conditions type status generation reason message) :
    conditionStatus conditions type = some status := by
  obtain ⟨since, found⟩ := shown
  rw [conditionStatus, found]
  rfl

theorem applyCertificateJobConditions_status {ext : External} (sets : ext.SetsConditions) (ambient : Ambient) (cjob : CertificateJob) (count : Nat)
    (progress : CertificateWorkflowProgress) :
    conditionStatus (applyCertificateJobConditions ext ambient cjob count progress) "Degraded" =
        some (if progress.anyFailed then .true else .false) ∧
      conditionStatus (applyCertificateJobConditions ext ambient cjob count progress) "Ready" =
        some (if progress.anyFailed then .false else .true) ∧
      conditionStatus (applyCertificateJobConditions ext ambient cjob count progress) "Progressing" =
        some (if progress.anyInProgress then .true else .false) := by
  have shown := workflowSettings_shown sets ambient cjob count progress
  have degraded := (shown _ List.mem_cons_self).status
  have ready := (shown _ (List.mem_cons_of_mem _ List.mem_cons_self)).status
  have progressing := (shown _ (List.mem_cons_of_mem _ (List.mem_cons_of_mem _ List.mem_cons_self))).status
  refine ⟨?_, ?_, ?_⟩
  · cases failed : progress.anyFailed <;> simpa [failed] using degraded
  · cases failed : progress.anyFailed <;> by_cases none : count = 0 <;> simpa [failed, none] using ready
  · cases going : progress.anyInProgress <;> simpa [going] using progressing

section
variable {σ : Type} (c : Client σ) (ext : External)

def Overlooks (pass : EntryPass σ) (entry : CertificateExecutionState) : Prop :=
  pass.cert.spec.secretName ≠ "" ∧ pass.inputHash c ext = none ∧ entry.phase = .failed

variable {c ext} {pass : EntryPass σ} {entry : CertificateExecutionState} {out : EntryOutcome σ}

/-- A pass counts a failure exactly if it leaves the entry Failed and has not overlooked it. -/
theorem perform_counts (performed : pass.perform c ext entry = some out) :
    out.progress.anyFailed = true ↔ out.state.phase = .failed ∧ ¬ Overlooks c ext pass entry := by
  obtain ⟨workflowCtx, context⟩ := perform_context performed
  by_cases named : pass.cert.spec.secretName = ""
  · rw [perform_unnamed context named] at performed
    obtain rfl := Option.some.inj performed
    simp [Overlooks, named]
  · cases input : pass.inputHash c ext with
    | none =>
      obtain ⟨message, waits⟩ := perform_blind context named input
      obtain rfl := Option.some.inj (waits.symm.trans performed)
      unfold waitForInput
      split
      · simp [Overlooks, named, input]
      · simp
    | some hash =>
      rw [perform_input context input] at performed
      simp only [reconcileInput] at performed
      generalize applyInputHashTransition pass.cjob pass.cert entry hash workflowCtx.now = base at performed
      split at performed
      · obtain rfl := Option.some.inj performed
        simp [Overlooks, input]
      · obtain ⟨run, result, rfl⟩ := Option.map_eq_some_iff.mp performed
        unfold concludeEntry
        cases failure : run.err with
        | some e => simp
        | none => simp [Overlooks, input, reconcileCertificateRun_flag result failure]

theorem Overlooks.stays (overlooked : Overlooks c ext pass entry) (performed : pass.perform c ext entry = some out) :
    out.state.phase = .failed := by
  obtain ⟨named, input, failed⟩ := overlooked
  obtain ⟨workflowCtx, context⟩ := perform_context performed
  obtain ⟨message, waits⟩ := perform_blind context named input
  obtain rfl := Option.some.inj (waits.symm.trans performed)
  simp [waitForInput, failed, isTerminalPhase]

end

section
variable {σ : Type} (c : Client σ) (ext : External) (ambient : Ambient) (cjob : CertificateJob)

/-- The prior status has a Failed entry that the reconcile leaves and does not count: its input cannot be read, or a
    later entry has the same key. -/
def OverlooksFailure (certs : List Certificate) (s : σ) : Prop :=
  (∃ cert ∈ certs, Overlooks c ext ⟨ambient, cjob, cert, s⟩ (currentEntry cjob.status.observedCertificates cert)) ∨
  ∃ entry ∈ cjob.status.observedCertificates.staleBy (·.key), entry.key ∈ certs.map (·.key) ∧ entry.phase = .failed

variable {c ext ambient cjob} {s : σ} {certs : List Certificate} {out : JobOutcome σ} {visits : List (Visit σ)}

theorem Reconciled.overlooks (turns : Reconciled c ext ambient cjob s certs out visits)
    (steady : ∀ s job, c.getSecret (c.createJob s job).2 = c.getSecret s) {visit : Visit σ} (member : visit ∈ visits)
    (entry : CertificateExecutionState) :
    Overlooks c ext ⟨ambient, cjob, visit.cert, visit.client⟩ entry ↔ Overlooks c ext ⟨ambient, cjob, visit.cert, s⟩ entry := by
  simp only [Overlooks, turns.inputHash steady member]

theorem Reconciled.counts (turns : Reconciled c ext ambient cjob s certs out visits)
    (steady : ∀ s job, c.getSecret (c.createJob s job).2 = c.getSecret s) :
    (totalProgress {} visits).anyFailed = true ↔ ∃ cert ∈ certs,
      ¬ Overlooks c ext ⟨ambient, cjob, cert, s⟩ (currentEntry cjob.status.observedCertificates cert) ∧
        (currentEntry out.status.observedCertificates cert).phase = .failed := by
  simp only [totalProgress, Bool.false_or, List.any_eq_true]
  constructor
  · rintro ⟨visit, member, failed⟩
    obtain ⟨left, seen⟩ := (perform_counts (turns.performed visit member)).mp failed
    rw [turns.overlooks steady member] at seen
    exact ⟨visit.cert, turns.matched member, seen, by rw [turns.entry member, left]⟩
  · rintro ⟨cert, matched, seen, left⟩
    obtain ⟨visit, member, rfl⟩ := turns.visit_of matched
    rw [turns.entry member] at left
    rw [← turns.overlooks steady member] at seen
    exact ⟨visit, member, (perform_counts (turns.performed visit member)).mpr ⟨left, seen⟩⟩

theorem Reconciled.failed_entry (turns : Reconciled c ext ambient cjob s certs out visits)
    (steady : ∀ s job, c.getSecret (c.createJob s job).2 = c.getSecret s) :
    (∃ entry ∈ out.status.observedCertificates, entry.phase = .failed) ↔
      (totalProgress {} visits).anyFailed = true ∨ OverlooksFailure c ext ambient cjob certs s := by
  have left : ∀ visit ∈ visits, visit.out.state ∈ out.status.observedCertificates :=
    fun visit member => (turns.entries _).mpr (.inl ⟨visit, member, rfl⟩)
  constructor
  · rintro ⟨entry, member, failed⟩
    rcases (turns.entries entry).mp member with ⟨visit, inside, rfl⟩ | ⟨stale, matched⟩
    · by_cases seen : Overlooks c ext ⟨ambient, cjob, visit.cert, s⟩ (currentEntry cjob.status.observedCertificates visit.cert)
      · exact .inr (.inl ⟨visit.cert, turns.matched inside, seen⟩)
      · exact .inl ((turns.counts steady).mpr ⟨visit.cert, turns.matched inside, seen, by rw [turns.entry inside, failed]⟩)
    · exact .inr (.inr ⟨entry, stale, matched, failed⟩)
  · rintro (counted | ⟨cert, matched, overlooked⟩ | ⟨entry, stale, matched, failed⟩)
    · obtain ⟨cert, matched, -, failed⟩ := (turns.counts steady).mp counted
      obtain ⟨visit, inside, rfl⟩ := turns.visit_of matched
      rw [turns.entry inside] at failed
      exact ⟨_, left visit inside, failed⟩
    · obtain ⟨visit, inside, rfl⟩ := turns.visit_of matched
      rw [← turns.overlooks steady inside] at overlooked
      exact ⟨_, left visit inside, overlooked.stays (turns.performed visit inside)⟩
    · exact ⟨entry, (turns.entries _).mpr (.inr ⟨stale, matched⟩), failed⟩

theorem Reconciled.tellsTruth_iff (sets : ext.SetsConditions) (turns : Reconciled c ext ambient cjob s certs out visits) :
    out.status.TellsTruth ↔ ((totalProgress {} visits).anyFailed = true ↔
      ∃ entry ∈ out.status.observedCertificates, entry.phase = .failed) := by
  obtain ⟨degraded, ready, -⟩ := applyCertificateJobConditions_status sets ambient cjob certs.length
    (totalProgress {} visits)
  rw [← turns.conditions] at degraded ready
  unfold CertificateJobStatus.TellsTruth
  rw [degraded, ready]
  cases (totalProgress {} visits).anyFailed with
  | true =>
    simp only [if_true, and_self, implies_true, true_and, true_iff]
    constructor
    · intro impossible
      by_contra none
      simp at none
      simpa using impossible none
    · rintro ⟨entry, member, failed⟩ none
      exact absurd failed (none entry member)
  | false => simp

end

/-- Degraded and Ready tell the truth unless the prior status has a failure that the reconcile overlooks; even then they
    do exactly if a certificate whose failure is not overlooked is left Failed too. -/
theorem conditions_tell_truth {σ : Type} (c : Client σ) (ext : External) (ambient : Ambient) (cjob : CertificateJob)
    (s : σ) (workflowCtx : WorkflowContext) (certs : List Certificate) (out : JobOutcome σ)
    (sets : ext.SetsConditions) (context : buildWorkflowContext ext ambient cjob = .ok workflowCtx)
    (listing : ∀ all, c.listCertificates s cjob.ns = .ok all → (all.map (·.key)).Nodup)
    (steady : ∀ s job, c.getSecret (c.createJob s job).2 = c.getSecret s)
    (listed : listMatchingCertificates c ext cjob s = .ok certs)
    (result : reconcileCertificateJob c ext ambient cjob s = some out) :
    (¬ OverlooksFailure c ext ambient cjob certs s → out.status.TellsTruth) ∧
    (OverlooksFailure c ext ambient cjob certs s → (out.status.TellsTruth ↔ ∃ cert ∈ certs,
      ¬ Overlooks c ext ⟨ambient, cjob, cert, s⟩ (currentEntry cjob.status.observedCertificates cert) ∧
        (currentEntry out.status.observedCertificates cert).phase = .failed)) := by
  obtain ⟨visits, turns⟩ := reconcileCertificateJob_reconciled context listed
    (listMatchingCertificates_distinct listing listed) result
  rw [← turns.counts steady, turns.tellsTruth_iff sets, turns.failed_entry steady]
  tauto

def Cluster.dropSecret (cluster : Cluster) : Cluster := { cluster with secrets := fun _ _ => none }

theorem Reconciled.in_progress {σ : Type} {c : Client σ} {ext : External} {ambient : Ambient} {cjob : CertificateJob}
    {s : σ} {certs : List Certificate} {out : JobOutcome σ} {visits : List (Visit σ)}
    (turns : Reconciled c ext ambient cjob s certs out visits) :
    (totalProgress {} visits).anyInProgress = visits.any (·.out.progress.needsRequeue) := by
  simp only [totalProgress, Bool.false_or]
  rw [Bool.eq_iff_iff, List.any_eq_true, List.any_eq_true]
  refine exists_congr fun visit => and_congr_right fun member => ?_
  obtain ⟨asks, counts⟩ := perform_asks (turns.performed visit member)
  rw [asks, counts]

/-- A reconcile that gets to its conditions asks for a requeue, and reports Progressing, exactly if it leaves an entry
    that is not terminal. -/
theorem progressing_requeue_agree {σ : Type} (c : Client σ) (ext : External) (ambient : Ambient) (cjob : CertificateJob)
    (s : σ) (workflowCtx : WorkflowContext) (certs : List Certificate)
    (sets : ext.SetsConditions) (unique : (cjob.status.observedCertificates.map (·.key)).Nodup)
    (listing : ∀ all, c.listCertificates s cjob.ns = .ok all → (all.map (·.key)).Nodup)
    (context : buildWorkflowContext ext ambient cjob = .ok workflowCtx)
    (listed : listMatchingCertificates c ext cjob s = .ok certs) :
    ∃ out, reconcileCertificateJob c ext ambient cjob s = some out ∧
      (out.requeueAfter.isSome = true ↔
        ∃ entry ∈ out.status.observedCertificates, isTerminalPhase entry.phase = false) ∧
      (conditionStatus out.status.conditions "Progressing" = some .true ↔
        ∃ entry ∈ out.status.observedCertificates, isTerminalPhase entry.phase = false) := by
  obtain ⟨out, result⟩ := reconcileCertificateJob_total c ext ambient cjob s
  obtain ⟨visits, turns⟩ := reconcileCertificateJob_reconciled context listed
    (listMatchingCertificates_distinct listing listed) result
  have asks : visits.any (·.out.progress.needsRequeue) = true ↔
      ∃ entry ∈ out.status.observedCertificates, isTerminalPhase entry.phase = false := by
    simp only [turns.entries_unique unique, List.any_eq_true]
    constructor
    · rintro ⟨visit, member, asks⟩
      rw [(perform_asks (turns.performed visit member)).1] at asks
      exact ⟨_, ⟨visit, member, rfl⟩, by simpa using asks⟩
    · rintro ⟨_, ⟨visit, member, rfl⟩, going⟩
      exact ⟨visit, member, by rw [(perform_asks (turns.performed visit member)).1, going]; rfl⟩
  have progressing := (applyCertificateJobConditions_status sets ambient cjob certs.length
    (totalProgress {} visits)).2.2
  rw [← turns.conditions, turns.in_progress] at progressing
  refine ⟨out, result, ?_, ?_⟩
  · rw [turns.requeue, ← asks]
    split <;> simp_all
  · rw [progressing, ← asks]
    split <;> simp_all

def waitingCluster : Cluster := (sampleCluster (flatSpec ["a"] 1 .stopDownstream)).dropSecret

theorem waitingCluster_played :
    (waitingCluster.cjob.status.observedCertificates = [] ∧ (waitingCluster.certificates.map (·.key)).Nodup) ∧
      (buildWorkflowContext plainExternal waitingCluster.pass.ambient waitingCluster.cjob).toOption.isSome ∧
      (listMatchingCertificates clusterClient plainExternal waitingCluster.cjob waitingCluster).toOption.isSome ∧
      (reconcileCertificateJob clusterClient plainExternal waitingCluster.pass.ambient waitingCluster.cjob
        waitingCluster).any fun out => out.status.observedCertificates.any (isTerminalPhase ·.phase = false) := by
  decide +kernel

theorem progressing_requeue_agree_waiting :
    ∃ out, reconcileCertificateJob clusterClient plainExternal waitingCluster.pass.ambient waitingCluster.cjob
        waitingCluster = some out ∧
      out.requeueAfter.isSome = true ∧ conditionStatus out.status.conditions "Progressing" = some .true := by
  obtain ⟨⟨fresh, distinct⟩, accepted, matched, waits⟩ := waitingCluster_played
  obtain ⟨workflowCtx, context⟩ := Option.isSome_iff_exists.mp accepted
  obtain ⟨certs, listed⟩ := Option.isSome_iff_exists.mp matched
  obtain ⟨out, result, requeue, progressing⟩ := progressing_requeue_agree clusterClient plainExternal
    waitingCluster.pass.ambient waitingCluster.cjob waitingCluster workflowCtx certs plainExternal_setsConditions
    (by rw [fresh]; exact List.nodup_nil) (clusterClient_listing distinct _) (ok_of_toOption context) (ok_of_toOption listed)
  have going : ∃ entry ∈ out.status.observedCertificates, isTerminalPhase entry.phase = false := by
    simpa [result] using waits
  exact ⟨out, result, requeue.mpr going, progressing.mpr going⟩

def failedRun : Option Cluster :=
  (sampleCluster (flatSpec ["a"] 1 .stopDownstream)).round.bind fun first => (first.report "a" failedStatus).round

theorem failedRun_played :
    failedRun.any (fun cluster =>
      ((cluster.cjob.status.observedCertificates.staleBy (·.key)).isEmpty ∧
        (cluster.certificates.map (·.key)).Nodup ∧
        (buildWorkflowContext plainExternal cluster.pass.ambient cluster.cjob).toOption.isSome ∧
        (listMatchingCertificates clusterClient plainExternal cluster.cjob cluster).toOption.any (fun certs =>
          certs.all fun cert => (EntryPass.inputHash clusterClient plainExternal
            ⟨cluster.pass.ambient, cluster.cjob, cert, cluster⟩).isSome) ∧
        (reconcileCertificateJob clusterClient plainExternal cluster.pass.ambient cluster.cjob cluster).any fun out =>
          out.status.observedCertificates.any (·.phase = .failed)) ∧
      (reconcileCertificateJob clusterClient plainExternal cluster.dropSecret.pass.ambient cluster.dropSecret.cjob
        cluster.dropSecret).any fun out =>
          out.status.observedCertificates.any (·.phase = .failed) ∧
          conditionStatus out.status.conditions "Degraded" = some .false ∧
          conditionStatus out.status.conditions "Ready" = some .true) = true := by
  decide +kernel

theorem conditions_tell_truth_readable :
    ∃ (cluster : Cluster) (out : JobOutcome Cluster),
      reconcileCertificateJob clusterClient plainExternal cluster.pass.ambient cluster.cjob cluster = some out ∧
      (∃ entry ∈ out.status.observedCertificates, entry.phase = .failed) ∧ out.status.TellsTruth := by
  obtain ⟨cluster, -, checked⟩ := (Option.any_eq_true _ _).mp failedRun_played
  obtain ⟨⟨current, distinct, accepted, matched, performs⟩, -⟩ := of_decide_eq_true checked
  obtain ⟨workflowCtx, context⟩ := Option.isSome_iff_exists.mp accepted
  obtain ⟨certs, listed, readable⟩ := (Option.any_eq_true _ _).mp matched
  obtain ⟨out, result, failed⟩ := (Option.any_eq_true _ _).mp performs
  obtain ⟨truth, -⟩ := conditions_tell_truth clusterClient plainExternal cluster.pass.ambient cluster.cjob
    cluster workflowCtx certs out plainExternal_setsConditions (ok_of_toOption context) (clusterClient_listing distinct _)
    clusterClient_secrets (ok_of_toOption listed) result
  refine ⟨cluster, out, result, by simpa using failed, truth ?_⟩
  rintro (⟨cert, member, -, blind, -⟩ | ⟨entry, stale, -⟩)
  · have input := List.all_eq_true.mp readable cert member
    rw [blind] at input
    cases input
  · rw [List.isEmpty_iff.mp current] at stale
    cases stale

/-- The Secret of the failed workflow is deleted: the entry stays Failed, and the CertificateJob turns Ready. -/
theorem conditions_overlook_failure :
    ∃ (cluster : Cluster) (out : JobOutcome Cluster),
      (statusMachine clusterClient plainExternal).Reached (fun _ _ => True) cluster.cjob.status ∧
      reconcileCertificateJob clusterClient plainExternal cluster.pass.ambient cluster.cjob cluster = some out ∧
      (∃ entry ∈ out.status.observedCertificates, entry.phase = .failed) ∧
      conditionStatus out.status.conditions "Degraded" = some .false ∧
      conditionStatus out.status.conditions "Ready" = some .true ∧ ¬ out.status.TellsTruth := by
  obtain ⟨last, rounds, checked⟩ := (Option.any_eq_true _ _).mp failedRun_played
  obtain ⟨out, result, checked⟩ := (Option.any_eq_true _ _).mp (of_decide_eq_true checked).2
  obtain ⟨failed, degraded, ready⟩ := of_decide_eq_true checked
  obtain ⟨first, opened, closed⟩ := Option.bind_eq_some_iff.mp rounds
  have fresh : (statusMachine clusterClient plainExternal).start
      (sampleCluster (flatSpec ["a"] 1 .stopDownstream)).cjob.status := rfl
  have started := round_reached (fun _ _ => True) _ trivial (.of_start fresh) opened
  have reached := round_reached _ (first.report "a" failedStatus) trivial started closed
  have shown : ∃ entry ∈ out.status.observedCertificates, entry.phase = .failed := by simpa using failed
  refine ⟨last.dropSecret, out, reached, result, shown, degraded, ready, ?_⟩
  intro truth
  rw [(truth.1 shown).1] at degraded
  cases degraded

end CertificateJobs
