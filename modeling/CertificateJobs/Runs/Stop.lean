import CertificateJobs.Runs.Failures

namespace CertificateJobs

def FailurePolicy.Stops (policy : FailurePolicy) : Prop := policy ≠ .bestEffort ∧ policy ≠ .continueIndependent

theorem givesUp_stops {cjob : CertificateJob} {failed : String → Prop} {root : String}
    (stops : cjob.spec.failurePolicy.Stops) (fails : failed root) (name : String) : GivesUp cjob failed name := by
  unfold GivesUp
  split
  · rename_i best
    exact absurd best stops.1
  · rename_i independent
    exact absurd independent stops.2
  · exact ⟨root, fails⟩

theorem writeSight_failure {seen : Sight} (failure : seen.isFailure = true) (now : Time) (node : WorkflowNodeState) :
    (writeSight now node seen).phase = .failed := by
  cases seen with
  | missing => rfl
  | failed => rfl
  | complete => cases failure
  | active => cases failure
  | idle => cases failure

section
variable {σ : Type} {c : Client σ} {ambient : Ambient} {cjob : CertificateJob} {certificate : Certificate}
  {state : CertificateExecutionState} {graph : GraphMaps} {s : σ} {out : RunOutcome σ} {active : Nat}
  {failed started : List String}

theorem Completed.stopped (done : Completed c ambient cjob certificate state graph s out active failed started)
    (accepted : Accepted cjob graph) (unique : (nodeNames (ensureWorkflowNodeStates cjob state.nodes)).Nodup)
    (stops : cjob.spec.failurePolicy.Stops) {name : String}
    (fails : ReadsFailure (c.getJob s certificate.ns) (ensureWorkflowNodeStates cjob state.nodes) name) :
    out.calls = [] ∧ (out.err = none → (∀ node ∈ out.state.nodes, node.phase ≠ .pending) ∧ out.state.phase = .failed) := by
  -- A completed pass that reads a failure gives up every pending node, so that nothing is left to run.
  have gives : ∀ node ∈ ensureWorkflowNodeStates cjob state.nodes,
      node.name ∈ givenUp c ambient cjob certificate state graph s failed :=
    fun node member => (done.givenUp_iff accepted member).mpr (givesUp_stops stops fails node.name)
  refine ⟨?_, ?_⟩
  · rw [List.eq_nil_iff_forall_not_mem]
    intro call made
    obtain ⟨node, member, named, -⟩ := done.call_node unique made
    have runnable := (done.calls call made).1
    rw [← named] at runnable
    exact (done.runnable_before unique member runnable).2.2 (gives node member)
  · intro ok
    refine ⟨?_, ?_⟩
    · intro after inside pending
      obtain ⟨node, member, moves⟩ := done.origin unique inside
      cases moves with
      | seen sight read => exact writeSight_not_pending pending
      | given => cases pending
      | start => cases pending
      | stay _ kept => exact (kept pending).1 (gives _ member)
    · obtain ⟨node, member, -, seen, read, failure⟩ := fails
      obtain ⟨after, inside, moves⟩ := done.moves unique member
      have failed : after.phase = .failed := by
        cases moves with
        | seen other again =>
          obtain rfl : seen = other := Except.ok.inj (read.2.symm.trans again.2)
          exact writeSight_failure failure _ node
        | given idle => exact absurd idle read.1
        | start idle => exact absurd idle read.1
        | stay idle => exact absurd idle read.1
      rw [(done.success ok).1, deriveWorkflowPhase, if_pos]
      exact List.any_eq_true.mpr ⟨after, inside, decide_eq_true failed⟩

end

section
variable {σ : Type} {c : Client σ} {ext : External} {h : EntryHistory σ} {pass trigger : EntryPass σ}
  {out : EntryOutcome σ} {log : List Sighting} {base : CertificateExecutionState} {graph : GraphMaps}
  {run : RunOutcome σ}

def FailuresRemembered : RunProperty σ := fun _ log nodes =>
  ∀ line ∈ log, line.seen.isFailure = true → line.jobName ≠ "" ∧ ∃ node ∈ nodes, node.jobName = line.jobName

/-- The policy still stops, and Jobs seen failed or missing are failed or missing, as far as they can be read. -/
def FailuresStay (c : Client σ) : PassCondition σ := fun trigger log _ pass =>
  (trigger.cjob.spec.failurePolicy.Stops → pass.cjob.spec.failurePolicy.Stops) ∧
    ∀ line ∈ log, line.seen.isFailure = true →
      ∀ seen, sight (c.getJob pass.client pass.cert.ns line.jobName) = .ok seen → seen.isFailure = true

theorem failuresStay_fresh (pass : EntryPass σ) : FailuresStay c pass [] (initializeNodeStates pass.cjob) pass :=
  ⟨id, by simp⟩

theorem Midway.keeps_job (mid : Midway c ext h pass out trigger log base graph run) {node : WorkflowNodeState}
    (member : node ∈ base.nodes) (has : node.jobName ≠ "") : ∃ after ∈ run.state.nodes, after.jobName = node.jobName := by
  have started : node.phase ≠ .pending := by
    intro pending
    rcases mid.shaped node member with ⟨none, -⟩ | ⟨-, phase⟩
    · exact has none
    · simp [pending] at phase
  obtain ⟨after, inside, rfl | ⟨seen, -, rfl⟩⟩ :=
    reconcileCertificateRun_advance mid.accepted mid.unique mid.result member started
  · exact ⟨after, inside, rfl⟩
  · exact ⟨_, inside, writeSight_jobName node seen⟩

theorem Midway.sighting (mid : Midway c ext h pass out trigger log base graph run) {line : Sighting}
    (member : line ∈ run.sightings) :
    ∃ node ∈ base.nodes, line.jobName = node.jobName ∧ Seen (c.getJob pass.client pass.cert.ns) node line.seen := by
  have record : ∃ node ∈ ensureWorkflowNodeStates pass.cjob base.nodes,
      line.jobName = node.jobName ∧ Seen (c.getJob pass.client pass.cert.ns) node line.seen := by
    rcases mid.spec with ⟨processed, stopped⟩ | ⟨active, failed, started, done⟩
    · obtain ⟨node, present, -, -, same, read⟩ := stopped.record line member
      exact ⟨node, present, same, read⟩
    · obtain ⟨node, present, -, same, read⟩ := done.record line member
      exact ⟨node, present, same, read⟩
  obtain ⟨node, present, same, read⟩ := record
  rcases mem_ensure present with old | ⟨name, -, -, rfl⟩
  · exact ⟨node, old, same, read⟩
  · exact absurd rfl read.1

theorem Midway.failuresRemembered (mid : Midway c ext h pass out trigger log base graph run)
    (before : FailuresRemembered trigger log base.nodes) :
    FailuresRemembered trigger (log ++ run.sightings) run.state.nodes := by
  intro line member failure
  rcases List.mem_append.mp member with old | new
  · obtain ⟨has, node, inside, same⟩ := before line old failure
    obtain ⟨after, present, kept⟩ := mid.keeps_job inside (same ▸ has)
    exact ⟨has, after, present, kept.trans same⟩
  · obtain ⟨node, inside, same, read⟩ := mid.sighting new
    obtain ⟨after, present, kept⟩ := mid.keeps_job inside read.1
    exact ⟨same ▸ read.1, after, present, kept.trans same.symm⟩

theorem Midway.stopped (mid : Midway c ext h pass out trigger log base graph run)
    (before : FailuresRemembered trigger log base.nodes) (stay : FailuresStay c trigger log base.nodes pass)
    (stops : trigger.cjob.spec.failurePolicy.Stops) {line : Sighting} (member : line ∈ log ++ run.sightings)
    (failure : line.seen.isFailure = true) :
    run.calls = [] ∧ (run.err = none → (∀ node ∈ run.state.nodes, node.phase ≠ .pending) ∧ run.state.phase = .failed) := by
  rcases mid.spec with ⟨processed, broken⟩ | ⟨active, failed, started, done⟩
  · exact ⟨broken.noCalls, fun ok => absurd ok broken.error⟩
  · have fails : ∃ name, ReadsFailure (c.getJob pass.client pass.cert.ns)
        (ensureWorkflowNodeStates pass.cjob base.nodes) name := by
      rcases List.mem_append.mp member with old | new
      · obtain ⟨has, node, inside, same⟩ := before line old failure
        have kept : node ∈ ensureWorkflowNodeStates pass.cjob base.nodes := List.mem_append_left _ inside
        obtain ⟨seen, read, -⟩ := done.reads node kept (same ▸ has)
        have again : seen.isFailure = true := stay.2 line old failure seen (same ▸ read.2)
        exact ⟨node.name, node, kept, rfl, seen, read, again⟩
      · obtain ⟨node, inside, -, read⟩ := mid.sighting new
        exact ⟨node.name, node, List.mem_append_left _ inside, rfl, line.seen, read, failure⟩
    obtain ⟨name, fails⟩ := fails
    exact done.stopped mid.accepted (ensure_unique mid.accepted.names mid.unique) (stay.1 stops) fails

theorem reached_failuresRemembered (reached : (entryMachine c ext).Reached (EntryHistory.Allows c ext (FailuresStay c)) h) :
    h.Satisfies FailuresRemembered :=
  reached_satisfies (fun _ _ _ => by simp [FailuresRemembered]) failuresStay_fresh
    (fun mid before _ => mid.failuresRemembered before) reached

end

/-- After a run that stops on failures has seen a Job failed or missing, a pass over it creates no Job; and if it gets
    through without an error, it leaves no node pending and the run failed. -/
theorem stop_downstream_stops {σ : Type} (c : Client σ) (ext : External) (h : EntryHistory σ) (pass : EntryPass σ)
    (out : EntryOutcome σ)
    (reached : (entryMachine c ext).Reached (EntryHistory.Allows c ext (FailuresStay c)) h)
    (allowed : h.Allows c ext (FailuresStay c) pass) (performed : pass.perform c ext h.entry = some out)
    (stops : ∀ trigger, (h.next c ext pass out).trigger = some trigger → trigger.cjob.spec.failurePolicy.Stops)
    (seen : ∃ line ∈ (h.next c ext pass out).log, line.seen.isFailure = true) :
    out.calls = [] ∧
      ∀ graph base run, Ran c ext pass h.entry out graph base run → run.err = none →
        (∀ node ∈ out.state.nodes, node.phase ≠ .pending) ∧ out.state.phase = .failed := by
  have sound := reached_sound reached
  have remembered := reached_failuresRemembered reached
  obtain ⟨line, member, failure⟩ := seen
  have stopped : ∀ {trigger log base graph run}, Midway c ext h pass out trigger log base graph run →
      run.calls = [] ∧
        (run.err = none → (∀ node ∈ run.state.nodes, node.phase ≠ .pending) ∧ run.state.phase = .failed) := by
    intro trigger log base graph run mid
    rw [mid.next] at stops member
    obtain ⟨before, stay⟩ := mid.lift remembered allowed (by simp [FailuresRemembered]) (failuresStay_fresh pass)
    exact mid.stopped before stay (stops trigger rfl) member failure
  refine ⟨?_, ?_⟩
  · rcases sound.midway performed with ⟨quiet, -⟩ | ⟨trigger, log, base, graph, run, mid⟩
    · exact quiet.calls
    · rw [mid.concluded, concludeEntry_calls]
      exact (stopped mid).1
  · intro graph base run ran ok
    obtain ⟨trigger, log, mid⟩ := ran.midway sound
    rw [ran.concluded, concludeEntry_nodes]
    simp only [concludeEntry, ok]
    exact (stopped mid).2 ok

def silentClient : Client Cluster := unsteadyClient fun _ job => job.status = {}

def failuresCheck (h : EntryHistory Cluster) (pass : EntryPass Cluster) : Bool :=
  (h.trigger.all fun _ => pass.cjob.spec.failurePolicy = .stopDownstream) &&
    h.log.all fun line => line.seen.isFailure = false ∨
      (sight (silentClient.getJob pass.client pass.cert.ns line.jobName)).toOption.all (·.isFailure)

theorem failuresCheck_allows {h : EntryHistory Cluster} {pass : EntryPass Cluster} (check : failuresCheck h pass = true) :
    h.Allows silentClient plainExternal (FailuresStay silentClient) pass := by
  simp only [failuresCheck, Bool.and_eq_true, List.all_eq_true, decide_eq_true_eq] at check
  obtain ⟨policy, stay⟩ := check
  intro _ _ trigger started
  refine ⟨fun _ => ?_, fun line inside failure seen read => ?_⟩
  · have same : pass.cjob.spec.failurePolicy = .stopDownstream := by simpa [started] using policy
    rw [same]
    exact ⟨by simp, by simp⟩
  · have still := (stay line inside).resolve_left (by simp [failure])
    simpa [read, Except.toOption] using still

/-- The first of two Jobs is read failed by a pass that cannot read the second. When the second is read too, a third node
    has been added to the spec: nothing is created for it. -/
theorem stop_downstream_stops_added :
    ∃ (h : EntryHistory Cluster) (pass : EntryPass Cluster) (out : EntryOutcome Cluster),
      (entryMachine silentClient plainExternal).Reached
        (EntryHistory.Allows silentClient plainExternal (FailuresStay silentClient)) h ∧
      h.log.any (·.seen.isFailure) = true ∧ isTerminalPhase h.entry.phase = false ∧
      h.Allows silentClient plainExternal (FailuresStay silentClient) pass ∧
      pass.perform silentClient plainExternal h.entry = some out ∧
      out.state.nodes.map (·.phase) = [.failed, .succeeded, .skipped] ∧ out.calls = [] := by
  have played : ((newEntry (sampleCluster (flatSpec ["a", "b"] 2 .stopDownstream))).replay silentClient plainExternal
      failuresCheck (sampleCluster (flatSpec ["a", "b"] 2 .stopDownstream))
      [Cluster.pass, fun s => (s.report "a" failedStatus).pass]).any (fun last =>
        let pass := ((last.2.report "b" completeStatus).edit (flatSpec ["a", "b", "c"] 2 .stopDownstream)).pass
        failuresCheck last.1 pass ∧ last.1.log.any (·.seen.isFailure) ∧ isTerminalPhase last.1.entry.phase = false ∧
        (pass.perform silentClient plainExternal last.1.entry).any fun out =>
          out.state.nodes.map (·.phase) = [.failed, .succeeded, .skipped] ∧
          ((last.1.next silentClient plainExternal pass out).trigger.all fun trigger =>
            trigger.cjob.spec.failurePolicy = .stopDownstream) ∧
          (last.1.next silentClient plainExternal pass out).log.any (·.seen.isFailure)) = true := by
    decide +kernel
  obtain ⟨h, s, reached, checked⟩ := replay_new
    (EntryHistory.Allows silentClient plainExternal (FailuresStay silentClient)) played fun _ _ => failuresCheck_allows
  simp only [decide_eq_true_eq] at checked
  obtain ⟨stay, failure, going, performs⟩ := checked
  obtain ⟨out, performed, result⟩ := (Option.any_eq_true _ _).mp performs
  obtain ⟨phases, kept, seen⟩ := of_decide_eq_true result
  have allowed := failuresCheck_allows stay
  refine ⟨h, _, out, reached, failure, going, allowed, performed, phases,
    (stop_downstream_stops silentClient plainExternal h _ out reached allowed performed ?_ (by simpa using seen)).1⟩
  intro trigger started
  simp only [started, Option.all_some, decide_eq_true_eq] at kept
  rw [kept]
  exact ⟨by simp, by simp⟩

end CertificateJobs
