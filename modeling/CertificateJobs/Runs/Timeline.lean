import CertificateJobs.Runs.Stamps
import CertificateJobs.Runs.WellFormed

namespace CertificateJobs

/-- The clock goes on from `before` to `after` while a certificate's entry is reconciled: the reads come in the order in
    which the code makes them. -/
structure Ambient.Passes (ambient : Ambient) (certificate : String) (before after : Time) : Prop where
  context : before ≤ ambient.clock .workflowContext
  run : ambient.clock .workflowContext ≤ ambient.clock (.certificateRun certificate)
  skip : ∀ node, ambient.clock (.certificateRun certificate) ≤ ambient.clock (.skipNode certificate node)
  run_end : ambient.clock (.certificateRun certificate) ≤ after
  skip_end : ∀ node, ambient.clock (.skipNode certificate node) ≤ after

structure WorkflowNodeState.Timely (trigger now : Time) (node : WorkflowNodeState) : Prop where
  waiting : node.phase = .pending → node.startedAt = none ∧ node.completedAt = none
  started : ∀ t, node.startedAt = some t → trigger ≤ t ∧ t ≤ now
  completed : ∀ t, node.completedAt = some t → trigger ≤ t ∧ t ≤ now ∧ ∀ u, node.startedAt = some u → u ≤ t

structure CertificateExecutionState.Timely (now : Time) (entry : CertificateExecutionState) : Prop where
  opened : entry.inputHash ≠ "" → entry.lastTriggeredTime.isSome = true
  closed : entry.lastCompletedTime.isSome = isTerminalPhase entry.phase
  trigger : ∀ t, entry.lastTriggeredTime = some t → t ≤ now
  nodes : ∀ node ∈ entry.nodes, ∃ trigger, entry.lastTriggeredTime = some trigger ∧ node.Timely trigger now
  ended : ∀ t, entry.lastCompletedTime = some t → t ≤ now ∧
    (∀ trigger, entry.lastTriggeredTime = some trigger → trigger ≤ t) ∧
    ∀ node ∈ entry.nodes, node.jobName ≠ "" → ∀ u, node.completedAt = some u → u ≤ t

section
variable {trigger now later : Time} {node : WorkflowNodeState}

theorem pendingNode_timely (trigger now : Time) (name : String) : (pendingNode name).Timely trigger now :=
  ⟨fun _ => ⟨rfl, rfl⟩, fun _ never => (by cases never), fun _ never => (by cases never)⟩

theorem WorkflowNodeState.Timely.mono (timely : node.Timely trigger now) (passes : now ≤ later) :
    node.Timely trigger later := by
  refine ⟨timely.waiting, ?_, ?_⟩
  · intro t at_t
    obtain ⟨since, bound⟩ := timely.started t at_t
    exact ⟨since, bound.trans passes⟩
  · intro t at_t
    obtain ⟨since, bound, order⟩ := timely.completed t at_t
    exact ⟨since, bound.trans passes, order⟩

theorem writeSight_stamp (now : Time) (node : WorkflowNodeState) (seen : Sight) :
    (writeSight now node seen).completedAt = some now ∨ (writeSight now node seen).completedAt = node.completedAt := by
  cases seen with
  | missing | complete | failed => exact .inl rfl
  | active => exact .inr rfl
  | idle =>
    right
    simp only [writeSight]
    split <;> rfl

theorem WorkflowNodeState.Timely.observe (timely : node.Timely trigger now) (since : trigger ≤ now) (seen : Sight) :
    (writeSight now node seen).Timely trigger now := by
  refine ⟨fun pending => absurd pending writeSight_not_pending, ?_, ?_⟩
  · rw [writeSight_startedAt]
    exact timely.started
  · intro t stamped
    rw [writeSight_startedAt]
    rcases writeSight_stamp now node seen with new | old
    · obtain rfl := Option.some.inj (new.symm.trans stamped)
      exact ⟨since, le_rfl, fun u started => (timely.started u started).2⟩
    · exact timely.completed t (old.symm.trans stamped)

theorem WorkflowNodeState.Timely.skip (timely : node.Timely trigger now) (since : trigger ≤ now) (message : String)
    {t : String → Time} (after : ∀ name, now ≤ t name) (bound : ∀ name, t name ≤ later) :
    (markSkipped message t node).Timely trigger later := by
  refine ⟨fun pending => (by cases pending), ?_, ?_⟩
  · exact (timely.mono ((after node.name).trans (bound node.name))).started
  · rintro u stamped
    obtain rfl := Option.some.inj stamped
    refine ⟨since.trans (after node.name), bound node.name, ?_⟩
    intro started at_started
    exact (timely.started started at_started).2.trans (after node.name)

theorem WorkflowNodeState.Timely.start (timely : node.Timely trigger now) (since : trigger ≤ now)
    (pending : node.phase = .pending) (jobName : String) : (markStarted jobName now node).Timely trigger now := by
  refine ⟨fun waits => (by cases waits), ?_, ?_⟩
  · intro t stamped
    obtain rfl := Option.some.inj stamped
    exact ⟨since, le_rfl⟩
  · intro t stamped
    rw [show (markStarted jobName now node).completedAt = node.completedAt from rfl, (timely.waiting pending).2] at stamped
    cases stamped

end

section
variable {σ : Type} {c : Client σ} {ambient : Ambient} {cjob : CertificateJob} {certificate : Certificate}
  {state : CertificateExecutionState} {graph : GraphMaps} {s : σ} {out : RunOutcome σ}

theorem reconcileCertificateRun_written (accepted : Accepted cjob graph) (unique : (nodeNames state.nodes).Nodup)
    (result : reconcileCertificateRun c ambient cjob certificate state graph s = some out) {after : WorkflowNodeState}
    (member : after ∈ out.state.nodes) :
    ∃ node ∈ ensureWorkflowNodeStates cjob state.nodes,
      after = node ∨
      (∃ seen, after = writeSight (ambient.clock (.certificateRun certificate.name)) node seen) ∨
      (node.jobName = "" ∧ ∃ message,
        after = markSkipped message (fun name => ambient.clock (.skipNode certificate.name name)) node) ∨
      (node.phase = .pending ∧ ∃ jobName,
        after = markStarted jobName (ambient.clock (.certificateRun certificate.name)) node) := by
  rcases reconcileCertificateRun_cases accepted unique result with ⟨processed, stopped⟩ | ⟨active, failed, names, done⟩
  · obtain ⟨node, present, same | ⟨seen, -, -, written⟩⟩ := stopped.origin member
    · exact ⟨node, present, .inl same⟩
    · exact ⟨node, present, .inr (.inl ⟨seen, written⟩)⟩
  · obtain ⟨node, present, moves⟩ := done.origin (ensure_unique accepted.names unique) member
    refine ⟨node, present, ?_⟩
    cases moves with
    | seen seen => exact .inr (.inl ⟨seen, rfl⟩)
    | given idle => exact .inr (.inr (.inl ⟨idle, _, rfl⟩))
    | start _ pending => exact .inr (.inr (.inr ⟨pending, _, rfl⟩))
    | stay => exact .inl rfl

theorem concludeEntry_ended (result : reconcileCertificateRun c ambient cjob certificate state graph s = some out) {t : Time}
    (ended : (concludeEntry out).state.lastCompletedTime = some t) :
    t = ambient.clock (.certificateRun certificate.name) ∨ state.lastCompletedTime = some t := by
  unfold concludeEntry at ended
  cases failure : out.err with
  | some e =>
    rw [failure] at ended
    cases ended
  | none =>
    rw [failure] at ended
    simp only [reconcileCertificateRun] at result
    split at result
    · obtain rfl := Option.some.inj result
      cases failure
    · obtain ⟨remaining, -, result⟩ := Option.bind_eq_some_iff.mp result
      obtain ⟨scheduling, -, result⟩ := Option.bind_eq_some_iff.mp result
      obtain rfl := Option.some.inj result
      rw [concludeRun_err] at failure
      simp only [concludeRun, failure] at ended
      split at ended
      · exact .inl (Option.some.inj ended).symm
      · exact .inr ended

end

section
variable {σ : Type} {c : Client σ} {ext : External} {pass : EntryPass σ} {entry : CertificateExecutionState}
  {out : EntryOutcome σ} {before after : Time}

theorem CertificateExecutionState.Timely.mono (timely : entry.Timely before) (passes : before ≤ after) :
    entry.Timely after := by
  refine ⟨timely.opened, timely.closed, fun t at_t => (timely.trigger t at_t).trans passes, ?_, ?_⟩
  · intro node member
    obtain ⟨trigger, since, held⟩ := timely.nodes node member
    exact ⟨trigger, since, held.mono passes⟩
  · intro t at_t
    obtain ⟨bound, rest⟩ := timely.ended t at_t
    exact ⟨bound.trans passes, rest⟩

theorem CertificateExecutionState.Timely.fail (timely : entry.Timely before) {now : Time} (passes : before ≤ now)
    (secretName message : String) :
    { entry with secretName := secretName, phase := .failed, message := message,
                 lastCompletedTime := some now : CertificateExecutionState }.Timely now := by
  refine ⟨timely.opened, rfl, (timely.mono passes).trigger, (timely.mono passes).nodes, ?_⟩
  rintro t at_t
  obtain rfl := Option.some.inj at_t
  refine ⟨le_rfl, fun trigger at_trigger => (timely.trigger trigger at_trigger).trans passes, ?_⟩
  intro node member _ u stamped
  obtain ⟨trigger, -, held⟩ := timely.nodes node member
  exact (held.completed u stamped).2.1.trans passes

theorem waitForInput_timely (cert : Certificate) (message : String) (s : σ) (timely : entry.Timely before) :
    (waitForInput cert entry message s).state.Timely before := by
  unfold waitForInput
  split
  · exact timely
  · exact ⟨timely.opened, rfl, timely.trigger, timely.nodes, fun _ never => (by cases never)⟩

theorem applyInputHashTransition_timely (cjob : CertificateJob) (cert : Certificate) (hash : String)
    (timely : entry.Timely before) {now : Time} (passes : before ≤ now) :
    (applyInputHashTransition cjob cert entry hash now).Timely now := by
  have kept := timely.mono passes
  unfold applyInputHashTransition
  split
  · refine ⟨fun _ => rfl, rfl, ?_, ?_, fun _ never => (by cases never)⟩
    · intro t at_t
      obtain rfl := Option.some.inj at_t
      exact le_rfl
    · intro node member
      obtain ⟨name, -, rfl⟩ := mem_initial member
      exact ⟨now, rfl, pendingNode_timely now now name⟩
  · split
    · exact ⟨kept.opened, kept.closed, kept.trigger, kept.nodes, kept.ended⟩
    · exact kept

section
variable {graph : GraphMaps} {base : CertificateExecutionState} {run : RunOutcome σ}

/-- The nodes after a pass. A node that has a Job is completed no later than the pass looked at the Jobs. -/
theorem Ran.nodes_timely (ran : Ran c ext pass entry out graph base run) (unique : (nodeNames base.nodes).Nodup)
    (passes : pass.ambient.Passes pass.cert.name before after) {trigger : Time}
    (timely : ∀ node ∈ base.nodes, node.Timely trigger (pass.ambient.clock .workflowContext))
    (since : trigger ≤ pass.ambient.clock .workflowContext) :
    ∀ node ∈ run.state.nodes, node.Timely trigger after ∧ (node.jobName ≠ "" → ∀ u, node.completedAt = some u →
      u ≤ pass.ambient.clock (.certificateRun pass.cert.name)) := by
  have started := since.trans passes.run
  have ensured : ∀ node ∈ ensureWorkflowNodeStates pass.cjob base.nodes,
      node.Timely trigger (pass.ambient.clock (.certificateRun pass.cert.name)) := by
    intro node member
    rcases mem_ensure member with old | ⟨name, -, -, rfl⟩
    · exact (timely node old).mono passes.run
    · exact pendingNode_timely _ _ name
  intro written member
  obtain ⟨node, present, rfl | ⟨seen, rfl⟩ | ⟨idle, message, rfl⟩ | ⟨pending, jobName, rfl⟩⟩ :=
    reconcileCertificateRun_written ran.accepted unique ran.result member
  · have held := ensured written present
    exact ⟨held.mono passes.run_end, fun _ u stamped => (held.completed u stamped).2.1⟩
  · have held := (ensured node present).observe started seen
    exact ⟨held.mono passes.run_end, fun _ u stamped => (held.completed u stamped).2.1⟩
  · exact ⟨(ensured node present).skip started message passes.skip passes.skip_end, fun has => absurd idle has⟩
  · have held := (ensured node present).start started pending jobName
    exact ⟨held.mono passes.run_end, fun _ u stamped => (held.completed u stamped).2.1⟩

theorem Ran.timely (ran : Ran c ext pass entry out graph base run) (unique : (nodeNames base.nodes).Nodup)
    (passes : pass.ambient.Passes pass.cert.name before after)
    (timely : base.Timely (pass.ambient.clock .workflowContext))
    (closed : out.state.lastCompletedTime.isSome = isTerminalPhase out.state.phase) : out.state.Timely after := by
  obtain ⟨trigger, triggered⟩ := Option.isSome_iff_exists.mp (timely.opened ran.triggered)
  have since := timely.trigger trigger triggered
  have nodes := ran.nodes_timely unique passes
    (fun node member => by
      obtain ⟨trigger', same, held⟩ := timely.nodes node member
      obtain rfl := Option.some.inj (triggered.symm.trans same)
      exact held) since
  have ended : ∀ t, out.state.lastCompletedTime = some t → t = pass.ambient.clock (.certificateRun pass.cert.name) := by
    intro t at_t
    rw [ran.concluded] at at_t
    rcases concludeEntry_ended ran.result at_t with now | earlier
    · exact now
    · have open_ := timely.closed
      rw [earlier, ran.going] at open_
      cases open_
  obtain ⟨phase, message, completed, rewritten⟩ := ran.rewritten
  rw [rewritten] at ended closed ⊢
  refine ⟨timely.opened, closed, ?_, fun node member => ⟨trigger, triggered, (nodes node member).1⟩, ?_⟩
  · intro t at_t
    exact (timely.trigger t at_t).trans (passes.run.trans passes.run_end)
  · intro t at_t
    obtain rfl := ended t at_t
    refine ⟨passes.run_end, ?_, fun node member => (nodes node member).2⟩
    intro t at_t
    exact (timely.trigger t at_t).trans passes.run

end

theorem perform_timely (performed : pass.perform c ext entry = some out) (unique : (nodeNames entry.nodes).Nodup)
    (passes : pass.ambient.Passes pass.cert.name before after) (timely : entry.Timely before) : out.state.Timely after := by
  obtain ⟨workflowCtx, context⟩ := perform_context performed
  have now := (buildWorkflowContext_ok_iff.mp context).2.2
  have later := passes.run.trans passes.run_end
  have closed := perform_completed performed timely.closed
  by_cases named : pass.cert.spec.secretName = ""
  · rw [perform_unnamed context named, now] at performed
    obtain rfl := Option.some.inj performed
    exact (timely.fail passes.context "" _).mono later
  · cases input : pass.inputHash c ext with
    | none =>
      obtain ⟨message, waits⟩ := perform_blind context named input
      obtain rfl := Option.some.inj (waits.symm.trans performed)
      exact (waitForInput_timely _ _ _ timely).mono (passes.context.trans later)
    | some hash =>
      have base := applyInputHashTransition_timely pass.cjob pass.cert hash timely passes.context
      rw [← now] at base
      rw [perform_input context input] at performed
      simp only [reconcileInput] at performed
      split at performed
      · obtain rfl := Option.some.inj performed
        exact base.mono (now ▸ later)
      · rename_i going
        obtain ⟨run, result, rfl⟩ := Option.map_eq_some_iff.mp performed
        have ran := reconcileInput_ran (buildWorkflowContext_accepted context) input (by simpa using going) result
        exact ran.timely (ran.unique unique) passes (now ▸ base) closed

end

structure Timed (σ : Type) where
  history : EntryHistory σ
  now : Time

def timedMachine {σ : Type} (c : Client σ) (ext : External) : Machine (Timed σ) (EntryPass σ) where
  start w := (entryMachine c ext).start w.history
  step w pass w' := (entryMachine c ext).step w.history pass w'.history ∧
    pass.ambient.Passes pass.cert.name w.now w'.now

theorem EntryHistory.next_entry {σ : Type} {c : Client σ} {ext : External} (h : EntryHistory σ) (pass : EntryPass σ)
    (out : EntryOutcome σ) : (h.next c ext pass out).entry = out.state := by
  unfold EntryHistory.next
  split <;> rfl

theorem reached_timely {σ : Type} {c : Client σ} {ext : External} {ok : Timed σ → EntryPass σ → Prop} {w : Timed σ}
    (reached : (timedMachine c ext).Reached ok w) : w.history.entry.Timely w.now := by
  have both := reached.invariant (fun w => Sound c ext w.history ∧ w.history.entry.Timely w.now) ?_ ?_
  · exact both.2
  · intro first starts
    refine ⟨Sound.start starts, ?_⟩
    obtain ⟨ns, name, fresh⟩ := starts
    rw [fresh]
    exact ⟨by simp, rfl, by simp, by simp, by simp⟩
  · rintro before pass after ⟨sound, timely⟩ - ⟨taken, passes⟩
    refine ⟨sound.step taken, ?_⟩
    obtain ⟨out, performed, next⟩ := taken
    rw [next, EntryHistory.next_entry]
    exact perform_timely performed sound.unique passes timely

/-- The times in an entry tell the run's story in order: no Job is started before the run is triggered, no node completes
    before it was started, the run does not end before it was triggered, and no Job is noted as completed after it. -/
theorem timestamps_in_order {σ : Type} (c : Client σ) (ext : External) (w : Timed σ)
    (reached : (timedMachine c ext).Reached (fun _ _ => True) w) (trigger : Time)
    (triggered : w.history.entry.lastTriggeredTime = some trigger) :
    (∀ node ∈ w.history.entry.nodes,
      (∀ started, node.startedAt = some started → trigger ≤ started ∧ started ≤ w.now) ∧
      ∀ completed, node.completedAt = some completed → trigger ≤ completed ∧ completed ≤ w.now ∧
        ∀ started, node.startedAt = some started → started ≤ completed) ∧
    ∀ ended, w.history.entry.lastCompletedTime = some ended → trigger ≤ ended ∧ ended ≤ w.now ∧
      ∀ node ∈ w.history.entry.nodes, node.jobName ≠ "" → ∀ completed, node.completedAt = some completed →
        completed ≤ ended := by
  have timely := reached_timely reached
  refine ⟨?_, ?_⟩
  · intro node member
    obtain ⟨trigger', same, held⟩ := timely.nodes node member
    obtain rfl := Option.some.inj (triggered.symm.trans same)
    exact ⟨held.started, held.completed⟩
  · intro ended at_ended
    obtain ⟨bound, since, nodes⟩ := timely.ended ended at_ended
    exact ⟨since trigger triggered, bound, nodes⟩

def singleCluster : Cluster := sampleCluster (flatSpec ["a"] 1 .stopDownstream)

theorem timestamps_in_order_single :
    ∃ w : Timed Cluster, (timedMachine clusterClient plainExternal).Reached (fun _ _ => True) w ∧
      w.history.entry.lastTriggeredTime = some 1 ∧ w.history.entry.lastCompletedTime = some 2 ∧
      (∃ node ∈ w.history.entry.nodes, node.startedAt = some 1 ∧ node.completedAt = some 2) ∧
      ∀ node ∈ w.history.entry.nodes, ∀ completed, node.completedAt = some completed → 1 ≤ completed := by
  have played : ((singleCluster.passAt 1).perform clusterClient plainExternal (newEntry singleCluster).entry).any
      (fun first => (((first.client.report "a" completeStatus).passAt 2).perform clusterClient plainExternal first.state).any
        fun second => second.state.lastTriggeredTime = some 1 ∧ second.state.lastCompletedTime = some 2 ∧
          second.state.nodes.any fun node => node.startedAt = some 1 ∧ node.completedAt = some 2) = true := by
    decide +kernel
  obtain ⟨first, opening, played⟩ := (Option.any_eq_true _ _).mp played
  obtain ⟨second, closing, checked⟩ := (Option.any_eq_true _ _).mp played
  obtain ⟨triggered, ended, shown⟩ := of_decide_eq_true checked
  obtain ⟨node, member, times⟩ := List.any_eq_true.mp shown
  let started := (newEntry singleCluster).next clusterClient plainExternal (singleCluster.passAt 1) first
  let closed := started.next clusterClient plainExternal ((first.client.report "a" completeStatus).passAt 2) second
  have entry : started.entry = first.state := EntryHistory.next_entry _ _ _
  have last : closed.entry = second.state := EntryHistory.next_entry _ _ _
  have ticks : ∀ cluster : Cluster, ∀ time cert, (cluster.passAt (time + 1)).ambient.Passes cert time (time + 1) :=
    fun _ time _ => ⟨Nat.le_succ time, le_rfl, fun _ => le_rfl, le_rfl, fun _ => le_rfl⟩
  have fresh : (timedMachine clusterClient plainExternal).start ⟨newEntry singleCluster, 0⟩ := ⟨_, _, rfl⟩
  have opens : (timedMachine clusterClient plainExternal).step ⟨newEntry singleCluster, 0⟩ (singleCluster.passAt 1)
      ⟨started, 1⟩ := ⟨⟨first, opening, rfl⟩, ticks singleCluster 0 _⟩
  have closes : (timedMachine clusterClient plainExternal).step ⟨started, 1⟩
      ((first.client.report "a" completeStatus).passAt 2) ⟨closed, 2⟩ :=
    ⟨⟨second, entry ▸ closing, rfl⟩, ticks (first.client.report "a" completeStatus) 1 _⟩
  have reached : (timedMachine clusterClient plainExternal).Reached (fun _ _ => True) ⟨closed, 2⟩ :=
    .step (.step (.of_start fresh) trivial opens) trivial closes
  have order := timestamps_in_order clusterClient plainExternal ⟨closed, 2⟩ reached 1 (by rw [last]; exact triggered)
  refine ⟨⟨closed, 2⟩, reached, by rw [last]; exact triggered, by rw [last]; exact ended, ?_, ?_⟩
  · rw [last]
    exact ⟨node, member, of_decide_eq_true times⟩
  · intro node member completed stamped
    exact ((order.1 node member).2 completed stamped).1

end CertificateJobs
