import CertificateJobs.Runs.Input
import CertificateJobs.Runs.Messages
import CertificateJobs.Runs.Outcomes
import CertificateJobs.Runs.Refinement

namespace CertificateJobs

/-- A pass that can do its work: it finds an input, and none of its calls about Jobs fails. -/
structure Attended {σ : Type} (c : Client σ) (ext : External) (pass : EntryPass σ) (entry : CertificateExecutionState) :
    Prop where
  input : pass.inputHash c ext ≠ none
  served : pass.Served c ext entry

section
variable {σ : Type} {c : Client σ} {ambient : Ambient} {cjob : CertificateJob} {certificate : Certificate}
  {state : CertificateExecutionState} {graph : GraphMaps} {s : σ} {out : RunOutcome σ} {active : Nat}
  {failed started : List String}

theorem WorkflowNodeState.Shaped.defined {node : WorkflowNodeState} (shaped : node.Shaped) : node.phase.Defined := by
  rcases shaped with ⟨-, phase | phase⟩ | ⟨-, phase | phase | phase⟩ <;> simp [phase, ExecutionPhase.Defined]

/-- A completed pass without an error ends the run, or leaves a node whose Job is still to finish. -/
theorem Completed.ends_or_runs (done : Completed c ambient cjob certificate state graph s out active failed started)
    (accepted : Accepted cjob graph) (unique : (nodeNames (ensureWorkflowNodeStates cjob state.nodes)).Nodup)
    (ok : out.err = none) (shaped : ∀ node ∈ out.state.nodes, node.Shaped) :
    isTerminalPhase out.state.phase = true ∨ ∃ node ∈ out.state.nodes, node.phase = .running := by
  have derived := (done.success ok).1
  rcases deriveWorkflowPhase_cases out.state.nodes with ⟨phase, -⟩ | ⟨unfailed, ⟨-, running⟩ | ⟨unrunning, rest⟩⟩
  · exact .inl (by rw [derived, phase]; rfl)
  · exact .inr running
  · have unpending := done.none_pending accepted unique ok (fun node member => (shaped node member).defined) unfailed
      unrunning
    rcases rest with ⟨-, node, member, going⟩ | ⟨phase, -⟩
    · have known := (shaped node member).defined
      cases phase : node.phase <;> simp_all [isTerminalPhase, ExecutionPhase.Defined]
    · exact .inl (by rw [derived, phase]; rfl)

end

section
variable {σ : Type} {c : Client σ} {ext : External} {h h' : EntryHistory σ} {pass trigger : EntryPass σ}
  {verdict : String → Bool}

theorem Sound.opened (sound : Sound c ext h) (started : h.trigger = some trigger) : h.entry.inputHash ≠ "" :=
  inputHash_ne_empty (sound.triggered trigger started)

theorem Sound.same_run (sound : Sound c ext h) (started : h.trigger = some trigger)
    (going : isTerminalPhase h.entry.phase = false) (pass : EntryPass σ) : pass.starts c ext h.entry = false :=
  going_not_started (sound.opened started) going

theorem Sound.keeps_trigger (sound : Sound c ext h) (started : h.trigger = some trigger)
    (going : isTerminalPhase h.entry.phase = false) (taken : (entryMachine c ext).step h pass h') :
    h'.trigger = some trigger := by
  obtain ⟨out, -, rfl⟩ := taken
  rw [EntryHistory.next, sound.same_run started going pass]
  exact started

theorem Attended.opens (attended : Attended c ext pass h.entry) (sound : Sound c ext h)
    (taken : (entryMachine c ext).step h pass h') : h'.trigger ≠ none := by
  obtain ⟨hash, input⟩ := Option.ne_none_iff_exists'.mp attended.input
  obtain ⟨out, -, rfl⟩ := taken
  rw [EntryHistory.next]
  split
  · simp
  · rename_i continues
    intro none
    simp [EntryPass.starts, input, startsRun, (sound.untriggered none).1] at continues

theorem Attended.midway (attended : Attended c ext pass h.entry) (sound : Sound c ext h) (started : h.trigger = some trigger)
    (going : isTerminalPhase h.entry.phase = false) {out : EntryOutcome σ}
    (performed : pass.perform c ext h.entry = some out) :
    ∃ base graph run active failed names,
      Midway c ext h pass out trigger h.log base graph run ∧ base.nodes = h.entry.nodes ∧ run.err = none ∧
      Completed c pass.ambient pass.cjob pass.cert base graph pass.client run active failed names := by
  obtain ⟨hash, input⟩ := Option.ne_none_iff_exists'.mp attended.input
  obtain ⟨graph, base, run, ran⟩ := perform_ran performed input going
  obtain ⟨trigger', log, mid⟩ := ran.midway sound
  have fine := (attended.served out graph base run ran).err mid.result
  have noStart := sound.same_run started going pass
  rcases mid.origin with ⟨starts, -⟩ | ⟨-, opened, rfl, message, same⟩
  · rw [noStart] at starts
    cases starts
  · obtain rfl := Option.some.inj (started.symm.trans opened)
    rcases mid.spec with ⟨processed, stopped⟩ | ⟨active, failed, names, done⟩
    · exact absurd fine stopped.error
    · exact ⟨base, graph, run, active, failed, names, mid, by rw [same], fine, done⟩

theorem Attended.leaves_running (attended : Attended c ext pass h.entry) (sound : Sound c ext h)
    (started : h.trigger = some trigger) (going : isTerminalPhase h.entry.phase = false)
    (taken : (entryMachine c ext).step h pass h') (goes_on : isTerminalPhase h'.entry.phase = false) :
    ∃ node ∈ h'.entry.nodes, node.phase = .running := by
  obtain ⟨out, performed, rfl⟩ := taken
  obtain ⟨base, graph, run, active, failed, names, mid, -, fine, done⟩ :=
    attended.midway sound started going performed
  have shaped := (reconcileCertificateRun_keeps mid.accepted mid.unique mid.shaped mid.result).2.1
  have kept : (concludeEntry run).state = run.state := by simp only [concludeEntry, fine]
  rw [mid.next, mid.concluded] at goes_on ⊢
  simp only [kept] at goes_on ⊢
  rcases done.ends_or_runs mid.accepted (ensure_unique mid.accepted.names mid.unique) fine shaped with ended | running
  · rw [ended] at goes_on
    cases goes_on
  · exact running

theorem Attended.settles (attended : Attended c ext pass h.entry) (sound : Sound c ext h) (started : h.trigger = some trigger)
    (going : isTerminalPhase h.entry.phase = false) (taken : (entryMachine c ext).step h pass h')
    {node : WorkflowNodeState} (member : node ∈ h.entry.nodes) {seen : Sight}
    (read : Seen (c.getJob pass.client pass.cert.ns) node seen) (final : seen.isFinal = true) :
    board h'.entry.nodes node.name ≠ .started := by
  have sound' := sound.step taken
  obtain ⟨out, performed, rfl⟩ := taken
  obtain ⟨base, graph, run, active, failed, names, mid, same, -, done⟩ :=
    attended.midway sound started going performed
  have recorded : node ∈ ensureWorkflowNodeStates pass.cjob base.nodes :=
    List.mem_append_left _ (by rw [same]; exact member)
  obtain ⟨after, inside, moves⟩ := done.moves (ensure_unique mid.accepted.names mid.unique) recorded
  have present : after ∈ (h.next c ext pass out).entry.nodes := by
    rw [mid.next, mid.concluded]
    simpa only [concludeEntry_nodes] using inside
  have shown := board_of_mem sound'.unique present
  rw [moves.name] at shown
  rw [shown]
  cases moves with
  | given idle => exact absurd idle read.1
  | start idle => exact absurd idle read.1
  | stay idle => exact absurd idle read.1
  | seen seen' read' =>
    obtain rfl : seen' = seen := Except.ok.inj (read'.2.symm.trans read.2)
    have settled : (writeSight (pass.ambient.clock (.certificateRun pass.cert.name)) node seen').Settled :=
      writeSight_final final
    rcases settled with succeeded | failed
    · simp [succeeded, ExecutionPhase.status]
    · simp [failed, ExecutionPhase.status]

variable {hs : ℕ → EntryHistory σ} {passes : ℕ → EntryPass σ}

theorem Trace.recorded {condition : PassCondition σ}
    (run : (entryMachine c ext).Trace (EntryHistory.Allows c ext condition) hs passes) {i j : ℕ} (later : i ≤ j)
    (sound : ∀ i, Sound c ext (hs i)) (started : ∀ k, i ≤ k → (hs k).trigger = some trigger)
    (going : ∀ k, isTerminalPhase (hs k).entry.phase = false) {node : WorkflowNodeState}
    (member : node ∈ (hs i).entry.nodes) (running : node.phase ≠ .pending) :
    ∃ after ∈ (hs j).entry.nodes, after.name = node.name ∧ after.jobName = node.jobName := by
  have carried : ∃ after ∈ (hs j).entry.nodes, after.name = node.name ∧
      (after.phase ≠ .pending ∧ after.jobName = node.jobName) := by
    induction later with
    | refl => exact ⟨node, member, rfl, running, rfl⟩
    | step later before =>
      rename_i k
      refine tracked_step (fun _ held => held.1) ?_ (sound k)
        ⟨(sound k).same_run (started k later) (going k) _, run.allowed k⟩ (run.taken k) before
      intro _ _ _ _ after seen _ _ held _
      exact ⟨writeSight_not_pending, (writeSight_jobName after seen).trans held.2⟩
  obtain ⟨after, inside, named, -, job⟩ := carried
  exact ⟨after, inside, named, job⟩

end

/-- Every fair run ends. If the Jobs that a run records are all found finished some day, by a reconcile that can do its
    work, the run does not go on for ever, whatever the other reconciles in between meet. -/
theorem fair_run_ends {σ : Type} (c : Client σ) (ext : External) (verdict : String → Bool) (hs : ℕ → EntryHistory σ)
    (passes : ℕ → EntryPass σ)
    (first : (entryMachine c ext).Reached (EntryHistory.Allows c ext (SpecHeldAnd (JobsJudged c verdict))) (hs 0))
    (run : (entryMachine c ext).Trace (EntryHistory.Allows c ext (SpecHeldAnd (JobsJudged c verdict))) hs passes)
    (attended : ∀ i, ∃ j, i ≤ j ∧ Attended c ext (passes j) (hs j).entry)
    (finishes : ∀ i, ∀ node ∈ (hs i).entry.nodes, node.jobName ≠ "" → ∃ j, i ≤ j ∧
      Attended c ext (passes j) (hs j).entry ∧ ∃ seen, Seen (c.getJob (passes j).client (passes j).cert.ns) node seen ∧ seen.isFinal = true) :
    ∃ i, isTerminalPhase (hs i).entry.phase = true := by
  by_contra never
  have going : ∀ i, isTerminalPhase (hs i).entry.phase = false := by simpa using never
  have reached := run.reached first
  have sound : ∀ i, Sound c ext (hs i) := fun i => reached_sound (reached i)
  -- An attended pass opens a run, and as that run never ends it is the only one from then on.
  obtain ⟨start, -, opens⟩ := attended 0
  obtain ⟨trigger, opened⟩ := Option.ne_none_iff_exists'.mp (opens.opens (sound start) (run.taken start))
  have started : ∀ i, start + 1 ≤ i → (hs i).trigger = some trigger := by
    intro i later
    induction later with
    | refl => exact opened
    | step _ before => exact (sound _).keeps_trigger before (going _) (run.taken _)
  -- The weight of the board stops rising, so from some moment on the board stands still.
  have executes : ∀ i, start + 1 ≤ i → board (hs (i + 1)).entry.nodes = board (hs i).entry.nodes ∨
      Dag.weight (jobNames trigger.cjob).toFinset (board (hs i).entry.nodes) <
        Dag.weight (jobNames trigger.cjob).toFinset (board (hs (i + 1)).entry.nodes) := fun i later =>
    Dag.eq_or_weight_lt (pass_executes (reached i) (started i later)
      ⟨(sound i).same_run (started i later) (going i) _, run.allowed i⟩ (run.taken i))
  obtain ⟨rest, later, steady⟩ := Machine.settles (start + 1)
    (fun i later => (executes i later).elim (fun same => (congrArg _ same.symm).le) le_of_lt)
    fun i _ => Dag.weight_le _ (board (hs i).entry.nodes)
  have still : ∀ i, rest ≤ i → ∀ j, i ≤ j → board (hs j).entry.nodes = board (hs i).entry.nodes := by
    intro i after j order
    induction order with
    | refl => rfl
    | step order before =>
      rcases executes _ (later.trans (after.trans order)) with same | rises
      · exact same.trans before
      · exact absurd (steady _ (after.trans order)) rises.ne'
  -- An attended pass now leaves a node running, whose Job is found finished later on.
  obtain ⟨i, after, calm⟩ := attended rest
  obtain ⟨node, member, running⟩ := calm.leaves_running (sound i) (started i (later.trans after)) (going i) (run.taken i)
    (going (i + 1))
  have has : node.jobName ≠ "" := by
    rcases (sound (i + 1)).shaped node member with ⟨-, idle⟩ | ⟨has, -⟩
    · simp [running] at idle
    · exact has
  obtain ⟨j, order, heard, seen, read, final⟩ := finishes (i + 1) node member has
  have runs : ∀ k, i + 1 ≤ k → (hs k).trigger = some trigger := fun k above => started k (by omega)
  obtain ⟨kept, inside, named, job⟩ := Trace.recorded run order sound runs going member (by simp [running])
  have shows : board (hs (j + 1)).entry.nodes node.name = .started := by
    rw [still (i + 1) (by omega) (j + 1) (by omega), board_of_mem (sound (i + 1)).unique member, running]
    rfl
  refine heard.settles (sound j) (runs j order) (going j) (run.taken j) inside ⟨job ▸ has, ?_⟩ final (named ▸ shows)
  rw [job]
  exact read.2

end CertificateJobs
