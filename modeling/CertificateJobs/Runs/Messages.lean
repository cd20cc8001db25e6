import CertificateJobs.Runs.Truth

namespace CertificateJobs

section
variable {σ : Type} (c : Client σ) (cjob : CertificateJob) (cert : Certificate) (runID : String)

def Provides (nodeName : String) (s : σ) : Prop :=
  ∀ e, c.getJob s cert.ns (buildJobName cjob.name cert.name nodeName runID) = .error e → e.isNotFound = true ∧
    ∃ job stored after, c.setControllerReference s cjob (assembleJob cjob cert nodeName runID) = .ok job ∧
      c.createJob s job = (.ok stored, after)

def rounds : List String → Int → σ → List (String × σ)
  | [], _, _ => []
  | nodeName :: rest, availableSlots, s =>
    if availableSlots = 0 then []
    else (nodeName, s) :: match provideJob c cjob cert runID nodeName [] s with
      | (some _, _, _) => []
      | (none, _, t) => rounds rest (availableSlots - 1) t

theorem provideJob_client (nodeName : String) (nodes : List WorkflowNodeState) (s : σ) :
    ((provideJob c cjob cert runID nodeName nodes s).1, (provideJob c cjob cert runID nodeName nodes s).2.2) =
      ((provideJob c cjob cert runID nodeName [] s).1, (provideJob c cjob cert runID nodeName [] s).2.2) := by
  unfold CertificateJobs.provideJob
  split
  · rfl
  · split
    · split
      · rfl
      · split <;> rfl
    · rfl

variable {c cjob cert runID} {s : σ}

theorem Provides.provideJob {nodeName : String} (provides : Provides c cjob cert runID nodeName s)
    (nodes : List WorkflowNodeState) : (provideJob c cjob cert runID nodeName nodes s).1 = none := by
  unfold CertificateJobs.provideJob
  cases read : c.getJob s cert.ns (buildJobName cjob.name cert.name nodeName runID) with
  | ok job => rfl
  | error e =>
    obtain ⟨missing, job, stored, after, owned, created⟩ := provides e read
    simp only [missing, if_true, owned, created]

theorem scheduleNodes_served {now : Time} {names : List String} {slots : Int} {nodes : List WorkflowNodeState}
    {out : Scheduling σ} (provides : ∀ round ∈ rounds c cjob cert runID names slots s,
      Provides c cjob cert runID round.1 round.2)
    (result : scheduleNodes c cjob cert runID now names slots nodes s = some out) : out.err = none := by
  induction names generalizing slots nodes s out with
  | nil =>
    obtain rfl := Option.some.inj result
    rfl
  | cons name rest ih =>
    simp only [scheduleNodes] at result
    split at result
    · obtain rfl := Option.some.inj result
      rfl
    · rename_i room
      simp only [rounds, room, if_false, List.forall_mem_cons] at provides
      have provided := provides.1.provideJob nodes
      have same := provideJob_client c cjob cert runID name nodes s
      generalize provideJob c cjob cert runID name nodes s = step at provided same result
      generalize provideJob c cjob cert runID name [] s = plain at same provides
      obtain ⟨err, calls, t⟩ := step
      obtain ⟨err', calls', t'⟩ := plain
      obtain rfl : err = none := provided
      obtain ⟨rfl, rfl⟩ := Prod.mk.inj same
      obtain ⟨marked, -, result⟩ := Option.bind_eq_some_iff.mp result
      obtain ⟨after, later, done⟩ := Option.bind_eq_some_iff.mp result
      obtain rfl := Option.some.inj done
      have fine : after.err = none := ih provides.2 later
      exact fine

theorem observe_served {getJob : String → Except ApiError Job} (now : Time) (nodes : List WorkflowNodeState)
    (answers : ∀ node ∈ nodes, node.jobName ≠ "" → ∀ e, getJob node.jobName = .error e → e.isNotFound = true) :
    (observeWorkflowNodeJobs getJob now nodes).err = none := by
  induction nodes with
  | nil => rfl
  | cons node rest ih =>
    obtain ⟨here, later⟩ := List.forall_mem_cons.mp answers
    unfold observeWorkflowNodeJobs
    split
    · exact ih later
    · rename_i has
      have seen : ∃ seen, sight (getJob node.jobName) = .ok seen := by
        cases read : getJob node.jobName with
        | ok job => exact ⟨_, rfl⟩
        | error e => exact ⟨.missing, by simp [sight, here has e read]⟩
      obtain ⟨seen, read⟩ := seen
      simp only [read, Observation.push, ih later]

end

section
variable {σ : Type} (c : Client σ) (ambient : Ambient) (cjob : CertificateJob) (cert : Certificate)
  (state : CertificateExecutionState) (graph : GraphMaps) (s : σ)

def runRounds : List (String × σ) :=
  let seen := observeWorkflowNodeJobs (c.getJob s cert.ns) (ambient.clock (.certificateRun cert.name))
    (ensureWorkflowNodeStates cjob state.nodes)
  let availableSlots := requestedParallelism cjob - seen.activeCount
  if availableSlots > 0 then
    (do
      let nodes ← applyFailurePolicy ambient.orders.seen cjob.spec.failurePolicy seen.nodes graph.reverse
        (ambient.orders.failed.visit seen.failedNodes) (fun node => ambient.clock (.skipNode cert.name node))
      let runnable ← runnableNodes ambient.orders.nodes cjob.spec.failurePolicy nodes graph.deps
      return rounds c cjob cert state.runID (runnable.insertionSort (· ≤ ·)) availableSlots s).getD []
  else []

structure RunServed : Prop where
  read : ∀ node ∈ ensureWorkflowNodeStates cjob state.nodes, node.jobName ≠ "" →
    ∀ e, c.getJob s cert.ns node.jobName = .error e → e.isNotFound = true
  provides : ∀ round ∈ runRounds c ambient cjob cert state graph s, Provides c cjob cert state.runID round.1 round.2

variable {c ambient cjob cert state graph s}

theorem RunServed.err (served : RunServed c ambient cjob cert state graph s) {out : RunOutcome σ}
    (result : reconcileCertificateRun c ambient cjob cert state graph s = some out) : out.err = none := by
  have provides := served.provides
  simp only [reconcileCertificateRun, observe_served _ _ served.read] at result
  simp only [runRounds] at provides
  obtain ⟨nodes, given, result⟩ := Option.bind_eq_some_iff.mp result
  obtain ⟨scheduling, filled, result⟩ := Option.bind_eq_some_iff.mp result
  obtain rfl := Option.some.inj result
  rw [concludeRun_err]
  unfold fillSlots at filled
  split at filled
  · rename_i room
    obtain ⟨runnable, waiting, scheduled⟩ := Option.bind_eq_some_iff.mp filled
    simp only [room, if_true, given, waiting, Option.bind_eq_bind, Option.bind_some, pure, Option.getD_some] at provides
    exact scheduleNodes_served provides scheduled
  · obtain rfl := Option.some.inj filled
    rfl

end

section
variable {σ : Type} (c : Client σ) (ext : External)

def EntryPass.Served (pass : EntryPass σ) (entry : CertificateExecutionState) : Prop :=
  ∀ out graph base run, Ran c ext pass entry out graph base run →
    RunServed c pass.ambient pass.cjob pass.cert base graph pass.client

/-- A pass that meets nothing it would have to report: over a run that is going on it finds the input of that run, and
    none of its calls about Jobs fails. -/
structure Undisturbed (h : EntryHistory σ) (pass : EntryPass σ) : Prop where
  input : h.entry.inputHash ≠ "" → isTerminalPhase h.entry.phase = false → pass.cert.spec.secretName ≠ "" →
    pass.inputHash c ext = some h.entry.inputHash
  served : pass.Served c ext h.entry

def Silent (entry : CertificateExecutionState) : Prop :=
  entry.inputHash ≠ "" → entry.phase ≠ .failed → entry.message = ""

variable {c ext}

theorem applyInputHashTransition_same {cjob : CertificateJob} {cert : Certificate} {entry : CertificateExecutionState}
    {hash : String} {now : Time} (same : hash = entry.inputHash) (triggered : entry.inputHash ≠ "") :
    applyInputHashTransition cjob cert entry hash now = entry := by
  simp [applyInputHashTransition, startsRun, same, triggered]

theorem Undisturbed.transition {h : EntryHistory σ} {pass : EntryPass σ} (calm : Undisturbed c ext h pass) {hash : String}
    (input : pass.inputHash c ext = some hash) (named : pass.cert.spec.secretName ≠ "") (now : Time) :
    (pass.starts c ext h.entry = true ∧
      (applyInputHashTransition pass.cjob pass.cert h.entry hash now).message = "" ∧
      (applyInputHashTransition pass.cjob pass.cert h.entry hash now).phase = .pending) ∨
    (pass.starts c ext h.entry = false ∧ h.entry.inputHash ≠ "" ∧
      applyInputHashTransition pass.cjob pass.cert h.entry hash now = h.entry) := by
  have starts : pass.starts c ext h.entry = startsRun h.entry hash := by simp [EntryPass.starts, input]
  cases opens : startsRun h.entry hash with
  | true => exact .inl ⟨starts.trans opens, by simp [applyInputHashTransition, opens]⟩
  | false =>
    rw [opens] at starts
    simp only [startsRun, decide_eq_false_iff_not, not_or, not_and] at opens
    obtain ⟨triggered, steady⟩ := opens
    refine .inr ⟨starts, triggered, applyInputHashTransition_same ?_ triggered⟩
    by_cases terminal : isTerminalPhase h.entry.phase = true
    · by_contra other
      exact steady (Ne.symm other) terminal
    · have current := calm.input triggered (by simpa using terminal) named
      rw [input] at current
      exact Option.some.inj current

theorem Undisturbed.silent_input {h : EntryHistory σ} {pass : EntryPass σ} (calm : Undisturbed c ext h pass)
    (before : pass.starts c ext h.entry = false → Silent h.entry) {hash : String}
    (input : pass.inputHash c ext = some hash) (named : pass.cert.spec.secretName ≠ "") {workflowCtx : WorkflowContext}
    (accepted : Accepted pass.cjob workflowCtx.graph) {out : EntryOutcome σ}
    (performed : reconcileInput c pass.ambient pass.cjob pass.cert h.entry workflowCtx hash pass.client = some out) :
    Silent out.state := by
  -- With an input in hand the pass either leaves an ended run alone or works on the run, and no call fails.
  have transition := calm.transition input named workflowCtx.now
  simp only [reconcileInput] at performed
  split at performed
  · rename_i terminal
    obtain rfl := Option.some.inj performed
    rcases transition with ⟨-, -, pending⟩ | ⟨continues, -, same⟩
    · rw [pending] at terminal
      cases terminal
    · rw [same]
      exact before continues
  · rename_i going
    obtain ⟨run, result, rfl⟩ := Option.map_eq_some_iff.mp performed
    have fine := (calm.served _ _ _ run (reconcileInput_ran accepted input (by simpa using going) result)).err result
    obtain ⟨nodes, phase, completed, kept⟩ := (reconcileCertificateRun_outline result).2.1
    have quiet : (applyInputHashTransition pass.cjob pass.cert h.entry hash workflowCtx.now).message = "" := by
      rcases transition with ⟨-, none, -⟩ | ⟨continues, triggered, same⟩
      · exact none
      · rw [same] at going ⊢
        exact before continues triggered fun failed => going (by rw [failed]; rfl)
    intro _ _
    simp only [concludeEntry, fine, kept, quiet]

theorem silent_step {h h' : EntryHistory σ} {pass : EntryPass σ}
    (before : pass.starts c ext h.entry = false → Silent h.entry) (calm : Undisturbed c ext h pass)
    (taken : (entryMachine c ext).step h pass h') : Silent h'.entry := by
  -- The start of a run clears the message, so nothing need be known of the entry before it.
  obtain ⟨out, performed, rfl⟩ := taken
  have state : (h.next c ext pass out).entry = out.state := by
    unfold EntryHistory.next
    split <;> rfl
  rw [state]
  obtain ⟨workflowCtx, context⟩ := perform_context performed
  by_cases named : pass.cert.spec.secretName = ""
  · rw [perform_unnamed context named] at performed
    obtain rfl := Option.some.inj performed
    exact fun _ failed => absurd rfl failed
  · cases input : pass.inputHash c ext with
    | none =>
      obtain ⟨message, waits⟩ := perform_blind context named input
      obtain rfl := Option.some.inj (waits.symm.trans performed)
      unfold waitForInput
      split
      · exact before (by simp [EntryPass.starts, input])
      · rename_i going
        intro triggered
        rw [calm.input triggered (by simpa using going) named] at input
        cases input
    | some hash =>
      rw [perform_input context input] at performed
      exact calm.silent_input before input named (buildWorkflowContext_accepted context) performed

end

/-- When no reconcile of a run is disturbed, from the one that started it on, a certificate that succeeded with its
    current input shows no message. Only the start of the next run clears what a disturbed reconcile has written. -/
theorem succeeded_without_message {σ : Type} (c : Client σ) (ext : External) (idle first h : EntryHistory σ)
    (trigger : EntryPass σ) (opens : trigger.starts c ext idle.entry = true) (calm : Undisturbed c ext idle trigger)
    (opened : (entryMachine c ext).step idle trigger first)
    (run : (entryMachine c ext).Leads (Undisturbed c ext) first h) (pass : EntryPass σ)
    (current : pass.inputHash c ext = some h.entry.inputHash) (succeeded : h.entry.phase = .succeeded) :
    h.entry.message = "" := by
  have fresh : Silent first.entry := silent_step (fun continues => by rw [opens] at continues; cases continues) calm opened
  have silent := run.invariant (fun h => Silent h.entry)
    (fun _ _ _ before calm taken => silent_step (fun _ => before) calm taken) fresh
  exact silent (inputHash_ne_empty current) (by simp [succeeded])

theorem clusterClient_missing {cluster : Cluster} {ns name : String} {e : ApiError}
    (failed : clusterClient.getJob cluster ns name = .error e) : cluster.jobs ns name = none ∧ e.isNotFound = true := by
  cases found : cluster.jobs ns name with
  | some job => simp [clusterClient, found] at failed
  | none =>
    simp only [clusterClient, found, Option.elim_none, notFound, Except.error.injEq] at failed
    rw [← failed]
    exact ⟨rfl, rfl⟩

theorem clusterClient_served (pass : EntryPass Cluster) (entry : CertificateExecutionState) :
    pass.Served clusterClient plainExternal entry := by
  intro _ _ base _ _
  refine ⟨fun _ _ _ e failed => (clusterClient_missing failed).2, fun round _ e failed => ?_⟩
  obtain ⟨missing, known⟩ := clusterClient_missing failed
  exact ⟨known, _, _, _, rfl, by simp only [clusterClient, Cluster.createJob, assembleJob, missing]; rfl⟩

def Cluster.restoreSecret (cluster : Cluster) : Cluster :=
  { cluster with secrets := (sampleCluster cluster.cjob.spec).secrets }

def inputKept (h : EntryHistory Cluster) (pass : EntryPass Cluster) : Bool :=
  h.entry.inputHash = "" ∨ pass.inputHash clusterClient plainExternal = some h.entry.inputHash

theorem inputKept_undisturbed {h : EntryHistory Cluster} {pass : EntryPass Cluster} (kept : inputKept h pass = true) :
    Undisturbed clusterClient plainExternal h pass where
  input triggered _ _ := by
    simp only [inputKept, decide_eq_true_eq] at kept
    exact kept.resolve_left triggered
  served := clusterClient_served pass h.entry

def completes : List (Cluster → EntryPass Cluster) :=
  [fun cluster => (cluster.restoreSecret.report "a" completeStatus).pass]

def succeededWith (message : String) (last : EntryHistory Cluster × Cluster) : Bool :=
  last.1.entry.phase = .succeeded ∧ last.1.entry.message = message ∧
    last.2.pass.inputHash clusterClient plainExternal = some last.1.entry.inputHash

def runCluster : Cluster := sampleCluster (flatSpec ["a"] 1 .stopDownstream)

theorem runCluster_played :
    (runCluster.pass.perform clusterClient plainExternal (newEntry runCluster).entry).any (fun out =>
      let first := (newEntry runCluster).next clusterClient plainExternal runCluster.pass out
      runCluster.pass.starts clusterClient plainExternal (newEntry runCluster).entry ∧
      (first.replay clusterClient plainExternal inputKept out.client completes).any (succeededWith "") ∧
      (first.replay clusterClient plainExternal (fun _ _ => true) out.client
        ((fun cluster => cluster.dropSecret.pass) :: completes)).any
        (succeededWith "waiting for readable secret default/tls: secrets \"tls\" not found")) = true := by
  decide +kernel

theorem succeeded_without_message_completed :
    ∃ idle first h, ∃ trigger pass : EntryPass Cluster, trigger.starts clusterClient plainExternal idle.entry = true ∧
      (entryMachine clusterClient plainExternal).step idle trigger first ∧
      (entryMachine clusterClient plainExternal).Leads (Undisturbed clusterClient plainExternal) first h ∧
      pass.inputHash clusterClient plainExternal = some h.entry.inputHash ∧ h.entry.phase = .succeeded ∧
      h.entry.message = "" := by
  obtain ⟨out, performed, checked⟩ := (Option.any_eq_true _ _).mp runCluster_played
  simp only [decide_eq_true_eq] at checked
  obtain ⟨opens, undisturbed, -⟩ := checked
  obtain ⟨last, result, ended⟩ := (Option.any_eq_true _ _).mp undisturbed
  simp only [succeededWith, decide_eq_true_eq] at ended
  obtain ⟨succeeded, -, current⟩ := ended
  have opened : (entryMachine clusterClient plainExternal).step (newEntry runCluster) runCluster.pass _ :=
    ⟨out, performed, rfl⟩
  have calm : Undisturbed clusterClient plainExternal (newEntry runCluster) runCluster.pass := inputKept_undisturbed rfl
  have run := replay_leads (fun _ _ => inputKept_undisturbed) _ _ _ result
  exact ⟨_, _, last.1, runCluster.pass, last.2.pass, opens, opened, run, current, succeeded,
    succeeded_without_message _ _ _ _ last.1 runCluster.pass opens calm opened run last.2.pass current succeeded⟩

/-- The Secret was away for one reconcile of a run that then succeeded: the entry says for good that it waits for it. -/
theorem succeeded_with_stale_message :
    ∃ h, ∃ pass : EntryPass Cluster, (entryMachine clusterClient plainExternal).Reached (fun _ _ => True) h ∧
      pass.inputHash clusterClient plainExternal = some h.entry.inputHash ∧ h.entry.phase = .succeeded ∧
      h.entry.message = "waiting for readable secret default/tls: secrets \"tls\" not found" := by
  obtain ⟨out, performed, checked⟩ := (Option.any_eq_true _ _).mp runCluster_played
  simp only [decide_eq_true_eq] at checked
  obtain ⟨-, -, disturbed⟩ := checked
  obtain ⟨last, result, ended⟩ := (Option.any_eq_true _ _).mp disturbed
  simp only [succeededWith, decide_eq_true_eq] at ended
  obtain ⟨succeeded, stale, current⟩ := ended
  have opened : (entryMachine clusterClient plainExternal).step (newEntry runCluster) runCluster.pass _ :=
    ⟨out, performed, rfl⟩
  have later : (entryMachine clusterClient plainExternal).Leads (fun _ _ => True) _ last.1 :=
    replay_leads (fun _ _ _ => trivial) _ _ _ result
  have reached : (entryMachine clusterClient plainExternal).Reached (fun _ _ => True) last.1 :=
    ⟨_, ⟨_, _, rfl⟩, (Machine.Leads.step (.refl _) trivial opened).trans later⟩
  exact ⟨last.1, last.2.pass, reached, current, succeeded, stale⟩

end CertificateJobs
