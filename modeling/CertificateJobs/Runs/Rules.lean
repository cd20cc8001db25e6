import CertificateJobs.Runs.Entry

namespace CertificateJobs

def WorkflowNodeState.Shaped (node : WorkflowNodeState) : Prop :=
  (node.jobName = "" ∧ (node.phase = .pending ∨ node.phase = .skipped)) ∨
  (node.jobName ≠ "" ∧ (node.phase = .running ∨ node.phase = .succeeded ∨ node.phase = .failed))

def WorkflowNodeState.Settled (node : WorkflowNodeState) : Prop := node.phase = .succeeded ∨ node.phase = .failed

theorem WorkflowNodeState.Shaped.started {node : WorkflowNodeState} (shaped : node.Shaped) (settled : node.Settled) :
    node.jobName ≠ "" := by
  rcases shaped with ⟨-, phase⟩ | ⟨has, -⟩
  · rcases settled with succeeded | failed
    · simp [succeeded] at phase
    · simp [failed] at phase
  · exact has

theorem buildJobName_ne_empty (cjobName certName nodeName runID : String) :
    buildJobName cjobName certName nodeName runID ≠ "" := by
  unfold buildJobName
  intro empty
  have length := congrArg String.length empty
  simp only [String.length_append] at length
  have dash : "-".length = 1 := rfl
  have none : "".length = 0 := rfl
  omega

theorem writeSight_shaped {now : Time} {node : WorkflowNodeState} {seen : Sight} (before : node.Shaped)
    (has : node.jobName ≠ "") : (writeSight now node seen).Shaped := by
  rcases writeSight_cases now node seen with ⟨-, phase⟩ | ⟨-, phase⟩ | ⟨-, phase⟩ | ⟨-, -, same⟩
  · exact .inr ⟨by rwa [writeSight_jobName], .inr (.inr phase)⟩
  · exact .inr ⟨by rwa [writeSight_jobName], .inr (.inl phase)⟩
  · exact .inr ⟨by rwa [writeSight_jobName], .inl phase⟩
  · rwa [same]

theorem nodeNames_initial (cjob : CertificateJob) : (nodeNames (initializeNodeStates cjob)).Perm (jobNames cjob) := by
  unfold nodeNames initializeNodeStates jobNames
  refine ((List.perm_insertionSort _ _).map _).trans ?_
  rw [List.map_map]
  exact .rfl

theorem mem_initial {cjob : CertificateJob} {node : WorkflowNodeState} (member : node ∈ initializeNodeStates cjob) :
    ∃ name ∈ jobNames cjob, node = pendingNode name := by
  obtain ⟨job, present, rfl⟩ := List.mem_map.mp ((List.mem_insertionSort _).mp member)
  exact ⟨job.name, List.mem_map_of_mem present, rfl⟩

section
variable {σ : Type} {c : Client σ} {ambient : Ambient} {cjob : CertificateJob} {certificate : Certificate}
  {state : CertificateExecutionState} {graph : GraphMaps} {s : σ} {out : RunOutcome σ}

theorem ensure_shaped (shaped : ∀ node ∈ state.nodes, node.Shaped) :
    ∀ node ∈ ensureWorkflowNodeStates cjob state.nodes, node.Shaped := by
  intro node member
  rcases mem_ensure member with old | ⟨name, -, -, rfl⟩
  · exact shaped node old
  · exact .inl ⟨rfl, .inl rfl⟩

theorem reconcileCertificateRun_advance (accepted : Accepted cjob graph) (unique : (nodeNames state.nodes).Nodup)
    (result : reconcileCertificateRun c ambient cjob certificate state graph s = some out) {node : WorkflowNodeState}
    (member : node ∈ state.nodes) (started : node.phase ≠ .pending) :
    ∃ after ∈ out.state.nodes, after = node ∨ ∃ seen, Seen (c.getJob s certificate.ns) node seen ∧
      after = writeSight (ambient.clock (.certificateRun certificate.name)) node seen := by
  have kept : node ∈ ensureWorkflowNodeStates cjob state.nodes := List.mem_append_left _ member
  rcases reconcileCertificateRun_cases accepted unique result with ⟨processed, stopped⟩ | ⟨active, failed, names, done⟩
  · obtain ⟨after, inside, same | ⟨seen, read, -, written⟩⟩ := stopped.moves kept
    · exact ⟨after, inside, .inl same⟩
    · exact ⟨after, inside, .inr ⟨seen, read, written⟩⟩
  · obtain ⟨after, inside, moves⟩ := done.moves (ensure_unique accepted.names unique) kept
    refine ⟨after, inside, ?_⟩
    cases moves with
    | seen seen read => exact .inr ⟨seen, read, rfl⟩
    | given _ pending => exact absurd pending started
    | start _ pending => exact absurd pending started
    | stay => exact .inl rfl

/-- A property that new nodes have and that no write to a node breaks is kept by a pass. -/
theorem reconcileCertificateRun_nodes (accepted : Accepted cjob graph) (unique : (nodeNames state.nodes).Nodup)
    (result : reconcileCertificateRun c ambient cjob certificate state graph s = some out)
    (holds : WorkflowNodeState → Prop) (new : ∀ name, holds (pendingNode name))
    (seen : ∀ node now sight, holds node → node.jobName ≠ "" → holds (writeSight now node sight))
    (skip : ∀ node message t, holds node → node.jobName = "" → holds (markSkipped message t node))
    (start : ∀ node now, holds node →
      holds (markStarted (buildJobName cjob.name certificate.name node.name state.runID) now node))
    (before : ∀ node ∈ state.nodes, holds node) : ∀ node ∈ out.state.nodes, holds node := by
  have ensured : ∀ node ∈ ensureWorkflowNodeStates cjob state.nodes, holds node := by
    intro node member
    rcases mem_ensure member with old | ⟨name, -, -, rfl⟩
    · exact before node old
    · exact new name
  intro after member
  rcases reconcileCertificateRun_cases accepted unique result with ⟨processed, stopped⟩ | ⟨active, failed, names, done⟩
  · obtain ⟨node, present, rfl | ⟨sight, read, -, rfl⟩⟩ := stopped.origin member
    · exact ensured after present
    · exact seen node _ sight (ensured node present) read.1
  · obtain ⟨node, present, moves⟩ := done.origin (ensure_unique accepted.names unique) member
    have held := ensured node present
    cases moves with
    | seen sight read => exact seen node _ sight held read.1
    | given idle => exact skip node _ _ held idle
    | start => exact start node _ held
    | stay => exact held

theorem reconcileCertificateRun_names (accepted : Accepted cjob graph) (unique : (nodeNames state.nodes).Nodup)
    (result : reconcileCertificateRun c ambient cjob certificate state graph s = some out) :
    nodeNames out.state.nodes = nodeNames (ensureWorkflowNodeStates cjob state.nodes) := by
  rcases reconcileCertificateRun_cases accepted unique result with
    ⟨processed, stopped⟩ | ⟨active, failed, started, done⟩
  · rw [stopped.result]
    apply nodeNames_map
    intro node _
    split
    · exact observed_name node
    · rfl
  · rw [done.result, nodeNames_startedNodes]

theorem reconcileCertificateRun_keeps (accepted : Accepted cjob graph) (unique : (nodeNames state.nodes).Nodup)
    (shaped : ∀ node ∈ state.nodes, node.Shaped)
    (result : reconcileCertificateRun c ambient cjob certificate state graph s = some out) :
    nodeNames out.state.nodes = nodeNames (ensureWorkflowNodeStates cjob state.nodes) ∧
    (∀ node ∈ out.state.nodes, node.Shaped) ∧
    ∃ nodes phase completed,
      out.state = { state with nodes := nodes, phase := phase, lastCompletedTime := completed } := by
  refine ⟨reconcileCertificateRun_names accepted unique result, ?_, (reconcileCertificateRun_outline result).2.1⟩
  refine reconcileCertificateRun_nodes accepted unique result WorkflowNodeState.Shaped ?_ ?_ ?_ ?_ shaped
  · exact fun _ => .inl ⟨rfl, .inl rfl⟩
  · exact fun _ _ _ before has => writeSight_shaped before has
  · exact fun _ _ _ _ idle => .inl ⟨idle, .inr rfl⟩
  · exact fun _ _ _ => .inr ⟨buildJobName_ne_empty _ _ _ _, .inl rfl⟩

end

section
variable {σ : Type} (c : Client σ) (ext : External)

/-- What holds of every entry, whatever the surroundings do. -/
structure Sound (h : EntryHistory σ) : Prop where
  unique : (nodeNames h.entry.nodes).Nodup
  shaped : ∀ node ∈ h.entry.nodes, node.Shaped
  untriggered : h.trigger = none → h.entry.inputHash = "" ∧ h.entry.nodes = []
  triggered : ∀ trigger, h.trigger = some trigger → trigger.inputHash c ext = some h.entry.inputHash

/-- A pass seen from the run it works on: `trigger` started the run, `log` is what the run has read so far, and
    `base` is the entry that `reconcileCertificateRun` gets. -/
structure Midway (h : EntryHistory σ) (pass : EntryPass σ) (out : EntryOutcome σ) (trigger : EntryPass σ)
    (log : List Sighting) (base : CertificateExecutionState) (graph : GraphMaps) (run : RunOutcome σ) : Prop where
  accepted : Accepted pass.cjob graph
  going : isTerminalPhase base.phase = false
  result : reconcileCertificateRun c pass.ambient pass.cjob pass.cert base graph pass.client = some run
  concluded : out = concludeEntry run
  next : h.next c ext pass out = { entry := out.state, trigger := some trigger, log := log ++ run.sightings }
  origin :
    (pass.starts c ext h.entry = true ∧ trigger = pass ∧ log = [] ∧ base.nodes = initializeNodeStates pass.cjob) ∨
    (pass.starts c ext h.entry = false ∧ h.trigger = some trigger ∧ log = h.log ∧
      ∃ message, base = { h.entry with message := message })
  input : trigger.inputHash c ext = some base.inputHash
  unique : (nodeNames base.nodes).Nodup
  shaped : ∀ node ∈ base.nodes, node.Shaped

variable {c ext}

theorem concludeEntry_state (run : RunOutcome σ) : ∃ phase message completed,
    (concludeEntry run).state =
      { run.state with phase := phase, message := message, lastCompletedTime := completed } := by
  unfold concludeEntry
  split
  · exact ⟨_, _, _, rfl⟩
  · exact ⟨run.state.phase, run.state.message, run.state.lastCompletedTime, rfl⟩

theorem concludeEntry_rewritten {ambient : Ambient} {cjob : CertificateJob} {cert : Certificate}
    {state : CertificateExecutionState} {graph : GraphMaps} {s : σ} {run : RunOutcome σ}
    (result : reconcileCertificateRun c ambient cjob cert state graph s = some run) : ∃ phase message completed,
      (concludeEntry run).state = { state with
        nodes := run.state.nodes, phase := phase, message := message, lastCompletedTime := completed } := by
  obtain ⟨nodes, phase, completed, same⟩ := (reconcileCertificateRun_outline result).2.1
  obtain ⟨phase', message, completed', written⟩ := concludeEntry_state run
  exact ⟨phase', message, completed', by rw [written, same]⟩

@[simp] theorem concludeEntry_nodes (run : RunOutcome σ) : (concludeEntry run).state.nodes = run.state.nodes := by
  obtain ⟨phase, message, completed, same⟩ := concludeEntry_state run
  rw [same]

theorem concludeEntry_runID {ambient : Ambient} {cjob : CertificateJob} {cert : Certificate}
    {state : CertificateExecutionState} {graph : GraphMaps} {s : σ} {run : RunOutcome σ}
    (result : reconcileCertificateRun c ambient cjob cert state graph s = some run) :
    (concludeEntry run).state.runID = state.runID := by
  obtain ⟨phase, message, completed, same⟩ := concludeEntry_rewritten result
  rw [same]

@[simp] theorem concludeEntry_sightings (run : RunOutcome σ) : (concludeEntry run).sightings = run.sightings := by
  unfold concludeEntry
  split <;> rfl

@[simp] theorem concludeEntry_client (run : RunOutcome σ) : (concludeEntry run).client = run.client := by
  unfold concludeEntry
  split <;> rfl

@[simp] theorem concludeEntry_calls (run : RunOutcome σ) : (concludeEntry run).calls = run.calls := by
  unfold concludeEntry
  split <;> rfl

theorem Sound.start {h : EntryHistory σ} (first : (entryMachine c ext).start h) : Sound c ext h := by
  obtain ⟨ns, name, rfl⟩ := first
  exact ⟨List.nodup_nil, by simp, fun _ => ⟨rfl, rfl⟩, by simp⟩

theorem Ran.rewritten {pass : EntryPass σ} {entry : CertificateExecutionState} {out : EntryOutcome σ} {graph : GraphMaps}
    {base : CertificateExecutionState} {run : RunOutcome σ} (ran : Ran c ext pass entry out graph base run) :
    ∃ phase message completed, out.state = { base with
      nodes := run.state.nodes, phase := phase, message := message, lastCompletedTime := completed } := by
  rw [ran.concluded]
  exact concludeEntry_rewritten ran.result

theorem Ran.unique {pass : EntryPass σ} {entry : CertificateExecutionState} {out : EntryOutcome σ} {graph : GraphMaps}
    {base : CertificateExecutionState} {run : RunOutcome σ} (ran : Ran c ext pass entry out graph base run)
    (before : (nodeNames entry.nodes).Nodup) : (nodeNames base.nodes).Nodup := by
  cases starts : pass.starts c ext entry with
  | true =>
    rw [(ran.fresh starts).1]
    exact (nodeNames_initial _).nodup_iff.mpr ran.accepted.names
  | false =>
    obtain ⟨message, same⟩ := ran.same starts
    rw [same]
    exact before

theorem Ran.shaped {pass : EntryPass σ} {entry : CertificateExecutionState} {out : EntryOutcome σ} {graph : GraphMaps}
    {base : CertificateExecutionState} {run : RunOutcome σ} (ran : Ran c ext pass entry out graph base run)
    (before : ∀ node ∈ entry.nodes, node.Shaped) : ∀ node ∈ base.nodes, node.Shaped := by
  cases starts : pass.starts c ext entry with
  | true =>
    rw [(ran.fresh starts).1]
    intro node member
    obtain ⟨name, -, rfl⟩ := mem_initial member
    exact .inl ⟨rfl, .inl rfl⟩
  | false =>
    obtain ⟨message, same⟩ := ran.same starts
    rw [same]
    exact before

theorem inputHash_hashed {pass : EntryPass σ} {hash : String} (input : pass.inputHash c ext = some hash) :
    ∃ text, hash = hashString text := by
  unfold EntryPass.inputHash at input
  split at input
  · cases input
  · obtain ⟨workflowCtx, -, input⟩ := Option.bind_eq_some_iff.mp input
    obtain ⟨secret, -, input⟩ := Option.bind_eq_some_iff.mp input
    have built := ok_of_toOption input
    unfold buildInputHash at built
    generalize ext.marshalInput _ = encoded at built
    cases encoded with
    | error e => cases built
    | ok raw => exact ⟨raw, (Except.ok.inj built).symm⟩

theorem inputHash_ne_empty {pass : EntryPass σ} {hash : String} (input : pass.inputHash c ext = some hash) :
    hash ≠ "" := by
  obtain ⟨text, rfl⟩ := inputHash_hashed input
  exact Sha256.hexSum_ne_empty text

theorem Ran.triggered {pass : EntryPass σ} {entry : CertificateExecutionState} {out : EntryOutcome σ}
    {graph : GraphMaps} {base : CertificateExecutionState} {run : RunOutcome σ}
    (ran : Ran c ext pass entry out graph base run) : base.inputHash ≠ "" := by
  cases starts : pass.starts c ext entry with
  | true => exact inputHash_ne_empty (ran.fresh starts).2.1
  | false =>
    obtain ⟨message, rfl⟩ := ran.same starts
    obtain ⟨hash, input⟩ := ran.input
    simp only [EntryPass.starts, input, Option.any_some, startsRun, decide_eq_false_iff_not, not_or] at starts
    exact starts.1

theorem Ran.midway {h : EntryHistory σ} (sound : Sound c ext h) {pass : EntryPass σ} {out : EntryOutcome σ}
    {graph : GraphMaps} {base : CertificateExecutionState} {run : RunOutcome σ}
    (ran : Ran c ext pass h.entry out graph base run) :
    ∃ trigger log, Midway c ext h pass out trigger log base graph run := by
  have unique := ran.unique sound.unique
  have shaped := ran.shaped sound.shaped
  have sightings : out.sightings = run.sightings := by rw [ran.concluded, concludeEntry_sightings]
  cases starts : pass.starts c ext h.entry with
  | true =>
    obtain ⟨nodes, input, -⟩ := ran.fresh starts
    refine ⟨pass, [], ran.accepted, ran.going, ran.result, ran.concluded, ?_,
      .inl ⟨starts, rfl, rfl, nodes⟩, input, unique, shaped⟩
    simp [EntryHistory.next, starts, sightings]
  | false =>
    obtain ⟨message, same⟩ := ran.same starts
    obtain ⟨hash, input⟩ := ran.input
    have running : h.trigger ≠ none := by
      intro none
      have first := (sound.untriggered none).1
      simp [EntryPass.starts, input, startsRun, first] at starts
    obtain ⟨trigger, started⟩ := Option.ne_none_iff_exists'.mp running
    refine ⟨trigger, h.log, ran.accepted, ran.going, ran.result, ran.concluded, ?_,
      .inr ⟨starts, started, rfl, message, same⟩, ?_, unique, shaped⟩
    · simp [EntryHistory.next, starts, sightings, started]
    · rw [same]
      exact sound.triggered trigger started

theorem Sound.midway {h : EntryHistory σ} (sound : Sound c ext h) {pass : EntryPass σ} {out : EntryOutcome σ}
    (performed : pass.perform c ext h.entry = some out) :
    (Quiet c ext pass h.entry out ∧ h.next c ext pass out = { h with entry := out.state }) ∨
    ∃ trigger log base graph run, Midway c ext h pass out trigger log base graph run := by
  rcases perform_cases c ext performed with quiet | ⟨graph, base, run, ran⟩
  · refine .inl ⟨quiet, ?_⟩
    simp [EntryHistory.next, quiet.noStart, quiet.sightings]
  · obtain ⟨trigger, log, mid⟩ := ran.midway sound
    exact .inr ⟨trigger, log, base, graph, run, mid⟩

theorem Midway.rewritten {h : EntryHistory σ} {pass trigger : EntryPass σ} {out : EntryOutcome σ} {log : List Sighting}
    {base : CertificateExecutionState} {graph : GraphMaps} {run : RunOutcome σ}
    (mid : Midway c ext h pass out trigger log base graph run) : ∃ phase message completed,
      out.state = { base with
        nodes := run.state.nodes, phase := phase, message := message, lastCompletedTime := completed } := by
  rw [mid.concluded]
  exact concludeEntry_rewritten mid.result

theorem Sound.step {h h' : EntryHistory σ} (sound : Sound c ext h) {pass : EntryPass σ}
    (taken : (entryMachine c ext).step h pass h') : Sound c ext h' := by
  obtain ⟨out, performed, rfl⟩ := taken
  rcases sound.midway performed with ⟨quiet, same⟩ | ⟨trigger, log, base, graph, run, mid⟩
  · obtain ⟨secretName, phase, message, completed, written⟩ := quiet.rewritten
    rw [same, written]
    exact ⟨sound.unique, sound.shaped, sound.untriggered, sound.triggered⟩
  · obtain ⟨names, shaped, -⟩ := reconcileCertificateRun_keeps mid.accepted mid.unique mid.shaped mid.result
    obtain ⟨phase, message, completed, written⟩ := mid.rewritten
    rw [mid.next, written]
    refine ⟨?_, shaped, by simp, ?_⟩
    · simp only [names]
      exact ensure_unique mid.accepted.names mid.unique
    · intro started same
      obtain rfl := Option.some.inj same
      exact mid.input

theorem reached_sound {ok : EntryHistory σ → EntryPass σ → Prop} {h : EntryHistory σ}
    (reached : (entryMachine c ext).Reached ok h) : Sound c ext h :=
  reached.invariant (Sound c ext) (fun _ => Sound.start) fun _ _ _ sound _ => sound.step

end

abbrev RunProperty (σ : Type) := EntryPass σ → List Sighting → List WorkflowNodeState → Prop

abbrev PassCondition (σ : Type) := EntryPass σ → List Sighting → List WorkflowNodeState → EntryPass σ → Prop

section
variable {σ : Type} (c : Client σ) (ext : External)

def EntryHistory.Satisfies (h : EntryHistory σ) (property : RunProperty σ) : Prop :=
  ∀ trigger, h.trigger = some trigger → property trigger h.log h.entry.nodes

/-- The condition holds of a pass over a run that is going on; a pass that starts a run is not constrained. -/
def EntryHistory.Allows (condition : PassCondition σ) (h : EntryHistory σ) (pass : EntryPass σ) : Prop :=
  pass.starts c ext h.entry = false → isTerminalPhase h.entry.phase = false →
    ∀ trigger, h.trigger = some trigger → condition trigger h.log h.entry.nodes pass

variable {c ext} {condition : PassCondition σ} {property : RunProperty σ}

theorem Midway.spec {h : EntryHistory σ} {pass trigger : EntryPass σ} {out : EntryOutcome σ} {log : List Sighting}
    {base : CertificateExecutionState} {graph : GraphMaps} {run : RunOutcome σ}
    (mid : Midway c ext h pass out trigger log base graph run) :
    (∃ processed, ReadFailed c pass.ambient pass.cjob pass.cert base pass.client run processed) ∨
      ∃ active failed started,
        Completed c pass.ambient pass.cjob pass.cert base graph pass.client run active failed started :=
  reconcileCertificateRun_cases mid.accepted mid.unique mid.result

theorem Midway.lift {h : EntryHistory σ} {pass trigger : EntryPass σ} {out : EntryOutcome σ} {log : List Sighting}
    {base : CertificateExecutionState} {graph : GraphMaps} {run : RunOutcome σ}
    (mid : Midway c ext h pass out trigger log base graph run) (before : h.Satisfies property)
    (allowed : h.Allows c ext condition pass)
    (opens : property pass [] (initializeNodeStates pass.cjob))
    (fresh : condition pass [] (initializeNodeStates pass.cjob) pass) :
    property trigger log base.nodes ∧ condition trigger log base.nodes pass := by
  rcases mid.origin with ⟨-, rfl, rfl, nodes⟩ | ⟨starts, started, rfl, message, rfl⟩
  · rw [nodes]
    exact ⟨opens, fresh⟩
  · exact ⟨before trigger started, allowed starts mid.going trigger started⟩

/-- To show a property of every run, show it of a run just opened and of what one pass makes of it. -/
theorem reached_satisfies
    (opens : ∀ pass graph, Accepted pass.cjob graph → property pass [] (initializeNodeStates pass.cjob))
    (fresh : ∀ pass : EntryPass σ, condition pass [] (initializeNodeStates pass.cjob) pass)
    (keep : ∀ {h pass out trigger log base graph run}, Midway c ext h pass out trigger log base graph run →
      property trigger log base.nodes → condition trigger log base.nodes pass →
      property trigger (log ++ run.sightings) run.state.nodes)
    {h : EntryHistory σ} (reached : (entryMachine c ext).Reached (EntryHistory.Allows c ext condition) h) :
    h.Satisfies property := by
  refine reached.invariant_with (fun _ => reached_sound) (fun h => h.Satisfies property) ?_ ?_
  · rintro h ⟨ns, name, rfl⟩
    simp [EntryHistory.Satisfies]
  · rintro h pass _ sound before allowed ⟨out, performed, rfl⟩
    rcases sound.midway performed with ⟨quiet, same⟩ | ⟨trigger, log, base, graph, run, mid⟩
    · obtain ⟨secretName, phase, message, completed, written⟩ := quiet.rewritten
      rw [same, written]
      exact before
    · obtain ⟨held, demanded⟩ := mid.lift before allowed (opens pass graph mid.accepted) (fresh pass)
      rw [mid.next, mid.concluded]
      intro started found
      obtain rfl := Option.some.inj found
      simp only [concludeEntry_nodes]
      exact keep mid held demanded

def SpecHeld : PassCondition σ := fun trigger _ _ pass => pass.cjob.spec = trigger.cjob.spec

def SpecHeldAnd (condition : PassCondition σ) : PassCondition σ := fun trigger log nodes pass =>
  SpecHeld trigger log nodes pass ∧ condition trigger log nodes pass

def specKept (h : EntryHistory σ) (pass : EntryPass σ) : Bool :=
  h.trigger.all fun trigger => pass.cjob.spec = trigger.cjob.spec

theorem specKept_allows {h : EntryHistory σ} {pass : EntryPass σ} (kept : specKept h pass = true) :
    h.Allows c ext SpecHeld pass := by
  intro _ _ trigger started
  simpa [specKept, SpecHeld, started] using kept

def NodesMatchSpec : RunProperty σ := fun trigger _ nodes => ∀ name, name ∈ nodeNames nodes ↔ name ∈ jobNames trigger.cjob

theorem jobNames_congr {left right : CertificateJob} (same : left.spec = right.spec) : jobNames left = jobNames right := by
  rw [jobNames, jobNames, same]

theorem edge_congr {left right : CertificateJob} (same : left.spec = right.spec) : Edge left = Edge right := by
  funext a b
  rw [Edge, Edge, same]

theorem NodesMatchSpec.ensure {trigger pass : EntryPass σ} {log : List Sighting} {nodes : List WorkflowNodeState}
    (matched : NodesMatchSpec trigger log nodes) (names : jobNames pass.cjob = jobNames trigger.cjob) :
    ensureWorkflowNodeStates pass.cjob nodes = nodes := by
  apply ensure_eq
  intro name member
  rw [names] at member
  exact (matched name).mpr member

theorem nodesMatchSpec_initial (pass : EntryPass σ) : NodesMatchSpec pass [] (initializeNodeStates pass.cjob) :=
  fun _ => (nodeNames_initial pass.cjob).mem_iff

theorem Midway.nodesMatchSpec {h : EntryHistory σ} {pass trigger : EntryPass σ} {out : EntryOutcome σ}
    {log : List Sighting} {base : CertificateExecutionState} {graph : GraphMaps} {run : RunOutcome σ}
    (mid : Midway c ext h pass out trigger log base graph run) (matched : NodesMatchSpec trigger log base.nodes)
    (names : jobNames pass.cjob = jobNames trigger.cjob) :
    NodesMatchSpec trigger (log ++ run.sightings) run.state.nodes := by
  intro name
  rw [(reconcileCertificateRun_keeps mid.accepted mid.unique mid.shaped mid.result).1, matched.ensure names]
  exact matched name

end

end CertificateJobs
