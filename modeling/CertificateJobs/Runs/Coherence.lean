import CertificateJobs.Runs.Rules

namespace CertificateJobs

section
variable {σ : Type} (c : Client σ) (ext : External)

def PendingNamed : PassCondition σ := fun _ _ nodes pass =>
  ∀ node ∈ nodes, node.phase = .pending → node.name ∈ jobNames pass.cjob

/-- What a run reads of the spec and the certificate is as it was when `trigger` started the run. -/
structure HeldFrom (trigger pass : EntryPass σ) : Prop where
  jobs : pass.cjob.spec.jobs = trigger.cjob.spec.jobs
  edges : pass.cjob.spec.workflow.edges = trigger.cjob.spec.workflow.edges
  failurePolicy : pass.cjob.spec.failurePolicy = trigger.cjob.spec.failurePolicy
  parallelism : pass.cjob.spec.parallelism = trigger.cjob.spec.parallelism
  ttl : pass.cjob.spec.jobTTLSecondsAfterFinished = trigger.cjob.spec.jobTTLSecondsAfterFinished
  secretName : pass.cert.spec.secretName = trigger.cert.spec.secretName

def InputsHeld : PassCondition σ := fun trigger _ _ pass => HeldFrom trigger pass

def EntryPass.unedited (pass trigger : EntryPass σ) : EntryPass σ :=
  { pass with
    cjob := { pass.cjob with spec := trigger.cjob.spec }
    cert := { trigger.cert with ns := pass.cert.ns, name := pass.cert.name } }

/-- The Job is built from the spec and the Secret name of `trigger`, and its dependencies are those of `trigger`. -/
structure BuiltFrom (trigger pass : EntryPass σ) (runID : String) (call : CreateCall) : Prop where
  template : call.node ∈ jobNames trigger.cjob
  built : ∃ s, c.setControllerReference s pass.cjob
    (assembleJob (pass.unedited trigger).cjob (pass.unedited trigger).cert call.node runID) = .ok call.job
  edges : ∀ dep, Edge trigger.cjob dep call.node ↔ Edge pass.cjob dep call.node
  satisfied : ∀ node ∈ call.nodes, Edge trigger.cjob node.name call.node →
    dependencySatisfied trigger.cjob.spec.failurePolicy node.phase = true

/-- What is taken of the libraries: every input can be encoded, and an owner reference does not depend on the spec. -/
structure EncodesAndOwns : Prop where
  encodes : ∀ payload, ∃ text, ext.marshalInput payload = .ok text
  owner : ∀ s cjob spec job,
    c.setControllerReference s { cjob with spec := spec } job = c.setControllerReference s cjob job

def EntryOutcome.Alike (left right : EntryOutcome σ) : Prop :=
  left = { right with state := { right.state with message := left.state.message } }

variable {c ext} {h : EntryHistory σ} {pass trigger : EntryPass σ} {out : EntryOutcome σ} {log : List Sighting}
  {base : CertificateExecutionState} {graph : GraphMaps} {run : RunOutcome σ}

theorem Midway.call (mid : Midway c ext h pass out trigger log base graph run) {call : CreateCall}
    (made : call ∈ out.calls) : call ∈ run.calls ∧ ∃ active failed started,
      Completed c pass.ambient pass.cjob pass.cert base graph pass.client run active failed started := by
  rw [mid.concluded, concludeEntry_calls] at made
  refine ⟨made, ?_⟩
  rcases mid.spec with ⟨processed, stopped⟩ | completed
  · rw [stopped.noCalls] at made
    cases made
  · exact completed

theorem Midway.call_named (mid : Midway c ext h pass out trigger log base graph run)
    (named : PendingNamed trigger log base.nodes pass) {call : CreateCall} (made : call ∈ out.calls) :
    call.node ∈ jobNames pass.cjob := by
  obtain ⟨made, active, failed, started, done⟩ := mid.call made
  obtain ⟨node, member, same, -, pending⟩ := done.call_node (ensure_unique mid.accepted.names mid.unique) made
  rw [← same]
  rcases mem_ensure member with recorded | ⟨name, inside, -, rfl⟩
  · exact named node recorded pending
  · exact inside

theorem HeldFrom.refl (pass : EntryPass σ) : HeldFrom pass pass := ⟨rfl, rfl, rfl, rfl, rfl, rfl⟩

theorem HeldFrom.assembleJob (held : HeldFrom trigger pass) (nodeName runID : String) :
    assembleJob pass.cjob pass.cert nodeName runID =
      assembleJob (pass.unedited trigger).cjob (pass.unedited trigger).cert nodeName runID := by
  simp only [CertificateJobs.assembleJob, jobTemplatesByName, operatorLabels, requestedJobTTL, EntryPass.unedited,
    held.jobs, held.ttl, held.secretName]

theorem HeldFrom.provideJob (laws : EncodesAndOwns c ext) (held : HeldFrom trigger pass) (runID nodeName : String)
    (nodes : List WorkflowNodeState) (s : σ) :
    provideJob c pass.cjob pass.cert runID nodeName nodes s =
      provideJob c (pass.unedited trigger).cjob (pass.unedited trigger).cert runID nodeName nodes s := by
  have owner := laws.owner s pass.cjob trigger.cjob.spec
  simp only [CertificateJobs.provideJob, held.assembleJob, EntryPass.unedited, owner]

theorem HeldFrom.scheduleNodes (laws : EncodesAndOwns c ext) (held : HeldFrom trigger pass) (runID : String) (now : Time)
    (names : List String) (slots : Int) (nodes : List WorkflowNodeState) (s : σ) :
    scheduleNodes c pass.cjob pass.cert runID now names slots nodes s =
      scheduleNodes c (pass.unedited trigger).cjob (pass.unedited trigger).cert runID now names slots nodes s := by
  induction names generalizing slots nodes s with
  | nil => rfl
  | cons name rest ih => simp only [CertificateJobs.scheduleNodes, held.provideJob laws, ih]; rfl

theorem HeldFrom.reconcileCertificateRun (laws : EncodesAndOwns c ext) (held : HeldFrom trigger pass)
    (state : CertificateExecutionState) (graph : GraphMaps) :
    reconcileCertificateRun c pass.ambient pass.cjob pass.cert state graph pass.client =
      reconcileCertificateRun c pass.ambient (pass.unedited trigger).cjob (pass.unedited trigger).cert state graph
        pass.client := by
  have ensured : ensureWorkflowNodeStates pass.cjob state.nodes =
      ensureWorkflowNodeStates (pass.unedited trigger).cjob state.nodes := by
    rw [ensureWorkflowNodeStates, ensureWorkflowNodeStates, held.jobs]
    rfl
  have slots : requestedParallelism pass.cjob = requestedParallelism (pass.unedited trigger).cjob := by
    rw [requestedParallelism, requestedParallelism, held.parallelism]
    rfl
  simp only [CertificateJobs.reconcileCertificateRun, fillSlots, scheduleRunnableNodes, held.scheduleNodes laws, ensured,
    slots, held.failurePolicy]
  rfl

theorem reconcileCertificateRun_message (c : Client σ) (ambient : Ambient) (cjob : CertificateJob) (cert : Certificate)
    (state : CertificateExecutionState) (graph : GraphMaps) (s : σ) (message : String) :
    reconcileCertificateRun c ambient cjob cert { state with message := message } graph s =
      (reconcileCertificateRun c ambient cjob cert state graph s).map fun run =>
        { run with state := { run.state with message := message } } := by
  simp only [CertificateJobs.reconcileCertificateRun]
  generalize observeWorkflowNodeJobs _ _ _ = seen
  cases seen.err with
  | some e => rfl
  | none =>
    simp only [bind, Option.map_bind]
    congr 1
    funext nodes
    simp only [Function.comp, Option.map_bind]
    congr 1
    funext scheduling
    cases failed : scheduling.err with
    | none => simp only [concludeRun, failed, pure, Option.map_some]
    | some e => simp only [concludeRun, failed, pure, Option.map_some]

theorem buildInputHash_encoded (laws : EncodesAndOwns c ext) (cert : Certificate) (secret : Secret) (specHash : String) :
    ∃ hash, buildInputHash ext cert secret specHash = .ok hash := by
  obtain ⟨text, encoded⟩ := laws.encodes ⟨cert.spec, cert.status, cert.generation, secret.type, secret.data, specHash⟩
  exact ⟨hashString text, by rw [buildInputHash, encoded]; rfl⟩

theorem HeldFrom.context (held : HeldFrom trigger pass) {workflowCtx : WorkflowContext} {hash : String}
    (context : buildWorkflowContext ext pass.ambient pass.cjob = .ok workflowCtx)
    (input : trigger.inputHash c ext = some hash) : ∃ specHash,
    buildWorkflowContext ext pass.ambient (pass.unedited trigger).cjob =
      .ok { workflowCtx with workflowSpecHash := specHash } := by
  obtain ⟨-, built, clock⟩ := buildWorkflowContext_ok_iff.mp context
  obtain ⟨-, started, opened⟩ := inputHash_context input
  refine ⟨started.workflowSpecHash, buildWorkflowContext_ok_iff.mpr ⟨(buildWorkflowContext_ok_iff.mp opened).1, ?_, clock⟩⟩
  rw [buildWorkflowGraph, held.jobs, held.edges] at built
  exact built

theorem waitForInput_alike {left right : Certificate} (same : left.spec.secretName = right.spec.secretName)
    (entry : CertificateExecutionState) (message other : String) (s : σ) :
    (waitForInput left entry message s).Alike (waitForInput right entry other s) := by
  unfold waitForInput
  split
  · rfl
  · rw [same]
    rfl

theorem concludeEntry_alike (run : RunOutcome σ) (left right : String) :
    (concludeEntry { run with state := { run.state with message := left } }).Alike
      (concludeEntry { run with state := { run.state with message := right } }) := by
  unfold concludeEntry
  cases run.err with
  | none => rfl
  | some e => rfl

theorem HeldFrom.reconcileInput (laws : EncodesAndOwns c ext) (held : HeldFrom trigger pass)
    {entry : CertificateExecutionState} {workflowCtx : WorkflowContext} {hash other specHash : String}
    (going : isTerminalPhase entry.phase = false) (opened : entry.inputHash ≠ "")
    (performed : reconcileInput c pass.ambient pass.cjob pass.cert entry workflowCtx hash pass.client = some out) :
    ∃ undisturbed, reconcileInput c pass.ambient (pass.unedited trigger).cjob (pass.unedited trigger).cert entry
      { workflowCtx with workflowSpecHash := specHash } other pass.client = some undisturbed ∧ out.Alike undisturbed := by
  -- whatever the input is now, the run in the entry goes on: only the message can tell that it changed
  have goes (cjob : CertificateJob) (cert : Certificate) (ctx : WorkflowContext) (hash : String) : ∃ message,
      CertificateJobs.reconcileInput c pass.ambient cjob cert entry ctx hash pass.client =
        (CertificateJobs.reconcileCertificateRun c pass.ambient cjob cert entry ctx.graph pass.client).map fun run =>
          concludeEntry { run with state := { run.state with message := message } } := by
    rcases applyInputHashTransition_cases cjob cert entry hash ctx.now with ⟨starts, -⟩ | ⟨-, message, kept⟩
    · simp [startsRun, opened, going] at starts
    · refine ⟨message, ?_⟩
      simp only [CertificateJobs.reconcileInput, kept, going, Bool.false_eq_true, if_false,
        reconcileCertificateRun_message, Option.map_map, Function.comp_def]
  obtain ⟨message, here⟩ := goes pass.cjob pass.cert workflowCtx hash
  obtain ⟨foreseen, there⟩ := goes (pass.unedited trigger).cjob (pass.unedited trigger).cert
    { workflowCtx with workflowSpecHash := specHash } other
  rw [here, Option.map_eq_some_iff] at performed
  obtain ⟨run, result, rfl⟩ := performed
  refine ⟨_, ?_, concludeEntry_alike run message foreseen⟩
  rw [there, ← held.reconcileCertificateRun laws, result]
  rfl

/-- A pass over a run that is going on is the one that would have been made without the edits. -/
theorem HeldFrom.perform (laws : EncodesAndOwns c ext) (held : HeldFrom trigger pass) {entry : CertificateExecutionState}
    {started : String} (input : trigger.inputHash c ext = some started) (noStart : pass.starts c ext entry = false)
    (going : isTerminalPhase entry.phase = false) (performed : pass.perform c ext entry = some out) :
    ∃ undisturbed, (pass.unedited trigger).perform c ext entry = some undisturbed ∧ out.Alike undisturbed := by
  obtain ⟨workflowCtx, context⟩ := perform_context performed
  obtain ⟨specHash, recontext⟩ := held.context context input
  have renamed := (inputHash_context input).1
  have named : pass.cert.spec.secretName ≠ "" := held.secretName ▸ renamed
  have hashes : pass.inputHash c ext = _ := inputHash_eq context named
  have rehashes : (pass.unedited trigger).inputHash c ext = _ := inputHash_eq recontext renamed
  have asked : c.getSecret (pass.unedited trigger).client (pass.unedited trigger).cert.ns
      (pass.unedited trigger).cert.spec.secretName = c.getSecret pass.client pass.cert.ns pass.cert.spec.secretName := by
    rw [held.secretName]
    rfl
  rw [asked] at rehashes
  cases read : c.getSecret pass.client pass.cert.ns pass.cert.spec.secretName with
  | error e =>
    rw [read] at hashes rehashes
    obtain ⟨message, waits⟩ : ∃ message, pass.perform c ext entry = some (waitForInput pass.cert entry message pass.client) :=
      perform_blind context named hashes
    obtain ⟨other, rewaits⟩ : ∃ message, (pass.unedited trigger).perform c ext entry =
        some (waitForInput (pass.unedited trigger).cert entry message pass.client) :=
      perform_blind recontext renamed rehashes
    rw [waits] at performed
    obtain rfl := Option.some.inj performed
    exact ⟨_, rewaits, waitForInput_alike held.secretName ..⟩
  | ok secret =>
    obtain ⟨hash, hashed⟩ := buildInputHash_encoded laws pass.cert secret workflowCtx.workflowSpecHash
    obtain ⟨other, rehashed⟩ := buildInputHash_encoded laws (pass.unedited trigger).cert secret specHash
    simp only [read, Except.toOption, Option.bind_some, hashed] at hashes
    simp only [read, Except.toOption, Option.bind_some, rehashed] at rehashes
    have opened : entry.inputHash ≠ "" := by
      simp only [EntryPass.starts, hashes, Option.any_some, startsRun, decide_eq_false_iff_not, not_or] at noStart
      exact noStart.1
    rw [perform_input context hashes] at performed
    rw [perform_input recontext rehashes]
    exact held.reconcileInput laws going opened performed

theorem jobNames_of_jobs {left right : CertificateJob} (same : left.spec.jobs = right.spec.jobs) :
    jobNames left = jobNames right := by
  rw [jobNames, jobNames, same]

theorem reached_nodesMatch (reached : (entryMachine c ext).Reached (EntryHistory.Allows c ext InputsHeld) h) :
    h.Satisfies NodesMatchSpec :=
  reached_satisfies (fun pass _ _ => nodesMatchSpec_initial pass) HeldFrom.refl
    (fun mid matched held => mid.nodesMatchSpec matched (jobNames_of_jobs held.jobs)) reached

theorem Midway.call_built (mid : Midway c ext h pass out trigger log base graph run)
    (matched : NodesMatchSpec trigger log base.nodes) (held : InputsHeld trigger log base.nodes pass)
    {call : CreateCall} (made : call ∈ out.calls) : BuiltFrom c trigger pass base.runID call := by
  obtain ⟨made, active, failed, started, done⟩ := mid.call made
  have unique := ensure_unique mid.accepted.names mid.unique
  have same : ∀ dep, Edge trigger.cjob dep call.node ↔ Edge pass.cjob dep call.node := by
    intro dep
    rw [Edge, Edge, held.edges]
  refine ⟨?_, ?_, same, ?_⟩
  · obtain ⟨node, member, named, -⟩ := done.call_node unique made
    rw [matched.ensure (jobNames_of_jobs held.jobs)] at member
    rw [← named]
    exact (matched node.name).mp (List.mem_map_of_mem member)
  · rw [← held.assembleJob]
    obtain ⟨-, -, before, after, answer, request⟩ := done.calls call made
    exact ⟨before, request.owned⟩
  · intro node member edge
    rw [← held.failurePolicy]
    exact done.call_satisfied unique made member ((mid.accepted.deps _ _).mpr ((same _).mp edge))

end

/-- As long as no waiting node lost its template, every Create is for a node of the current spec. -/
theorem created_from_current_spec {σ : Type} (c : Client σ) (ext : External) (h : EntryHistory σ) (pass : EntryPass σ)
    (out : EntryOutcome σ) (reached : (entryMachine c ext).Reached (fun _ _ => True) h)
    (allowed : h.Allows c ext PendingNamed pass) (performed : pass.perform c ext h.entry = some out) :
    ∀ call ∈ out.calls, call.node ∈ jobNames pass.cjob := by
  intro call made
  rcases (reached_sound reached).midway performed with ⟨quiet, -⟩ | ⟨trigger, log, base, graph, run, mid⟩
  · rw [quiet.calls] at made
    cases made
  · have named : PendingNamed trigger log base.nodes pass := by
      rcases mid.origin with ⟨-, rfl, rfl, nodes⟩ | ⟨starts, started, rfl, message, rfl⟩
      · rw [nodes]
        intro node member _
        exact (nodeNames_initial _).mem_iff.mp (List.mem_map_of_mem member)
      · exact allowed starts mid.going trigger started
    exact mid.call_named named made

def waitingSpec : CertificateJobSpec := { flatSpec ["a", "b"] 1 .stopDownstream with workflow := { edges := [⟨"a", "b"⟩] } }

theorem waitingSpec_played :
    ((newEntry (sampleCluster waitingSpec)).replay clusterClient plainExternal (fun _ _ => true)
      (sampleCluster waitingSpec) [Cluster.pass]).any (fun last =>
        let added := ((last.2.edit (flatSpec ["a", "b", "c"] 1 .stopDownstream)).report "a" completeStatus).pass
        let renamed := ((last.2.edit (flatSpec ["a", "c"] 1 .stopDownstream)).report "a" completeStatus).pass
        (last.1.entry.nodes.all fun node => node.phase = .pending → node.name ∈ jobNames added.cjob) ∧
        ((added.perform clusterClient plainExternal last.1.entry).any fun out => out.calls.any (·.node = "b")) ∧
        (renamed.perform clusterClient plainExternal last.1.entry).any fun out =>
          out.calls.any fun call => call.node = "b" ∧ call.node ∉ jobNames renamed.cjob) = true := by
  decide +kernel

theorem created_from_current_spec_added :
    ∃ (h : EntryHistory Cluster) (pass : EntryPass Cluster) (out : EntryOutcome Cluster) (call : CreateCall),
      (entryMachine clusterClient plainExternal).Reached (fun _ _ => True) h ∧
      h.Allows clusterClient plainExternal PendingNamed pass ∧
      pass.perform clusterClient plainExternal h.entry = some out ∧ call ∈ out.calls ∧
      call.node ∈ jobNames pass.cjob := by
  obtain ⟨h, s, reached, checked⟩ := replay_new (fun _ _ => True) waitingSpec_played fun _ _ _ => trivial
  simp only [decide_eq_true_eq, List.all_eq_true] at checked
  obtain ⟨named, performs, -⟩ := checked
  obtain ⟨out, performed, creates⟩ := (Option.any_eq_true _ _).mp performs
  obtain ⟨call, made, -⟩ := List.any_eq_true.mp creates
  have allowed : h.Allows clusterClient plainExternal PendingNamed
      ((s.edit (flatSpec ["a", "b", "c"] 1 .stopDownstream)).report "a" completeStatus).pass :=
    fun _ _ _ _ node member pending => named node member pending
  exact ⟨h, _, out, call, reached, allowed, performed, made,
    created_from_current_spec _ _ h _ out reached allowed performed call made⟩

/-- A node that was renamed while it waited is created under its old name, without edges and with an empty
    template. -/
theorem created_for_renamed_node :
    ∃ (h : EntryHistory Cluster) (pass : EntryPass Cluster) (out : EntryOutcome Cluster) (call : CreateCall),
      (entryMachine clusterClient plainExternal).Reached (fun _ _ => True) h ∧
      pass.perform clusterClient plainExternal h.entry = some out ∧ call ∈ out.calls ∧
      call.node ∉ jobNames pass.cjob := by
  obtain ⟨h, s, reached, checked⟩ := replay_new (fun _ _ => True) waitingSpec_played fun _ _ _ => trivial
  simp only [decide_eq_true_eq] at checked
  obtain ⟨out, performed, creates⟩ := (Option.any_eq_true _ _).mp checked.2.2
  obtain ⟨call, made, absent⟩ := List.any_eq_true.mp creates
  exact ⟨h, _, out, call, reached, performed, made, (of_decide_eq_true absent).2⟩

/-- As long as what a run reads of spec and certificate is not edited, every Job of the run is built from what its input
    hash was computed from; and any other edit leaves the run as it would be without it. -/
theorem created_from_trigger {σ : Type} (c : Client σ) (ext : External) (laws : EncodesAndOwns c ext)
    (h : EntryHistory σ) (pass : EntryPass σ) (out : EntryOutcome σ)
    (reached : (entryMachine c ext).Reached (EntryHistory.Allows c ext InputsHeld) h)
    (allowed : h.Allows c ext InputsHeld pass) (performed : pass.perform c ext h.entry = some out) :
    (∀ call ∈ out.calls, ∃ trigger, (h.next c ext pass out).trigger = some trigger ∧
      trigger.inputHash c ext = some out.state.inputHash ∧ BuiltFrom c trigger pass out.state.runID call) ∧
    (pass.starts c ext h.entry = false → isTerminalPhase h.entry.phase = false → ∀ trigger, h.trigger = some trigger →
      ∃ undisturbed, (pass.unedited trigger).perform c ext h.entry = some undisturbed ∧ out.Alike undisturbed) := by
  have sound := reached_sound reached
  refine ⟨?_, ?_⟩
  · intro call made
    rcases sound.midway performed with ⟨quiet, -⟩ | ⟨trigger, log, base, graph, run, mid⟩
    · rw [quiet.calls] at made
      cases made
    · obtain ⟨matched, held⟩ := mid.lift (reached_nodesMatch reached) allowed (nodesMatchSpec_initial pass)
        (HeldFrom.refl pass)
      obtain ⟨phase, message, completed, written⟩ := mid.rewritten
      refine ⟨trigger, by rw [mid.next], ?_, ?_⟩
      · rw [written]
        exact mid.input
      · rw [written]
        exact mid.call_built matched held made
  · intro noStart going trigger started
    exact (allowed noStart going trigger started).perform laws (sound.triggered trigger started) noStart going performed

def containerSpec (container : String) : CertificateJobSpec where
  jobs := ["a", "b"].map fun name =>
    { name := name, template := { template := { spec := { containers := [{ name := container }] } } } }

def Job.containerNames (job : Job) : List String := job.spec.template.spec.containers.map (·.name)

def inputsKept (h : EntryHistory Cluster) (pass : EntryPass Cluster) : Bool :=
  h.trigger.all fun trigger => pass.cjob.spec = trigger.cjob.spec ∧
    pass.cert.spec.secretName = trigger.cert.spec.secretName

theorem inputsKept_allows {h : EntryHistory Cluster} {pass : EntryPass Cluster} (kept : inputsKept h pass = true) :
    h.Allows clusterClient plainExternal InputsHeld pass := by
  intro _ _ trigger started
  simp only [inputsKept, started, Option.all_some, decide_eq_true_eq] at kept
  constructor
  all_goals first | rw [kept.1] | exact kept.2

theorem cluster_encodesAndOwns : EncodesAndOwns clusterClient plainExternal :=
  ⟨fun _ => ⟨_, rfl⟩, fun _ _ _ _ => rfl⟩

theorem containerSpec_played :
    ((newEntry (sampleCluster (containerSpec "first"))).replay clusterClient plainExternal inputsKept
      (sampleCluster (containerSpec "first")) [Cluster.pass]).any (fun last =>
        let renewed := (last.2.renew.report "a" completeStatus).pass
        let edited := ((last.2.edit (containerSpec "second")).report "a" completeStatus).pass
        inputsKept last.1 renewed ∧ !renewed.starts clusterClient plainExternal last.1.entry ∧
        isTerminalPhase last.1.entry.phase = false ∧
        ((renewed.perform clusterClient plainExternal last.1.entry).any fun out => out.calls.any (·.node = "b") ∧
          out.state.message = "input changed while workflow is running; deferring until current run completes") ∧
        last.1.trigger.any (fun trigger => trigger.cjob.spec = containerSpec "first") ∧
        !edited.starts clusterClient plainExternal last.1.entry ∧
        (edited.perform clusterClient plainExternal last.1.entry).any fun out =>
          out.calls.any fun call => call.node = "b" ∧ call.job.containerNames = ["second"]) = true := by
  decide +kernel

theorem created_from_trigger_renewed :
    ∃ (h : EntryHistory Cluster) (pass trigger : EntryPass Cluster) (out : EntryOutcome Cluster) (call : CreateCall),
      EncodesAndOwns clusterClient plainExternal ∧
      (entryMachine clusterClient plainExternal).Reached (EntryHistory.Allows clusterClient plainExternal InputsHeld) h ∧
      h.Allows clusterClient plainExternal InputsHeld pass ∧
      pass.perform clusterClient plainExternal h.entry = some out ∧ call ∈ out.calls ∧
      pass.starts clusterClient plainExternal h.entry = false ∧ isTerminalPhase h.entry.phase = false ∧
      out.state.message = "input changed while workflow is running; deferring until current run completes" ∧
      h.trigger = some trigger ∧
      (∃ trigger, (h.next clusterClient plainExternal pass out).trigger = some trigger ∧
        trigger.inputHash clusterClient plainExternal = some out.state.inputHash ∧
        BuiltFrom clusterClient trigger pass out.state.runID call) ∧
      ∃ undisturbed, (pass.unedited trigger).perform clusterClient plainExternal h.entry = some undisturbed ∧
        out.Alike undisturbed := by
  obtain ⟨h, s, reached, checked⟩ := replay_new (EntryHistory.Allows clusterClient plainExternal InputsHeld)
    containerSpec_played fun _ _ kept => inputsKept_allows kept
  simp only [decide_eq_true_eq, Option.any_eq_true] at checked
  obtain ⟨kept, noStart, going, ⟨out, performed, creates, message⟩, ⟨trigger, started, -⟩, -⟩ := checked
  have noStart : (s.renew.report "a" completeStatus).pass.starts clusterClient plainExternal h.entry = false := by
    simpa using noStart
  obtain ⟨call, made, -⟩ := List.any_eq_true.mp creates
  have coherent := created_from_trigger _ _ cluster_encodesAndOwns h _ out reached (inputsKept_allows kept) performed
  exact ⟨h, _, trigger, out, call, cluster_encodesAndOwns, reached, inputsKept_allows kept, performed, made, noStart, going,
    message, started, coherent.1 call made, coherent.2 noStart going trigger started⟩

/-- A template edited while the run is going on is the one the next Job of that run is built from. -/
theorem created_from_edited_template :
    ∃ (h : EntryHistory Cluster) (pass trigger : EntryPass Cluster) (out : EntryOutcome Cluster) (call : CreateCall),
      (entryMachine clusterClient plainExternal).Reached (fun _ _ => True) h ∧
      pass.perform clusterClient plainExternal h.entry = some out ∧
      (h.next clusterClient plainExternal pass out).trigger = some trigger ∧ call ∈ out.calls ∧
      (∃ tmpl ∈ trigger.cjob.spec.jobs, tmpl.name = call.node ∧
        tmpl.template.template.spec.containers.map (·.name) = ["first"]) ∧
      call.job.containerNames = ["second"] := by
  obtain ⟨h, s, reached, checked⟩ := replay_new (fun _ _ => True) containerSpec_played fun _ _ _ => trivial
  simp only [decide_eq_true_eq, Option.any_eq_true, List.any_eq_true] at checked
  obtain ⟨-, -, -, -, ⟨trigger, started, first⟩, noStart, out, performed, call, made, named, second⟩ := checked
  have noStart : ((s.edit (containerSpec "second")).report "a" completeStatus).pass.starts clusterClient plainExternal
      h.entry = false := by simpa using noStart
  refine ⟨h, _, trigger, out, call, reached, performed, by rw [EntryHistory.next, noStart]; exact started, made, ?_, second⟩
  rw [named, first]
  exact ⟨_, List.mem_map_of_mem (List.mem_cons_of_mem _ List.mem_cons_self), rfl, rfl⟩

end CertificateJobs
