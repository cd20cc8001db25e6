import CertificateJobs.Controller.Cluster
import CertificateJobs.Library.Machine
import CertificateJobs.Workflow.Moves

namespace CertificateJobs

/-- One reconcile of a certificate's entry, with everything the surroundings decide about it. -/
structure EntryPass (σ : Type) where
  ambient : Ambient
  cjob : CertificateJob
  cert : Certificate
  client : σ

/-- An entry with the history of its current run: the pass that started the run and what its reads showed. -/
structure EntryHistory (σ : Type) where
  entry : CertificateExecutionState
  trigger : Option (EntryPass σ) := none
  log : List Sighting := []

section
variable {σ : Type} (c : Client σ) (ext : External)

def EntryPass.perform (pass : EntryPass σ) (entry : CertificateExecutionState) : Option (EntryOutcome σ) :=
  (buildWorkflowContext ext pass.ambient pass.cjob).toOption.bind fun workflowCtx =>
    reconcileObservedCertificate c ext pass.ambient pass.cjob pass.cert entry workflowCtx pass.client

def EntryPass.inputHash (pass : EntryPass σ) : Option String :=
  if pass.cert.spec.secretName = "" then none
  else do
    let workflowCtx ← (buildWorkflowContext ext pass.ambient pass.cjob).toOption
    let secret ← (c.getSecret pass.client pass.cert.ns pass.cert.spec.secretName).toOption
    (buildInputHash ext pass.cert secret workflowCtx.workflowSpecHash).toOption

def EntryPass.starts (pass : EntryPass σ) (entry : CertificateExecutionState) : Bool :=
  (pass.inputHash c ext).any (startsRun entry)

def EntryHistory.next (h : EntryHistory σ) (pass : EntryPass σ) (out : EntryOutcome σ) : EntryHistory σ :=
  if pass.starts c ext h.entry then { entry := out.state, trigger := some pass, log := out.sightings }
  else { entry := out.state, trigger := h.trigger, log := h.log ++ out.sightings }

/-- The life of an entry, from its creation through any sequence of reconciles with whatever objects. -/
def entryMachine : Machine (EntryHistory σ) (EntryPass σ) where
  start h := ∃ ns name, h = { entry := { ns := ns, name := name, phase := .pending } }
  step h pass h' := ∃ out, pass.perform c ext h.entry = some out ∧ h' = h.next c ext pass out

structure Quiet (pass : EntryPass σ) (entry : CertificateExecutionState) (out : EntryOutcome σ) : Prop where
  noStart : pass.starts c ext entry = false
  sightings : out.sightings = []
  calls : out.calls = []
  client : out.client = pass.client
  rewritten : ∃ secretName phase message completed,
    out.state = { entry with
      secretName := secretName, phase := phase, message := message, lastCompletedTime := completed }
  phase : (pass.cert.spec.secretName = "" ∧ out.state.phase = .failed) ∨
    (isTerminalPhase entry.phase = false ∧ out.state.phase = .pending) ∨ out.state.phase = entry.phase
  requeue : isTerminalPhase entry.phase = false → pass.cert.spec.secretName ≠ "" → out.progress.needsRequeue = true

/-- A pass that works on the run `base`, which it may just have started. -/
structure Ran (pass : EntryPass σ) (entry : CertificateExecutionState) (out : EntryOutcome σ) (graph : GraphMaps)
    (base : CertificateExecutionState) (run : RunOutcome σ) : Prop where
  accepted : Accepted pass.cjob graph
  going : isTerminalPhase base.phase = false
  input : ∃ hash, pass.inputHash c ext = some hash
  identity : base.ns = entry.ns ∧ base.name = entry.name
  fresh : pass.starts c ext entry = true → base.nodes = initializeNodeStates pass.cjob ∧
    pass.inputHash c ext = some base.inputHash ∧ base.runID = shortHash base.inputHash 12
  same : pass.starts c ext entry = false → ∃ message, base = { entry with message := message }
  result : reconcileCertificateRun c pass.ambient pass.cjob pass.cert base graph pass.client = some run
  concluded : out = concludeEntry run

theorem ok_of_toOption {ε α : Type} {e : Except ε α} {a : α} (present : e.toOption = some a) : e = .ok a := by
  cases e with
  | error e => cases present
  | ok value => exact congrArg _ (Option.some.inj present)

theorem buildWorkflowContext_ok_iff {ext : External} {ambient : Ambient} {cjob : CertificateJob}
    {workflowCtx : WorkflowContext} :
    buildWorkflowContext ext ambient cjob = .ok workflowCtx ↔
      buildWorkflowSpecHash ext cjob.spec = .ok workflowCtx.workflowSpecHash ∧
      buildWorkflowGraph ambient.orders cjob = .ok workflowCtx.graph ∧
      workflowCtx.now = ambient.clock .workflowContext := by
  obtain ⟨now, specHash, graph⟩ := workflowCtx
  unfold buildWorkflowContext
  cases buildWorkflowSpecHash ext cjob.spec with
  | error e => simp [bind, Except.bind]
  | ok value =>
    cases buildWorkflowGraph ambient.orders cjob with
    | error e => simp [bind, Except.bind, Except.mapError]
    | ok maps =>
      simp only [bind, Except.bind, Except.mapError, pure, Except.pure, Except.ok.injEq, WorkflowContext.mk.injEq]
      exact ⟨fun ⟨clock, hash, same⟩ => ⟨hash, same, clock.symm⟩, fun ⟨hash, same, clock⟩ => ⟨clock.symm, hash, same⟩⟩

theorem buildWorkflowContext_accepted {ext : External} {ambient : Ambient} {cjob : CertificateJob}
    {workflowCtx : WorkflowContext} (built : buildWorkflowContext ext ambient cjob = .ok workflowCtx) :
    Accepted cjob workflowCtx.graph :=
  buildWorkflowGraph_accepted (buildWorkflowContext_ok_iff.mp built).2.1

theorem inputHash_context {c : Client σ} {ext : External} {pass : EntryPass σ} {hash : String}
    (input : pass.inputHash c ext = some hash) :
    pass.cert.spec.secretName ≠ "" ∧ ∃ workflowCtx, buildWorkflowContext ext pass.ambient pass.cjob = .ok workflowCtx := by
  unfold EntryPass.inputHash at input
  split at input
  · cases input
  · rename_i named
    obtain ⟨workflowCtx, built, -⟩ := Option.bind_eq_some_iff.mp input
    exact ⟨named, workflowCtx, ok_of_toOption built⟩

theorem inputHash_eq {c : Client σ} {ext : External} {pass : EntryPass σ} {workflowCtx : WorkflowContext}
    (context : buildWorkflowContext ext pass.ambient pass.cjob = .ok workflowCtx)
    (named : pass.cert.spec.secretName ≠ "") :
    pass.inputHash c ext = (c.getSecret pass.client pass.cert.ns pass.cert.spec.secretName).toOption.bind fun secret =>
      (buildInputHash ext pass.cert secret workflowCtx.workflowSpecHash).toOption := by
  simp [EntryPass.inputHash, named, context, Except.toOption]

section
variable {c : Client σ} {ext : External} {pass : EntryPass σ} {entry : CertificateExecutionState}
  {workflowCtx : WorkflowContext}

theorem perform_context {out : EntryOutcome σ} (performed : pass.perform c ext entry = some out) :
    ∃ workflowCtx, buildWorkflowContext ext pass.ambient pass.cjob = .ok workflowCtx := by
  obtain ⟨workflowCtx, built, -⟩ := Option.bind_eq_some_iff.mp performed
  exact ⟨workflowCtx, ok_of_toOption built⟩

theorem perform_unnamed (context : buildWorkflowContext ext pass.ambient pass.cjob = .ok workflowCtx)
    (empty : pass.cert.spec.secretName = "") :
    pass.perform c ext entry = some
      ⟨{ entry with
          secretName := ""
          phase := .failed
          message := "certificate.spec.secretName is empty"
          lastCompletedTime := some workflowCtx.now },
        { anyFailed := true }, [], [], pass.client⟩ := by
  simp only [EntryPass.perform, context, Except.toOption, Option.bind_some, reconcileObservedCertificate, if_pos empty]

theorem perform_blind (context : buildWorkflowContext ext pass.ambient pass.cjob = .ok workflowCtx)
    (named : pass.cert.spec.secretName ≠ "") (blind : pass.inputHash c ext = none) :
    ∃ message, pass.perform c ext entry = some (waitForInput pass.cert entry message pass.client) := by
  rw [inputHash_eq context named] at blind
  simp only [EntryPass.perform, context, Except.toOption, Option.bind_some, reconcileObservedCertificate, if_neg named]
  cases read : c.getSecret pass.client pass.cert.ns pass.cert.spec.secretName with
  | error e => exact ⟨_, rfl⟩
  | ok secret =>
    cases hashed : buildInputHash ext pass.cert secret workflowCtx.workflowSpecHash with
    | error e => simp only [hashed]; exact ⟨_, rfl⟩
    | ok hash => simp [read, hashed, Except.toOption] at blind

theorem perform_input {hash : String} (context : buildWorkflowContext ext pass.ambient pass.cjob = .ok workflowCtx)
    (input : pass.inputHash c ext = some hash) :
    pass.perform c ext entry =
      reconcileInput c pass.ambient pass.cjob pass.cert entry workflowCtx hash pass.client := by
  have named := (inputHash_context input).1
  rw [inputHash_eq context named] at input
  obtain ⟨secret, read, hashed⟩ := Option.bind_eq_some_iff.mp input
  simp only [EntryPass.perform, context, Except.toOption, Option.bind_some, reconcileObservedCertificate, if_neg named,
    ok_of_toOption read, ok_of_toOption hashed]

end

theorem waitForInput_quiet {c : Client σ} {ext : External} {pass : EntryPass σ} (entry : CertificateExecutionState)
    (message : String) (noInput : pass.inputHash c ext = none) :
    Quiet c ext pass entry (waitForInput pass.cert entry message pass.client) := by
  have noStart : pass.starts c ext entry = false := by simp [EntryPass.starts, noInput]
  unfold waitForInput
  split
  · rename_i terminal
    exact ⟨noStart, rfl, rfl, rfl, ⟨_, _, _, _, rfl⟩, .inr (.inr rfl), by simp [terminal]⟩
  · rename_i going
    exact ⟨noStart, rfl, rfl, rfl, ⟨_, _, _, _, rfl⟩, .inr (.inl ⟨by simpa using going, rfl⟩), fun _ _ => rfl⟩

theorem applyInputHashTransition_cases (cjob : CertificateJob) (cert : Certificate) (entry : CertificateExecutionState)
    (hash : String) (now : Time) :
    (startsRun entry hash = true ∧
      (applyInputHashTransition cjob cert entry hash now).nodes = initializeNodeStates cjob ∧
      (applyInputHashTransition cjob cert entry hash now).inputHash = hash ∧
      (applyInputHashTransition cjob cert entry hash now).runID = shortHash hash 12 ∧
      (applyInputHashTransition cjob cert entry hash now).phase = .pending) ∨
    (startsRun entry hash = false ∧
      ∃ message, applyInputHashTransition cjob cert entry hash now = { entry with message := message }) := by
  unfold applyInputHashTransition
  split
  · rename_i opens
    exact .inl ⟨opens, rfl, rfl, rfl, rfl⟩
  · rename_i opens
    refine .inr ⟨by simpa using opens, ?_⟩
    split
    · exact ⟨_, rfl⟩
    · exact ⟨entry.message, rfl⟩

theorem applyInputHashTransition_identity (cjob : CertificateJob) (cert : Certificate) (entry : CertificateExecutionState)
    (hash : String) (now : Time) :
    (applyInputHashTransition cjob cert entry hash now).ns = entry.ns ∧
      (applyInputHashTransition cjob cert entry hash now).name = entry.name := by
  unfold applyInputHashTransition
  split
  · exact ⟨rfl, rfl⟩
  · split
    · exact ⟨rfl, rfl⟩
    · exact ⟨rfl, rfl⟩

theorem reconcileInput_ran {c : Client σ} {ext : External} {pass : EntryPass σ} {entry : CertificateExecutionState}
    {workflowCtx : WorkflowContext} {hash : String} {run : RunOutcome σ}
    (accepted : Accepted pass.cjob workflowCtx.graph) (input : pass.inputHash c ext = some hash)
    (going : isTerminalPhase (applyInputHashTransition pass.cjob pass.cert entry hash workflowCtx.now).phase = false)
    (result : reconcileCertificateRun c pass.ambient pass.cjob pass.cert
      (applyInputHashTransition pass.cjob pass.cert entry hash workflowCtx.now) workflowCtx.graph pass.client = some run) :
    Ran c ext pass entry (concludeEntry run) workflowCtx.graph
      (applyInputHashTransition pass.cjob pass.cert entry hash workflowCtx.now) run := by
  have starts : pass.starts c ext entry = startsRun entry hash := by simp [EntryPass.starts, input]
  have transition := applyInputHashTransition_cases pass.cjob pass.cert entry hash workflowCtx.now
  refine ⟨accepted, going, ⟨hash, input⟩, applyInputHashTransition_identity .., ?_, ?_, result, rfl⟩
  · intro opens
    rcases transition with ⟨-, nodes, hashed, runID, -⟩ | ⟨kept, -⟩
    · exact ⟨nodes, by rw [input, hashed], by rw [runID, hashed]⟩
    · rw [starts, kept] at opens
      cases opens
  · intro kept
    rcases transition with ⟨opens, -⟩ | ⟨-, same⟩
    · rw [starts, opens] at kept
      cases kept
    · exact same

theorem reconcileInput_cases {c : Client σ} {ext : External} {pass : EntryPass σ} {entry : CertificateExecutionState}
    {workflowCtx : WorkflowContext} {hash : String} {out : EntryOutcome σ}
    (accepted : Accepted pass.cjob workflowCtx.graph) (input : pass.inputHash c ext = some hash)
    (performed : reconcileInput c pass.ambient pass.cjob pass.cert entry workflowCtx hash pass.client = some out) :
    Quiet c ext pass entry out ∨ ∃ graph base run, Ran c ext pass entry out graph base run := by
  simp only [reconcileInput] at performed
  split at performed
  · rename_i terminal
    obtain rfl := Option.some.inj performed
    rcases applyInputHashTransition_cases pass.cjob pass.cert entry hash workflowCtx.now with
      ⟨-, -, -, -, pending⟩ | ⟨kept, message, same⟩
    · rw [pending] at terminal
      cases terminal
    · rw [same] at terminal ⊢
      refine .inl ⟨by simpa [EntryPass.starts, input] using kept, rfl, rfl, rfl, ⟨_, _, _, _, rfl⟩, .inr (.inr rfl), ?_⟩
      intro going
      rw [going] at terminal
      cases terminal
  · rename_i going
    obtain ⟨run, result, rfl⟩ := Option.map_eq_some_iff.mp performed
    exact .inr ⟨_, _, run, reconcileInput_ran accepted input (by simpa using going) result⟩

/-- With an input at hand a pass over an entry that is not terminal works on a run. -/
theorem perform_ran {c : Client σ} {ext : External} {pass : EntryPass σ} {entry : CertificateExecutionState}
    {out : EntryOutcome σ} (performed : pass.perform c ext entry = some out) {hash : String}
    (input : pass.inputHash c ext = some hash) (going : isTerminalPhase entry.phase = false) :
    ∃ graph base run, Ran c ext pass entry out graph base run := by
  obtain ⟨workflowCtx, context⟩ := perform_context performed
  have works : isTerminalPhase (applyInputHashTransition pass.cjob pass.cert entry hash workflowCtx.now).phase = false := by
    rcases applyInputHashTransition_cases pass.cjob pass.cert entry hash workflowCtx.now with
      ⟨-, -, -, -, pending⟩ | ⟨-, message, same⟩
    · rw [pending]
      rfl
    · rw [same]
      exact going
  rw [perform_input context input] at performed
  simp only [reconcileInput, works, Bool.false_eq_true, if_false] at performed
  obtain ⟨run, result, rfl⟩ := Option.map_eq_some_iff.mp performed
  exact ⟨_, _, run, reconcileInput_ran (buildWorkflowContext_accepted context) input works result⟩

theorem perform_cases {pass : EntryPass σ} {entry : CertificateExecutionState} {out : EntryOutcome σ}
    (performed : pass.perform c ext entry = some out) :
    Quiet c ext pass entry out ∨ ∃ graph base run, Ran c ext pass entry out graph base run := by
  obtain ⟨workflowCtx, context⟩ := perform_context performed
  by_cases named : pass.cert.spec.secretName = ""
  · rw [perform_unnamed context named] at performed
    obtain rfl := Option.some.inj performed
    exact .inl ⟨by simp [EntryPass.starts, EntryPass.inputHash, named], rfl, rfl, rfl, ⟨_, _, _, _, rfl⟩,
      .inl ⟨named, rfl⟩, fun _ other => absurd named other⟩
  · cases input : pass.inputHash c ext with
    | none =>
      obtain ⟨message, waits⟩ := perform_blind context named input
      obtain rfl := Option.some.inj (waits.symm.trans performed)
      exact .inl (waitForInput_quiet entry message input)
    | some hash =>
      rw [perform_input context input] at performed
      exact reconcileInput_cases (buildWorkflowContext_accepted context) input performed

def EntryHistory.replay (allowed : EntryHistory σ → EntryPass σ → Bool) (h : EntryHistory σ) (s : σ) :
    List (σ → EntryPass σ) → Option (EntryHistory σ × σ)
  | [] => some (h, s)
  | pass :: rest =>
    if allowed h (pass s) then
      ((pass s).perform c ext h.entry).bind fun out =>
        (h.next c ext (pass s) out).replay allowed out.client rest
    else none

variable {c ext} in
theorem replay_leads {allowed : EntryHistory σ → EntryPass σ → Bool} {ok : EntryHistory σ → EntryPass σ → Prop}
    (weaker : ∀ h pass, allowed h pass = true → ok h pass) (passes : List (σ → EntryPass σ)) (h : EntryHistory σ) (s : σ)
    {last : EntryHistory σ × σ} (played : h.replay c ext allowed s passes = some last) :
    (entryMachine c ext).Leads ok h last.1 := by
  induction passes generalizing h s with
  | nil =>
    obtain rfl := Option.some.inj played
    exact .refl h
  | cons pass rest ih =>
    simp only [EntryHistory.replay] at played
    split at played
    · rename_i fine
      obtain ⟨out, performed, played⟩ := Option.bind_eq_some_iff.mp played
      have taken : (entryMachine c ext).step h (pass s) (h.next c ext (pass s) out) := ⟨out, performed, rfl⟩
      exact (Machine.Leads.step (.refl h) (weaker _ _ fine) taken).trans (ih _ _ played)
    · cases played

end

def Cluster.pass (cluster : Cluster) : EntryPass Cluster where
  ambient := { clock := fun _ => 0 }
  cjob := cluster.cjob
  cert := cluster.certificates.headD { ns := "", name := "", spec := { secretName := "" } }
  client := cluster

def newEntry (cluster : Cluster) : EntryHistory Cluster where
  entry := { ns := cluster.pass.cert.ns, name := cluster.pass.cert.name, phase := .pending }

theorem replay_new (ok : EntryHistory Cluster → EntryPass Cluster → Prop)
    {allowed : EntryHistory Cluster → EntryPass Cluster → Bool} {c : Client Cluster} {ext : External}
    {cluster : Cluster} {passes : List (Cluster → EntryPass Cluster)} {check : EntryHistory Cluster × Cluster → Bool}
    (played : ((newEntry cluster).replay c ext allowed cluster passes).any check = true)
    (weaker : ∀ h pass, allowed h pass = true → ok h pass) :
    ∃ h s, (entryMachine c ext).Reached ok h ∧ check (h, s) = true := by
  obtain ⟨last, result, checked⟩ := (Option.any_eq_true _ _).mp played
  exact ⟨last.1, last.2, ⟨_, ⟨_, _, rfl⟩, replay_leads weaker passes _ _ result⟩, checked⟩

end CertificateJobs
