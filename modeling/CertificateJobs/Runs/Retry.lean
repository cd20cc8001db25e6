import CertificateJobs.Runs.WellFormed

namespace CertificateJobs

section
variable {σ : Type} {c : Client σ} {ext : External} {pass : EntryPass σ} {entry : CertificateExecutionState}
  {out : EntryOutcome σ} {cjobName : String}

theorem WorkflowNodeState.WellFormed.not_pending {jobName : String → String} {node : WorkflowNodeState}
    (wellFormed : node.WellFormed jobName) (has : node.jobName ≠ "") : node.phase ≠ .pending :=
  fun pending => has (wellFormed.idle.mpr (.inl pending))

theorem perform_recorded (performed : pass.perform c ext entry = some out) (wellFormed : entry.WellFormed cjobName)
    (same : out.state.inputHash = entry.inputHash) {node : WorkflowNodeState} (member : node ∈ entry.nodes)
    (has : node.jobName ≠ "") :
    (∃ after ∈ out.state.nodes, after.name = node.name ∧ after.jobName = node.jobName) ∧
      ∀ call ∈ out.calls, call.node ≠ node.name := by
  rcases perform_cases c ext performed with quiet | ⟨graph, base, run, ran⟩
  · obtain ⟨secretName, phase, message, completed, written⟩ := quiet.rewritten
    rw [written, quiet.calls]
    exact ⟨⟨node, member, rfl, rfl⟩, by simp⟩
  · have unique := ran.unique wellFormed.distinct
    have goesOn : pass.starts c ext entry = false := by
      by_contra starts
      rw [Bool.not_eq_false] at starts
      obtain ⟨-, input, -⟩ := ran.fresh starts
      obtain ⟨phase, message, completed, written⟩ := ran.rewritten
      rw [written] at same
      simp only [EntryPass.starts, input, Option.any_some, startsRun, decide_eq_true_eq] at starts
      rcases starts with first | ⟨changed, -⟩
      · rw [(wellFormed.untriggered first).2] at member
        cases member
      · exact changed same.symm
    obtain ⟨message, rfl⟩ := ran.same goesOn
    rw [ran.concluded, concludeEntry_nodes, concludeEntry_calls]
    constructor
    · obtain ⟨after, inside, rfl | ⟨seen, -, rfl⟩⟩ := reconcileCertificateRun_advance ran.accepted unique ran.result member
        ((wellFormed.nodes node member).not_pending has)
      · exact ⟨after, inside, rfl, rfl⟩
      · exact ⟨_, inside, by simp, by simp⟩
    · intro call made named
      rcases reconcileCertificateRun_cases ran.accepted unique ran.result with
        ⟨processed, stopped⟩ | ⟨active, failed, started, done⟩
      · rw [stopped.noCalls] at made
        cases made
      · have ensured := ensure_unique ran.accepted.names unique
        obtain ⟨other, inside, otherName, idle, -⟩ := done.call_node ensured made
        have kept : node ∈ ensureWorkflowNodeStates pass.cjob entry.nodes := List.mem_append_left _ member
        rw [node_eq_of_name ensured inside kept (otherName.trans named)] at idle
        exact has idle

end

section
variable {σ : Type} {c : Client σ} {ext : External} {ambient : Ambient} {cjob : CertificateJob} {s : σ}
  {out : JobOutcome σ} {entry after : CertificateExecutionState}

/-- What a reconcile makes of one entry: it stays as it is, or a pass over it is made. -/
theorem reconcileCertificateJob_follows (unique : (cjob.status.observedCertificates.map (·.key)).Nodup)
    (within : ∀ all, c.listCertificates s cjob.ns = .ok all → ∀ cert ∈ all, cert.ns = cjob.ns)
    (listing : ∀ all, c.listCertificates s cjob.ns = .ok all → (all.map (·.key)).Nodup)
    (result : reconcileCertificateJob c ext ambient cjob s = some out)
    (member : entry ∈ cjob.status.observedCertificates) (here : entry.ns = cjob.ns)
    (kept : after ∈ out.status.observedCertificates) (key : after.key = entry.key) :
    (after = entry ∧ out.calls = []) ∨
      ∃ cert client turn, EntryPass.perform c ext ⟨ambient, cjob, cert, client⟩ entry = some turn ∧
        after = turn.state ∧ ∀ call, (entry.name, call) ∈ out.calls → call ∈ turn.calls := by
  rcases reconcileCertificateJob_cases result with ⟨same, none⟩ | ⟨workflowCtx, certs, -, context, listed, -⟩
  · rw [same] at kept
    exact .inl ⟨List.inj_on_of_nodup_map unique kept member key, none⟩
  · have distinct := listMatchingCertificates_distinct listing listed
    obtain ⟨visits, turns⟩ := reconcileCertificateJob_reconciled context listed distinct result
    obtain ⟨visit, visited, rfl⟩ := (turns.entries_unique unique after).mp kept
    have ofEntry := key.symm.trans (turns.key visited)
    have turn := turns.performed visit visited
    rw [currentEntry_unique unique, entryFor_mem unique member ofEntry] at turn
    refine .inr ⟨visit.cert, visit.client, visit.out, turn, rfl, ?_⟩
    intro call made
    rw [turns.calls] at made
    obtain ⟨other, inside, paired⟩ := List.mem_flatMap.mp made
    obtain ⟨_, called, same⟩ := List.mem_map.mp paired
    obtain ⟨named, rfl⟩ := Prod.mk.inj same
    obtain ⟨all, answer, present⟩ := listMatchingCertificates_mem listed (turns.matched inside)
    have otherKey : other.cert.key = visit.cert.key := by
      rw [← ofEntry, Certificate.key, CertificateExecutionState.key, within all answer _ present, here, named]
    have keys : (visits.map (·.cert.key)).Nodup := by
      rw [← turns.visited, List.map_map] at distinct
      exact distinct
    rwa [List.inj_on_of_nodup_map keys inside visited otherKey] at called

end

/-- The certificate's entry goes on with the run it records: a new run always has another input. -/
def SameRun (certName : String) (before after : CertificateJobStatus) : Prop :=
  ∃ old ∈ before.observedCertificates, ∃ new ∈ after.observedCertificates,
    old.name = certName ∧ new.name = certName ∧ new.inputHash = old.inputHash

def GoesOn {σ : Type} (c : Client σ) (ext : External) (ns name certName : String)
    (before after : CertificateJobStatus) : Prop :=
  ∃ pass, JobPass.Of ns name before pass ∧ (statusMachine c ext).step before pass after ∧ SameRun certName before after

section
variable {σ : Type} {c : Client σ} {ext : External} {ns name : String} {status : CertificateJobStatus}

def Records (certName nodeName : String) (status : CertificateJobStatus) : Prop :=
  ∃ entry ∈ status.observedCertificates, entry.name = certName ∧
    ∃ node ∈ entry.nodes, node.name = nodeName ∧ node.jobName ≠ ""

theorem entry_eq_of_name (unique : (status.observedCertificates.map (·.key)).Nodup)
    (here : ∀ entry ∈ status.observedCertificates, entry.ns = ns) {left right : CertificateExecutionState}
    (first : left ∈ status.observedCertificates) (second : right ∈ status.observedCertificates)
    (same : left.name = right.name) : left = right := by
  apply List.inj_on_of_nodup_map unique first second
  rw [CertificateExecutionState.key, CertificateExecutionState.key, here left first, here right second, same]

variable (within : ∀ s all, c.listCertificates s ns = .ok all → ∀ cert ∈ all, cert.ns = ns)
  (listing : ∀ s all, c.listCertificates s ns = .ok all → (all.map (·.key)).Nodup)
include within listing

/-- A reconcile that goes on with the run keeps the record, and makes no Create call for the node. -/
theorem Records.reconcile {certName nodeName : String} {pass : JobPass σ} {out : JobOutcome σ}
    (records : Records certName nodeName status)
    (reached : (statusMachine c ext).Reached (JobPass.Of ns name) status) (ofJob : JobPass.Of ns name status pass)
    (stored : pass.cjob.status = status)
    (result : reconcileCertificateJob c ext pass.ambient pass.cjob pass.client = some out)
    (same : SameRun certName status out.status) :
    Records certName nodeName out.status ∧ ∀ call, (certName, call) ∈ out.calls → call.node ≠ nodeName := by
  obtain ⟨entry, member, rfl, node, inside, rfl, has⟩ := records
  obtain ⟨old, before, after, kept, oldName, newName, input⟩ := same
  have entries := reached_wellFormed within reached
  have unique := reached_unique reached
  have taken : (statusMachine c ext).step status pass out.status := ⟨stored, out, result, .inl rfl⟩
  have afterNs := (reached_wellFormed within (reached.step ofJob taken) after kept).1
  obtain rfl := entry_eq_of_name unique (fun entry member => (entries entry member).1) before member oldName
  obtain ⟨entryNs, wellFormed⟩ := entries old before
  have key : after.key = old.key := by
    rw [CertificateExecutionState.key, CertificateExecutionState.key, afterNs, entryNs, newName]
  subst stored
  rcases reconcileCertificateJob_follows unique (by rw [ofJob.1]; exact within _) (by rw [ofJob.1]; exact listing _)
    result before (entryNs.trans ofJob.1.symm) kept key with ⟨rfl, none⟩ | ⟨cert, client, turn, performed, rfl, calls⟩
  · rw [none]
    exact ⟨⟨after, kept, rfl, node, inside, rfl, has⟩, by simp⟩
  · obtain ⟨⟨later, present, laterName, laterJob⟩, noCalls⟩ := perform_recorded performed wellFormed input inside has
    exact ⟨⟨turn.state, kept, newName, later, present, laterName, laterJob ▸ has⟩,
      fun call made => noCalls call (calls call made)⟩

theorem Records.history {certName nodeName : String} {last : CertificateJobStatus}
    (records : Records certName nodeName status)
    (reached : (statusMachine c ext).Reached (JobPass.Of ns name) status)
    (history : Relation.ReflTransGen (GoesOn c ext ns name certName) status last) :
    Records certName nodeName last ∧ (statusMachine c ext).Reached (JobPass.Of ns name) last := by
  induction history with
  | refl => exact ⟨records, reached⟩
  | tail _ step ih =>
    obtain ⟨records, reached⟩ := ih
    obtain ⟨pass, ofJob, taken, same⟩ := step
    refine ⟨?_, reached.step ofJob taken⟩
    obtain ⟨stored, out, result, rfl | rfl⟩ := taken
    · exact (records.reconcile within listing reached ofJob stored result same).1
    · exact records

end

section
variable {σ : Type} (c : Client σ) (ext : External)

/-- The pass gets as far as `scheduleRunnableNodes`: `base` is the run, `seen` what it read, `nodes` what the failure
    policy left, and a slot is free. -/
structure CallsScheduler (pass : EntryPass σ) (entry : CertificateExecutionState) (workflowCtx : WorkflowContext)
    (base : CertificateExecutionState) (seen : Observation) (nodes : List WorkflowNodeState) : Prop where
  context : buildWorkflowContext ext pass.ambient pass.cjob = .ok workflowCtx
  opened : ∃ hash, pass.inputHash c ext = some hash ∧
    base = applyInputHashTransition pass.cjob pass.cert entry hash workflowCtx.now
  going : isTerminalPhase base.phase = false
  observed : seen = observeWorkflowNodeJobs (c.getJob pass.client pass.cert.ns)
    (pass.ambient.clock (.certificateRun pass.cert.name)) (ensureWorkflowNodeStates pass.cjob base.nodes)
  read : seen.err = none
  policy : applyFailurePolicy pass.ambient.orders.seen pass.cjob.spec.failurePolicy seen.nodes workflowCtx.graph.reverse
    (pass.ambient.orders.failed.visit seen.failedNodes)
    (fun node => pass.ambient.clock (.skipNode pass.cert.name node)) = some nodes
  free : requestedParallelism pass.cjob - seen.activeCount > 0

def EntryPass.schedule (pass : EntryPass σ) (deps : NodeLists) (runID : String) (seen : Observation)
    (nodes : List WorkflowNodeState) : Option (Scheduling σ) :=
  scheduleRunnableNodes c pass.ambient.orders.nodes pass.cjob pass.cert runID nodes deps
    (requestedParallelism pass.cjob - seen.activeCount) (pass.ambient.clock (.certificateRun pass.cert.name)) pass.client

variable {c ext} {pass : EntryPass σ} {entry base : CertificateExecutionState} {workflowCtx : WorkflowContext}
  {seen : Observation} {nodes : List WorkflowNodeState} {out : EntryOutcome σ} {scheduling : Scheduling σ}

theorem CallsScheduler.nodes_eq (calls : CallsScheduler c ext pass entry workflowCtx base seen nodes)
    (scheduled : pass.schedule c workflowCtx.graph.deps base.runID seen nodes = some scheduling)
    (performed : pass.perform c ext entry = some out) : out.state.nodes = scheduling.nodes := by
  obtain ⟨hash, input, opened⟩ := calls.opened
  rw [perform_input calls.context input, reconcileInput] at performed
  simp only [← opened, calls.going, Bool.false_eq_true, if_false] at performed
  obtain ⟨run, result, rfl⟩ := Option.map_eq_some_iff.mp performed
  have read := calls.read
  have policy := calls.policy
  have free := calls.free
  rw [calls.observed] at read policy free
  rw [EntryPass.schedule, calls.observed] at scheduled
  simp only [reconcileCertificateRun, read, policy, Option.bind_eq_bind, Option.bind_some, fillSlots, if_pos free,
    scheduled, Option.pure_def, Option.some.injEq] at result
  rw [← result, concludeEntry_nodes, concludeRun_nodes]

theorem CallsScheduler.names (calls : CallsScheduler c ext pass entry workflowCtx base seen nodes)
    (unique : (nodeNames entry.nodes).Nodup) :
    Accepted pass.cjob workflowCtx.graph ∧ (nodeNames nodes).Nodup ∧
      ∀ name ∈ jobNames pass.cjob, name ∈ nodeNames nodes := by
  have accepted := buildWorkflowContext_accepted calls.context
  obtain ⟨hash, -, opened⟩ := calls.opened
  have baseUnique : (nodeNames base.nodes).Nodup := by
    rw [opened]
    rcases applyInputHashTransition_cases pass.cjob pass.cert entry hash workflowCtx.now with
      ⟨-, initial, -⟩ | ⟨-, message, same⟩
    · rw [initial]
      exact (nodeNames_initial _).nodup_iff.mpr accepted.names
    · rw [same]
      exact unique
  have ensured := ensure_unique accepted.names baseUnique
  have observes : ∃ processed, Observes (c.getJob pass.client pass.cert.ns)
      (pass.ambient.clock (.certificateRun pass.cert.name)) (ensureWorkflowNodeStates pass.cjob base.nodes) seen
      processed := by
    rw [calls.observed]
    exact observeWorkflowNodeJobs_spec _ ensured
  obtain ⟨processed, observes⟩ := observes
  have seenNames : nodeNames seen.nodes = nodeNames (ensureWorkflowNodeStates pass.cjob base.nodes) := by
    rw [observes.all calls.read]
    exact nodeNames_map _ fun node _ => observed_name node
  have covers : ∀ name ∈ jobNames pass.cjob, name ∈ nodeNames seen.nodes := by
    rw [seenNames]
    exact ensure_covers pass.cjob base.nodes
  have policy := calls.policy
  rw [applyFailurePolicy_eq accepted _ _ _ _ (by rw [seenNames]; exact ensured) covers] at policy
  rw [← Option.some.inj policy, nodeNames_skipNamed]
  exact ⟨accepted, by rw [seenNames]; exact ensured, covers⟩

end

section
variable {σ : Type} {c : Client σ} {cjob : CertificateJob} {certificate : Certificate} {runID : String} {now : Time}

theorem scheduleNodes_stops (names : List String) (slots : Int) (nodes : List WorkflowNodeState) (s : σ)
    (unique : (nodeNames nodes).Nodup) (known : ∀ name ∈ names, name ∈ nodeNames nodes) {out : Scheduling σ} {e : ApiError}
    (result : scheduleNodes c cjob certificate runID now names slots nodes s = some out) (error : out.err = some e) :
    ∃ done failing rest before, names = done ++ failing :: rest ∧
      out.nodes = startNamed cjob certificate runID now nodes done ∧
      (provideJob c cjob certificate runID failing out.nodes before).1 = some e := by
  -- The loop that fails has handled the names before the one it failed at, and nothing else.
  induction names generalizing slots nodes s out with
  | nil =>
    obtain rfl := Option.some.inj result
    cases error
  | cons name names ih =>
    unfold scheduleNodes at result
    split at result
    · obtain rfl := Option.some.inj result
      cases error
    · split at result
      · rename_i failure calls after provided
        obtain rfl := Option.some.inj result
        exact ⟨[], name, names, s, rfl, (startNamed_nil _ _ _ _ _).symm, by rw [provided]; exact error⟩
      · obtain ⟨marked, updated, result⟩ := Option.bind_eq_some_iff.mp result
        obtain ⟨after, later, result⟩ := Option.bind_eq_some_iff.mp result
        obtain rfl := Option.some.inj result
        rw [updateNode_start cjob certificate runID now unique (known name List.mem_cons_self)] at updated
        obtain rfl := Option.some.inj updated
        have same := nodeNames_startNamed cjob certificate runID now nodes [name]
        obtain ⟨done, failing, rest, before, split, left, failed⟩ := ih _ _ _ (by rw [same]; exact unique)
          (by rw [same]; exact fun n inside => known n (List.mem_cons_of_mem _ inside)) later error
        refine ⟨name :: done, failing, rest, before, by rw [split, List.cons_append], ?_, failed⟩
        simp only [left]
        rw [startNamed_append, List.singleton_append]

theorem scheduleRunnableNodes_stops {graph : GraphMaps} (accepted : Accepted cjob graph) (order : MapOrder)
    {nodes : List WorkflowNodeState} {slots : Int} {s : σ} (unique : (nodeNames nodes).Nodup)
    (covers : ∀ name ∈ jobNames cjob, name ∈ nodeNames nodes) {out : Scheduling σ} {e : ApiError}
    (result : scheduleRunnableNodes c order cjob certificate runID nodes graph.deps slots now s = some out)
    (error : out.err = some e) :
    ∃ done failing rest before, (done ++ failing :: rest).Nodup ∧
      (runnableNodes order cjob.spec.failurePolicy nodes graph.deps).map (·.insertionSort (· ≤ ·)) =
        some (done ++ failing :: rest) ∧
      (provideJob c cjob certificate runID failing out.nodes before).1 = some e ∧
      out.nodes = startNamed cjob certificate runID now nodes done := by
  obtain ⟨runnable, listed, distinct, members⟩ := runnableNodes_eq order cjob.spec.failurePolicy graph.deps unique
    fun n d dep => dependencies_known accepted covers dep
  simp only [scheduleRunnableNodes, listed, Option.bind_eq_bind, Option.bind_some] at result
  have known : ∀ name ∈ runnable.insertionSort (· ≤ ·), name ∈ nodeNames nodes := by
    intro name inside
    obtain ⟨node, member, rfl, -⟩ := ((members name).mp ((List.mem_insertionSort _).mp inside)).1
    exact List.mem_map_of_mem member
  obtain ⟨done, failing, rest, before, split, left, failed⟩ := scheduleNodes_stops _ _ _ _ unique known result error
  refine ⟨done, failing, rest, before, ?_, by rw [listed, Option.map_some, split], failed, left⟩
  rw [← split]
  exact (List.perm_insertionSort _ _).nodup_iff.mpr distinct

end

def JobPass.turn {σ : Type} (pass : JobPass σ) (visit : Visit σ) : EntryPass σ :=
  ⟨pass.ambient, pass.cjob, visit.cert, visit.client⟩

/-- Once a stored status records a Job for a node, no reconcile creates one for it while the run goes on, whatever fails
    and whether or not its status is written. If scheduling fails at a node, the status that the reconcile goes on to
    write has exactly the nodes before it started. -/
theorem no_retry_within_run {σ : Type} (c : Client σ) (ext : External) (ns name : String) (status : CertificateJobStatus)
    (within : ∀ s all, c.listCertificates s ns = .ok all → ∀ cert ∈ all, cert.ns = ns)
    (listing : ∀ s all, c.listCertificates s ns = .ok all → (all.map (·.key)).Nodup)
    (reached : (statusMachine c ext).Reached (JobPass.Of ns name) status) :
    (∀ entry ∈ status.observedCertificates, ∀ node ∈ entry.nodes, node.jobName ≠ "" →
      ∀ last, Relation.ReflTransGen (GoesOn c ext ns name entry.name) status last →
      ∀ (pass : JobPass σ) out, JobPass.Of ns name last pass → pass.cjob.status = last →
        reconcileCertificateJob c ext pass.ambient pass.cjob pass.client = some out →
        SameRun entry.name last out.status → ∀ call, (entry.name, call) ∈ out.calls → call.node ≠ node.name) ∧
    (∀ (pass : JobPass σ) out workflowCtx certs, JobPass.Of ns name status pass → pass.cjob.status = status →
      buildWorkflowContext ext pass.ambient pass.cjob = .ok workflowCtx →
      listMatchingCertificates c ext pass.cjob pass.client = .ok certs →
      reconcileCertificateJob c ext pass.ambient pass.cjob pass.client = some out →
      ∃ visits, Reconciled c ext pass.ambient pass.cjob pass.client certs out visits ∧
        ∀ visit ∈ visits, ∀ base seen nodes scheduling e,
          CallsScheduler c ext (pass.turn visit) (currentEntry status.observedCertificates visit.cert) workflowCtx base
            seen nodes →
          (pass.turn visit).schedule c workflowCtx.graph.deps base.runID seen nodes = some scheduling →
          scheduling.err = some e →
          ∃ entry ∈ out.status.observedCertificates, entry.key = visit.cert.key ∧
            ∃ done failing rest before, (done ++ failing :: rest).Nodup ∧
              (runnableNodes pass.ambient.orders.nodes pass.cjob.spec.failurePolicy nodes workflowCtx.graph.deps).map
                (·.insertionSort (· ≤ ·)) = some (done ++ failing :: rest) ∧
              (provideJob c pass.cjob visit.cert base.runID failing entry.nodes before).1 = some e ∧
              entry.nodes = nodes.map fun node =>
                if node.name ∈ done then
                  { node with
                    jobName := buildJobName pass.cjob.name visit.cert.name node.name base.runID
                    phase := .running
                    message := ""
                    startedAt := some (pass.ambient.clock (.certificateRun visit.cert.name)) }
                else node) := by
  refine ⟨?_, ?_⟩
  · intro entry member node inside has last history pass out ofJob stored result same call made
    have records : Records entry.name node.name status := ⟨entry, member, rfl, node, inside, rfl, has⟩
    obtain ⟨records, reached⟩ := records.history within listing reached history
    exact (records.reconcile within listing reached ofJob stored result same).2 call made
  · intro pass out workflowCtx certs ofJob stored context listed result
    subst stored
    have distinct := listMatchingCertificates_distinct (by rw [ofJob.1]; exact listing _) listed
    obtain ⟨visits, turns⟩ := reconcileCertificateJob_reconciled context listed distinct result
    refine ⟨visits, turns, ?_⟩
    intro visit member base seen nodes scheduling e calls scheduled error
    have entryNames : (nodeNames (currentEntry pass.cjob.status.observedCertificates visit.cert).nodes).Nodup := by
      rcases currentEntry_cases pass.cjob.status.observedCertificates visit.cert with latest | ⟨-, new⟩
      · have present := (IndexBy.mem_latest_or_stale _).mpr (.inl latest)
        exact (reached_wellFormed within reached _ present).2.distinct
      · rw [new]
        exact List.nodup_nil
    obtain ⟨accepted, unique, covers⟩ := calls.names entryNames
    obtain ⟨done, failing, rest, before, once, runnable, failed, left⟩ :=
      scheduleRunnableNodes_stops accepted _ unique covers scheduled error
    have kept := calls.nodes_eq scheduled (turns.performed visit member)
    refine ⟨visit.out.state, (turns.entries _).mpr (.inl ⟨visit, member, rfl⟩), turns.key member, done, failing, rest,
      before, once, runnable, ?_, ?_⟩
    · rw [kept]
      exact failed
    · rw [kept, left]
      rfl

def EntryPass.schedulingFails {σ : Type} (c : Client σ) (ext : External) (pass : EntryPass σ)
    (entry : CertificateExecutionState) : Bool :=
  (buildWorkflowContext ext pass.ambient pass.cjob).toOption.any fun workflowCtx =>
    (pass.inputHash c ext).any fun hash =>
      let base := applyInputHashTransition pass.cjob pass.cert entry hash workflowCtx.now
      let seen := observeWorkflowNodeJobs (c.getJob pass.client pass.cert.ns)
        (pass.ambient.clock (.certificateRun pass.cert.name)) (ensureWorkflowNodeStates pass.cjob base.nodes)
      !isTerminalPhase base.phase && seen.err.isNone && decide (requestedParallelism pass.cjob - seen.activeCount > 0) &&
        (applyFailurePolicy pass.ambient.orders.seen pass.cjob.spec.failurePolicy seen.nodes workflowCtx.graph.reverse
          (pass.ambient.orders.failed.visit seen.failedNodes)
          (fun node => pass.ambient.clock (.skipNode pass.cert.name node))).any fun nodes =>
            (pass.schedule c workflowCtx.graph.deps base.runID seen nodes).any (·.err.isSome)

theorem schedulingFails_calls {σ : Type} {c : Client σ} {ext : External} {pass : EntryPass σ}
    {entry : CertificateExecutionState} (fails : pass.schedulingFails c ext entry = true) :
    ∃ workflowCtx base seen nodes scheduling e, CallsScheduler c ext pass entry workflowCtx base seen nodes ∧
      pass.schedule c workflowCtx.graph.deps base.runID seen nodes = some scheduling ∧ scheduling.err = some e := by
  obtain ⟨workflowCtx, context, fails⟩ := (Option.any_eq_true _ _).mp fails
  obtain ⟨hash, input, fails⟩ := (Option.any_eq_true _ _).mp fails
  simp only [Bool.and_eq_true, decide_eq_true_eq, Bool.not_eq_true', Option.isNone_iff_eq_none] at fails
  obtain ⟨⟨⟨going, read⟩, free⟩, fails⟩ := fails
  obtain ⟨nodes, policy, fails⟩ := (Option.any_eq_true _ _).mp fails
  obtain ⟨scheduling, scheduled, fails⟩ := (Option.any_eq_true _ _).mp fails
  obtain ⟨e, error⟩ := Option.isSome_iff_exists.mp fails
  exact ⟨workflowCtx, _, _, nodes, scheduling, e,
    ⟨ok_of_toOption context, ⟨hash, input, rfl⟩, going, rfl, read, policy, free⟩, scheduled, error⟩

def refusingClient (node : String) : Client Cluster :=
  { clusterClient with
    listCertificates := fun _ ns => .ok ([webCertificate].filter (·.ns = ns))
    createJob := fun cluster job =>
      if job.labels.lookup "certificates.rezzell.com/workflow-node" = some node then (.error (.other "refused"), cluster)
      else cluster.createJob job }

theorem refusingClient_listing (node : String) (s : Cluster) (ns : String) :
    ∀ all, (refusingClient node).listCertificates s ns = .ok all →
      (∀ cert ∈ all, cert.ns = ns) ∧ (all.map (·.key)).Nodup := by
  rintro _ ⟨⟩
  refine ⟨?_, ?_⟩
  · intro cert member
    simpa using (List.mem_filter.mp member).2
  · exact (List.nodup_singleton _).sublist (List.filter_sublist.map _)

def Cluster.attempt (node : String) (cluster : Cluster) : Option (JobOutcome Cluster) :=
  reconcileCertificateJob (refusingClient node) plainExternal cluster.pass.ambient cluster.cjob cluster

/-- Of three nodes the second cannot be created, so that the first alone is recorded; its Job is deleted, and the next
    reconciles try the second node again but not the first. -/
theorem no_retry_within_run_refused :
    ∃ (status : CertificateJobStatus) (out : JobOutcome Cluster) (entry : CertificateExecutionState),
      (statusMachine (refusingClient "b") plainExternal).Reached (JobPass.Of "default" "renewal") status ∧
      entry ∈ status.observedCertificates ∧
      entry.nodes.map (fun node => (node.name, node.phase)) = [("a", .running), ("b", .pending), ("c", .pending)] ∧
      (∃ (done : List String) (failing runID : String) (nodes : List WorkflowNodeState), failing ∉ done ∧
        entry.nodes = nodes.map fun node =>
        if node.name ∈ done then
          { node with
            jobName := buildJobName "renewal" "web" node.name runID
            phase := .running
            message := ""
            startedAt := some 0 }
        else node) ∧
      (∃ call, ("web", call) ∈ out.calls) ∧ ∀ call, ("web", call) ∈ out.calls → call.node ≠ "a" := by
  let start : Cluster := sampleCluster (flatSpec ["a", "b", "c"] 3 .bestEffort)
  have played : (start.attempt "b").any (fun first =>
      (start.pass.schedulingFails (refusingClient "b") plainExternal
        (currentEntry start.cjob.status.observedCertificates start.pass.cert)) &&
      first.status.observedCertificates.any (fun entry =>
        entry.name = "web" ∧ entry.key = start.pass.cert.key ∧
        entry.nodes.map (fun node => (node.name, node.phase)) = [("a", .running), ("b", .pending), ("c", .pending)] ∧
        entry.nodes.any (fun node => node.name = "a" ∧ node.jobName ≠ "") ∧
        (Cluster.attempt "b" { first.client.deleteJob "a" with
            cjob := { start.cjob with status := first.status } }).any (fun out =>
          out.calls.any (fun call => call.1 = "web") ∧
          out.status.observedCertificates.any fun after => after.name = "web" ∧ after.inputHash = entry.inputHash))) =
      true := by
    decide +kernel
  obtain ⟨first, opened, checked⟩ := (Option.any_eq_true _ _).mp played
  simp only [Bool.and_eq_true] at checked
  obtain ⟨fails, checked⟩ := checked
  obtain ⟨entry, member, checked⟩ := List.any_eq_true.mp checked
  obtain ⟨named, key, states, recorded, again⟩ := of_decide_eq_true checked
  obtain ⟨node, inside, recorded⟩ := List.any_eq_true.mp recorded
  obtain ⟨nodeName, has⟩ := of_decide_eq_true recorded
  obtain ⟨out, retried, checked⟩ := (Option.any_eq_true _ _).mp again
  obtain ⟨called, goesOn⟩ := of_decide_eq_true checked
  obtain ⟨after, kept, checked⟩ := List.any_eq_true.mp goesOn
  obtain ⟨afterName, input⟩ := of_decide_eq_true checked
  obtain ⟨⟨certName, call⟩, made, forWeb⟩ := List.any_eq_true.mp called
  obtain rfl : certName = "web" := of_decide_eq_true forWeb
  let pass : JobPass Cluster := ⟨start.pass.ambient, start.cjob, start⟩
  let retry : JobPass Cluster :=
    ⟨start.pass.ambient, { start.cjob with status := first.status },
      { first.client.deleteJob "a" with cjob := { start.cjob with status := first.status } }⟩
  have began : (statusMachine (refusingClient "b") plainExternal).Reached (JobPass.Of "default" "renewal")
      start.cjob.status := .of_start rfl
  have taken : (statusMachine (refusingClient "b") plainExternal).step start.cjob.status pass first.status :=
    ⟨rfl, first, opened, .inl rfl⟩
  have reached := began.step (show JobPass.Of "default" "renewal" _ pass from ⟨rfl, rfl⟩) taken
  have rules := no_retry_within_run (refusingClient "b") plainExternal "default" "renewal" start.cjob.status
    (fun s all answer => (refusingClient_listing "b" s "default" all answer).1)
    (fun s all answer => (refusingClient_listing "b" s "default" all answer).2) began
  obtain ⟨workflowCtx, base, seen, nodes, scheduling, e, calls, scheduled, error⟩ := schedulingFails_calls fails
  refine ⟨first.status, out, entry, reached, member, states, ?_, ⟨call, made⟩, ?_⟩
  · obtain ⟨visits, turns, stops⟩ := rules.2 pass first workflowCtx [webCertificate] ⟨rfl, rfl⟩ rfl calls.context rfl
      opened
    obtain ⟨visit, rest, rfl, cert, none⟩ := List.map_eq_cons_iff.mp turns.visited
    have client : visit.client = start := turns.chained.1
    have turn : pass.turn visit = start.pass := by rw [JobPass.turn, cert, client]; rfl
    have found := stops visit List.mem_cons_self base seen nodes scheduling e (by rw [turn, cert]; exact calls)
      (by rw [turn]; exact scheduled) error
    obtain ⟨stored, kept, storedKey, done, failing, rest, before, once, -, -, left⟩ := found
    have same : stored = entry := by
      refine List.inj_on_of_nodup_map (reached_unique reached) kept member ?_
      rw [storedKey, key, cert]
      rfl
    rw [← same]
    refine ⟨done, failing, base.runID, nodes, ?_, ?_⟩
    · exact fun inside => (List.nodup_append.mp once).2.2 _ inside _ List.mem_cons_self rfl
    · rw [left, cert]
      rfl
  · have rules := no_retry_within_run (refusingClient "b") plainExternal "default" "renewal" first.status
      (fun s all answer => (refusingClient_listing "b" s "default" all answer).1)
      (fun s all answer => (refusingClient_listing "b" s "default" all answer).2) reached
    have goes : SameRun entry.name first.status out.status :=
      ⟨entry, member, after, kept, rfl, afterName.trans named.symm, input⟩
    -- The first of the two later reconciles loses its status.
    have lost : GoesOn (refusingClient "b") plainExternal "default" "renewal" entry.name first.status first.status :=
      ⟨retry, ⟨rfl, rfl⟩, ⟨rfl, out, retried, .inr rfl⟩, entry, member, entry, member, rfl, rfl, rfl⟩
    intro call made
    rw [← nodeName]
    exact rules.1 entry member node inside has first.status (.single lost) retry out ⟨rfl, rfl⟩ rfl retried goes call
      (named ▸ made)

end CertificateJobs
