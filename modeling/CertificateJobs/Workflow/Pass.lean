import CertificateJobs.Workflow.Scheduling

namespace CertificateJobs

theorem nodeNames_ensure (cjob : CertificateJob) (nodes : List WorkflowNodeState) :
    nodeNames (ensureWorkflowNodeStates cjob nodes) =
      nodeNames nodes ++ (jobNames cjob).filter (· ∉ nodeNames nodes) := by
  simp only [ensureWorkflowNodeStates, nodeNames, List.map_append, List.map_map, jobNames, List.filter_map]
  congr 2
  apply List.filter_congr
  intro tmpl _
  simp [mem_nodeStateMap, nodeNames]

theorem ensure_unique {cjob : CertificateJob} {nodes : List WorkflowNodeState} (names : (jobNames cjob).Nodup)
    (unique : (nodeNames nodes).Nodup) : (nodeNames (ensureWorkflowNodeStates cjob nodes)).Nodup := by
  rw [nodeNames_ensure, List.nodup_append]
  refine ⟨unique, names.filter _, ?_⟩
  rintro a old _ new rfl
  have fresh := (List.mem_filter.mp new).2
  simp only [decide_eq_true_eq] at fresh
  exact fresh old

theorem ensure_covers (cjob : CertificateJob) (nodes : List WorkflowNodeState) :
    ∀ name ∈ jobNames cjob, name ∈ nodeNames (ensureWorkflowNodeStates cjob nodes) := by
  intro name member
  rw [nodeNames_ensure, List.mem_append]
  by_cases old : name ∈ nodeNames nodes
  · exact .inl old
  · exact .inr (List.mem_filter.mpr ⟨member, by simpa using old⟩)

theorem ensure_eq {cjob : CertificateJob} {nodes : List WorkflowNodeState}
    (covers : ∀ name ∈ jobNames cjob, name ∈ nodeNames nodes) : ensureWorkflowNodeStates cjob nodes = nodes := by
  unfold ensureWorkflowNodeStates
  rw [List.filter_eq_nil_iff.mpr, List.map_nil, List.append_nil]
  intro tmpl member
  simpa [mem_nodeStateMap] using covers tmpl.name (List.mem_map_of_mem member)

theorem mem_ensure {cjob : CertificateJob} {nodes : List WorkflowNodeState} {node : WorkflowNodeState}
    (member : node ∈ ensureWorkflowNodeStates cjob nodes) :
    node ∈ nodes ∨ ∃ name ∈ jobNames cjob, name ∉ nodeNames nodes ∧ node = pendingNode name := by
  rcases List.mem_append.mp member with old | new
  · exact .inl old
  · obtain ⟨tmpl, inside, rfl⟩ := List.mem_map.mp new
    obtain ⟨present, fresh⟩ := List.mem_filter.mp inside
    simp only [mem_nodeStateMap, decide_eq_true_eq] at fresh
    exact .inr ⟨tmpl.name, List.mem_map_of_mem present, fresh, rfl⟩

section
variable {σ : Type} (now : Time) (state : CertificateExecutionState) (sightings : List Sighting)
  (scheduling : Scheduling σ)

@[simp]
theorem concludeRun_sightings : (concludeRun now state sightings scheduling).sightings = sightings := by
  unfold concludeRun
  split <;> rfl

@[simp]
theorem concludeRun_calls : (concludeRun now state sightings scheduling).calls = scheduling.calls := by
  unfold concludeRun
  split <;> rfl

@[simp]
theorem concludeRun_client : (concludeRun now state sightings scheduling).client = scheduling.client := by
  unfold concludeRun
  split <;> rfl

@[simp]
theorem concludeRun_nodes : (concludeRun now state sightings scheduling).state.nodes = scheduling.nodes := by
  unfold concludeRun
  split <;> rfl

@[simp]
theorem concludeRun_err : (concludeRun now state sightings scheduling).err = scheduling.err := by
  unfold concludeRun
  split <;> simp_all

theorem concludeRun_failure (failing : scheduling.err ≠ none) :
    (concludeRun now state sightings scheduling).state.phase = state.phase := by
  unfold concludeRun
  split
  · rfl
  · contradiction

theorem concludeRun_success (fine : scheduling.err = none) :
    let out := concludeRun now state sightings scheduling
    out.state.phase = deriveWorkflowPhase out.state.nodes ∧
      out.running = decide (out.state.phase = .running ∨ out.state.phase = .pending) := by
  simp [concludeRun, fine]

end

section
variable {σ : Type} (c : Client σ) (ambient : Ambient) (cjob : CertificateJob) (certificate : Certificate)
  (state : CertificateExecutionState) (graph : GraphMaps) (s : σ)

def observedNow (node : WorkflowNodeState) : WorkflowNodeState :=
  observed (c.getJob s certificate.ns) (ambient.clock (.certificateRun certificate.name)) node

def observedNodes : List WorkflowNodeState :=
  (ensureWorkflowNodeStates cjob state.nodes).map (observedNow c ambient certificate s)

def givenUp (failed : List String) : List String :=
  skipTargets ambient.orders.seen cjob.spec.failurePolicy (observedNodes c ambient cjob certificate state s)
    graph.reverse failed

def remainingNodes (failed : List String) : List WorkflowNodeState :=
  skipNamed (skipMessage cjob.spec.failurePolicy) (fun node => ambient.clock (.skipNode certificate.name node))
    (observedNodes c ambient cjob certificate state s) (givenUp c ambient cjob certificate state graph s failed)

def startedNodes (failed names : List String) : List WorkflowNodeState :=
  startNamed cjob certificate state.runID (ambient.clock (.certificateRun certificate.name))
    (remainingNodes c ambient cjob certificate state graph s failed) names

def RunnableNow (failed : List String) (name : String) : Prop :=
  Runnable cjob.spec.failurePolicy (remainingNodes c ambient cjob certificate state graph s failed) graph.deps name

structure ReadFailed (out : RunOutcome σ) (processed : List String) : Prop where
  error : out.err ≠ none
  noCalls : out.calls = []
  client : out.client = s
  result : out.state = { state with
    nodes := (ensureWorkflowNodeStates cjob state.nodes).map fun node =>
      if node.name ∈ processed then observedNow c ambient certificate s node else node }
  reads : ∀ node ∈ ensureWorkflowNodeStates cjob state.nodes, node.name ∈ processed → node.jobName ≠ "" →
    ∃ seen, Seen (c.getJob s certificate.ns) node seen ∧ ⟨node.name, node.jobName, seen⟩ ∈ out.sightings
  record : ∀ line ∈ out.sightings, ∃ node ∈ ensureWorkflowNodeStates cjob state.nodes, node.name ∈ processed ∧
    line.node = node.name ∧ line.jobName = node.jobName ∧ Seen (c.getJob s certificate.ns) node line.seen

/-- A pass that read every Job: it counted `active` of them, applied the policy to `failed` and started `started`. -/
structure Completed (out : RunOutcome σ) (active : Nat) (failed started : List String) : Prop where
  reads : ∀ node ∈ ensureWorkflowNodeStates cjob state.nodes, node.jobName ≠ "" →
    ∃ seen, Seen (c.getJob s certificate.ns) node seen ∧ ⟨node.name, node.jobName, seen⟩ ∈ out.sightings
  record : ∀ line ∈ out.sightings, ∃ node ∈ ensureWorkflowNodeStates cjob state.nodes,
    line.node = node.name ∧ line.jobName = node.jobName ∧ Seen (c.getJob s certificate.ns) node line.seen
  counted : active = (ensureWorkflowNodeStates cjob state.nodes).countP fun node =>
    node.jobName ≠ "" ∧ (sight (c.getJob s certificate.ns node.jobName)).toOption.any (countsActive node)
  failures : ∀ name, name ∈ failed ↔ ∃ node ∈ ensureWorkflowNodeStates cjob state.nodes, node.name = name ∧
    ∃ seen, Seen (c.getJob s certificate.ns) node seen ∧ seen.isFailure = true
  distinct : started.Nodup
  runnable : ∀ name ∈ started, RunnableNow c ambient cjob certificate state graph s failed name
  slots : (started.length : Int) ≤ max 0 (requestedParallelism cjob - active)
  result : out.state.nodes = startedNodes c ambient cjob certificate state graph s failed started
  failure : out.err ≠ none → out.state.phase = state.phase
  success : out.err = none →
    out.state.phase = deriveWorkflowPhase out.state.nodes ∧
    out.running = decide (out.state.phase = .running ∨ out.state.phase = .pending)
  exhausted : out.err = none →
    (∀ name, RunnableNow c ambient cjob certificate state graph s failed name → name ∈ started) ∨
      requestedParallelism cjob - active ≤ started.length
  calls : ∀ call ∈ out.calls, RunnableNow c ambient cjob certificate state graph s failed call.node ∧
    (∃ before, call.node ∉ before ∧ (∀ name ∈ before, RunnableNow c ambient cjob certificate state graph s failed name) ∧
      call.nodes = startedNodes c ambient cjob certificate state graph s failed before) ∧
    ∃ before after answer, CallMade c cjob certificate state.runID s out.client call before after answer
  client : Creates c s out.client
  stored : ∀ call ∈ out.calls, call.stored.isSome = true → call.node ∈ started
  taken : ∀ name ∈ started, JobTaken c cjob certificate state.runID s out.calls name

theorem nodeNames_observedNodes :
    nodeNames (observedNodes c ambient cjob certificate state s) =
      nodeNames (ensureWorkflowNodeStates cjob state.nodes) :=
  nodeNames_map _ fun node _ => observed_name node

theorem nodeNames_remainingNodes (failed : List String) :
    nodeNames (remainingNodes c ambient cjob certificate state graph s failed) =
      nodeNames (ensureWorkflowNodeStates cjob state.nodes) := by
  rw [remainingNodes, nodeNames_skipNamed, nodeNames_observedNodes]

theorem nodeNames_startedNodes (failed names : List String) :
    nodeNames (startedNodes c ambient cjob certificate state graph s failed names) =
      nodeNames (ensureWorkflowNodeStates cjob state.nodes) := by
  rw [startedNodes, nodeNames_startNamed, nodeNames_remainingNodes]

theorem fillSlots_spec {cjob : CertificateJob} {graph : GraphMaps} (accepted : Accepted cjob graph) (order : MapOrder)
    (runID : String) (now : Time) (slots : Int) {nodes : List WorkflowNodeState} (unique : (nodeNames nodes).Nodup)
    (covers : ∀ name ∈ jobNames cjob, name ∈ nodeNames nodes) :
    ∃ out names started, fillSlots c order cjob certificate runID nodes graph.deps slots now s = some out ∧
      names.Nodup ∧ (∀ name ∈ names, Runnable cjob.spec.failurePolicy nodes graph.deps name) ∧
      (0 < slots → ∀ name, Runnable cjob.spec.failurePolicy nodes graph.deps name → name ∈ names) ∧
      Schedules c cjob certificate runID now names (max 0 slots) nodes s out started := by
  by_cases free : slots > 0
  · obtain ⟨runnable, listed, distinct, members⟩ := runnableNodes_eq order cjob.spec.failurePolicy graph.deps unique
      fun n d dep => dependencies_known accepted covers dep
    have sorted : ∀ name, name ∈ runnable.insertionSort (· ≤ ·) ↔
        Runnable cjob.spec.failurePolicy nodes graph.deps name := by
      intro name
      rw [List.mem_insertionSort, members]
    have known : ∀ name ∈ runnable.insertionSort (· ≤ ·), name ∈ nodeNames nodes := by
      intro name inside
      obtain ⟨node, member, rfl, -⟩ := ((sorted name).mp inside).1
      exact List.mem_map_of_mem member
    obtain ⟨out, started, run, spec⟩ := scheduleNodes_spec c cjob certificate runID now _ slots nodes s unique known
      (by omega)
    refine ⟨out, _, started, ?_, ?_, fun name => (sorted name).mp, fun _ name => (sorted name).mpr, ?_⟩
    · simp only [fillSlots, if_pos free, scheduleRunnableNodes, listed, Option.bind_eq_bind, Option.bind_some, run]
    · exact (List.perm_insertionSort _ _).nodup_iff.mpr distinct
    · rw [max_eq_right (by omega)]
      exact spec
  · refine ⟨⟨nodes, none, [], s⟩, [], [], by simp only [fillSlots, if_neg free], List.nodup_nil, by simp,
      fun room => absurd room free, ?_⟩
    exact ⟨by simp [startNamed_nil], by simp, ⟨[], rfl, fun _ => .inl rfl⟩, .refl, by simp, by simp, by simp⟩

theorem concludeRun_completed {state : CertificateExecutionState} {observation : Observation} {failed names : List String}
    {started : List String} {scheduling : Scheduling σ}
    (seen : ∃ processed, Observes (c.getJob s certificate.ns) (ambient.clock (.certificateRun certificate.name))
      (ensureWorkflowNodeStates cjob state.nodes) observation processed)
    (ok : observation.err = none) (failures : ∀ name, name ∈ failed ↔ name ∈ observation.failedNodes)
    (distinct : names.Nodup)
    (runnable : ∀ name ∈ names, RunnableNow c ambient cjob certificate state graph s failed name)
    (whole : 0 < requestedParallelism cjob - observation.activeCount →
      ∀ name, RunnableNow c ambient cjob certificate state graph s failed name → name ∈ names)
    (schedules : Schedules c cjob certificate state.runID (ambient.clock (.certificateRun certificate.name)) names
      (max 0 (requestedParallelism cjob - observation.activeCount))
      (remainingNodes c ambient cjob certificate state graph s failed) s scheduling started) :
    Completed c ambient cjob certificate state graph s
      (concludeRun (ambient.clock (.certificateRun certificate.name)) state observation.sightings scheduling)
      observation.activeCount failed started := by
  obtain ⟨processed, seen⟩ := seen
  obtain ⟨rest, split, finished⟩ := schedules.handled
  have sub : ∀ name ∈ started, name ∈ names := by
    intro name member
    rw [split]
    exact List.mem_append_left _ member
  refine ⟨?_, ?_, seen.active ok, ?_, ?_, ?_, schedules.bound, ?_, ?_, ?_, ?_, ?_, ?_, ?_, ?_⟩
  · intro node member has
    rw [concludeRun_sightings]
    exact seen.reads node member (seen.whole ok node member) has
  · rw [concludeRun_sightings]
    intro line member
    obtain ⟨node, present, -, same⟩ := seen.record line member
    exact ⟨node, present, same⟩
  · intro name
    rw [failures, seen.failed ok]
  · rw [split, List.nodup_append] at distinct
    exact distinct.1
  · exact fun name member => runnable name (sub name member)
  · rw [concludeRun_nodes]
    exact schedules.result
  · rw [concludeRun_err]
    exact concludeRun_failure _ _ _ _
  · rw [concludeRun_err]
    exact concludeRun_success _ _ _ _
  · rw [concludeRun_err]
    intro fine
    rcases finished fine with none | full
    · by_cases room : 0 < requestedParallelism cjob - observation.activeCount
      · left
        intro name holds
        have inside := whole room name holds
        rwa [split, none, List.append_nil] at inside
      · right
        have positive := Int.natCast_nonneg started.length
        omega
    · right
      omega
  · rw [concludeRun_calls, concludeRun_client]
    intro call member
    have located := schedules.calls call member
    obtain ⟨before, after, parts, -, states⟩ := located.position
    have inside : ∀ name ∈ before, name ∈ names := by
      intro name early
      rw [parts]
      exact List.mem_append_left _ early
    refine ⟨runnable _ (by rw [parts]; simp), ⟨before, ?_, fun name early => runnable name (inside name early), states⟩,
      located.made⟩
    rw [parts, List.nodup_append] at distinct
    exact fun early => distinct.2.2 _ early _ List.mem_cons_self rfl
  · rw [concludeRun_client]
    exact schedules.client
  · rw [concludeRun_calls]
    exact schedules.stored
  · rw [concludeRun_calls]
    exact schedules.taken

variable {c ambient cjob certificate state graph s} in
/-- What holds of every pass, whatever nodes it is given. -/
theorem reconcileCertificateRun_outline {out : RunOutcome σ}
    (result : reconcileCertificateRun c ambient cjob certificate state graph s = some out) :
    (Creates c s out.client ∧ ∀ call ∈ out.calls, Requested c cjob certificate state.runID call) ∧
    (∃ nodes phase completed,
      out.state = { state with nodes := nodes, phase := phase, lastCompletedTime := completed }) ∧
    (out.err = none → out.state.phase = deriveWorkflowPhase out.state.nodes ∧
      out.running = decide (out.state.phase = .running ∨ out.state.phase = .pending)) := by
  simp only [reconcileCertificateRun] at result
  split at result
  · obtain rfl := Option.some.inj result
    exact ⟨⟨.refl, by simp⟩, ⟨_, _, _, rfl⟩, by simp⟩
  · obtain ⟨remaining, -, result⟩ := Option.bind_eq_some_iff.mp result
    obtain ⟨scheduling, filled, result⟩ := Option.bind_eq_some_iff.mp result
    obtain rfl := Option.some.inj result
    have client : Creates c s scheduling.client ∧
        ∀ call ∈ scheduling.calls, Requested c cjob certificate state.runID call := by
      unfold fillSlots at filled
      split at filled
      · obtain ⟨runnable, -, scheduled⟩ := Option.bind_eq_some_iff.mp filled
        exact scheduleNodes_creates _ _ _ _ scheduled
      · obtain rfl := Option.some.inj filled
        exact ⟨.refl, by simp⟩
    unfold concludeRun
    split
    · exact ⟨client, ⟨_, _, _, rfl⟩, by simp⟩
    · exact ⟨client, ⟨_, _, _, rfl⟩, fun _ => ⟨rfl, rfl⟩⟩

variable {c ambient cjob certificate state graph s} in
theorem reconcileCertificateRun_flag {out : RunOutcome σ}
    (result : reconcileCertificateRun c ambient cjob certificate state graph s = some out) (fine : out.err = none) :
    out.failed = decide (out.state.phase = .failed) := by
  simp only [reconcileCertificateRun] at result
  split at result
  · obtain rfl := Option.some.inj result
    cases fine
  · obtain ⟨remaining, -, result⟩ := Option.bind_eq_some_iff.mp result
    obtain ⟨scheduling, -, result⟩ := Option.bind_eq_some_iff.mp result
    obtain rfl := Option.some.inj result
    rw [concludeRun_err] at fine
    simp [concludeRun, fine]

/-- A pass over an accepted spec never dereferences a missing node, and does one of two things. -/
theorem reconcileCertificateRun_spec {cjob : CertificateJob} {graph : GraphMaps} (accepted : Accepted cjob graph)
    (unique : (nodeNames state.nodes).Nodup) :
    ∃ out, reconcileCertificateRun c ambient cjob certificate state graph s = some out ∧
      ((∃ processed, ReadFailed c ambient cjob certificate state s out processed) ∨
        ∃ active failed started, Completed c ambient cjob certificate state graph s out active failed started) := by
  have observes : ∃ processed, Observes (c.getJob s certificate.ns) (ambient.clock (.certificateRun certificate.name))
      (ensureWorkflowNodeStates cjob state.nodes)
      (observeWorkflowNodeJobs (c.getJob s certificate.ns) (ambient.clock (.certificateRun certificate.name))
        (ensureWorkflowNodeStates cjob state.nodes)) processed :=
    observeWorkflowNodeJobs_spec _ (ensure_unique accepted.names unique)
  simp only [reconcileCertificateRun]
  generalize observeWorkflowNodeJobs _ _ _ = observation at *
  obtain ⟨processed, seen⟩ := observes
  split
  · exact ⟨_, rfl, .inl ⟨processed, by simp, rfl, rfl, by rw [seen.result]; rfl, seen.reads, seen.record⟩⟩
  · rename_i ok
    have nodes : observation.nodes = observedNodes c ambient cjob certificate state s := seen.all ok
    rw [nodes]
    generalize visited : ambient.orders.failed.visit observation.failedNodes = failed
    have failures : ∀ name, name ∈ failed ↔ name ∈ observation.failedNodes := by
      intro name
      rw [← visited, MapOrder.mem_visit]
    have covered := nodeNames_observedNodes c ambient cjob certificate state s
    have policy : applyFailurePolicy ambient.orders.seen cjob.spec.failurePolicy
        (observedNodes c ambient cjob certificate state s) graph.reverse failed
        (fun node => ambient.clock (.skipNode certificate.name node)) =
          some (remainingNodes c ambient cjob certificate state graph s failed) :=
      applyFailurePolicy_eq accepted _ _ _ _ (by rw [covered]; exact ensure_unique accepted.names unique)
        (by rw [covered]; exact ensure_covers cjob state.nodes)
    have names := nodeNames_remainingNodes c ambient cjob certificate state graph s failed
    obtain ⟨scheduling, listed, started, filled, distinct, runnable, whole, schedules⟩ :=
      fillSlots_spec c certificate s accepted ambient.orders.nodes state.runID
        (ambient.clock (.certificateRun certificate.name)) (requestedParallelism cjob - observation.activeCount)
        (by rw [names]; exact ensure_unique accepted.names unique) (by rw [names]; exact ensure_covers cjob state.nodes)
    refine ⟨_, ?_, .inr ⟨_, _, _, concludeRun_completed c ambient cjob certificate graph s ⟨processed, seen⟩ ok failures
      distinct runnable whole schedules⟩⟩
    simp only [policy, filled, Option.bind_eq_bind, Option.bind_some, Option.pure_def]

variable {c ambient certificate state s} in
theorem reconcileCertificateRun_cases {cjob : CertificateJob} {graph : GraphMaps} {out : RunOutcome σ}
    (accepted : Accepted cjob graph) (unique : (nodeNames state.nodes).Nodup)
    (result : reconcileCertificateRun c ambient cjob certificate state graph s = some out) :
    (∃ processed, ReadFailed c ambient cjob certificate state s out processed) ∨
      ∃ active failed started, Completed c ambient cjob certificate state graph s out active failed started := by
  obtain ⟨out', result', cases⟩ := reconcileCertificateRun_spec c ambient certificate state s accepted unique
  obtain rfl := Option.some.inj (result'.symm.trans result)
  exact cases

end

end CertificateJobs
