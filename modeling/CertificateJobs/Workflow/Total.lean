import CertificateJobs.Workflow.Pass

namespace CertificateJobs

section
variable {nodes : List WorkflowNodeState}

theorem updateNode_total {name : String} (member : name ∈ nodeNames nodes)
    {write : WorkflowNodeState → WorkflowNodeState} (keeps : ∀ node, (write node).name = node.name) :
    ∃ after, updateNode nodes name write = some after ∧ nodeNames after = nodeNames nodes := by
  obtain ⟨i, -, index, -, -⟩ := IndexBy.lookup_of_mem member
  refine ⟨nodes.modify i write, by simp [updateNode, nodeStateMap, index], ?_⟩
  apply List.ext_getElem?
  intro j
  simp only [nodeNames, List.getElem?_map, List.getElem?_modify]
  cases nodes[j]? with
  | none => rfl
  | some node =>
    by_cases here : i = j
    · simp [here, keeps]
    · simp [here]

theorem updateNode_names {shown after : List WorkflowNodeState} {name : String}
    {write : WorkflowNodeState → WorkflowNodeState}
    (updated : updateNode shown name write = some after)
    (keeps : ∀ node, (write node).name = node.name) : nodeNames after = nodeNames shown := by
  obtain ⟨i, index, -⟩ := Option.map_eq_some_iff.mp updated
  have member : name ∈ nodeNames shown := mem_nodeStateMap.mp (AList.lookup_isSome.mp (by rw [index]; rfl))
  obtain ⟨other, again, names⟩ := updateNode_total member keeps
  obtain rfl := Option.some.inj (updated.symm.trans again)
  exact names

theorem canRun_total (policy : FailurePolicy) (list : List String) (known : ∀ d ∈ list, d ∈ nodeNames nodes) :
    ∃ answer, canRun policy nodes list = some answer := by
  induction list with
  | nil => exact ⟨true, rfl⟩
  | cons dep rest ih =>
    obtain ⟨node, found, -, -⟩ := derefNode_of_mem (known dep List.mem_cons_self)
    simp only [canRun, found, Option.bind_eq_bind, Option.bind_some]
    split
    · exact ih fun d inside => known d (List.mem_cons_of_mem _ inside)
    · exact ⟨false, rfl⟩

theorem nodeRuns_total (policy : FailurePolicy) {deps : NodeLists}
    (closed : ∀ n, ∀ d ∈ deps.get n, d ∈ nodeNames nodes) (node : WorkflowNodeState) :
    ∃ runs, nodeRuns policy nodes deps node = some runs := by
  unfold nodeRuns
  split
  · exact ⟨false, rfl⟩
  · exact canRun_total policy _ (closed node.name)

theorem runnableAmong_total (policy : FailurePolicy) {deps : NodeLists}
    (closed : ∀ n, ∀ d ∈ deps.get n, d ∈ nodeNames nodes) (names : List String)
    (known : ∀ name ∈ names, name ∈ nodeNames nodes) :
    ∃ runnable, runnableAmong policy nodes deps names = some runnable ∧ ∀ name ∈ runnable, name ∈ names := by
  induction names with
  | nil => exact ⟨[], rfl, by simp⟩
  | cons name rest ih =>
    obtain ⟨others, result, inside⟩ := ih fun n member => known n (List.mem_cons_of_mem _ member)
    obtain ⟨node, found, -, -⟩ := derefNode_of_mem (known name List.mem_cons_self)
    obtain ⟨runs, computed⟩ := nodeRuns_total policy closed node
    refine ⟨if runs then name :: others else others, ?_, ?_⟩
    · simp only [runnableAmong, found, Option.bind_eq_bind, Option.bind_some, computed, result, Option.pure_def]
    · intro n member
      split at member
      · rcases List.mem_cons.mp member with rfl | later
        · exact List.mem_cons_self
        · exact List.mem_cons_of_mem _ (inside n later)
      · exact List.mem_cons_of_mem _ (inside n member)

theorem runnableNodes_total (order : MapOrder) (policy : FailurePolicy) {deps : NodeLists}
    (closed : ∀ n, ∀ d ∈ deps.get n, d ∈ nodeNames nodes) :
    ∃ runnable, runnableNodes order policy nodes deps = some runnable ∧
      ∀ name ∈ runnable, name ∈ nodeNames nodes := by
  have visited : ∀ name ∈ order.visit (nodeStateMap nodes).keys, name ∈ nodeNames nodes := by
    intro name inside
    rwa [MapOrder.mem_visit, ← AList.mem_keys, mem_nodeStateMap] at inside
  obtain ⟨runnable, result, inside⟩ := runnableAmong_total policy closed _ visited
  exact ⟨runnable, result, fun name member => visited name (inside name member)⟩

theorem foldlM_total {β : Type} (step : List WorkflowNodeState → β → Option (List WorkflowNodeState)) (items : List β)
    (names : List String)
    (round : ∀ current, nodeNames current = names → ∀ item ∈ items,
      ∃ after, step current item = some after ∧ nodeNames after = names)
    (nodes : List WorkflowNodeState) (same : nodeNames nodes = names) :
    ∃ after, items.foldlM step nodes = some after ∧ nodeNames after = names := by
  induction items generalizing nodes with
  | nil => exact ⟨nodes, rfl, same⟩
  | cons item items ih =>
    obtain ⟨next, stepped, kept⟩ := round nodes same item List.mem_cons_self
    rw [List.foldlM_cons, stepped, Option.bind_eq_bind, Option.bind_some]
    exact ih (fun current names other inside => round current names other (List.mem_cons_of_mem _ inside)) next kept

theorem skipDescendant_total (t : String → Time) {name : String} (member : name ∈ nodeNames nodes) :
    ∃ after, skipDescendant t nodes name = some after ∧ nodeNames after = nodeNames nodes := by
  obtain ⟨node, found, -, -⟩ := derefNode_of_mem member
  simp only [skipDescendant, found, Option.bind_eq_bind, Option.bind_some]
  split
  · exact updateNode_total member fun _ => rfl
  · exact ⟨nodes, rfl, rfl⟩

theorem skipAt_total (t : String → Time) (i : Nat) :
    ∃ after, skipAt t nodes i = some after ∧ nodeNames after = nodeNames nodes := by
  unfold skipAt
  split
  · exact ⟨nodes, rfl, rfl⟩
  · rename_i node present
    split
    · exact updateNode_total (List.mem_map_of_mem (List.mem_of_getElem? present)) fun _ => rfl
    · exact ⟨nodes, rfl, rfl⟩

theorem applyFailurePolicy_total {cjob : CertificateJob} {maps : GraphMaps} (accepted : Accepted cjob maps)
    (order : MapOrder) (policy : FailurePolicy) (failed : List String) (t : String → Time)
    (covers : ∀ name ∈ jobNames cjob, name ∈ nodeNames nodes) :
    ∃ after, applyFailurePolicy order policy nodes maps.reverse failed t = some after ∧
      nodeNames after = nodeNames nodes := by
  have stops := foldlM_total (skipAt t) (List.range nodes.length) (nodeNames nodes)
    (fun current same i _ => same ▸ skipAt_total t i) nodes rfl
  unfold applyFailurePolicy
  split
  · exact ⟨nodes, rfl, rfl⟩
  · cases policy with
    | bestEffort => exact ⟨nodes, rfl, rfl⟩
    | continueIndependent =>
      refine foldlM_total (skipDescendant t) _ (nodeNames nodes) ?_ nodes rfl
      intro current same name member
      obtain ⟨root, -, path⟩ := (descendantNodes_accepted accepted order failed).mp member
      obtain ⟨before, -, last⟩ := Relation.TransGen.tail'_iff.mp path
      rw [← same]
      exact skipDescendant_total t (same ▸ covers name (accepted.ends before name last).2)
    | stopDownstream => exact stops
    | other text => exact stops

theorem nodeNames_observe (getJob : String → Except ApiError Job) (now : Time) (nodes : List WorkflowNodeState) :
    nodeNames (observeWorkflowNodeJobs getJob now nodes).nodes = nodeNames nodes := by
  induction nodes with
  | nil => rfl
  | cons node rest ih =>
    unfold observeWorkflowNodeJobs
    split
    · exact congrArg (node.name :: ·) ih
    · split
      · rfl
      · rename_i seen _
        have pushed : ((observeWorkflowNodeJobs getJob now rest).push node now seen).nodes =
            writeSight now node seen :: (observeWorkflowNodeJobs getJob now rest).nodes := by
          unfold Observation.push
          split <;> rfl
        rw [pushed, nodeNames, List.map_cons, writeSight_name]
        exact congrArg (node.name :: ·) ih

end

section
variable {σ : Type} (c : Client σ) (cjob : CertificateJob) (certificate : Certificate)

theorem scheduleNodes_total (runID : String) (now : Time) (names : List String) (slots : Int)
    (nodes : List WorkflowNodeState) (s : σ) (known : ∀ name ∈ names, name ∈ nodeNames nodes) :
    ∃ out, scheduleNodes c cjob certificate runID now names slots nodes s = some out := by
  induction names generalizing slots nodes s with
  | nil => exact ⟨_, rfl⟩
  | cons name rest ih =>
    unfold scheduleNodes
    split
    · exact ⟨_, rfl⟩
    · split
      · exact ⟨_, rfl⟩
      · rename_i calls t _
        have renames : ∀ node,
            (markStarted (buildJobName cjob.name certificate.name name runID) now node).name = node.name := fun _ => rfl
        obtain ⟨next, updated, kept⟩ := updateNode_total (known name List.mem_cons_self) renames
        obtain ⟨after, later⟩ := ih (slots - 1) next t
          fun other inside => kept ▸ known other (List.mem_cons_of_mem _ inside)
        rw [updated, Option.bind_eq_bind, Option.bind_some, later]
        exact ⟨_, rfl⟩

theorem fillSlots_total {graph : GraphMaps} (accepted : Accepted cjob graph) (order : MapOrder) (runID : String)
    (slots : Int) (now : Time) {nodes : List WorkflowNodeState}
    (covers : ∀ name ∈ jobNames cjob, name ∈ nodeNames nodes) (s : σ) :
    ∃ out, fillSlots c order cjob certificate runID nodes graph.deps slots now s = some out := by
  unfold fillSlots
  split
  · obtain ⟨runnable, listed, known⟩ := runnableNodes_total order cjob.spec.failurePolicy
      fun n d dep => dependencies_known accepted covers dep
    rw [scheduleRunnableNodes, listed, Option.bind_eq_bind, Option.bind_some]
    exact scheduleNodes_total c cjob certificate runID now _ slots nodes s
      fun name inside => known name ((List.mem_insertionSort _).mp inside)
  · exact ⟨_, rfl⟩

/-- A pass over an accepted spec finds every node it looks for, whatever nodes the entry holds. -/
theorem reconcileCertificateRun_total {graph : GraphMaps} (accepted : Accepted cjob graph) (ambient : Ambient)
    (state : CertificateExecutionState) (s : σ) :
    ∃ out, reconcileCertificateRun c ambient cjob certificate state graph s = some out := by
  have covers := ensure_covers cjob state.nodes
  simp only [reconcileCertificateRun]
  split
  · exact ⟨_, rfl⟩
  · have names := nodeNames_observe (c.getJob s certificate.ns) (ambient.clock (.certificateRun certificate.name))
      (ensureWorkflowNodeStates cjob state.nodes)
    rw [← names] at covers
    obtain ⟨remaining, skipped, kept⟩ := applyFailurePolicy_total accepted ambient.orders.seen cjob.spec.failurePolicy
      (ambient.orders.failed.visit (observeWorkflowNodeJobs (c.getJob s certificate.ns)
        (ambient.clock (.certificateRun certificate.name)) (ensureWorkflowNodeStates cjob state.nodes)).failedNodes)
      (fun node => ambient.clock (.skipNode certificate.name node)) covers
    rw [skipped, Option.bind_eq_bind, Option.bind_some]
    rw [← kept] at covers
    obtain ⟨scheduling, filled⟩ := fillSlots_total c cjob certificate accepted ambient.orders.nodes state.runID
      (requestedParallelism cjob - (observeWorkflowNodeJobs (c.getJob s certificate.ns)
        (ambient.clock (.certificateRun certificate.name)) (ensureWorkflowNodeStates cjob state.nodes)).activeCount)
      (ambient.clock (.certificateRun certificate.name)) covers s
    rw [filled]
    exact ⟨_, rfl⟩

end

end CertificateJobs
