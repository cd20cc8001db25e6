import CertificateJobs.Runs.Failures

namespace CertificateJobs

open Relation

def Sight.isFinal : Sight → Bool
  | .missing | .complete | .failed => true
  | .active | .idle => false

theorem writeSight_final {now : Time} {node : WorkflowNodeState} {seen : Sight} (final : seen.isFinal = true) :
    (writeSight now node seen).Settled := by
  cases seen with
  | missing => exact .inr rfl
  | complete => exact .inl rfl
  | failed => exact .inr rfl
  | active => cases final
  | idle => cases final

theorem writeSight_settled {now : Time} {node : WorkflowNodeState} {seen : Sight}
    (settled : (writeSight now node seen).Settled) : seen.isFinal = true ∨ (seen = .idle ∧ node.Settled) := by
  rcases writeSight_cases now node seen with ⟨failure, -⟩ | ⟨rfl, -⟩ | ⟨-, phase⟩ | ⟨idle, -, same⟩
  · exact .inl (by cases seen <;> simp_all [Sight.isFailure, Sight.isFinal])
  · exact .inl rfl
  · rcases settled with succeeded | failed
    · simp [phase] at succeeded
    · simp [phase] at failed
  · exact .inr ⟨idle, same ▸ settled⟩

/-- A Job once seen Complete or Failed keeps that condition until it is deleted, and a missing Job stays away. -/
def Lawful (getJob : String → Except ApiError Job) (log : List Sighting) : Prop :=
  ∀ line ∈ log, ∀ seen, sight (getJob line.jobName) = .ok seen →
    (line.seen = .complete → seen = .complete ∨ seen = .missing) ∧
    (line.seen = .failed → seen = .failed ∨ seen = .complete ∨ seen = .missing) ∧
    (line.seen = .missing → seen = .missing)

theorem Lawful.final {getJob : String → Except ApiError Job} {log : List Sighting} (lawful : Lawful getJob log)
    {line : Sighting} (logged : line ∈ log) (final : line.seen.isFinal = true) {seen : Sight}
    (read : sight (getJob line.jobName) = .ok seen) : seen.isFinal = true := by
  obtain ⟨complete, failed, missing⟩ := lawful line logged seen read
  cases kind : line.seen with
  | complete =>
    rcases complete kind with rfl | rfl
    · rfl
    · rfl
  | failed =>
    rcases failed kind with rfl | rfl | rfl
    · rfl
    · rfl
    · rfl
  | missing =>
    rw [missing kind]
    rfl
  | active => simp [kind, Sight.isFinal] at final
  | idle => simp [kind, Sight.isFinal] at final

/-- What orders a run: a settled node was seen settled, a started node has its ancestors settled, and a skipped node
    has no pending node after it. -/
structure Ordered (cjob : CertificateJob) (log : List Sighting) (nodes : List WorkflowNodeState) : Prop where
  logged : ∀ node ∈ nodes, node.Settled → ∃ line ∈ log, line.jobName = node.jobName ∧ line.seen.isFinal = true
  ancestors : ∀ node ∈ nodes, node.jobName ≠ "" → ∀ dep ∈ nodes, TransGen (Edge cjob) dep.name node.name → dep.Settled
  skipped : ∀ node ∈ nodes, node.phase = .skipped → cjob.spec.failurePolicy ≠ .bestEffort ∧
    ∀ other ∈ nodes, other.phase = .pending →
      cjob.spec.failurePolicy = .continueIndependent ∧ ¬ TransGen (Edge cjob) node.name other.name

section
variable {σ : Type} {c : Client σ} {ambient : Ambient} {cjob : CertificateJob} {certificate : Certificate}
  {state : CertificateExecutionState} {graph : GraphMaps} {s : σ} {out : RunOutcome σ} {active : Nat}
  {failed started : List String} {log : List Sighting}

theorem Ordered.seen_final {nodes : List WorkflowNodeState} (ordered : Ordered cjob log nodes)
    (lawful : Lawful (c.getJob s certificate.ns) log) {node : WorkflowNodeState} (member : node ∈ nodes)
    (settled : node.Settled) {seen : Sight} (read : Seen (c.getJob s certificate.ns) node seen) :
    seen.isFinal = true := by
  obtain ⟨line, logged, same, final⟩ := ordered.logged node member settled
  exact lawful.final logged final (by rw [same]; exact read.2)

theorem Ordered.moves_settled {nodes : List WorkflowNodeState} (ordered : Ordered cjob log nodes)
    (lawful : Lawful (c.getJob s certificate.ns) log) {node after : WorkflowNodeState} (member : node ∈ nodes)
    (settled : node.Settled) (moves : Moves c ambient cjob certificate state graph s failed started node after) :
    after.Settled := by
  cases moves with
  | seen seen read => exact writeSight_final (ordered.seen_final lawful member settled read)
  | given _ pending => simp [WorkflowNodeState.Settled, pending] at settled
  | start _ pending => simp [WorkflowNodeState.Settled, pending] at settled
  | stay => exact settled

theorem Completed.dependency_settled
    (done : Completed c ambient cjob certificate state graph s out active failed started)
    (accepted : Accepted cjob graph) (unique : (nodeNames (ensureWorkflowNodeStates cjob state.nodes)).Nodup)
    (ordered : Ordered cjob log (ensureWorkflowNodeStates cjob state.nodes)) {node dep : WorkflowNodeState}
    (member : node ∈ ensureWorkflowNodeStates cjob state.nodes)
    (present : dep ∈ ensureWorkflowNodeStates cjob state.nodes)
    (runnable : RunnableNow c ambient cjob certificate state graph s failed node.name)
    (edge : Edge cjob dep.name node.name) : (observedNow c ambient certificate s dep).Settled := by
  obtain ⟨-, pending, kept⟩ := done.runnable_before unique member runnable
  have satisfied := runnable.2 (skipNow c ambient cjob certificate state graph s failed
      (observedNow c ambient certificate s dep)) (by
    rw [remainingNodes_eq]
    exact List.mem_map_of_mem present) (by
    rw [skipNow_name, observedNow, observed_name]
    exact (accepted.deps _ _).mpr edge)
  -- The node waits, so its dependency was neither skipped earlier nor given up in this pass.
  have unskipped : dep.phase ≠ .skipped := by
    intro skipped
    obtain ⟨-, blocks⟩ := ordered.skipped dep present skipped
    exact (blocks node member pending).2 (.single edge)
  have notGiven : dep.name ∉ givenUp c ambient cjob certificate state graph s failed := by
    intro up
    apply kept
    rw [mem_givenUp accepted (List.mem_map_of_mem present)] at up
    rw [mem_givenUp accepted (List.mem_map_of_mem member)]
    exact up.along (.single edge)
  have unchanged : skipNow c ambient cjob certificate state graph s failed (observedNow c ambient certificate s dep) =
      observedNow c ambient certificate s dep := by
    rw [skipNow, if_neg]
    rintro ⟨-, up⟩
    rw [observedNow, observed_name] at up
    exact notGiven up
  rw [unchanged] at satisfied
  cases phase : (observedNow c ambient certificate s dep).phase with
  | succeeded => exact .inl phase
  | failed => exact .inr phase
  | pending => simp [phase, dependencySatisfied] at satisfied
  | running => simp [phase, dependencySatisfied] at satisfied
  | other text => simp [phase, dependencySatisfied] at satisfied
  | skipped =>
    rcases observed_cases (c.getJob s certificate.ns) (ambient.clock (.certificateRun certificate.name)) dep with
      same | ⟨seen, -, written⟩
    · rw [observedNow, same] at phase
      exact absurd phase unskipped
    · rw [observedNow, written] at phase
      exact absurd (writeSight_skipped phase) unskipped

theorem Completed.ancestor_settled
    (done : Completed c ambient cjob certificate state graph s out active failed started)
    (accepted : Accepted cjob graph) (unique : (nodeNames (ensureWorkflowNodeStates cjob state.nodes)).Nodup)
    (shaped : ∀ node ∈ ensureWorkflowNodeStates cjob state.nodes, node.Shaped)
    (lawful : Lawful (c.getJob s certificate.ns) log)
    (ordered : Ordered cjob log (ensureWorkflowNodeStates cjob state.nodes)) {node dep : WorkflowNodeState}
    (member : node ∈ ensureWorkflowNodeStates cjob state.nodes)
    (present : dep ∈ ensureWorkflowNodeStates cjob state.nodes)
    (runnable : RunnableNow c ambient cjob certificate state graph s failed node.name)
    (path : TransGen (Edge cjob) dep.name node.name) :
    ∃ seen, Seen (c.getJob s certificate.ns) dep seen ∧
      (writeSight (ambient.clock (.certificateRun certificate.name)) dep seen).Settled := by
  -- The path ends in a direct dependency, which was started after its own ancestors.
  have observed_started : ∀ other ∈ ensureWorkflowNodeStates cjob state.nodes,
      (observedNow c ambient certificate s other).Settled →
      ∃ seen, Seen (c.getJob s certificate.ns) other seen ∧
        (writeSight (ambient.clock (.certificateRun certificate.name)) other seen).Settled := by
    intro other inside settled
    by_cases idle : other.jobName = ""
    · rw [observedNow, observed_idle idle] at settled
      exact absurd idle ((shaped other inside).started settled)
    · obtain ⟨seen, read⟩ := done.seen other inside idle
      rw [observedNow, observed_seen read] at settled
      exact ⟨seen, read, settled⟩
  obtain ⟨last, before, edge⟩ := TransGen.tail'_iff.mp path
  rcases reflTransGen_iff_eq_or_transGen.mp before with same | before
  · exact observed_started dep present (done.dependency_settled accepted unique ordered member present runnable (same ▸ edge))
  · obtain ⟨between, inside, rfl⟩ := node_of_name (ensure_covers cjob state.nodes last (accepted.ends _ _ edge).1)
    obtain ⟨_, readBetween, -⟩ := observed_started between inside
      (done.dependency_settled accepted unique ordered member inside runnable edge)
    have settled := ordered.ancestors between inside readBetween.1 dep present before
    obtain ⟨seen, read⟩ := done.seen dep present ((shaped dep present).started settled)
    exact ⟨seen, read, writeSight_final (ordered.seen_final lawful present settled read)⟩

theorem ReadFailed.ordered {processed : List String}
    (stopped : ReadFailed c ambient cjob certificate state s out processed)
    (lawful : Lawful (c.getJob s certificate.ns) log)
    (ordered : Ordered cjob log (ensureWorkflowNodeStates cjob state.nodes)) :
    Ordered cjob (log ++ out.sightings) out.state.nodes := by
  refine ⟨?_, ?_, ?_⟩
  · intro after inside settled
    obtain ⟨node, member, rfl | ⟨seen, read, line, rfl⟩⟩ := stopped.origin inside
    · obtain ⟨line, logged, facts⟩ := ordered.logged after member settled
      exact ⟨line, List.mem_append_left _ logged, facts⟩
    · rcases writeSight_settled settled with final | ⟨-, before⟩
      · exact ⟨_, List.mem_append_right _ line, (writeSight_jobName _ _).symm, final⟩
      · exact ⟨_, List.mem_append_right _ line, (writeSight_jobName _ _).symm,
          ordered.seen_final lawful member before read⟩
  · intro after inside has dep present path
    obtain ⟨node, member, origin⟩ := stopped.origin inside
    obtain ⟨source, recorded, depOrigin⟩ := stopped.origin present
    have names : after.name = node.name ∧ after.jobName = node.jobName := by
      rcases origin with rfl | ⟨seen, -, -, rfl⟩
      · exact ⟨rfl, rfl⟩
      · exact ⟨writeSight_name _ _, writeSight_jobName _ _⟩
    have depName : dep.name = source.name := by
      rcases depOrigin with rfl | ⟨seen, -, -, rfl⟩
      · rfl
      · exact writeSight_name _ _
    have settled := ordered.ancestors node member (names.2 ▸ has) source recorded (depName ▸ names.1 ▸ path)
    rcases depOrigin with rfl | ⟨seen, read, -, rfl⟩
    · exact settled
    · exact writeSight_final (ordered.seen_final lawful recorded settled read)
  · intro after inside skipped
    obtain ⟨node, member, origin⟩ := stopped.origin inside
    have before : node.phase = .skipped ∧ after.name = node.name := by
      rcases origin with rfl | ⟨seen, -, -, rfl⟩
      · exact ⟨skipped, rfl⟩
      · exact ⟨writeSight_skipped skipped, writeSight_name _ _⟩
    obtain ⟨policy, blocks⟩ := ordered.skipped node member before.1
    refine ⟨policy, fun other present pending => ?_⟩
    obtain ⟨source, recorded, rfl | ⟨seen, -, -, rfl⟩⟩ := stopped.origin present
    · rw [before.2]
      exact blocks other recorded pending
    · exact absurd pending writeSight_not_pending

theorem Completed.logged (done : Completed c ambient cjob certificate state graph s out active failed started)
    (unique : (nodeNames (ensureWorkflowNodeStates cjob state.nodes)).Nodup)
    (lawful : Lawful (c.getJob s certificate.ns) log)
    (ordered : Ordered cjob log (ensureWorkflowNodeStates cjob state.nodes)) {after : WorkflowNodeState}
    (inside : after ∈ out.state.nodes) (settled : after.Settled) :
    ∃ line ∈ log ++ out.sightings, line.jobName = after.jobName ∧ line.seen.isFinal = true := by
  obtain ⟨node, member, moves⟩ := done.origin unique inside
  cases moves with
  | seen seen read =>
    obtain ⟨seen', read', line⟩ := done.reads node member read.1
    obtain rfl : seen' = seen := Except.ok.inj (read'.2.symm.trans read.2)
    refine ⟨_, List.mem_append_right _ line, (writeSight_jobName _ _).symm, ?_⟩
    rcases writeSight_settled settled with final | ⟨-, before⟩
    · exact final
    · exact ordered.seen_final lawful member before read
  | given => simp [WorkflowNodeState.Settled, markSkipped] at settled
  | start => simp [WorkflowNodeState.Settled, markStarted] at settled
  | stay =>
    obtain ⟨line, logged, facts⟩ := ordered.logged _ member settled
    exact ⟨line, List.mem_append_left _ logged, facts⟩

theorem Completed.ancestors (done : Completed c ambient cjob certificate state graph s out active failed started)
    (accepted : Accepted cjob graph) (unique : (nodeNames (ensureWorkflowNodeStates cjob state.nodes)).Nodup)
    (shaped : ∀ node ∈ ensureWorkflowNodeStates cjob state.nodes, node.Shaped)
    (lawful : Lawful (c.getJob s certificate.ns) log)
    (ordered : Ordered cjob log (ensureWorkflowNodeStates cjob state.nodes)) {after dep : WorkflowNodeState}
    (inside : after ∈ out.state.nodes) (has : after.jobName ≠ "") (present : dep ∈ out.state.nodes)
    (path : TransGen (Edge cjob) dep.name after.name) : dep.Settled := by
  obtain ⟨node, member, moves⟩ := done.origin unique inside
  obtain ⟨source, recorded, depMoves⟩ := done.origin unique present
  rw [moves.name, depMoves.name] at path
  cases moves with
  | seen seen read =>
    exact ordered.moves_settled lawful recorded (ordered.ancestors node member read.1 source recorded path) depMoves
  | given idle => exact absurd idle has
  | start _ _ _ _ runnable =>
    obtain ⟨seen, read, settled⟩ :=
      done.ancestor_settled accepted unique shaped lawful ordered member recorded runnable path
    cases depMoves with
    | seen seen' read' =>
      obtain rfl : seen' = seen := Except.ok.inj (read'.2.symm.trans read.2)
      exact settled
    | given idle => exact absurd idle read.1
    | start idle => exact absurd idle read.1
    | stay idle => exact absurd idle read.1
  | stay idle => exact absurd idle has

theorem Completed.skipped (done : Completed c ambient cjob certificate state graph s out active failed started)
    (accepted : Accepted cjob graph) (unique : (nodeNames (ensureWorkflowNodeStates cjob state.nodes)).Nodup)
    (ordered : Ordered cjob log (ensureWorkflowNodeStates cjob state.nodes)) {after : WorkflowNodeState}
    (inside : after ∈ out.state.nodes) (skipped : after.phase = .skipped) :
    cjob.spec.failurePolicy ≠ .bestEffort ∧ ∀ other ∈ out.state.nodes, other.phase = .pending →
      cjob.spec.failurePolicy = .continueIndependent ∧ ¬ TransGen (Edge cjob) after.name other.name := by
  obtain ⟨node, member, moves⟩ := done.origin unique inside
  have pendingBefore : ∀ other ∈ out.state.nodes, other.phase = .pending →
      other ∈ ensureWorkflowNodeStates cjob state.nodes ∧
      other.name ∉ givenUp c ambient cjob certificate state graph s failed := by
    intro other present pending
    obtain ⟨source, recorded, moves⟩ := done.origin unique present
    obtain ⟨rfl, -, kept, -⟩ := moves.pending pending
    exact ⟨recorded, kept⟩
  have old : node.phase = .skipped → cjob.spec.failurePolicy ≠ .bestEffort ∧
      ∀ other ∈ out.state.nodes, other.phase = .pending →
        cjob.spec.failurePolicy = .continueIndependent ∧ ¬ TransGen (Edge cjob) node.name other.name := by
    intro before
    obtain ⟨policy, blocks⟩ := ordered.skipped node member before
    exact ⟨policy, fun other present pending => blocks other (pendingBefore other present pending).1 pending⟩
  rw [moves.name]
  cases moves with
  | seen seen read => exact old (writeSight_skipped skipped)
  | start => cases skipped
  | stay => exact old skipped
  | given _ _ up =>
    rw [mem_givenUp accepted (List.mem_map_of_mem member)] at up
    refine ⟨?_, ?_⟩
    · intro policy
      simp [GivesUp, policy] at up
    · intro other present pending
      obtain ⟨recorded, kept⟩ := pendingBefore other present pending
      rw [mem_givenUp accepted (List.mem_map_of_mem recorded)] at kept
      exact ⟨up.policy kept, fun path => kept (up.along path)⟩

theorem Completed.ordered
    (done : Completed c ambient cjob certificate state graph s out active failed started)
    (accepted : Accepted cjob graph) (unique : (nodeNames (ensureWorkflowNodeStates cjob state.nodes)).Nodup)
    (shaped : ∀ node ∈ ensureWorkflowNodeStates cjob state.nodes, node.Shaped)
    (lawful : Lawful (c.getJob s certificate.ns) log)
    (ordered : Ordered cjob log (ensureWorkflowNodeStates cjob state.nodes)) :
    Ordered cjob (log ++ out.sightings) out.state.nodes where
  logged _ inside settled := done.logged unique lawful ordered inside settled
  ancestors _ inside has _ present path := done.ancestors accepted unique shaped lawful ordered inside has present path
  skipped _ inside skipped := done.skipped accepted unique ordered inside skipped

theorem Completed.call_dependencies
    (done : Completed c ambient cjob certificate state graph s out active failed started)
    (accepted : Accepted cjob graph) (unique : (nodeNames (ensureWorkflowNodeStates cjob state.nodes)).Nodup)
    (shaped : ∀ node ∈ ensureWorkflowNodeStates cjob state.nodes, node.Shaped)
    (lawful : Lawful (c.getJob s certificate.ns) log)
    (ordered : Ordered cjob log (ensureWorkflowNodeStates cjob state.nodes)) {call : CreateCall}
    (made : call ∈ out.calls) {dep : String} (path : TransGen (Edge cjob) dep call.node) :
    ∃ node ∈ call.nodes, node.name = dep ∧
      (node.phase = .succeeded ∨ (cjob.spec.failurePolicy = .bestEffort ∧ node.phase = .failed)) := by
  have runnable := (done.calls call made).1
  obtain ⟨before, -, forward⟩ := done.callOrigin unique made
  obtain ⟨first, edge, -⟩ := TransGen.head'_iff.mp path
  obtain ⟨last, -, final⟩ := TransGen.tail'_iff.mp path
  obtain ⟨source, recorded, rfl⟩ := node_of_name (ensure_covers cjob state.nodes dep (accepted.ends _ _ edge).1)
  obtain ⟨node, member, named⟩ := node_of_name (ensure_covers cjob state.nodes call.node (accepted.ends _ _ final).2)
  rw [← named] at runnable path
  obtain ⟨seen, read, settled⟩ :=
    done.ancestor_settled accepted unique shaped lawful ordered member recorded runnable path
  obtain ⟨after, inside, moves⟩ := forward source recorded
  refine ⟨after, inside, moves.name, ?_⟩
  cases moves with
  | given idle => exact absurd idle read.1
  | start idle => exact absurd idle read.1
  | stay idle => exact absurd idle read.1
  | seen seen' read' =>
    obtain rfl : seen' = seen := Except.ok.inj (read'.2.symm.trans read.2)
    rcases settled with succeeded | fails
    · exact .inl succeeded
    · refine .inr ⟨?_, fails⟩
      -- Under the other policies a failed ancestor would have made the pass give the node up.
      have kept := (done.runnable_before unique member runnable).2.2
      rw [mem_givenUp accepted (List.mem_map_of_mem member)] at kept
      rcases writeSight_failed fails with failure | ⟨rfl, before⟩
      · have listed : source.name ∈ failed := (done.failures _).mpr ⟨source, recorded, rfl, seen', read, failure⟩
        by_contra policy
        exact kept (givesUp_after policy listed path)
      · exact absurd (ordered.seen_final lawful recorded (.inr before) read) (by simp [Sight.isFinal])

end

section
variable {σ : Type} {c : Client σ} {ext : External} {h : EntryHistory σ}

def JobsLawful (c : Client σ) : PassCondition σ := fun _ log _ pass => Lawful (c.getJob pass.client pass.cert.ns) log

theorem Ordered.congr {left right : CertificateJob} (same : left.spec = right.spec) {log : List Sighting}
    {nodes : List WorkflowNodeState} (ordered : Ordered left log nodes) : Ordered right log nodes := by
  refine ⟨ordered.logged, ?_, ?_⟩
  · rw [← edge_congr same]
    exact ordered.ancestors
  · rw [← edge_congr same, ← same]
    exact ordered.skipped

theorem ordered_initial (pass : EntryPass σ) : Ordered pass.cjob [] (initializeNodeStates pass.cjob) := by
  refine ⟨?_, ?_, ?_⟩
  · intro node member settled
    obtain ⟨name, -, rfl⟩ := mem_initial member
    simp [WorkflowNodeState.Settled, pendingNode] at settled
  · intro node member has
    obtain ⟨name, -, rfl⟩ := mem_initial member
    exact absurd rfl has
  · intro node member skipped
    obtain ⟨name, -, rfl⟩ := mem_initial member
    cases skipped

def InOrder : RunProperty σ := fun trigger log nodes =>
  NodesMatchSpec trigger log nodes ∧ Ordered trigger.cjob log nodes

theorem Midway.inOrder {pass trigger : EntryPass σ} {out : EntryOutcome σ} {log : List Sighting}
    {base : CertificateExecutionState} {graph : GraphMaps} {run : RunOutcome σ}
    (mid : Midway c ext h pass out trigger log base graph run) (before : InOrder trigger log base.nodes)
    (demanded : SpecHeldAnd (JobsLawful c) trigger log base.nodes pass) :
    InOrder trigger (log ++ run.sightings) run.state.nodes := by
  obtain ⟨matched, ordered⟩ := before
  obtain ⟨held, lawful⟩ := demanded
  refine ⟨mid.nodesMatchSpec matched (jobNames_congr held), Ordered.congr held ?_⟩
  have unique := mid.unique
  have shaped := mid.shaped
  have ordered := ordered.congr held.symm
  rw [← matched.ensure (jobNames_congr held)] at unique shaped ordered
  rcases mid.spec with ⟨processed, stopped⟩ | ⟨active, failed, started, done⟩
  · exact stopped.ordered lawful ordered
  · exact done.ordered mid.accepted unique shaped lawful ordered

theorem reached_inOrder
    (reached : (entryMachine c ext).Reached (EntryHistory.Allows c ext (SpecHeldAnd (JobsLawful c))) h) :
    h.Satisfies InOrder :=
  reached_satisfies (fun pass _ _ => ⟨nodesMatchSpec_initial pass, ordered_initial pass⟩)
    (fun _ => ⟨rfl, fun _ inside => by cases inside⟩) (fun mid => mid.inOrder) reached

end

/-- Whenever the controller creates the Job of a node, everything the node depends on has succeeded; under BestEffort
    it has succeeded or failed. -/
theorem created_after_dependencies {σ : Type} (c : Client σ) (ext : External) (h : EntryHistory σ) (pass : EntryPass σ)
    (out : EntryOutcome σ)
    (reached : (entryMachine c ext).Reached (EntryHistory.Allows c ext (SpecHeldAnd (JobsLawful c))) h)
    (allowed : h.Allows c ext (SpecHeldAnd (JobsLawful c)) pass) (performed : pass.perform c ext h.entry = some out) :
    ∀ call ∈ out.calls, ∀ dep, TransGen (Edge pass.cjob) dep call.node → ∃ node ∈ call.nodes, node.name = dep ∧
      (node.phase = .succeeded ∨ (pass.cjob.spec.failurePolicy = .bestEffort ∧ node.phase = .failed)) := by
  intro call made dep path
  rcases (reached_sound reached).midway performed with ⟨quiet, -⟩ | ⟨trigger, log, base, graph, run, mid⟩
  · rw [quiet.calls] at made
    cases made
  · rw [mid.concluded, concludeEntry_calls] at made
    obtain ⟨⟨matched, ordered⟩, held, lawful⟩ := mid.lift (reached_inOrder reached) allowed
      ⟨nodesMatchSpec_initial pass, ordered_initial pass⟩ ⟨rfl, fun _ inside => by cases inside⟩
    have unique := mid.unique
    have shaped := mid.shaped
    have ordered := ordered.congr held.symm
    rw [← matched.ensure (jobNames_congr held)] at unique shaped ordered
    rcases mid.spec with ⟨processed, stopped⟩ | ⟨active, failed, started, done⟩
    · rw [stopped.noCalls] at made
      cases made
    · exact done.call_dependencies mid.accepted unique shaped lawful ordered made path

def lawfulCheck (h : EntryHistory Cluster) (pass : EntryPass Cluster) : Bool :=
  specKept h pass && h.log.all fun line => line.seen.isFinal = false ∨
    (sight (clusterClient.getJob pass.client pass.cert.ns line.jobName)).toOption = some line.seen

theorem lawfulCheck_allows {h : EntryHistory Cluster} {pass : EntryPass Cluster} (check : lawfulCheck h pass = true) :
    h.Allows clusterClient plainExternal (SpecHeldAnd (JobsLawful clusterClient)) pass := by
  simp only [lawfulCheck, Bool.and_eq_true, List.all_eq_true, decide_eq_true_eq] at check
  obtain ⟨kept, lawful⟩ := check
  intro noStart going trigger started
  refine ⟨specKept_allows kept noStart going trigger started, ?_⟩
  intro line inside seen read
  have same := lawful line inside
  rw [read] at same
  rcases same with unfinished | same
  · cases kind : line.seen <;> simp_all [Sight.isFinal]
  · obtain rfl : seen = line.seen := Option.some.inj same
    exact ⟨.inl, .inl, id⟩

def lineSpec : CertificateJobSpec :=
  { flatSpec ["a", "b", "c"] 1 .stopDownstream with workflow := { edges := [⟨"a", "b"⟩, ⟨"b", "c"⟩] } }

/-- The last node of a line is created by a pass that finds the first Job complete for the second time. -/
theorem created_after_dependencies_in_line :
    ∃ (h : EntryHistory Cluster) (pass : EntryPass Cluster) (out : EntryOutcome Cluster) (call : CreateCall),
      (entryMachine clusterClient plainExternal).Reached
        (EntryHistory.Allows clusterClient plainExternal (SpecHeldAnd (JobsLawful clusterClient))) h ∧
      h.log.map (·.seen) = [.complete] ∧
      h.Allows clusterClient plainExternal (SpecHeldAnd (JobsLawful clusterClient)) pass ∧
      pass.perform clusterClient plainExternal h.entry = some out ∧ call ∈ out.calls ∧ call.node = "c" ∧
      TransGen (Edge pass.cjob) "a" call.node ∧
      ∃ node ∈ call.nodes, node.name = "a" ∧
        (node.phase = .succeeded ∨ (pass.cjob.spec.failurePolicy = .bestEffort ∧ node.phase = .failed)) := by
  have played : ((newEntry (sampleCluster lineSpec)).replay clusterClient plainExternal lawfulCheck
      (sampleCluster lineSpec) [Cluster.pass, fun s => (s.report "a" completeStatus).pass]).any (fun last =>
        let pass := (last.2.report "b" completeStatus).pass
        lawfulCheck last.1 pass ∧ last.1.log.map (·.seen) = [.complete] ∧
        pass.cjob.spec.workflow.edges = [⟨"a", "b"⟩, ⟨"b", "c"⟩] ∧
        (pass.perform clusterClient plainExternal last.1.entry).any fun out =>
          out.calls.any fun call => call.node = "c") = true := by
    decide +kernel
  obtain ⟨h, s, reached, checked⟩ := replay_new
    (EntryHistory.Allows clusterClient plainExternal (SpecHeldAnd (JobsLawful clusterClient))) played
    fun _ _ => lawfulCheck_allows
  simp only [decide_eq_true_eq] at checked
  obtain ⟨lawful, seen, edges, performs⟩ := checked
  obtain ⟨out, performed, creates⟩ := (Option.any_eq_true _ _).mp performs
  obtain ⟨call, made, named⟩ := List.any_eq_true.mp creates
  have first : Edge (s.report "b" completeStatus).pass.cjob "a" "b" := ⟨⟨"a", "b"⟩, by simp [edges], rfl, rfl⟩
  have second : Edge (s.report "b" completeStatus).pass.cjob "b" "c" := ⟨⟨"b", "c"⟩, by simp [edges], rfl, rfl⟩
  have path : TransGen (Edge (s.report "b" completeStatus).pass.cjob) "a" call.node := by
    rw [of_decide_eq_true named]
    exact .tail (.single first) second
  exact ⟨h, _, out, call, reached, seen, lawfulCheck_allows lawful, performed, made, of_decide_eq_true named, path,
    created_after_dependencies _ _ h _ out reached (lawfulCheck_allows lawful) performed call made "a" path⟩

end CertificateJobs
