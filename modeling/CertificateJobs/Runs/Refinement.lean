import CertificateJobs.Library.Dag
import CertificateJobs.Runs.Order
import CertificateJobs.Runs.Outcomes
import CertificateJobs.Runs.Stop

namespace CertificateJobs

open Relation

def ExecutionPhase.status : ExecutionPhase → Dag.Status
  | .pending | .other _ => .waiting
  | .running => .started
  | .succeeded => .succeeded
  | .failed => .failed
  | .skipped => .skipped

def FailurePolicy.reaction : FailurePolicy → Dag.Reaction
  | .bestEffort => .ignore
  | .continueIndependent => .prune
  | .stopDownstream | .other _ => .halt

def CertificateJob.plan (cjob : CertificateJob) (verdict : String → Bool) : Dag.Plan String where
  before := Edge cjob
  reaction := cjob.spec.failurePolicy.reaction
  verdict := verdict

def board (nodes : List WorkflowNodeState) (name : String) : Dag.Status :=
  ((nodes.find? fun node => node.name = name).map fun node => node.phase.status).getD .waiting

section
variable {cjob : CertificateJob} {verdict : String → Bool} {nodes : List WorkflowNodeState}

theorem plan_congr {left right : CertificateJob} (same : left.spec = right.spec) :
    left.plan verdict = right.plan verdict := by
  rw [CertificateJob.plan, CertificateJob.plan, edge_congr same, same]

theorem plan_givesUp (failed : String → Prop) (name : String) :
    (cjob.plan verdict).GivesUp failed name ↔ GivesUp cjob failed name := by
  unfold Dag.Plan.GivesUp GivesUp CertificateJob.plan FailurePolicy.reaction
  cases cjob.spec.failurePolicy <;> exact Iff.rfl

theorem board_of_mem (unique : (nodeNames nodes).Nodup) {node : WorkflowNodeState} (member : node ∈ nodes) :
    board nodes node.name = node.phase.status := by
  unfold board
  cases found : nodes.find? (fun other => other.name = node.name) with
  | none => simpa using List.find?_eq_none.mp found node member
  | some other =>
    have named : other.name = node.name := by simpa using List.find?_some found
    rw [node_eq_of_name unique (List.mem_of_find?_eq_some found) member named]
    rfl

theorem board_of_not_mem {name : String} (absent : name ∉ nodeNames nodes) : board nodes name = .waiting := by
  have missing : nodes.find? (fun node => node.name = name) = none := by
    rw [List.find?_eq_none]
    intro node inside
    simpa using fun same : node.name = name => absent (same ▸ List.mem_map_of_mem inside)
  rw [board, missing]
  rfl

end

/-- What the reads of a pass may show: Jobs end as the verdicts say and stay ended. -/
structure Judged (verdict : String → Bool) (getJob : String → Except ApiError Job) (log : List Sighting)
    (nodes : List WorkflowNodeState) : Prop where
  lawful : Lawful getJob log
  complete : ∀ node ∈ nodes, Seen getJob node .complete → verdict node.name = true
  failure : ∀ node ∈ nodes, ∀ seen, Seen getJob node seen → seen.isFailure = true → verdict node.name = false

section
variable {σ : Type} {c : Client σ} {ambient : Ambient} {cjob : CertificateJob} {certificate : Certificate}
  {state : CertificateExecutionState} {graph : GraphMaps} {s : σ} {out : RunOutcome σ} {active : Nat}
  {failed started : List String} {log : List Sighting} {verdict : String → Bool}
  {nodes nodes' : List WorkflowNodeState}

theorem status_decided (name : String) :
    (if verdict name then ExecutionPhase.succeeded else .failed).status = (cjob.plan verdict).result name := by
  rw [Dag.Plan.result, CertificateJob.plan]
  split <;> rfl

theorem Judged.change (judged : Judged verdict (c.getJob s certificate.ns) log nodes) (ordered : Ordered cjob log nodes)
    (sound : (cjob.plan verdict).Sound (board nodes)) (unique : (nodeNames nodes).Nodup)
    (unique' : (nodeNames nodes').Nodup) {node : WorkflowNodeState} (member : node ∈ nodes) (shaped : node.Shaped)
    {seen : Sight} (read : Seen (c.getJob s certificate.ns) node seen) {now : Time}
    (inside : writeSight now node seen ∈ nodes') :
    (cjob.plan verdict).Change (board nodes) (board nodes') node.name := by
  have before := board_of_mem unique member
  have after := board_of_mem unique' inside
  rw [writeSight_name] at after
  have decided : (writeSight now node seen).phase = (if verdict node.name then .succeeded else .failed) →
      (cjob.plan verdict).Change (board nodes) (board nodes') node.name := by
    intro phase
    have result : board nodes' node.name = (cjob.plan verdict).result node.name := by
      rw [after, phase, status_decided]
    rcases shaped with ⟨idle, -⟩ | ⟨-, running | succeeded | failed⟩
    · exact absurd idle read.1
    · exact .finishes (by rw [before, running]; rfl) result
    · exact .stays (result.trans (sound.judged _ (.inl (by rw [before, succeeded]; rfl))).symm)
    · exact .stays (result.trans (sound.judged _ (.inr (by rw [before, failed]; rfl))).symm)
  rcases writeSight_cases now node seen with ⟨failure, phase⟩ | ⟨rfl, phase⟩ | ⟨-, phase⟩ | ⟨-, -, same⟩
  · exact decided (by rw [phase, judged.failure node member seen read failure]; rfl)
  · exact decided (by rw [phase, judged.complete node member read]; rfl)
  · rcases shaped with ⟨idle, -⟩ | ⟨-, running | ended⟩
    · exact absurd idle read.1
    · exact .stays (by rw [before, after, phase, running])
    · rcases writeSight_final (ordered.seen_final judged.lawful member ended read) with other | other
      · rw [phase] at other
        cases other
      · rw [phase] at other
        cases other
  · exact .stays (by rw [before, after, same])

theorem ReadFailed.change {processed : List String}
    (stopped : ReadFailed c ambient cjob certificate state s out processed)
    (unique : (nodeNames (ensureWorkflowNodeStates cjob state.nodes)).Nodup)
    (shaped : ∀ node ∈ ensureWorkflowNodeStates cjob state.nodes, node.Shaped)
    (names : nodeNames out.state.nodes = nodeNames (ensureWorkflowNodeStates cjob state.nodes))
    (judged : Judged verdict (c.getJob s certificate.ns) log (ensureWorkflowNodeStates cjob state.nodes))
    (ordered : Ordered cjob log (ensureWorkflowNodeStates cjob state.nodes))
    (sound : (cjob.plan verdict).Sound (board (ensureWorkflowNodeStates cjob state.nodes))) (name : String) :
    (cjob.plan verdict).Change (board (ensureWorkflowNodeStates cjob state.nodes)) (board out.state.nodes) name := by
  have unique' : (nodeNames out.state.nodes).Nodup := names ▸ unique
  by_cases known : name ∈ nodeNames (ensureWorkflowNodeStates cjob state.nodes)
  · obtain ⟨node, member, rfl⟩ := node_of_name known
    obtain ⟨after, inside, rfl | ⟨seen, read, -, rfl⟩⟩ := stopped.moves member
    · exact .stays (by rw [board_of_mem unique member, board_of_mem unique' inside])
    · exact judged.change ordered sound unique unique' member (shaped node member) read inside
  · exact .stays (by rw [board_of_not_mem known, board_of_not_mem (names ▸ known)])

theorem Completed.ready (done : Completed c ambient cjob certificate state graph s out active failed started)
    (accepted : Accepted cjob graph) (unique : (nodeNames (ensureWorkflowNodeStates cjob state.nodes)).Nodup)
    (unique' : (nodeNames out.state.nodes).Nodup)
    (ordered : Ordered cjob log (ensureWorkflowNodeStates cjob state.nodes)) {node : WorkflowNodeState}
    (member : node ∈ ensureWorkflowNodeStates cjob state.nodes)
    (runnable : RunnableNow c ambient cjob certificate state graph s failed node.name) :
    (cjob.plan verdict).Ready (board out.state.nodes) node.name := by
  intro name edge
  obtain ⟨dep, present, rfl⟩ := node_of_name (ensure_covers cjob state.nodes name (accepted.ends _ _ edge).1)
  have settled := done.dependency_settled accepted unique ordered member present runnable edge
  obtain ⟨after, inside, moves⟩ := done.moves unique present
  have observed : after = observedNow c ambient certificate s dep := by
    cases moves with
    | seen seen read => exact (observed_seen read).symm
    | given idle pending =>
      rw [observedNow, observed_idle idle] at settled
      simp [WorkflowNodeState.Settled, pending] at settled
    | start idle pending =>
      rw [observedNow, observed_idle idle] at settled
      simp [WorkflowNodeState.Settled, pending] at settled
    | stay idle => exact (observed_idle idle).symm
  have shown := board_of_mem unique' inside
  rw [moves.name, observed] at shown
  rcases settled with succeeded | fails
  · exact .inl (by rw [shown, succeeded]; rfl)
  · refine .inr ⟨?_, by rw [shown, fails]; rfl⟩
    have satisfied := runnable.2 (skipNow c ambient cjob certificate state graph s failed
        (observedNow c ambient certificate s dep)) (by
      rw [remainingNodes_eq]
      exact List.mem_map_of_mem present) (by
      rw [skipNow_name, observedNow, observed_name]
      exact (accepted.deps _ _).mpr edge)
    rw [skipNow, if_neg (by simp [fails]), fails] at satisfied
    have policy : cjob.spec.failurePolicy = .bestEffort := by simpa [dependencySatisfied] using satisfied
    rw [CertificateJob.plan, policy]
    rfl

theorem Completed.change (done : Completed c ambient cjob certificate state graph s out active failed started)
    (accepted : Accepted cjob graph) (unique : (nodeNames (ensureWorkflowNodeStates cjob state.nodes)).Nodup)
    (shaped : ∀ node ∈ ensureWorkflowNodeStates cjob state.nodes, node.Shaped)
    (judged : Judged verdict (c.getJob s certificate.ns) log (ensureWorkflowNodeStates cjob state.nodes))
    (ordered : Ordered cjob log (ensureWorkflowNodeStates cjob state.nodes))
    (sound : (cjob.plan verdict).Sound (board (ensureWorkflowNodeStates cjob state.nodes))) (name : String) :
    (cjob.plan verdict).Change (board (ensureWorkflowNodeStates cjob state.nodes)) (board out.state.nodes) name := by
  have names : nodeNames out.state.nodes = nodeNames (ensureWorkflowNodeStates cjob state.nodes) := by
    rw [done.result, nodeNames_startedNodes]
  have unique' : (nodeNames out.state.nodes).Nodup := names ▸ unique
  by_cases known : name ∈ nodeNames (ensureWorkflowNodeStates cjob state.nodes)
  · obtain ⟨node, member, rfl⟩ := node_of_name known
    obtain ⟨after, inside, moves⟩ := done.moves unique member
    have before := board_of_mem unique member
    have shown := board_of_mem unique' inside
    cases moves with
    | seen seen read => exact judged.change ordered sound unique unique' member (shaped node member) read inside
    | stay => exact .stays (by rw [before, shown])
    | start _ pending _ _ runnable =>
      exact .starts (by rw [before, pending]; rfl) shown
        (done.ready accepted unique unique' ordered member runnable)
    | given _ pending up =>
      refine .skips (by rw [before, pending]; rfl) shown ?_
      rw [mem_givenUp accepted known] at up
      rw [plan_givesUp]
      refine up.mono fun root listed => ?_
      obtain ⟨source, recorded, rfl, seen, read, failure⟩ := (done.failures root).mp listed
      obtain ⟨last, present, moves⟩ := done.moves unique recorded
      have shown := board_of_mem unique' present
      rw [moves.name] at shown
      rw [shown]
      cases moves with
      | given idle => exact absurd idle read.1
      | start idle => exact absurd idle read.1
      | stay idle => exact absurd idle read.1
      | seen seen' read' =>
        obtain rfl : seen' = seen := Except.ok.inj (read'.2.symm.trans read.2)
        rw [writeSight_failure failure]
        rfl
  · exact .stays (by rw [board_of_not_mem known, board_of_not_mem (names ▸ known)])

end

section
variable {σ : Type} {c : Client σ} {ext : External} {h : EntryHistory σ} {pass trigger : EntryPass σ}
  {out : EntryOutcome σ} {log : List Sighting} {base : CertificateExecutionState} {graph : GraphMaps}
  {run : RunOutcome σ} {verdict : String → Bool}

def JobsJudged (c : Client σ) (verdict : String → Bool) : PassCondition σ := fun _ log nodes pass =>
  Judged verdict (c.getJob pass.client pass.cert.ns) log nodes

def knownNames (cjob : CertificateJob) (_ : String → Dag.Status) (name : String) : Prop := name ∈ (jobNames cjob).toFinset

def Executes (verdict : String → Bool) : RunProperty σ := fun trigger log nodes =>
  InOrder trigger log nodes ∧
    (trigger.cjob.plan verdict).machine.Reached (knownNames trigger.cjob) (board nodes)

theorem Judged.initial (pass : EntryPass σ) (getJob : String → Except ApiError Job) :
    Judged verdict getJob [] (initializeNodeStates pass.cjob) := by
  have unread : ∀ node ∈ initializeNodeStates pass.cjob, ∀ seen, ¬ Seen getJob node seen := by
    intro node member seen read
    obtain ⟨name, -, rfl⟩ := mem_initial member
    exact read.1 rfl
  refine ⟨fun _ inside => (by cases inside), ?_, ?_⟩
  · exact fun node member read => absurd read (unread node member _)
  · exact fun node member seen read => absurd read (unread node member seen)

theorem board_initial (cjob : CertificateJob) : board (initializeNodeStates cjob) = fun _ => .waiting := by
  funext name
  unfold board
  cases found : (initializeNodeStates cjob).find? (fun node => node.name = name) with
  | none => rfl
  | some node =>
    obtain ⟨_, -, rfl⟩ := mem_initial (List.mem_of_find?_eq_some found)
    rfl

/-- One pass of the controller is a stretch of the plan's execution. -/
theorem Midway.executes (mid : Midway c ext h pass out trigger log base graph run) (inOrder : InOrder trigger log base.nodes)
    (sound : (trigger.cjob.plan verdict).Sound (board base.nodes))
    (demanded : SpecHeldAnd (JobsJudged c verdict) trigger log base.nodes pass) :
    (trigger.cjob.plan verdict).machine.Leads (knownNames trigger.cjob) (board base.nodes) (board run.state.nodes) := by
  obtain ⟨matched, ordered⟩ := inOrder
  obtain ⟨held, judged⟩ := demanded
  have same := matched.ensure (jobNames_congr held)
  have names := (reconcileCertificateRun_keeps mid.accepted mid.unique mid.shaped mid.result).1
  have unique := mid.unique
  have shaped := mid.shaped
  have ordered := ordered.congr held.symm
  rw [← plan_congr held] at sound
  rw [same] at names
  have changes : ∀ name, (pass.cjob.plan verdict).Change (board base.nodes) (board run.state.nodes) name := by
    rw [JobsJudged, ← same] at judged
    rw [← same] at unique shaped ordered sound names ⊢
    rcases mid.spec with ⟨processed, stopped⟩ | ⟨active, failed, started, done⟩
    · exact stopped.change unique shaped names judged ordered sound
    · exact done.change mid.accepted unique shaped judged ordered sound
  rw [plan_congr held] at changes
  refine Dag.leads_of_changes (nodeNames base.nodes) unique ?_ ?_ changes
  · intro name absent
    rw [board_of_not_mem absent, board_of_not_mem (names ▸ absent)]
  · intro name known _
    exact List.mem_toFinset.mpr ((matched name).mp known)

theorem Midway.keeps_executes (mid : Midway c ext h pass out trigger log base graph run)
    (before : Executes verdict trigger log base.nodes)
    (demanded : SpecHeldAnd (JobsJudged c verdict) trigger log base.nodes pass) :
    Executes verdict trigger (log ++ run.sightings) run.state.nodes := by
  obtain ⟨inOrder, first, starts, run⟩ := before
  refine ⟨mid.inOrder inOrder ⟨demanded.1, demanded.2.lawful⟩, first, starts, run.trans ?_⟩
  exact mid.executes inOrder (Dag.Plan.reached_sound ⟨first, starts, run⟩) demanded

theorem executes_initial (pass : EntryPass σ) : Executes verdict pass [] (initializeNodeStates pass.cjob) :=
  ⟨⟨nodesMatchSpec_initial pass, ordered_initial pass⟩, .of_start (board_initial pass.cjob)⟩

theorem reached_executes
    (reached : (entryMachine c ext).Reached (EntryHistory.Allows c ext (SpecHeldAnd (JobsJudged c verdict))) h) :
    h.Satisfies (Executes verdict) :=
  reached_satisfies (fun pass _ _ => executes_initial pass) (fun pass => ⟨rfl, Judged.initial pass _⟩)
    (fun mid => mid.keeps_executes) reached

theorem pass_executes {h' : EntryHistory σ}
    (reached : (entryMachine c ext).Reached (EntryHistory.Allows c ext (SpecHeldAnd (JobsJudged c verdict))) h)
    (started : h.trigger = some trigger) (goesOn : Continues c ext (SpecHeldAnd (JobsJudged c verdict)) h pass)
    (taken : (entryMachine c ext).step h pass h') :
    (trigger.cjob.plan verdict).machine.Leads (knownNames trigger.cjob) (board h.entry.nodes) (board h'.entry.nodes) := by
  obtain ⟨inOrder, executed⟩ := reached_executes reached trigger started
  obtain ⟨out, performed, rfl⟩ := taken
  rcases (reached_sound reached).midway performed with ⟨quiet, same⟩ | ⟨trigger', log, base, graph, run, mid⟩
  · obtain ⟨secretName, phase, message, completed, rewritten⟩ := quiet.rewritten
    rw [same, rewritten]
    exact .refl _
  · rcases mid.origin with ⟨starts, -⟩ | ⟨-, opened, rfl, message, rfl⟩
    · rw [goesOn.1] at starts
      cases starts
    · obtain rfl := Option.some.inj (started.symm.trans opened)
      rw [mid.next, mid.concluded]
      simp only [concludeEntry_nodes]
      exact mid.executes inOrder (Dag.Plan.reached_sound executed) (goesOn.2 goesOn.1 mid.going trigger started)

end

/-- Every run of the controller is an execution of the workflow its spec describes: whatever the order of reconciles, the
    parallelism and the failed calls, its nodes are started, finished and given up by the rules of the plan, and from one
    moment of the run to a later one they move by steps of the plan. -/
theorem run_executes_plan {σ : Type} (c : Client σ) (ext : External) (verdict : String → Bool) (h h' : EntryHistory σ)
    (trigger : EntryPass σ)
    (reached : (entryMachine c ext).Reached (EntryHistory.Allows c ext (SpecHeldAnd (JobsJudged c verdict))) h)
    (started : h.trigger = some trigger)
    (run : (entryMachine c ext).Leads (Continues c ext (SpecHeldAnd (JobsJudged c verdict))) h h') :
    (trigger.cjob.plan verdict).machine.Reached (knownNames trigger.cjob) (board h.entry.nodes) ∧
      (trigger.cjob.plan verdict).machine.Leads (knownNames trigger.cjob) (board h.entry.nodes)
        (board h'.entry.nodes) := by
  refine ⟨(reached_executes reached trigger started).2, ?_⟩
  have carried := run.invariant (fun later =>
    (entryMachine c ext).Reached (EntryHistory.Allows c ext (SpecHeldAnd (JobsJudged c verdict))) later ∧
      later.trigger = some trigger ∧ (trigger.cjob.plan verdict).machine.Leads (knownNames trigger.cjob)
        (board h.entry.nodes) (board later.entry.nodes)) ?_ ⟨reached, started, .refl _⟩
  · exact carried.2.2
  · rintro later pass next ⟨before, opened, moves⟩ goesOn taken
    refine ⟨before.step goesOn.2 taken, ?_, moves.trans (pass_executes before opened goesOn taken)⟩
    obtain ⟨out, -, rfl⟩ := taken
    rw [EntryHistory.next, goesOn.1]
    exact opened

def judgedCheck (verdict : String → Bool) (h : EntryHistory Cluster) (pass : EntryPass Cluster) : Bool :=
  lawfulCheck h pass && h.entry.nodes.all fun node => node.jobName = "" ∨
    (sight (clusterClient.getJob pass.client pass.cert.ns node.jobName)).toOption.all fun seen =>
      seen.isFinal = false ∨ seen = if verdict node.name then .complete else .failed

theorem judgedCheck_allows {verdict : String → Bool} {h : EntryHistory Cluster} {pass : EntryPass Cluster}
    (check : judgedCheck verdict h pass = true) :
    h.Allows clusterClient plainExternal (SpecHeldAnd (JobsJudged clusterClient verdict)) pass := by
  simp only [judgedCheck, Bool.and_eq_true, List.all_eq_true, decide_eq_true_eq] at check
  obtain ⟨lawful, shown⟩ := check
  have shows : ∀ node ∈ h.entry.nodes, ∀ seen, Seen (clusterClient.getJob pass.client pass.cert.ns) node seen →
      seen.isFinal = false ∨ seen = if verdict node.name then .complete else .failed := by
    intro node member seen read
    have result := (shown node member).resolve_left read.1
    rw [read.2] at result
    exact of_decide_eq_true result
  intro noStart going trigger started
  obtain ⟨held, same⟩ := lawfulCheck_allows lawful noStart going trigger started
  refine ⟨held, same, ?_, ?_⟩
  · intro node member read
    have result := shows node member _ read
    cases verdict : verdict node.name <;> simp_all [Sight.isFinal]
  · intro node member seen read failure
    have result := shows node member _ read
    cases verdict : verdict node.name with
    | false => rfl
    | true => cases seen <;> simp_all [Sight.isFinal, Sight.isFailure]

def chainSpec : CertificateJobSpec :=
  { flatSpec ["a", "b"] 1 .stopDownstream with workflow := { edges := [⟨"a", "b"⟩] } }

theorem run_executes_plan_chain :
    ∃ (h h' : EntryHistory Cluster) (trigger : EntryPass Cluster),
      (entryMachine clusterClient plainExternal).Reached
        (EntryHistory.Allows clusterClient plainExternal (SpecHeldAnd (JobsJudged clusterClient fun _ => true))) h ∧
      h.trigger = some trigger ∧
      (entryMachine clusterClient plainExternal).Leads
        (Continues clusterClient plainExternal (SpecHeldAnd (JobsJudged clusterClient fun _ => true))) h h' ∧
      ["a", "b"].map (board h.entry.nodes) = [.started, .waiting] ∧
      ["a", "b"].map (board h'.entry.nodes) = [.succeeded, .started] ∧
      (trigger.cjob.plan fun _ => true).machine.Reached (knownNames trigger.cjob) (board h.entry.nodes) ∧
      (trigger.cjob.plan fun _ => true).machine.Leads (knownNames trigger.cjob) (board h.entry.nodes)
        (board h'.entry.nodes) := by
  have played : ((newEntry (sampleCluster chainSpec)).replay clusterClient plainExternal (judgedCheck fun _ => true)
      (sampleCluster chainSpec) [Cluster.pass]).any (fun one => one.1.trigger.isSome ∧
        ["a", "b"].map (board one.1.entry.nodes) = [.started, .waiting] ∧
        (one.1.replay clusterClient plainExternal
          (fun h pass => !pass.starts clusterClient plainExternal h.entry && judgedCheck (fun _ => true) h pass) one.2
          [fun cluster => (cluster.report "a" completeStatus).pass]).any fun two =>
            ["a", "b"].map (board two.1.entry.nodes) = [.succeeded, .started]) = true := by
    decide +kernel
  obtain ⟨h, s, reached, checked⟩ := replay_new _ played fun _ _ => judgedCheck_allows
  simp only [decide_eq_true_eq] at checked
  obtain ⟨opened, before, later⟩ := checked
  obtain ⟨trigger, started⟩ := Option.isSome_iff_exists.mp opened
  obtain ⟨next, result, after⟩ := (Option.any_eq_true _ _).mp later
  have run : (entryMachine clusterClient plainExternal).Leads
      (Continues clusterClient plainExternal (SpecHeldAnd (JobsJudged clusterClient fun _ => true))) h next.1 := by
    refine replay_leads ?_ _ _ _ result
    intro h pass check
    obtain ⟨continues, judged⟩ := (Bool.and_eq_true _ _).mp check
    exact ⟨by simpa using continues, judgedCheck_allows judged⟩
  exact ⟨h, next.1, trigger, reached, started, run, before, of_decide_eq_true after,
    run_executes_plan _ _ _ h next.1 trigger reached started run⟩

theorem status_injective {left right : ExecutionPhase} (ended : isTerminalPhase left = true)
    (ended' : isTerminalPhase right = true) (same : left.status = right.status) : left = right := by
  cases left <;> cases right <;> simp_all [isTerminalPhase, ExecutionPhase.status]

theorem status_over {phase : ExecutionPhase} (ended : isTerminalPhase phase = true) : phase.status.Over := by
  cases phase <;> simp_all [isTerminalPhase, ExecutionPhase.status, Dag.Status.Over]

theorem reaction_halt {policy : FailurePolicy} (halts : policy.reaction = .halt) : policy.Stops := by
  cases policy <;> simp_all [FailurePolicy.reaction, FailurePolicy.Stops]

/-- Two runs of one spec whose Jobs end in the same way agree on every node that both are done with, however they were
    scheduled. Only where a failure stops the whole workflow one run may have given up what the other had started. -/
theorem runs_agree {σ σ' : Type} (c : Client σ) (c' : Client σ') (ext ext' : External) (verdict : String → Bool)
    (h : EntryHistory σ) (h' : EntryHistory σ') (trigger : EntryPass σ) (trigger' : EntryPass σ')
    (reached : (entryMachine c ext).Reached (EntryHistory.Allows c ext (SpecHeldAnd (JobsJudged c verdict))) h)
    (reached' : (entryMachine c' ext').Reached (EntryHistory.Allows c' ext' (SpecHeldAnd (JobsJudged c' verdict))) h')
    (started : h.trigger = some trigger) (started' : h'.trigger = some trigger')
    (same : trigger.cjob.spec = trigger'.cjob.spec) (node node' : WorkflowNodeState) (member : node ∈ h.entry.nodes)
    (member' : node' ∈ h'.entry.nodes) (named : node.name = node'.name) (ended : isTerminalPhase node.phase = true)
    (ended' : isTerminalPhase node'.phase = true) :
    node.phase = node'.phase ∨
      (trigger.cjob.spec.failurePolicy.Stops ∧ (node.phase = .skipped ∨ node'.phase = .skipped)) := by
  have sound := Dag.Plan.reached_sound (reached_executes reached trigger started).2
  have sound' := Dag.Plan.reached_sound (reached_executes reached' trigger' started').2
  rw [← plan_congr same] at sound'
  have shown := board_of_mem (reached_sound reached).unique member
  have shown' := board_of_mem (reached_sound reached').unique member'
  rw [← named] at shown'
  by_cases halts : trigger.cjob.spec.failurePolicy.reaction = .halt
  · by_cases skips : node.phase = .skipped ∨ node'.phase = .skipped
    · exact .inr ⟨reaction_halt halts, skips⟩
    · refine .inl (status_injective ended ended' ?_)
      rw [not_or] at skips
      have judged : ∀ {phase : ExecutionPhase}, isTerminalPhase phase = true → phase ≠ .skipped →
          phase.status = .succeeded ∨ phase.status = .failed := by
        intro phase ended unskipped
        cases phase <;> simp_all [isTerminalPhase, ExecutionPhase.status]
      rw [← shown, ← shown', sound.judged _ (shown ▸ judged ended skips.1), sound'.judged _ (shown' ▸ judged ended' skips.2)]
  · refine .inl (status_injective ended ended' ?_)
    have outcome := sound.outcome halts (n := node.name) (shown ▸ status_over ended)
    have outcome' := sound'.outcome halts (n := node.name) (shown' ▸ status_over ended')
    rw [shown] at outcome
    rw [shown'] at outcome'
    exact outcome.unique outcome'

def branchSpec : CertificateJobSpec :=
  { flatSpec ["a", "b", "c"] 2 .continueIndependent with workflow := { edges := [⟨"a", "b"⟩] } }

def branchRun (events : List (Cluster → EntryPass Cluster)) (phases : List ExecutionPhase) : Bool :=
  ((newEntry (sampleCluster branchSpec)).replay clusterClient plainExternal (judgedCheck (· ≠ "a"))
    (sampleCluster branchSpec) (Cluster.pass :: events)).any fun last =>
      last.1.trigger.any (fun trigger => trigger.cjob.spec = branchSpec) ∧
      last.1.entry.nodes.map (·.name) = ["a", "b", "c"] ∧ last.1.entry.nodes.map (·.phase) = phases

theorem branchRun_reached {events : List (Cluster → EntryPass Cluster)} {a b d : ExecutionPhase}
    (played : branchRun events [a, b, d] = true) : ∃ (h : EntryHistory Cluster) (trigger : EntryPass Cluster),
      (entryMachine clusterClient plainExternal).Reached
        (EntryHistory.Allows clusterClient plainExternal (SpecHeldAnd (JobsJudged clusterClient (· ≠ "a")))) h ∧
      h.trigger = some trigger ∧ trigger.cjob.spec = branchSpec ∧ h.entry.nodes.map (·.phase) = [a, b, d] ∧
      ∃ node ∈ h.entry.nodes, node.name = "b" ∧ node.phase = b := by
  obtain ⟨h, s, reached, checked⟩ := replay_new _ played fun _ _ => judgedCheck_allows
  simp only [decide_eq_true_eq] at checked
  obtain ⟨opened, names, phases⟩ := checked
  obtain ⟨trigger, started, spec⟩ := (Option.any_eq_true _ _).mp opened
  refine ⟨h, trigger, reached, started, of_decide_eq_true spec, phases, ?_⟩
  match nodes : h.entry.nodes, names, phases with
  | [_, node, _], names, phases =>
    simp only [List.map_cons, List.map_nil, List.cons.injEq] at names phases
    exact ⟨node, by simp, names.2.1, phases.2.1⟩

theorem runs_agree_branch :
    ∃ (h h' : EntryHistory Cluster) (node node' : WorkflowNodeState),
      h.entry.nodes.map (·.phase) = [.failed, .skipped, .running] ∧
      h'.entry.nodes.map (·.phase) = [.failed, .skipped, .succeeded] ∧
      node ∈ h.entry.nodes ∧ node' ∈ h'.entry.nodes ∧ node.name = "b" ∧ node'.name = "b" ∧
      (node.phase = node'.phase ∨ (branchSpec.failurePolicy.Stops ∧ (node.phase = .skipped ∨ node'.phase = .skipped))) := by
  have early : branchRun [fun cluster => (cluster.report "a" failedStatus).pass] [.failed, .skipped, .running] = true := by
    decide +kernel
  have late : branchRun [fun cluster => (cluster.report "c" completeStatus).pass,
      fun cluster => (cluster.report "a" failedStatus).pass] [.failed, .skipped, .succeeded] = true := by
    decide +kernel
  obtain ⟨h, trigger, reached, started, spec, phases, node, member, named, phase⟩ := branchRun_reached early
  obtain ⟨h', trigger', reached', started', spec', phases', node', member', named', phase'⟩ := branchRun_reached late
  have agree := runs_agree _ _ _ _ _ h h' trigger trigger' reached reached' started started' (spec.trans spec'.symm)
    node node' member member' (named.trans named'.symm) (by rw [phase]; rfl) (by rw [phase']; rfl)
  rw [spec] at agree
  exact ⟨h, h', node, node', phases, phases', member, member', named, named', agree⟩

end CertificateJobs
