import CertificateJobs.Runs.Rules
import CertificateJobs.Workflow.Progress

namespace CertificateJobs

open Relation

def GivesUp (cjob : CertificateJob) (failed : String → Prop) (name : String) : Prop :=
  match cjob.spec.failurePolicy with
  | .bestEffort => False
  | .continueIndependent => ∃ root, failed root ∧ TransGen (Edge cjob) root name
  | _ => ∃ root, failed root

section
variable {cjob : CertificateJob} {failed failed' : String → Prop} {name later : String}

theorem GivesUp.mono (more : ∀ name, failed name → failed' name) (gives : GivesUp cjob failed name) :
    GivesUp cjob failed' name := by
  unfold GivesUp at *
  cases policy : cjob.spec.failurePolicy <;> simp only [policy] at gives ⊢
  case continueIndependent =>
    obtain ⟨root, fails, path⟩ := gives
    exact ⟨root, more root fails, path⟩
  all_goals exact gives.imp more

theorem GivesUp.along (gives : GivesUp cjob failed name) (path : TransGen (Edge cjob) name later) :
    GivesUp cjob failed later := by
  unfold GivesUp at *
  cases policy : cjob.spec.failurePolicy <;> simp only [policy] at gives ⊢
  case continueIndependent =>
    obtain ⟨root, fails, reach⟩ := gives
    exact ⟨root, fails, reach.trans path⟩
  all_goals exact gives

theorem givesUp_after (policy : cjob.spec.failurePolicy ≠ .bestEffort) (fails : failed name)
    (path : TransGen (Edge cjob) name later) : GivesUp cjob failed later := by
  unfold GivesUp
  split
  · rename_i best
    exact absurd best policy
  · exact ⟨name, fails, path⟩
  · exact ⟨name, fails⟩

theorem GivesUp.policy (gives : GivesUp cjob failed name) (kept : ¬ GivesUp cjob failed later) :
    cjob.spec.failurePolicy = .continueIndependent := by
  unfold GivesUp at *
  cases policy : cjob.spec.failurePolicy <;> simp only [policy] at gives kept
  case continueIndependent => rfl
  all_goals exact absurd gives kept

theorem givesUp_congr {left right : CertificateJob} (same : left.spec = right.spec) : GivesUp left = GivesUp right := by
  funext failed name
  rw [GivesUp, GivesUp, edge_congr same, same]

end

section
variable {σ : Type} {c : Client σ} {ambient : Ambient} {cjob : CertificateJob} {certificate : Certificate}
  {state : CertificateExecutionState} {graph : GraphMaps} {s : σ} {out : RunOutcome σ} {active : Nat}
  {failed started : List String}

theorem mem_givenUp (accepted : Accepted cjob graph) {name : String}
    (member : name ∈ nodeNames (ensureWorkflowNodeStates cjob state.nodes)) :
    name ∈ givenUp c ambient cjob certificate state graph s failed ↔ GivesUp cjob (· ∈ failed) name := by
  rw [← nodeNames_observedNodes c ambient cjob certificate state s] at member
  unfold givenUp skipTargets GivesUp
  split
  · rename_i empty
    subst empty
    cases cjob.spec.failurePolicy <;> simp
  · rename_i some
    have first := List.exists_mem_of_ne_nil _ some
    cases cjob.spec.failurePolicy with
    | bestEffort => simp
    | continueIndependent => exact descendantNodes_accepted accepted _ _
    | stopDownstream => exact ⟨fun _ => first, fun _ => member⟩
    | other text => exact ⟨fun _ => first, fun _ => member⟩

def ReadsFailure (getJob : String → Except ApiError Job) (nodes : List WorkflowNodeState) (name : String) : Prop :=
  ∃ node ∈ nodes, node.name = name ∧ ∃ seen, Seen getJob node seen ∧ seen.isFailure = true

/-- A failure comes to light only when nothing else is under way: every Job read is finished, and every pending node
    is one the policy gives up. -/
def FailureIsLast (getJob : String → Except ApiError Job) (cjob : CertificateJob) (nodes : List WorkflowNodeState) : Prop :=
  ((∃ node ∈ nodes, node.phase = .failed) ∨ ∃ name, ReadsFailure getJob nodes name) →
    (∀ node ∈ nodes, ∀ seen, Seen getJob node seen → seen ≠ .active ∧ seen ≠ .idle) ∧
    ∀ node ∈ nodes, node.phase = .pending → GivesUp cjob (ReadsFailure getJob nodes) node.name

theorem Completed.givenUp_iff (done : Completed c ambient cjob certificate state graph s out active failed started)
    (accepted : Accepted cjob graph) {node : WorkflowNodeState}
    (member : node ∈ ensureWorkflowNodeStates cjob state.nodes) :
    node.name ∈ givenUp c ambient cjob certificate state graph s failed ↔
      GivesUp cjob (ReadsFailure (c.getJob s certificate.ns) (ensureWorkflowNodeStates cjob state.nodes)) node.name := by
  have same : (· ∈ failed) =
      ReadsFailure (c.getJob s certificate.ns) (ensureWorkflowNodeStates cjob state.nodes) := by
    funext name
    exact propext (done.failures name)
  rw [mem_givenUp accepted (List.mem_map_of_mem member), same]

theorem Completed.failure_before (done : Completed c ambient cjob certificate state graph s out active failed started)
    (unique : (nodeNames (ensureWorkflowNodeStates cjob state.nodes)).Nodup)
    (fails : ∃ node ∈ out.state.nodes, node.phase = .failed) :
    (∃ node ∈ ensureWorkflowNodeStates cjob state.nodes, node.phase = .failed) ∨
      ∃ name, ReadsFailure (c.getJob s certificate.ns) (ensureWorkflowNodeStates cjob state.nodes) name := by
  obtain ⟨after, inside, failed⟩ := fails
  obtain ⟨node, member, moves⟩ := done.origin unique inside
  cases moves with
  | seen seen read =>
    rcases writeSight_failed failed with failure | ⟨-, before⟩
    · exact .inr ⟨node.name, node, member, rfl, seen, read, failure⟩
    · exact .inl ⟨node, member, before⟩
  | given => cases failed
  | start => cases failed
  | stay => exact .inl ⟨_, member, failed⟩

theorem Completed.settled (done : Completed c ambient cjob certificate state graph s out active failed started)
    (accepted : Accepted cjob graph) (unique : (nodeNames (ensureWorkflowNodeStates cjob state.nodes)).Nodup)
    (shaped : ∀ node ∈ ensureWorkflowNodeStates cjob state.nodes, node.Shaped)
    (last : FailureIsLast (c.getJob s certificate.ns) cjob (ensureWorkflowNodeStates cjob state.nodes))
    (ok : out.err = none) (terminal : isTerminalPhase out.state.phase = true) :
    ∀ node ∈ out.state.nodes, node.phase ≠ .pending ∧ node.phase ≠ .running := by
  rw [(done.success ok).1] at terminal
  rcases deriveWorkflowPhase_cases out.state.nodes with ⟨-, fails⟩ | ⟨-, ⟨phase, -⟩ | ⟨-, ⟨phase, -⟩ | ⟨-, all⟩⟩⟩
  · obtain ⟨finished, waiting⟩ := last (done.failure_before unique fails)
    intro after inside
    obtain ⟨node, member, moves⟩ := done.origin unique inside
    cases moves with
    | seen seen read =>
      obtain ⟨inactive, unfinished⟩ := finished node member seen read
      cases seen with
      | active => exact absurd rfl inactive
      | idle => exact absurd rfl unfinished
      | missing => simp [writeSight]
      | failed => simp [writeSight]
      | complete => simp [writeSight]
    | given => simp [markSkipped]
    | start _ pending kept => exact absurd ((done.givenUp_iff accepted member).mpr (waiting node member pending)) kept
    | stay idle kept =>
      rcases shaped _ member with ⟨-, pending | skipped⟩ | ⟨has, -⟩
      · exact absurd ((done.givenUp_iff accepted member).mpr (waiting _ member pending)) (kept pending).1
      · simp [skipped]
      · exact absurd idle has
  · rw [phase] at terminal
    cases terminal
  · rw [phase] at terminal
    cases terminal
  · intro node member
    have closed := all node member
    constructor
    · intro pending
      rw [pending] at closed
      cases closed
    · intro running
      rw [running] at closed
      cases closed

end

section
variable {σ : Type} {c : Client σ} {ext : External} {h : EntryHistory σ} {pass trigger : EntryPass σ}
  {out : EntryOutcome σ} {log : List Sighting} {base : CertificateExecutionState} {graph : GraphMaps}
  {run : RunOutcome σ}

def SkippedExplained : RunProperty σ := fun trigger log nodes =>
  ∀ node ∈ nodes, node.phase = .skipped →
    GivesUp trigger.cjob (fun name => ∃ line ∈ log, line.node = name ∧ line.seen.isFailure = true) node.name

theorem Midway.skippedExplained (mid : Midway c ext h pass out trigger log base graph run)
    (before : SkippedExplained trigger log base.nodes) (held : SpecHeld trigger log base.nodes pass) :
    SkippedExplained trigger (log ++ run.sightings) run.state.nodes := by
  have old : ∀ node ∈ ensureWorkflowNodeStates pass.cjob base.nodes, node.phase = .skipped →
      GivesUp trigger.cjob (fun name => ∃ line ∈ log ++ run.sightings, line.node = name ∧ line.seen.isFailure = true)
        node.name := by
    intro node member skipped
    rcases mem_ensure member with recorded | ⟨name, -, -, rfl⟩
    · refine (before node recorded skipped).mono ?_
      rintro name ⟨line, inside, facts⟩
      exact ⟨line, List.mem_append_left _ inside, facts⟩
    · cases skipped
  intro after inside skipped
  rcases mid.spec with ⟨processed, stopped⟩ | ⟨active, failed, started, done⟩
  · obtain ⟨node, member, rfl | ⟨seen, read, -, rfl⟩⟩ := stopped.origin inside
    · exact old after member skipped
    · rw [writeSight_name]
      exact old node member (writeSight_skipped skipped)
  · obtain ⟨node, member, moves⟩ := done.origin (ensure_unique mid.accepted.names mid.unique) inside
    cases moves with
    | seen seen read =>
      rw [writeSight_name]
      exact old node member (writeSight_skipped skipped)
    | given _ _ up =>
      have gives := (done.givenUp_iff mid.accepted member).mp up
      rw [givesUp_congr held] at gives
      refine gives.mono ?_
      rintro name ⟨root, present, rfl, seen, read, failure⟩
      obtain ⟨seen', read', line⟩ := done.reads root present read.1
      have same : seen' = seen := Except.ok.inj (read'.2.symm.trans read.2)
      exact ⟨_, List.mem_append_right _ line, rfl, same ▸ failure⟩
    | start => cases skipped
    | stay => exact old _ member skipped

theorem skippedExplained_initial (pass : EntryPass σ) :
    SkippedExplained pass [] (initializeNodeStates pass.cjob) := by
  intro node member skipped
  obtain ⟨name, -, rfl⟩ := mem_initial member
  cases skipped

def FailuresLast (c : Client σ) : PassCondition σ := fun _ _ nodes pass =>
  FailureIsLast (c.getJob pass.client pass.cert.ns) pass.cjob nodes

theorem failuresLast_initial (pass : EntryPass σ) : FailuresLast c pass [] (initializeNodeStates pass.cjob) pass := by
  rintro (⟨node, member, failed⟩ | ⟨name, node, member, -, seen, read, -⟩)
  · obtain ⟨name, -, rfl⟩ := mem_initial member
    cases failed
  · obtain ⟨name, -, rfl⟩ := mem_initial member
    exact absurd rfl read.1

theorem reached_skippedExplained
    (reached : (entryMachine c ext).Reached (EntryHistory.Allows c ext (SpecHeldAnd (FailuresLast c))) h) :
    h.Satisfies fun trigger log nodes => NodesMatchSpec trigger log nodes ∧ SkippedExplained trigger log nodes := by
  refine reached_satisfies ?_ ?_ ?_ reached
  · exact fun pass graph _ => ⟨nodesMatchSpec_initial pass, skippedExplained_initial pass⟩
  · exact fun pass => ⟨rfl, failuresLast_initial pass⟩
  · rintro h pass out trigger log base graph run mid ⟨matched, explained⟩ ⟨held, -⟩
    exact ⟨mid.nodesMatchSpec matched (jobNames_congr held), mid.skippedExplained explained held⟩

theorem Sound.ends (sound : Sound c ext h) (performed : pass.perform c ext h.entry = some out)
    (named : pass.cert.spec.secretName ≠ "")
    (going : isTerminalPhase h.entry.phase = false ∨ pass.starts c ext h.entry = true)
    (ended : isTerminalPhase out.state.phase = true) :
    ∃ trigger log base graph run, Midway c ext h pass out trigger log base graph run ∧ run.err = none ∧
      out.state = run.state := by
  rcases sound.midway performed with ⟨quiet, -⟩ | ⟨trigger, log, base, graph, run, mid⟩
  · rcases quiet.phase with ⟨empty, -⟩ | ⟨-, pending⟩ | same
    · exact absurd empty named
    · rw [pending] at ended
      cases ended
    · rw [same] at ended
      rcases going with open_ | starts
      · rw [open_] at ended
        cases ended
      · rw [quiet.noStart] at starts
        cases starts
  · refine ⟨trigger, log, base, graph, run, mid, ?_⟩
    rw [mid.concluded] at ended ⊢
    cases failure : run.err with
    | none => exact ⟨rfl, by simp [concludeEntry, failure]⟩
    | some e =>
      simp only [concludeEntry, failure] at ended
      cases ended

end

/-- When a pass ends a run whose failures come last, no node is left pending or running. Under BestEffort every node
    got its Job, and under ContinueIndependent every node that no failed node leads to. -/
theorem ended_run_settled {σ : Type} (c : Client σ) (ext : External) (h : EntryHistory σ) (pass : EntryPass σ)
    (out : EntryOutcome σ)
    (reached : (entryMachine c ext).Reached (EntryHistory.Allows c ext (SpecHeldAnd (FailuresLast c))) h)
    (allowed : h.Allows c ext (SpecHeldAnd (FailuresLast c)) pass) (performed : pass.perform c ext h.entry = some out)
    (named : pass.cert.spec.secretName ≠ "")
    (going : isTerminalPhase h.entry.phase = false ∨ pass.starts c ext h.entry = true)
    (ended : isTerminalPhase out.state.phase = true) :
    (∀ node ∈ out.state.nodes, node.phase ≠ .pending ∧ node.phase ≠ .running) ∧
    (pass.cjob.spec.failurePolicy = .bestEffort → ∀ node ∈ out.state.nodes, node.jobName ≠ "") ∧
    (pass.cjob.spec.failurePolicy = .continueIndependent → ∀ node ∈ out.state.nodes, node.jobName ≠ "" ∨
      ∃ line ∈ (h.next c ext pass out).log, line.seen.isFailure = true ∧
        TransGen (Edge pass.cjob) line.node node.name) := by
  obtain ⟨trigger, log, base, graph, run, mid, ok, same⟩ := (reached_sound reached).ends performed named going ended
  obtain ⟨⟨matched, explained⟩, held, last⟩ := mid.lift (reached_skippedExplained reached) allowed
    ⟨nodesMatchSpec_initial pass, skippedExplained_initial pass⟩ ⟨rfl, failuresLast_initial pass⟩
  have settled : ∀ node ∈ run.state.nodes, node.phase ≠ .pending ∧ node.phase ≠ .running := by
    rcases mid.spec with ⟨processed, stopped⟩ | ⟨active, failed, started, done⟩
    · exact absurd ok stopped.error
    · have unique := mid.unique
      have shaped := mid.shaped
      unfold FailuresLast at last
      rw [← matched.ensure (jobNames_congr held)] at unique shaped last
      exact done.settled mid.accepted unique shaped last ok (same ▸ ended)
  have reason : ∀ node ∈ run.state.nodes, node.jobName ≠ "" ∨ GivesUp pass.cjob
      (fun name => ∃ line ∈ log ++ run.sightings, line.node = name ∧ line.seen.isFailure = true) node.name := by
    intro node member
    rcases (reconcileCertificateRun_keeps mid.accepted mid.unique mid.shaped mid.result).2.1 node member with
      ⟨-, pending | skipped⟩ | ⟨has, -⟩
    · exact absurd pending (settled node member).1
    · rw [givesUp_congr held]
      exact .inr (mid.skippedExplained explained held node member skipped)
    · exact .inl has
  rw [mid.next, same]
  refine ⟨settled, ?_, ?_⟩
  · intro policy node member
    rcases reason node member with has | gives
    · exact has
    · simp [GivesUp, policy] at gives
  · intro policy node member
    refine (reason node member).imp_right fun gives => ?_
    simp only [GivesUp, policy] at gives
    obtain ⟨root, ⟨line, inside, rfl, failure⟩, path⟩ := gives
    exact ⟨line, inside, failure, path⟩

def allFinished (h : EntryHistory Cluster) (pass : EntryPass Cluster) : Bool :=
  specKept h pass && h.entry.nodes.all fun node => node.phase ≠ .pending ∧
    (pass.client.jobs pass.cert.ns node.jobName).any fun job => isJobComplete job || isJobFailed job

theorem allFinished_allows {h : EntryHistory Cluster} {pass : EntryPass Cluster} (finished : allFinished h pass = true) :
    h.Allows clusterClient plainExternal (SpecHeldAnd (FailuresLast clusterClient)) pass := by
  simp only [allFinished, Bool.and_eq_true, List.all_eq_true, decide_eq_true_eq] at finished
  intro noStart going trigger started
  refine ⟨specKept_allows finished.1 noStart going trigger started, fun _ => ⟨?_, ?_⟩⟩
  · intro node member seen read
    obtain ⟨job, found, ended⟩ := (Option.any_eq_true _ _).mp (finished.2 node member).2
    have result := read.2
    simp only [clusterClient, found, Option.elim_some, sight, sightOf, Except.ok.injEq] at result
    rw [← result]
    cases complete : isJobComplete job with
    | true => simp
    | false =>
      simp only [complete, Bool.false_or] at ended
      simp [ended]
  · exact fun node member pending => absurd pending (finished.2 node member).1

theorem ended_run_settled_after_failure :
    ∃ h pass out, (entryMachine clusterClient plainExternal).Reached
        (EntryHistory.Allows clusterClient plainExternal (SpecHeldAnd (FailuresLast clusterClient))) h ∧
      pass.perform clusterClient plainExternal h.entry = some out ∧ out.state.phase = .failed ∧
      (∀ node ∈ out.state.nodes, node.phase ≠ .pending ∧ node.phase ≠ .running) ∧
      (pass.cjob.spec.failurePolicy = .bestEffort → ∀ node ∈ out.state.nodes, node.jobName ≠ "") ∧
      (pass.cjob.spec.failurePolicy = .continueIndependent → ∀ node ∈ out.state.nodes, node.jobName ≠ "" ∨
        ∃ line ∈ (h.next clusterClient plainExternal pass out).log, line.seen.isFailure = true ∧
          TransGen (Edge pass.cjob) line.node node.name) := by
  have played : ((newEntry (sampleCluster (flatSpec ["a", "b"] 2 .bestEffort))).replay clusterClient plainExternal
      (fun h pass => pass.starts clusterClient plainExternal h.entry)
      (sampleCluster (flatSpec ["a", "b"] 2 .bestEffort)) [Cluster.pass]).any (fun last =>
        let pass := ((last.2.report "a" failedStatus).report "b" completeStatus).pass
        allFinished last.1 pass ∧ pass.cert.spec.secretName ≠ "" ∧ isTerminalPhase last.1.entry.phase = false ∧
        (pass.perform clusterClient plainExternal last.1.entry).any fun out => out.state.phase = .failed) = true := by
    decide +kernel
  obtain ⟨h, s, reached, checked⟩ := replay_new
    (EntryHistory.Allows clusterClient plainExternal (SpecHeldAnd (FailuresLast clusterClient))) played
    fun h pass starts noStart => by rw [starts] at noStart; cases noStart
  simp only [decide_eq_true_eq] at checked
  obtain ⟨finished, named, going, performs⟩ := checked
  obtain ⟨out, performed, failed⟩ := (Option.any_eq_true _ _).mp performs
  have failed := of_decide_eq_true failed
  exact ⟨h, _, out, reached, performed, failed, ended_run_settled _ _ h _ out reached (allFinished_allows finished)
    performed named (.inl going) (by rw [failed]; rfl)⟩

/-- Three independent nodes under BestEffort, one at a time: the failure of the first ends the run in the pass that
    starts the second, and the third never gets a Job. -/
theorem ended_run_abandons :
    ∃ h pass out, (entryMachine clusterClient plainExternal).Reached
        (EntryHistory.Allows clusterClient plainExternal SpecHeld) h ∧
      h.Allows clusterClient plainExternal SpecHeld pass ∧
      pass.perform clusterClient plainExternal h.entry = some out ∧ pass.cert.spec.secretName ≠ "" ∧
      isTerminalPhase h.entry.phase = false ∧ isTerminalPhase out.state.phase = true ∧
      pass.cjob.spec.failurePolicy = .bestEffort ∧
      out.state.nodes.map (fun node => (node.phase, decide (node.jobName = ""))) =
        [(.failed, false), (.running, false), (.pending, true)] := by
  have played : ((newEntry (sampleCluster (flatSpec ["a", "b", "c"] 1 .bestEffort))).replay clusterClient plainExternal
      specKept (sampleCluster (flatSpec ["a", "b", "c"] 1 .bestEffort)) [Cluster.pass]).any (fun last =>
        let pass := (last.2.report "a" failedStatus).pass
        specKept last.1 pass ∧ pass.cert.spec.secretName ≠ "" ∧ isTerminalPhase last.1.entry.phase = false ∧
        pass.cjob.spec.failurePolicy = .bestEffort ∧
        (pass.perform clusterClient plainExternal last.1.entry).any fun out =>
          isTerminalPhase out.state.phase = true ∧
          out.state.nodes.map (fun node => (node.phase, decide (node.jobName = ""))) =
            [(.failed, false), (.running, false), (.pending, true)]) = true := by
    decide +kernel
  obtain ⟨h, s, reached, checked⟩ := replay_new (EntryHistory.Allows clusterClient plainExternal SpecHeld) played
    fun _ _ kept => specKept_allows kept
  simp only [decide_eq_true_eq] at checked
  obtain ⟨kept, named, going, policy, performs⟩ := checked
  obtain ⟨out, performed, result⟩ := (Option.any_eq_true _ _).mp performs
  obtain ⟨ended, nodes⟩ := of_decide_eq_true result
  exact ⟨h, _, out, reached, specKept_allows kept, performed, named, going, ended, policy, nodes⟩

end CertificateJobs
