import CertificateJobs.Runs.Rules
import CertificateJobs.Workflow.Progress

namespace CertificateJobs

open Relation

section
variable {σ : Type} (c : Client σ) (ext : External)

/-- The Job of a node recorded Succeeded still shows that it completed, or shows nothing that speaks against it. -/
def SucceededKept : PassCondition σ := fun _ _ nodes pass =>
  ∀ node ∈ nodes, node.phase = .succeeded → ∀ seen, Seen (c.getJob pass.client pass.cert.ns) node seen →
    seen = .complete ∨ seen = .idle

def Continues (condition : PassCondition σ) (h : EntryHistory σ) (pass : EntryPass σ) : Prop :=
  pass.starts c ext h.entry = false ∧ h.Allows c ext condition pass

variable {c ext}

section
variable {condition : PassCondition σ}

/-- A property of a started node that no write of a later reading breaks stays with the node of that name. -/
theorem tracked_step {holds : WorkflowNodeState → Prop} (started : ∀ node, holds node → node.phase ≠ .pending)
    (written : ∀ {trigger log nodes pass node seen}, condition trigger log nodes pass → node ∈ nodes → holds node →
      Seen (c.getJob pass.client pass.cert.ns) node seen →
      holds (writeSight (pass.ambient.clock (.certificateRun pass.cert.name)) node seen))
    {h h' : EntryHistory σ} {pass : EntryPass σ} (sound : Sound c ext h) (goesOn : Continues c ext condition h pass)
    (taken : (entryMachine c ext).step h pass h') {name : String}
    (before : ∃ node ∈ h.entry.nodes, node.name = name ∧ holds node) :
    ∃ node ∈ h'.entry.nodes, node.name = name ∧ holds node := by
  obtain ⟨out, performed, rfl⟩ := taken
  rcases sound.midway performed with ⟨quiet, same⟩ | ⟨trigger, log, base, graph, run, mid⟩
  · obtain ⟨secretName, phase, message, completed, rewritten⟩ := quiet.rewritten
    rw [same, rewritten]
    exact before
  · rcases mid.origin with ⟨starts, -⟩ | ⟨-, opened, rfl, message, rfl⟩
    · rw [goesOn.1] at starts
      cases starts
    · obtain ⟨node, member, rfl, held⟩ := before
      have demanded := goesOn.2 goesOn.1 mid.going trigger opened
      rw [mid.next, mid.concluded]
      simp only [concludeEntry_nodes]
      obtain ⟨after, inside, rfl | ⟨seen, read, rfl⟩⟩ := reconcileCertificateRun_advance mid.accepted mid.unique mid.result
        member (started node held)
      · exact ⟨after, inside, rfl, held⟩
      · exact ⟨_, inside, writeSight_name _ _, written demanded member held read⟩

theorem tracked_run (holds : WorkflowNodeState → Prop) (started : ∀ node, holds node → node.phase ≠ .pending)
    (written : ∀ {trigger log nodes pass node seen}, condition trigger log nodes pass → node ∈ nodes → holds node →
      Seen (c.getJob pass.client pass.cert.ns) node seen →
      holds (writeSight (pass.ambient.clock (.certificateRun pass.cert.name)) node seen))
    {h h' : EntryHistory σ} (reached : (entryMachine c ext).Reached (fun _ _ => True) h)
    (run : (entryMachine c ext).Leads (Continues c ext condition) h h') {node : WorkflowNodeState}
    (member : node ∈ h.entry.nodes) (held : holds node) :
    ∃ after ∈ h'.entry.nodes, after.name = node.name ∧ holds after ∧
      ∀ other ∈ h'.entry.nodes, other.name = node.name → other = after := by
  have carried := run.invariant
    (fun h => Sound c ext h ∧ ∃ after ∈ h.entry.nodes, after.name = node.name ∧ holds after)
    (fun _ _ _ before goesOn taken =>
      ⟨before.1.step taken, tracked_step started written before.1 goesOn taken before.2⟩)
    ⟨reached_sound reached, node, member, rfl, held⟩
  obtain ⟨sound, after, inside, named, holding⟩ := carried
  exact ⟨after, inside, named, holding, fun other present same =>
    node_eq_of_name sound.unique present inside (same.trans named.symm)⟩

end

end

/-- Within one run a node that succeeded stays so, as long as its Job does not disappear or change its mind. -/
theorem succeeded_stays_succeeded {σ : Type} (c : Client σ) (ext : External) (h h' : EntryHistory σ)
    (reached : (entryMachine c ext).Reached (fun _ _ => True) h)
    (run : (entryMachine c ext).Leads (Continues c ext (SucceededKept c)) h h') (node : WorkflowNodeState)
    (member : node ∈ h.entry.nodes) (succeeded : node.phase = .succeeded) :
    ∃ after ∈ h'.entry.nodes, after.name = node.name ∧ after.phase = .succeeded ∧
      ∀ other ∈ h'.entry.nodes, other.name = node.name → other = after := by
  refine tracked_run (·.phase = .succeeded) ?_ ?_ reached run member succeeded
  · intro node succeeded pending
    rw [succeeded] at pending
    cases pending
  · intro _ _ _ _ node seen kept member succeeded read
    rcases kept node member succeeded seen read with rfl | rfl
    · rfl
    · simp [writeSight, succeeded]

def firstCompleted : List (Cluster → EntryPass Cluster) :=
  [Cluster.pass, fun cluster => ((cluster.report "a" completeStatus).report "b" { active := 1 }).pass]

def completedShown (h : EntryHistory Cluster) (pass : EntryPass Cluster) : Bool :=
  !pass.starts clusterClient plainExternal h.entry &&
    h.entry.nodes.all fun node => node.phase ≠ .succeeded ∨ (pass.client.jobs pass.cert.ns node.jobName).any isJobComplete

theorem completedShown_continues {h : EntryHistory Cluster} {pass : EntryPass Cluster}
    (shown : completedShown h pass = true) :
    Continues clusterClient plainExternal (SucceededKept clusterClient) h pass := by
  simp only [completedShown, Bool.and_eq_true, Bool.not_eq_true', List.all_eq_true, decide_eq_true_eq] at shown
  refine ⟨shown.1, fun _ _ _ _ node member succeeded seen read => .inl ?_⟩
  rcases shown.2 node member with other | complete
  · exact absurd succeeded other
  · obtain ⟨job, found, done⟩ := (Option.any_eq_true _ _).mp complete
    have result := read.2
    simp only [clusterClient, found, Option.elim_some, sight, sightOf, done, if_true, Except.ok.injEq] at result
    exact result.symm

theorem firstCompleted_played :
    ((newEntry (sampleCluster (flatSpec ["a", "b"] 2 .stopDownstream))).replay clusterClient plainExternal
      (fun _ _ => true) (sampleCluster (flatSpec ["a", "b"] 2 .stopDownstream)) firstCompleted).any
      (fun last => last.1.entry.nodes.map (fun node => (node.name, node.phase)) = [("a", .succeeded), ("b", .running)] ∧
        (last.1.replay clusterClient plainExternal completedShown last.2 [Cluster.pass]).isSome ∧
        (last.1.replay clusterClient plainExternal
          (fun h pass => !pass.starts clusterClient plainExternal h.entry) last.2
          [fun cluster => (cluster.deleteJob "a").pass]).any
          (fun next => next.1.entry.nodes.map (fun node => (node.name, node.phase)) =
            [("a", .failed), ("b", .running)])) = true := by
  decide +kernel

theorem succeeded_stays_succeeded_while_shown :
    ∃ h h' node, (entryMachine clusterClient plainExternal).Reached (fun _ _ => True) h ∧
      (entryMachine clusterClient plainExternal).Leads
        (Continues clusterClient plainExternal (SucceededKept clusterClient)) h h' ∧
      node ∈ h.entry.nodes ∧ node.phase = .succeeded ∧
      ∃ after ∈ h'.entry.nodes, after.name = node.name ∧ after.phase = .succeeded ∧
        ∀ other ∈ h'.entry.nodes, other.name = node.name → other = after := by
  obtain ⟨h, _, reached, checked⟩ := replay_new (fun _ _ => True) firstCompleted_played fun _ _ _ => trivial
  simp only [decide_eq_true_eq] at checked
  obtain ⟨phases, goesOn, -⟩ := checked
  obtain ⟨next, result⟩ := Option.isSome_iff_exists.mp goesOn
  have run := replay_leads (fun _ _ => completedShown_continues) _ _ _ result
  have listed : ("a", ExecutionPhase.succeeded) ∈ h.entry.nodes.map fun node => (node.name, node.phase) := by
    simp [phases]
  obtain ⟨node, member, named⟩ := List.mem_map.mp listed
  have succeeded : node.phase = .succeeded := (Prod.mk.inj named).2
  exact ⟨h, next.1, node, reached, run, member, succeeded,
    succeeded_stays_succeeded _ _ h next.1 reached run node member succeeded⟩

/-- A finished Job that its time to live removed while another node still runs turns its node Failed. -/
theorem succeeded_becomes_failed :
    ∃ h h', (entryMachine clusterClient plainExternal).Reached (fun _ _ => True) h ∧
      (entryMachine clusterClient plainExternal).Leads
        (fun h pass => pass.starts clusterClient plainExternal h.entry = false) h h' ∧
      h.entry.nodes.map (fun node => (node.name, node.phase)) = [("a", .succeeded), ("b", .running)] ∧
      h'.entry.nodes.map (fun node => (node.name, node.phase)) = [("a", .failed), ("b", .running)] := by
  obtain ⟨h, _, reached, checked⟩ := replay_new (fun _ _ => True) firstCompleted_played fun _ _ _ => trivial
  simp only [decide_eq_true_eq] at checked
  obtain ⟨before, -, later⟩ := checked
  obtain ⟨next, result, after⟩ := (Option.any_eq_true _ _).mp later
  exact ⟨h, next.1, reached, replay_leads (fun _ _ kept => by simpa using kept) _ _ _ result, before,
    of_decide_eq_true after⟩

end CertificateJobs
