import CertificateJobs.Runs.Failures
import CertificateJobs.Runs.Life
import CertificateJobs.Runs.Order

namespace CertificateJobs

def Life.Idle (w : Life) : Prop := ∀ node ∈ w.entry.nodes, node.phase ≠ .running

def Life.EndsRead (w : Life) (getJob : String → Except ApiError Job) (ns : String) : Prop :=
  ∀ node ∈ w.entry.nodes, node.phase = .running → ∀ seen, Seen getJob node seen → seen.isFinal = true →
    ∀ current, w.cluster.jobs ns node.jobName = some current → jobFinished current = true

/-- No status write is lost; a running node's entry is not dropped, and its certificate keeps naming a Secret; no Job is
    read as finished or missing before it is; and failures come last. -/
def Orderly (w : Life) : LifeEvent → Prop
  | .change _ => True
  | .drop => w.Idle
  | .reconcile client _ cert written => written = true ∧ (isTerminalPhase w.entry.phase = false →
      (cert.spec.secretName = "" → w.Idle) ∧ w.EndsRead (client.getJob w.cluster cert.ns) cert.ns ∧
      FailureIsLast (client.getJob w.cluster cert.ns) w.cluster.cjob
        (ensureWorkflowNodeStates w.cluster.cjob w.entry.nodes))

structure Tracked (ns : String) (w : Life) : Prop where
  unique : (nodeNames w.entry.nodes).Nodup
  shaped : ∀ node ∈ w.entry.nodes, node.Shaped
  untriggered : w.entry.inputHash = "" → w.entry.nodes = []
  known : ∀ job ∈ w.created, job.ns = ns ∧ job.uid < w.cluster.nextUID
  tracked : ∀ job ∈ w.created, Finished w.cluster job ∨ (isTerminalPhase w.entry.phase = false ∧
    ∃ node ∈ w.entry.nodes, node.phase = .running ∧ node.jobName = job.name)

section
variable {ext : External} {ns name : String} {w w' : Life}

theorem Tracked.start (first : (lifeMachine ext ns name).start w) : Tracked ns w := by
  obtain ⟨entry, created⟩ := first
  refine ⟨?_, ?_, ?_, ?_, ?_⟩ <;> simp [entry, created, freshEntry, nodeNames]

theorem Tracked.change (tracked : Tracked ns w) {cluster : Cluster} (evolves : Evolves w.cluster cluster) :
    Tracked ns { w with cluster := cluster } := by
  refine ⟨tracked.unique, tracked.shaped, tracked.untriggered, ?_, ?_⟩
  · intro job member
    obtain ⟨here, uid⟩ := tracked.known job member
    exact ⟨here, uid.trans_le evolves.uids⟩
  · intro job member
    exact (tracked.tracked job member).imp_left fun finished => finished.evolves evolves (tracked.known job member).2

theorem Tracked.idle (tracked : Tracked ns w) (idle : w.Idle) : ∀ job ∈ w.created, Finished w.cluster job := by
  intro job member
  rcases tracked.tracked job member with finished | ⟨-, node, inside, running, -⟩
  · exact finished
  · exact absurd running (idle node inside)

theorem Tracked.drop (tracked : Tracked ns w) (idle : w.Idle) :
    Tracked ns { w with entry := freshEntry ns name } :=
  ⟨List.nodup_nil, by simp [freshEntry], fun _ => rfl, tracked.known, fun job member => .inl (tracked.idle idle job member)⟩

theorem Tracked.starts (tracked : Tracked ns w) {client : Client Cluster} {ambient : Ambient} {cert : Certificate}
    (starts : (w.pass ambient cert).starts client ext w.entry = true) : ∀ job ∈ w.created, Finished w.cluster job := by
  obtain ⟨hash, -, opens⟩ := (Option.any_eq_true _ _).mp starts
  intro job member
  rcases tracked.tracked job member with finished | ⟨going, node, inside, -⟩
  · exact finished
  · rcases of_decide_eq_true opens with first | ⟨-, terminal⟩
    · rw [tracked.untriggered first] at inside
      cases inside
    · rw [going] at terminal
      cases terminal

end

section
variable {σ : Type} {c : Client σ} {ext : External} {pass : EntryPass σ} {entry : CertificateExecutionState}
  {out : EntryOutcome σ} {graph : GraphMaps} {base : CertificateExecutionState} {run : RunOutcome σ}

theorem Ran.goes_on (ran : Ran c ext pass entry out graph base run) (unique : (nodeNames base.nodes).Nodup)
    (shaped : ∀ node ∈ base.nodes, node.Shaped)
    (last : FailureIsLast (c.getJob pass.client pass.cert.ns) pass.cjob (ensureWorkflowNodeStates pass.cjob base.nodes))
    {node : WorkflowNodeState} (member : node ∈ run.state.nodes) (running : node.phase = .running) :
    isTerminalPhase out.state.phase = false := by
  rw [ran.concluded]
  unfold concludeEntry
  cases failure : run.err with
  | some e => rfl
  | none =>
    simp only
    by_contra ended
    rw [Bool.not_eq_false] at ended
    rcases reconcileCertificateRun_cases ran.accepted unique ran.result with
      ⟨processed, stopped⟩ | ⟨active, failed, started, done⟩
    · exact stopped.error failure
    · exact (done.settled ran.accepted (ensure_unique ran.accepted.names unique) (ensure_shaped shaped) last failure ended
        node member).2 running

theorem failureIsLast_initial (getJob : String → Except ApiError Job) (cjob : CertificateJob) :
    FailureIsLast getJob cjob (ensureWorkflowNodeStates cjob (initializeNodeStates cjob)) := by
  have waiting : ∀ node ∈ ensureWorkflowNodeStates cjob (initializeNodeStates cjob), ∃ name, node = pendingNode name := by
    intro node member
    rcases mem_ensure member with old | ⟨name, -, -, same⟩
    · obtain ⟨name, -, same⟩ := mem_initial old
      exact ⟨name, same⟩
    · exact ⟨name, same⟩
  rintro (⟨node, member, failed⟩ | ⟨-, node, member, -, seen, read, -⟩)
  · obtain ⟨name, rfl⟩ := waiting node member
    cases failed
  · obtain ⟨name, rfl⟩ := waiting node member
    exact absurd rfl read.1

end

section
variable {ext : External} {ns name : String} {w w' : Life} {client : Client Cluster} {ambient : Ambient}
  {cert : Certificate} {out : EntryOutcome Cluster}

theorem Tracked.quiet (tracked : Tracked ns w) (named : isTerminalPhase w.entry.phase = false →
      cert.spec.secretName = "" → w.Idle) (quiet : Quiet client ext (w.pass ambient cert) w.entry out) :
    Tracked ns { w with cluster := out.client, entry := out.state } := by
  have client : out.client = w.cluster := quiet.client
  obtain ⟨secretName, phase, message, completed, written⟩ := quiet.rewritten
  refine ⟨by rw [written]; exact tracked.unique, by rw [written]; exact tracked.shaped,
    by rw [written]; exact tracked.untriggered, by rw [client]; exact tracked.known, ?_⟩
  intro job member
  rw [client]
  rcases tracked.tracked job member with finished | ⟨going, node, inside, running, tracks⟩
  · exact .inl finished
  · refine .inr ⟨?_, node, by rw [written]; exact inside, running, tracks⟩
    rcases quiet.phase with ⟨empty, -⟩ | ⟨-, pending⟩ | same
    · exact absurd running (named going empty node inside)
    · rw [pending]
      rfl
    · rw [same]
      exact going

theorem Ran.stored_running (stores : StoresJobs client) (here : cert.ns = ns) {graph : GraphMaps}
    {base : CertificateExecutionState} {run : RunOutcome Cluster}
    (ran : Ran client ext (w.pass ambient cert) w.entry out graph base run) (unique : (nodeNames base.nodes).Nodup)
    {job : Job} (member : job ∈ out.calls.filterMap (·.stored)) :
    job.ns = ns ∧ job.uid < run.client.nextUID ∧
      ∃ node ∈ run.state.nodes, node.phase = .running ∧ node.jobName = job.name := by
  obtain ⟨call, made, stored⟩ := List.mem_filterMap.mp member
  rw [ran.concluded, concludeEntry_calls] at made
  rcases reconcileCertificateRun_cases ran.accepted unique ran.result with
    ⟨processed, stopped⟩ | ⟨active, failed, started, done⟩
  · rw [stopped.noCalls] at made
    cases made
  · obtain ⟨-, -, s, t, answer, how⟩ := done.calls call made
    obtain ⟨jobNs, jobName, uid⟩ := stores.call how stored
    obtain ⟨node, inside, running, named⟩ := done.started_running (done.stored call made (by rw [stored]; rfl))
    exact ⟨jobNs.trans here, uid, node, inside, running, named.trans jobName.symm⟩

theorem writeSight_running_unfinished {node : WorkflowNodeState} (running : node.phase = .running) {seen : Sight}
    (unfinished : seen.isFinal = false) (now : Time) : (writeSight now node seen).phase = .running := by
  cases seen with
  | active => rfl
  | idle => simp [writeSight, running]
  | missing => cases unfinished
  | complete => cases unfinished
  | failed => cases unfinished

/-- A Job that a running node tracks is over, or the pass saw it go on and left its node running. -/
theorem Ran.still_running {graph : GraphMaps} {base : CertificateExecutionState} {run : RunOutcome Cluster}
    (ran : Ran client ext (w.pass ambient cert) w.entry out graph base run) (unique : (nodeNames base.nodes).Nodup)
    {job : Job} (home : job.ns = cert.ns) {node : WorkflowNodeState} (inside : node ∈ base.nodes)
    (running : node.phase = .running) (tracks : node.jobName = job.name)
    (ends : ∀ seen, Seen (client.getJob w.cluster cert.ns) node seen → seen.isFinal = true →
      ∀ current, w.cluster.jobs cert.ns node.jobName = some current → jobFinished current = true) :
    Finished w.cluster job ∨ ∃ after ∈ run.state.nodes, after.phase = .running ∧ after.jobName = job.name := by
  obtain ⟨after, present, same | ⟨seen, read, rfl⟩⟩ := reconcileCertificateRun_advance ran.accepted unique
    ran.result inside (by simp [running])
  · rw [same] at present
    exact .inr ⟨node, present, running, tracks⟩
  · cases final : seen.isFinal with
    | true =>
      refine .inl fun current there _ => ends seen read final current ?_
      rwa [tracks, ← home]
    | false =>
      exact .inr ⟨_, present, writeSight_running_unfinished running final _, by rw [writeSight_jobName]; exact tracks⟩

theorem Tracked.ran (tracked : Tracked ns w) (stores : StoresJobs client) (here : cert.ns = ns)
    (ends : isTerminalPhase w.entry.phase = false → w.EndsRead (client.getJob w.cluster cert.ns) cert.ns)
    (last : isTerminalPhase w.entry.phase = false →
      FailureIsLast (client.getJob w.cluster cert.ns) w.cluster.cjob
        (ensureWorkflowNodeStates w.cluster.cjob w.entry.nodes))
    {graph : GraphMaps} {base : CertificateExecutionState} {run : RunOutcome Cluster}
    (ran : Ran client ext (w.pass ambient cert) w.entry out graph base run) :
    Tracked ns
      { cluster := out.client, entry := out.state, created := w.created ++ out.calls.filterMap (·.stored) } := by
  have unique := ran.unique tracked.unique
  have shaped := ran.shaped tracked.shaped
  obtain ⟨names, shapes, -⟩ := reconcileCertificateRun_keeps ran.accepted unique shaped ran.result
  have evolves : Evolves w.cluster run.client := stores.evolves (reconcileCertificateRun_outline ran.result).1.1
  -- A run that was just opened has nothing to track.
  have before : FailureIsLast (client.getJob w.cluster cert.ns) w.cluster.cjob
        (ensureWorkflowNodeStates w.cluster.cjob base.nodes) ∧
      ∀ job ∈ w.created, Finished w.cluster job ∨ ∃ node ∈ base.nodes, node.phase = .running ∧
        node.jobName = job.name ∧ ∀ seen, Seen (client.getJob w.cluster cert.ns) node seen → seen.isFinal = true →
          ∀ current, w.cluster.jobs cert.ns node.jobName = some current → jobFinished current = true := by
    cases starts : (w.pass ambient cert).starts client ext w.entry with
    | true =>
      rw [(ran.fresh starts).1]
      exact ⟨failureIsLast_initial _ _, fun job member => .inl (tracked.starts starts job member)⟩
    | false =>
      obtain ⟨message, rfl⟩ := ran.same starts
      refine ⟨last ran.going, fun job member => (tracked.tracked job member).imp_right ?_⟩
      rintro ⟨going, node, inside, running, tracks⟩
      exact ⟨node, inside, running, tracks, ends going node inside running⟩
  have goesOn : ∀ job : Job, (∃ node ∈ run.state.nodes, node.phase = .running ∧ node.jobName = job.name) →
      isTerminalPhase out.state.phase = false ∧
        ∃ node ∈ run.state.nodes, node.phase = .running ∧ node.jobName = job.name := by
    rintro job ⟨node, inside, running, tracks⟩
    exact ⟨ran.goes_on unique shaped before.1 inside running, node, inside, running, tracks⟩
  obtain ⟨phase, message, completed, written⟩ := ran.rewritten
  have entryNodes : out.state.nodes = run.state.nodes := by rw [ran.concluded, concludeEntry_nodes]
  have cluster : out.client = run.client := by rw [ran.concluded, concludeEntry_client]
  refine ⟨?_, ?_, ?_, ?_, ?_⟩
  · simp only [entryNodes, names]
    exact ensure_unique ran.accepted.names unique
  · simpa only [entryNodes] using shapes
  · intro empty
    simp only [written] at empty
    exact absurd empty ran.triggered
  · intro job member
    rw [cluster]
    rcases List.mem_append.mp member with old | new
    · obtain ⟨jobNs, uid⟩ := tracked.known job old
      exact ⟨jobNs, uid.trans_le evolves.uids⟩
    · obtain ⟨jobNs, uid, -⟩ := ran.stored_running stores here unique new
      exact ⟨jobNs, uid⟩
  · intro job member
    simp only [cluster, entryNodes]
    rcases List.mem_append.mp member with old | new
    · obtain ⟨jobNs, uid⟩ := tracked.known job old
      rcases before.2 job old with finished | ⟨node, inside, running, tracks, faithful⟩
      · exact .inl (finished.evolves evolves uid)
      · rcases ran.still_running unique (jobNs.trans here.symm) inside running tracks faithful with finished | still
        · exact .inl (finished.evolves evolves uid)
        · exact .inr (goesOn job still)
    · obtain ⟨-, -, still⟩ := ran.stored_running stores here unique new
      exact .inr (goesOn job still)

theorem Tracked.step {event : LifeEvent} (tracked : Tracked ns w) (orderly : Orderly w event)
    (taken : (lifeMachine ext ns name).step w event w') : Tracked ns w' := by
  cases event with
  | change cluster =>
    obtain ⟨evolves, rfl⟩ := taken
    exact tracked.change evolves
  | drop =>
    obtain rfl := taken
    exact tracked.drop orderly
  | reconcile client ambient cert written =>
    obtain ⟨stores, here, -, result⟩ := taken
    obtain ⟨rfl, condition⟩ := orderly
    obtain ⟨out, performed, rfl⟩ := Option.map_eq_some_iff.mp result
    rcases perform_cases client ext performed with quiet | ⟨graph, base, run, ran⟩
    · have kept := tracked.quiet (fun going => (condition going).1) quiet
      simpa [quiet.calls] using kept
    · exact tracked.ran stores here (fun going => (condition going).2.1) (fun going => (condition going).2.2) ran

end

theorem clusterClient_storesJobs : StoresJobs clusterClient where
  owned answer := by
    cases answer
    exact ⟨rfl, rfl⟩
  created _ _ := .inl rfl

theorem sight_final {getJob : Except ApiError Job} {seen : Sight} (read : sight getJob = .ok seen)
    (final : seen.isFinal = true) {current : Job} (there : getJob = .ok current) : jobFinished current = true := by
  rw [there] at read
  obtain rfl := Except.ok.inj read
  unfold sightOf at final
  unfold jobFinished
  split at final
  · rename_i complete
    simp [complete]
  · split at final
    · rename_i failed
      simp [failed]
    · split at final <;> cases final

theorem clusterClient_endsRead (w : Life) (ns : String) : w.EndsRead (clusterClient.getJob w.cluster ns) ns := by
  intro node _ _ seen read final current there
  refine sight_final read.2 final ?_
  simp only [clusterClient, there]
  rfl

theorem report_evolves (cluster : Cluster) (node : String) {status : JobStatus}
    (final : ∀ job : Job, jobFinished { job with status := status } = true) :
    Evolves cluster (cluster.report node status) := by
  refine ⟨le_rfl, ?_⟩
  intro ns name job found
  obtain ⟨old, there, rfl⟩ := Option.map_eq_some_iff.mp found
  right
  split
  · exact ⟨old, there, rfl, fun _ => final old⟩
  · exact ⟨old, there, rfl, id⟩

theorem renew_evolves (cluster : Cluster) : Evolves cluster cluster.renew :=
  ⟨le_rfl, (Evolves.refl cluster).jobs⟩

def Life.turn (w : Life) : Option Life := w.reconcile plainExternal clusterClient stillClock webCertificate true

def Life.alter (change : Cluster → Cluster) (w : Life) : Life := { w with cluster := change w.cluster }

def Life.story (names : List String) (status : JobStatus) (allowed : Life → Bool) (check : Life → Bool) : Bool :=
  let first : Life := { cluster := sampleCluster (flatSpec names 2 .stopDownstream), entry := freshEntry "default" "web" }
  first.turn.any fun second => allowed first && (second.alter (Cluster.report "a" status)).turn.any fun last =>
    allowed (second.alter (Cluster.report "a" status)) && check (last.alter Cluster.renew)

theorem story_reached (ok : Life → LifeEvent → Prop) {names : List String} {status : JobStatus}
    {allowed check : Life → Bool} (final : ∀ job : Job, jobFinished { job with status := status } = true)
    (changes : ∀ w cluster, ok w (.change cluster))
    (turns : ∀ w, allowed w = true → ok w (.reconcile clusterClient stillClock webCertificate true))
    (told : Life.story names status allowed check = true) :
    ∃ w, (lifeMachine plainExternal "default" "web").Reached ok w ∧ check w = true := by
  have pass : ∀ {w w' : Life}, (lifeMachine plainExternal "default" "web").Reached ok w → allowed w = true →
      w.turn = some w' → (lifeMachine plainExternal "default" "web").Reached ok w' := by
    intro w w' reached fine turn
    exact reached.step (turns w fine) ⟨clusterClient_storesJobs, rfl, rfl, turn⟩
  obtain ⟨second, turn, told⟩ := (Option.any_eq_true _ _).mp told
  obtain ⟨fine, told⟩ := Bool.and_eq_true_iff.mp told
  obtain ⟨last, turn', told⟩ := (Option.any_eq_true _ _).mp told
  obtain ⟨fine', checked⟩ := Bool.and_eq_true_iff.mp told
  have opened := pass (.of_start ⟨rfl, rfl⟩) fine turn
  have reported := opened.step (changes _ _) ⟨report_evolves second.cluster "a" final, rfl⟩
  have closed := pass reported fine' turn'
  exact ⟨_, closed.step (changes _ _) ⟨renew_evolves last.cluster, rfl⟩, checked⟩

def Life.unfailed (w : Life) : Bool :=
  (ensureWorkflowNodeStates w.cluster.cjob w.entry.nodes).all fun node => node.phase ≠ .failed ∧
    (node.jobName = "" ∨ (w.cluster.jobs "default" node.jobName).any fun job => !isJobFailed job)

theorem unfailed_orderly {w : Life} (unfailed : w.unfailed = true) :
    Orderly w (.reconcile clusterClient stillClock webCertificate true) := by
  simp only [Life.unfailed, List.all_eq_true, decide_eq_true_eq] at unfailed
  refine ⟨rfl, fun _ => ⟨fun empty => absurd empty (by decide), clusterClient_endsRead w _, ?_⟩⟩
  rintro (⟨node, member, failed⟩ | ⟨-, node, member, -, seen, read, failure⟩)
  · exact absurd failed (unfailed node member).1
  · rcases (unfailed node member).2 with none | there
    · exact absurd none read.1
    · obtain ⟨job, found, healthy⟩ := (Option.any_eq_true _ _).mp there
      have result := read.2
      simp only [clusterClient, webCertificate, found, Option.elim_some, sight, sightOf, Except.ok.injEq] at result
      simp only [Bool.not_eq_true'] at healthy
      rw [← result, healthy] at failure
      split at failure
      · cases failure
      · simp only [Bool.false_eq_true, if_false] at failure
        split at failure <;> cases failure

end CertificateJobs
