import CertificateJobs.Runs.Rules

namespace CertificateJobs

/-- The Jobs of the API server with every state they went through, oldest first, and how much of it the cache of the
    manager's client has received. A Job starts out absent, and `none` is a deletion. -/
structure JobStore where
  versions : String → String → List (Option Job) := fun _ _ => []
  cached : String → String → Nat := fun _ _ => 0
  received : ∀ ns name, cached ns name ≤ (versions ns name).length := by simp

def JobStore.stateAt (store : JobStore) (ns name : String) (position : Nat) : Option Job :=
  (none :: store.versions ns name)[position]?.join

def JobStore.write (store : JobStore) (ns name : String) (version : Option Job) : JobStore where
  versions n m := if n = ns ∧ m = name then store.versions n m ++ [version] else store.versions n m
  cached := store.cached
  received n m := by
    have before := store.received n m
    split
    · rw [List.length_append]
      omega
    · exact before

def JobStore.deliver (store : JobStore) (ns name : String) (position : Nat)
    (bound : position ≤ (store.versions ns name).length) : JobStore where
  versions := store.versions
  cached n m := if n = ns ∧ m = name then position else store.cached n m
  received n m := by
    split
    · rename_i same
      rw [same.1, same.2]
      exact bound
    · exact store.received n m

/-- Reads of Jobs come from the cache, Create goes to the server. Everything else is up to `rest`, which also decides
    whether the server admits a Job and how it completes it; an owner reference leaves the name. -/
def cachedClient (rest : Client JobStore) : Client JobStore :=
  { rest with
    setControllerReference := fun store cjob job =>
      (rest.setControllerReference store cjob job).map fun owned => { owned with ns := job.ns, name := job.name }
    getJob := fun store ns name =>
      (store.stateAt ns name (store.cached ns name)).elim (notFound "jobs.batch" name) .ok
    createJob := fun store job =>
      match store.stateAt job.ns job.name (store.versions job.ns job.name).length with
      | some _ => (.error (.alreadyExists ("jobs.batch \"" ++ job.name ++ "\" already exists")), store)
      | none =>
        match (rest.createJob store job).1 with
        | .error e => (.error e, store)
        | .ok stored => (.ok stored, store.write job.ns job.name (some stored)) }

/-- A certificate's entry and the Jobs. `taken` says for each node with a Job which state of that name was the Job's when
    the node's run took it: the state that its Create wrote, or the one that a Get found. -/
structure CachedWorld where
  store : JobStore
  entry : CertificateExecutionState
  taken : String → Nat := fun _ => 0

inductive CacheEvent
  | deliver (ns name : String) (position : Nat)
  | write (ns name : String) (version : Option Job)
  | reconcile (rest : Client JobStore) (ambient : Ambient) (cjob : CertificateJob) (cert : Certificate)

section
variable (ext : External) (ns : String)

def CachedWorld.takes (w : CachedWorld) (starts : Bool) (out : EntryOutcome JobStore) (node : WorkflowNodeState) : Nat :=
  if out.calls.any fun call => call.node = node.name ∧ call.stored.isSome then
    (out.client.versions ns node.jobName).length
  else if starts = false ∧ w.entry.nodes.any fun old => old.name = node.name ∧ old.jobName ≠ "" then w.taken node.name
  else w.store.cached ns node.jobName

def CachedWorld.apply (w : CachedWorld) : CacheEvent → Option CachedWorld
  | .deliver jobNs name position =>
    if fits : w.store.cached jobNs name ≤ position ∧ position ≤ (w.store.versions jobNs name).length then
      some { w with store := w.store.deliver jobNs name position fits.2 }
    else none
  | .write jobNs name version => some { w with store := w.store.write jobNs name version }
  | .reconcile rest ambient cjob cert =>
    let pass : EntryPass JobStore := ⟨ambient, cjob, cert, w.store⟩
    if cert.ns = ns then
      (pass.perform (cachedClient rest) ext w.entry).map fun out =>
        { store := out.client
          entry := out.state
          taken := fun name => (out.state.nodes.find? (·.name = name)).elim 0
            (w.takes ns (pass.starts (cachedClient rest) ext w.entry) out) }
    else none

def cacheMachine : Machine CachedWorld CacheEvent :=
  .ofFun (fun w => w.entry.nodes = []) (CachedWorld.apply ext ns)

/-- Since the given state the Job that was there got its Failed condition, or was deleted, on the server. -/
def FailureReal (store : JobStore) (name : String) (since : Nat) : Prop :=
  ∃ job, store.stateAt ns name since = some job ∧ ∃ position, since ≤ position ∧
    position ≤ (store.versions ns name).length ∧
      ∀ current, store.stateAt ns name position = some current → current.uid = job.uid → isJobFailed current = true

/-- When a run is reconciled, the cache has received the Jobs that the run has taken. -/
def CreationsDelivered (w : CachedWorld) : CacheEvent → Prop
  | .reconcile _ _ _ _ => isTerminalPhase w.entry.phase = false → ∀ node ∈ w.entry.nodes, node.jobName ≠ "" →
      w.taken node.name ≤ w.store.cached ns node.jobName
  | .deliver _ _ _ | .write _ _ _ => True

instance (w : CachedWorld) : DecidablePred (CreationsDelivered ns w)
  | .reconcile _ _ _ _ => inferInstanceAs (Decidable (_ → _))
  | .deliver _ _ _ => .isTrue trivial
  | .write _ _ _ => .isTrue trivial

structure Honest (w : CachedWorld) : Prop where
  unique : (nodeNames w.entry.nodes).Nodup
  shaped : ∀ node ∈ w.entry.nodes, node.Shaped
  there : ∀ node ∈ w.entry.nodes, node.jobName ≠ "" →
    w.taken node.name ≤ (w.store.versions ns node.jobName).length ∧
      ∃ job, w.store.stateAt ns node.jobName (w.taken node.name) = some job
  real : ∀ node ∈ w.entry.nodes, node.phase = .failed → FailureReal ns w.store node.jobName (w.taken node.name)

end

def JobStore.Grows (before after : JobStore) : Prop :=
  ∀ ns name, ∃ more, after.versions ns name = before.versions ns name ++ more

theorem JobStore.Grows.refl (store : JobStore) : store.Grows store := fun _ _ => ⟨[], (List.append_nil _).symm⟩

theorem JobStore.Grows.trans {first second third : JobStore} (early : first.Grows second) (late : second.Grows third) :
    first.Grows third := by
  intro ns name
  obtain ⟨some, left⟩ := early ns name
  obtain ⟨more, right⟩ := late ns name
  exact ⟨some ++ more, by rw [right, left, List.append_assoc]⟩

theorem JobStore.write_grows (store : JobStore) (ns name : String) (version : Option Job) :
    store.Grows (store.write ns name version) := by
  intro n m
  by_cases same : n = ns ∧ m = name
  · exact ⟨[version], if_pos same⟩
  · exact ⟨[], (if_neg same).trans (List.append_nil _).symm⟩

theorem creates_grows {rest : Client JobStore} {before after : JobStore}
    (run : Creates (cachedClient rest) before after) : before.Grows after := by
  induction run with
  | refl => exact .refl before
  | tail _ step ih =>
    obtain ⟨job, rfl⟩ := step
    refine ih.trans ?_
    simp only [cachedClient]
    split
    · exact .refl _
    · split
      · exact .refl _
      · exact JobStore.write_grows _ _ _ _

theorem JobStore.Grows.stateAt {before after : JobStore} (growth : before.Grows after) {ns name : String} {position : Nat}
    (bound : position ≤ (before.versions ns name).length) :
    after.stateAt ns name position = before.stateAt ns name position := by
  obtain ⟨more, versions⟩ := growth ns name
  rw [JobStore.stateAt, JobStore.stateAt, versions, ← List.cons_append, List.getElem?_append_left]
  simpa using Nat.lt_succ_of_le bound

theorem JobStore.Grows.length {before after : JobStore} (growth : before.Grows after) (ns name : String) :
    (before.versions ns name).length ≤ (after.versions ns name).length := by
  obtain ⟨more, versions⟩ := growth ns name
  rw [versions, List.length_append]
  exact Nat.le_add_right _ _

theorem JobStore.stateAt_write (store : JobStore) (ns name : String) (job : Job) :
    (store.write ns name (some job)).stateAt ns name ((store.write ns name (some job)).versions ns name).length =
      some job := by
  simp [JobStore.stateAt, JobStore.write]

theorem creates_present {rest : Client JobStore} {before after : JobStore}
    (run : Creates (cachedClient rest) before after) {ns name : String} {job : Job}
    (present : before.stateAt ns name (before.versions ns name).length = some job) :
    after.versions ns name = before.versions ns name := by
  induction run with
  | refl => rfl
  | @tail middle _ _ step ih =>
    obtain ⟨other, rfl⟩ := step
    rw [← ih]
    simp only [cachedClient]
    split
    · rfl
    · rename_i absent
      split
      · rfl
      · refine if_neg ?_
        rintro ⟨rfl, rfl⟩
        rw [JobStore.stateAt, ih] at absent
        rw [JobStore.stateAt, absent] at present
        cases present

theorem creates_cached {rest : Client JobStore} {before after : JobStore}
    (run : Creates (cachedClient rest) before after) : after.cached = before.cached := by
  refine run.frame JobStore.cached fun store job => ?_
  simp only [cachedClient]
  split
  · rfl
  · split <;> rfl

theorem cachedClient_found {rest : Client JobStore} {store : JobStore} {ns name : String} {job : Job} :
    (cachedClient rest).getJob store ns name = .ok job ↔ store.stateAt ns name (store.cached ns name) = some job := by
  simp only [cachedClient]
  cases store.stateAt ns name (store.cached ns name) <;> simp [notFound]

section
variable {ext : External} {ns : String}

theorem FailureReal.grows {before after : JobStore} (growth : before.Grows after) {name : String} {since : Nat}
    (bound : since ≤ (before.versions ns name).length) (real : FailureReal ns before name since) :
    FailureReal ns after name since := by
  obtain ⟨job, there, position, later, received, ended⟩ := real
  refine ⟨job, (growth.stateAt bound).trans there, position, later, received.trans (growth.length ns name), ?_⟩
  rwa [growth.stateAt received]

theorem sightOf_failure {job : Job} (failure : (sightOf job).isFailure = true) : isJobFailed job = true := by
  unfold sightOf at failure
  split at failure
  · cases failure
  · split at failure
    · assumption
    · split at failure
      · cases failure
      · cases failure

/-- What the cache shows as failed or missing has failed or gone, if the cache is past the state that was taken. -/
theorem cached_failure_real {rest : Client JobStore} {store : JobStore} {node : WorkflowNodeState} {seen : Sight}
    {since : Nat} {job : Job} (there : store.stateAt ns node.jobName since = some job)
    (delivered : since ≤ store.cached ns node.jobName)
    (read : Seen ((cachedClient rest).getJob store ns) node seen) (failure : seen.isFailure = true) :
    FailureReal ns store node.jobName since := by
  refine ⟨job, there, store.cached ns node.jobName, delivered, store.received ns node.jobName, ?_⟩
  intro current found _
  have result := read.2
  rw [cachedClient_found.mpr found, sight, Except.ok.injEq] at result
  exact sightOf_failure (result ▸ failure)

section
variable {σ : Type} {c : Client σ} {ambient : Ambient} {cjob : CertificateJob} {certificate : Certificate}
  {state : CertificateExecutionState} {graph : GraphMaps} {s : σ} {out : RunOutcome σ}

theorem reconcileCertificateRun_made (accepted : Accepted cjob graph) (unique : (nodeNames state.nodes).Nodup)
    (result : reconcileCertificateRun c ambient cjob certificate state graph s = some out) {call : CreateCall}
    (member : call ∈ out.calls) : ∃ before after answer,
      CallMade c cjob certificate state.runID s out.client call before after answer := by
  rcases reconcileCertificateRun_cases accepted unique result with ⟨processed, stopped⟩ | ⟨active, names, started, done⟩
  · rw [stopped.noCalls] at member
    cases member
  · exact (done.calls call member).2.2

theorem reconcileCertificateRun_jobs (accepted : Accepted cjob graph) (unique : (nodeNames state.nodes).Nodup)
    (result : reconcileCertificateRun c ambient cjob certificate state graph s = some out) {after : WorkflowNodeState}
    (member : after ∈ out.state.nodes) (has : after.jobName ≠ "") :
    ∃ node ∈ ensureWorkflowNodeStates cjob state.nodes, node.name = after.name ∧
      ((node.jobName = after.jobName ∧ (∀ call ∈ out.calls, call.node ≠ after.name) ∧ (after.phase = .failed →
          node.phase = .failed ∨ ∃ seen, Seen (c.getJob s certificate.ns) node seen ∧ seen.isFailure = true)) ∨
        (node.jobName = "" ∧ after.jobName = buildJobName cjob.name certificate.name after.name state.runID ∧
          after.phase = .running ∧ JobTaken c cjob certificate state.runID s out.calls after.name)) := by
  have cause : ∀ {node : WorkflowNodeState} {seen : Sight} {now : Time}, Seen (c.getJob s certificate.ns) node seen →
      (writeSight now node seen).phase = .failed →
        node.phase = .failed ∨ ∃ seen, Seen (c.getJob s certificate.ns) node seen ∧ seen.isFailure = true := by
    intro node seen now read failed
    rcases writeSight_failed failed with failure | ⟨-, phase⟩
    · exact .inr ⟨seen, read, failure⟩
    · exact .inl phase
  rcases reconcileCertificateRun_cases accepted unique result with ⟨processed, stopped⟩ | ⟨active, names, started, done⟩
  · have silent : ∀ call ∈ out.calls, call.node ≠ after.name := by simp [stopped.noCalls]
    obtain ⟨node, present, rfl | ⟨seen, read, -, rfl⟩⟩ := stopped.origin member
    · exact ⟨after, present, rfl, .inl ⟨rfl, silent, .inl⟩⟩
    · exact ⟨node, present, (writeSight_name _ _).symm, .inl ⟨(writeSight_jobName _ _).symm, silent, cause read⟩⟩
  · have distinct := ensure_unique accepted.names unique
    obtain ⟨node, present, moves⟩ := done.origin distinct member
    refine ⟨node, present, moves.name.symm, ?_⟩
    cases moves with
    | seen seen read =>
      refine .inl ⟨(writeSight_jobName _ _).symm, fun call made same => ?_, cause read⟩
      obtain ⟨other, recorded, named, idle, -⟩ := done.call_node distinct made
      rw [writeSight_name] at same
      rw [node_eq_of_name distinct recorded present (named.trans same)] at idle
      exact read.1 idle
    | given idle => exact absurd idle has
    | start idle _ _ inside => exact .inr ⟨idle, rfl, rfl, done.taken node.name inside⟩
    | stay idle => exact absurd idle has

end

theorem Honest.grows {before : CachedWorld} {store : JobStore} (honest : Honest ns before)
    (growth : before.store.Grows store) : Honest ns { before with store := store } := by
  refine ⟨honest.unique, honest.shaped, ?_, ?_⟩
  · intro node member has
    obtain ⟨bound, there⟩ := honest.there node member has
    refine ⟨bound.trans (growth.length ns node.jobName), ?_⟩
    rwa [growth.stateAt bound]
  · intro node member failed
    exact (honest.real node member failed).grows growth
      (honest.there node member ((honest.shaped node member).started (.inr failed))).1

theorem cached_call {rest : Client JobStore} {cjob : CertificateJob} {cert : Certificate} {runID : String}
    {first final before after : JobStore} {call : CreateCall} {answer : Except ApiError Job}
    (made : CallMade (cachedClient rest) cjob cert runID first final call before after answer)
    (accepted : call.stored.isSome = true) : ∃ job, final.stateAt cert.ns
      (buildJobName cjob.name cert.name call.node runID)
      (final.versions cert.ns (buildJobName cjob.name cert.name call.node runID)).length = some job := by
  obtain ⟨stored, ok⟩ := Option.isSome_iff_exists.mp accepted
  rw [made.stored] at ok
  have created := made.created
  rw [ok_of_toOption ok] at created
  have home : call.job.ns = cert.ns ∧ call.job.name = buildJobName cjob.name cert.name call.node runID := by
    have owned := made.owned
    simp only [cachedClient] at owned
    cases set : rest.setControllerReference before cjob (assembleJob cjob cert call.node runID) with
    | error e =>
      rw [set] at owned
      cases owned
    | ok job =>
      rw [set] at owned
      rw [← Except.ok.inj owned]
      exact ⟨rfl, rfl⟩
  simp only [cachedClient, home.1, home.2] at created
  split at created
  · cases created
  · split at created
    · cases created
    · obtain ⟨-, rfl⟩ := Prod.mk.inj created
      have last := JobStore.stateAt_write before cert.ns (buildJobName cjob.name cert.name call.node runID)
      exact ⟨_, by rw [JobStore.stateAt, creates_present made.later (last _)]; exact last _⟩

theorem cached_found {rest : Client JobStore} {before after : JobStore} (creates : Creates (cachedClient rest) before after)
    {name : String} {job : Job} (found : (cachedClient rest).getJob after ns name = .ok job) :
    before.stateAt ns name (before.cached ns name) = some job := by
  have shown := cachedClient_found.mp found
  rwa [creates_cached creates, (creates_grows creates).stateAt (before.received ns name)] at shown

theorem find_of_mem {nodes : List WorkflowNodeState} (unique : (nodeNames nodes).Nodup) {node : WorkflowNodeState}
    (member : node ∈ nodes) : nodes.find? (·.name = node.name) = some node := by
  cases found : nodes.find? (·.name = node.name) with
  | none => simpa using List.find?_eq_none.mp found node member
  | some other =>
    have same : other.name = node.name := by simpa using List.find?_some found
    rw [node_eq_of_name unique (List.mem_of_find?_eq_some found) member same]

section
variable {w : CachedWorld} {rest : Client JobStore} {ambient : Ambient} {cjob : CertificateJob} {cert : Certificate}
  {out : EntryOutcome JobStore} {graph : GraphMaps} {base : CertificateExecutionState} {run : RunOutcome JobStore}

theorem Ran.recorded {c : Client JobStore} {pass : EntryPass JobStore} {entry : CertificateExecutionState}
    (ran : Ran c ext pass entry out graph base run) {node : WorkflowNodeState}
    (member : node ∈ ensureWorkflowNodeStates pass.cjob base.nodes) (has : node.jobName ≠ "") :
    pass.starts c ext entry = false ∧ node ∈ entry.nodes ∧ isTerminalPhase entry.phase = false := by
  have old : node ∈ base.nodes := by
    rcases mem_ensure member with old | ⟨name, -, -, rfl⟩
    · exact old
    · exact absurd rfl has
  cases starts : pass.starts c ext entry with
  | true =>
    rw [(ran.fresh starts).1] at old
    obtain ⟨name, -, rfl⟩ := mem_initial old
    exact absurd rfl has
  | false =>
    obtain ⟨message, rfl⟩ := ran.same starts
    exact ⟨rfl, old, ran.going⟩

theorem CachedWorld.takes_created {starts : Bool} {node : WorkflowNodeState} {call : CreateCall}
    (made : call ∈ out.calls) (same : call.node = node.name) (stored : call.stored.isSome = true) :
    w.takes ns starts out node = (out.client.versions ns node.jobName).length :=
  if_pos (List.any_eq_true.mpr ⟨call, made, decide_eq_true ⟨same, stored⟩⟩)

theorem CachedWorld.takes_recorded {node old : WorkflowNodeState} (silent : ∀ call ∈ out.calls, call.node ≠ node.name)
    (recorded : old ∈ w.entry.nodes) (named : old.name = node.name) (has : old.jobName ≠ "") :
    w.takes ns false out node = w.taken node.name := by
  rw [CachedWorld.takes, if_neg, if_pos]
  · exact ⟨rfl, List.any_eq_true.mpr ⟨old, recorded, decide_eq_true ⟨named, has⟩⟩⟩
  · rw [List.any_eq_true]
    rintro ⟨call, made, facts⟩
    exact silent call made (of_decide_eq_true facts).1

theorem CachedWorld.takes_found {starts : Bool} {node : WorkflowNodeState}
    (uncreated : ¬ ∃ call ∈ out.calls, call.node = node.name ∧ call.stored.isSome = true)
    (unrecorded : starts = false → ∀ old ∈ w.entry.nodes, old.name = node.name → old.jobName = "") :
    w.takes ns starts out node = w.store.cached ns node.jobName := by
  rw [CachedWorld.takes, if_neg, if_neg]
  · rintro ⟨continues, old⟩
    obtain ⟨old, recorded, facts⟩ := List.any_eq_true.mp old
    obtain ⟨named, has⟩ := of_decide_eq_true facts
    exact has (unrecorded continues old recorded named)
  · rw [List.any_eq_true]
    rintro ⟨call, made, facts⟩
    exact uncreated ⟨call, made, of_decide_eq_true facts⟩

theorem Honest.node (honest : Honest ns w) (here : cert.ns = ns)
    (delivered : CreationsDelivered ns w (.reconcile rest ambient cjob cert))
    (ran : Ran (cachedClient rest) ext ⟨ambient, cjob, cert, w.store⟩ w.entry out graph base run)
    {after : WorkflowNodeState} (member : after ∈ run.state.nodes) (has : after.jobName ≠ "") :
    let since := w.takes ns (EntryPass.starts (cachedClient rest) ext ⟨ambient, cjob, cert, w.store⟩ w.entry) out after
    (since ≤ (run.client.versions ns after.jobName).length ∧
      ∃ job, run.client.stateAt ns after.jobName since = some job) ∧
      (after.phase = .failed → FailureReal ns run.client after.jobName since) := by
  have unique := ran.unique honest.unique
  have distinct := ensure_unique ran.accepted.names unique
  have growth := creates_grows (reconcileCertificateRun_outline ran.result).1.1
  have calls : out.calls = run.calls := by rw [ran.concluded, concludeEntry_calls]
  have client : out.client = run.client := by rw [ran.concluded, concludeEntry_client]
  obtain ⟨node, present, named, ⟨same, silent, cause⟩ | ⟨idle, jobName, running, taken⟩⟩ :=
    reconcileCertificateRun_jobs ran.accepted unique ran.result member has
  · obtain ⟨continues, recorded, going⟩ := ran.recorded present (same ▸ has)
    obtain ⟨bound, job, there⟩ := honest.there node recorded (same ▸ has)
    simp only [continues, CachedWorld.takes_recorded (calls ▸ silent) recorded named (same ▸ has)]
    rw [← named, ← same]
    refine ⟨⟨bound.trans (growth.length ns node.jobName), job, (growth.stateAt bound).trans there⟩, fun failed => ?_⟩
    refine FailureReal.grows growth bound ?_
    rcases cause failed with phase | ⟨seen, read, failure⟩
    · exact honest.real node recorded phase
    · simp only [here] at read
      exact cached_failure_real there (delivered going node recorded read.1) read failure
  · refine ⟨?_, fun failed => by rw [running] at failed; cases failed⟩
    by_cases created : ∃ call ∈ out.calls, call.node = after.name ∧ call.stored.isSome = true
    · obtain ⟨call, made, node, stored⟩ := created
      rw [CachedWorld.takes_created made node stored, client]
      obtain ⟨_, _, _, how⟩ := reconcileCertificateRun_made ran.accepted unique ran.result (calls ▸ made)
      have last := cached_call how stored
      rw [node, ← jobName, here] at last
      exact ⟨le_rfl, last⟩
    · rw [CachedWorld.takes_found created]
      · rcases taken with ⟨t, job, reads, found⟩ | ⟨call, made, facts⟩
        · rw [← jobName] at found
          have shown := cached_found reads found
          simp only [here] at shown
          refine ⟨(w.store.received ns after.jobName).trans (growth.length ns after.jobName), job, ?_⟩
          exact (growth.stateAt (w.store.received ns after.jobName)).trans shown
        · exact absurd ⟨call, calls ▸ made, facts⟩ created
      · intro continues old recorded sameName
        obtain ⟨message, rfl⟩ := ran.same continues
        have inside : old ∈ ensureWorkflowNodeStates cjob w.entry.nodes := List.mem_append_left _ recorded
        rw [node_eq_of_name distinct inside present (sameName.trans named.symm)]
        exact idle

theorem Honest.reconcile (honest : Honest ns w) (here : cert.ns = ns)
    (delivered : CreationsDelivered ns w (.reconcile rest ambient cjob cert))
    (performed : EntryPass.perform (cachedClient rest) ext ⟨ambient, cjob, cert, w.store⟩ w.entry = some out) :
    Honest ns { store := out.client, entry := out.state,
                taken := fun name => (out.state.nodes.find? (·.name = name)).elim 0 (w.takes ns
                  (EntryPass.starts (cachedClient rest) ext ⟨ambient, cjob, cert, w.store⟩ w.entry) out) } := by
  rcases perform_cases _ ext performed with quiet | ⟨graph, base, run, ran⟩
  · obtain ⟨secretName, phase, message, completed, written⟩ := quiet.rewritten
    have kept : ∀ node ∈ w.entry.nodes, node.jobName ≠ "" → ((w.entry.nodes.find? (·.name = node.name)).elim 0
        (w.takes ns (EntryPass.starts (cachedClient rest) ext ⟨ambient, cjob, cert, w.store⟩ w.entry) out)) =
          w.taken node.name := by
      intro node member has
      rw [find_of_mem honest.unique member, Option.elim_some, CachedWorld.takes, if_neg (by simp [quiet.calls]), if_pos]
      exact ⟨quiet.noStart, List.any_eq_true.mpr ⟨node, member, decide_eq_true ⟨rfl, has⟩⟩⟩
    rw [quiet.client]
    simp only [written]
    refine ⟨honest.unique, honest.shaped, ?_, ?_⟩
    · intro node member has
      simp only [kept node member has]
      exact honest.there node member has
    · intro node member failed
      simp only [kept node member ((honest.shaped node member).started (.inr failed))]
      exact honest.real node member failed
  · have unique := ran.unique honest.unique
    obtain ⟨names, shapes, -⟩ := reconcileCertificateRun_keeps ran.accepted unique (ran.shaped honest.shaped) ran.result
    have distinct : (nodeNames run.state.nodes).Nodup := by
      rw [names]
      exact ensure_unique ran.accepted.names unique
    have nodes : out.state.nodes = run.state.nodes := by rw [ran.concluded, concludeEntry_nodes]
    have client : out.client = run.client := by rw [ran.concluded, concludeEntry_client]
    refine ⟨?_, ?_, ?_, ?_⟩
    · simp only [nodes]
      exact distinct
    · simpa only [nodes] using shapes
    · intro after member has
      simp only [nodes, client] at member ⊢
      rw [find_of_mem distinct member]
      exact (honest.node here delivered ran member has).1
    · intro after member failed
      simp only [nodes, client] at member ⊢
      rw [find_of_mem distinct member]
      exact (honest.node here delivered ran member ((shapes after member).started (.inr failed))).2 failed

end

theorem Honest.step {w w' : CachedWorld} {event : CacheEvent} (honest : Honest ns w)
    (delivered : CreationsDelivered ns w event) (taken : (cacheMachine ext ns).step w event w') : Honest ns w' := by
  cases event with
  | deliver jobNs name position =>
    simp only [cacheMachine, Machine.ofFun, CachedWorld.apply] at taken
    split at taken
    · obtain rfl := Option.some.inj taken
      exact honest.grows (.refl w.store)
    · cases taken
  | write jobNs name version =>
    obtain rfl := Option.some.inj taken
    exact honest.grows (JobStore.write_grows _ _ _ _)
  | reconcile rest ambient cjob cert =>
    simp only [cacheMachine, Machine.ofFun, CachedWorld.apply] at taken
    split at taken
    · rename_i here
      obtain ⟨out, performed, rfl⟩ := Option.map_eq_some_iff.mp taken
      exact honest.reconcile here delivered performed
    · cases taken

end

theorem failed_node_failed_really (ext : External) (ns : String) (w : CachedWorld)
    (reached : (cacheMachine ext ns).Reached (CreationsDelivered ns) w) :
    ∀ node ∈ w.entry.nodes, node.phase = .failed → FailureReal ns w.store node.jobName (w.taken node.name) := by
  have honest := reached.invariant (Honest ns) ?_ fun _ _ _ before delivered taken => before.step delivered taken
  · exact honest.real
  · intro first empty
    simp only [cacheMachine, Machine.ofFun] at empty
    refine ⟨?_, ?_, ?_, ?_⟩ <;> simp [empty, nodeNames]

def Cluster.objects (cluster : Cluster) : Client JobStore where
  getCertificateJob _ := clusterClient.getCertificateJob cluster
  listCertificates _ := clusterClient.listCertificates cluster
  getSecret _ := clusterClient.getSecret cluster
  getJob _ := clusterClient.getJob cluster
  setControllerReference _ := clusterClient.setControllerReference cluster
  createJob store job := (.ok job, store)
  updateStatus store _ := (none, store)

def singleNode : Cluster := sampleCluster (flatSpec ["a"] 1 .stopDownstream)

def reconcileSingle (_ : CachedWorld) : CacheEvent :=
  .reconcile singleNode.objects singleNode.pass.ambient singleNode.cjob singleNode.pass.cert

def CachedWorld.jobName (w : CachedWorld) : String := (w.entry.nodes.map (·.jobName)).headD ""

def deliverAll (w : CachedWorld) : CacheEvent :=
  .deliver "default" w.jobName (w.store.versions "default" w.jobName).length

def reportFailed (w : CachedWorld) : CacheEvent :=
  .write "default" w.jobName (((w.store.versions "default" w.jobName).getLastD none).map ({ · with status := failedStatus }))

def newWorld : CachedWorld where
  store := {}
  entry := { ns := "default", name := "web", phase := .pending }

theorem failed_node_failed_really_when_reported :
    ∃ w node, (cacheMachine plainExternal "default").Reached (CreationsDelivered "default") w ∧
      node ∈ w.entry.nodes ∧ node.phase = .failed ∧ FailureReal "default" w.store node.jobName (w.taken node.name) := by
  have played : (Machine.play (CachedWorld.apply plainExternal "default")
      (fun w event => decide (CreationsDelivered "default" w event)) newWorld
      [reconcileSingle, deliverAll, reportFailed, deliverAll, reconcileSingle]).any
      (fun w => w.entry.nodes.map (·.phase) = [.failed]) = true := by
    decide +kernel
  obtain ⟨w, run, phases⟩ := (Option.any_eq_true _ _).mp played
  have reached : (cacheMachine plainExternal "default").Reached (CreationsDelivered "default") w :=
    ⟨newWorld, rfl, Machine.play_leads (fun _ _ => of_decide_eq_true) _ run⟩
  have listed : ExecutionPhase.failed ∈ w.entry.nodes.map (·.phase) := by simp [of_decide_eq_true phases]
  obtain ⟨node, member, failed⟩ := List.mem_map.mp listed
  exact ⟨w, node, reached, member, failed, failed_node_failed_really plainExternal "default" w reached node member failed⟩

/-- Two passes in a row, the second before the cache has heard of the Job that the first created: the node is Failed
    while its Job is as it was created. -/
theorem failed_node_without_failure :
    ∃ w node, (cacheMachine plainExternal "default").Reached (fun _ _ => True) w ∧
      node ∈ w.entry.nodes ∧ node.phase = .failed ∧
      ¬ FailureReal "default" w.store node.jobName (w.taken node.name) := by
  have played : (Machine.play (CachedWorld.apply plainExternal "default") (fun _ _ => true) newWorld
      [reconcileSingle, reconcileSingle]).any
      (fun w => w.entry.nodes.map (·.phase) = [.failed] ∧ ∀ node ∈ w.entry.nodes, w.taken node.name = 1 ∧
        (w.store.versions "default" node.jobName).length = 1 ∧
          (w.store.stateAt "default" node.jobName 1).any fun job => !isJobFailed job) = true := by
    decide +kernel
  obtain ⟨w, run, checked⟩ := (Option.any_eq_true _ _).mp played
  obtain ⟨phases, untouched⟩ := of_decide_eq_true checked
  have listed : ExecutionPhase.failed ∈ w.entry.nodes.map (·.phase) := by simp [phases]
  obtain ⟨node, member, failed⟩ := List.mem_map.mp listed
  refine ⟨w, node, ⟨newWorld, rfl, Machine.play_leads (fun _ _ _ => trivial) _ run⟩, member, failed, ?_⟩
  obtain ⟨taken, single, healthy⟩ := untouched node member
  obtain ⟨job, there, fine⟩ := (Option.any_eq_true _ _).mp healthy
  rw [taken]
  rintro ⟨first, found, position, later, received, ended⟩
  obtain rfl : position = 1 := by omega
  obtain rfl := Option.some.inj (there.symm.trans found)
  simp [ended job there rfl] at fine

end CertificateJobs
