import CertificateJobs.Runs.Clock
import CertificateJobs.Runs.Isolation

namespace CertificateJobs

/-- What is read after a reconcile whose status was lost: the Jobs that it created are found, and nothing else has
    changed. -/
structure CaughtUp {σ : Type} (c : Client σ) (s t : σ) (calls : List CreateCall) : Prop where
  created : ∀ call ∈ calls, ∃ job, c.getJob t call.job.ns call.job.name = .ok job
  others : ∀ ns name, (∀ call ∈ calls, ¬ (ns = call.job.ns ∧ name = call.job.name)) →
    sight (c.getJob t ns name) = sight (c.getJob s ns name)
  secrets : c.getSecret t = c.getSecret s
  certificates : c.listCertificates t = c.listCertificates s

section
variable {policy : FailurePolicy} {nodes : List WorkflowNodeState} {deps : NodeLists}

theorem runnableAmong_sublist {names runnable : List String} (selected : runnableAmong policy nodes deps names = some runnable) :
    runnable.Sublist names := by
  induction names generalizing runnable with
  | nil =>
    obtain rfl := Option.some.inj selected
    exact .refl _
  | cons name rest ih =>
    obtain ⟨node, -, selected⟩ := Option.bind_eq_some_iff.mp selected
    obtain ⟨runs, -, selected⟩ := Option.bind_eq_some_iff.mp selected
    obtain ⟨others, later, result⟩ := Option.bind_eq_some_iff.mp selected
    obtain rfl := Option.some.inj result
    split
    · exact (ih later).cons_cons name
    · exact (ih later).cons name

theorem runnableNodes_names {order : MapOrder} {runnable : List String}
    (selected : runnableNodes order policy nodes deps = some runnable) :
    runnable.Nodup ∧ ∀ name ∈ runnable, name ∈ nodeNames nodes := by
  have part := runnableAmong_sublist selected
  refine ⟨((order.perm _).nodup_iff.mpr (nodeStateMap nodes).nodupKeys).sublist part, fun name member => ?_⟩
  have visited := part.subset member
  rwa [MapOrder.mem_visit, ← AList.mem_keys, mem_nodeStateMap] at visited

end

section
variable {σ Object : Type} {c : Client σ} (view : PerObject c Object) (cjob : CertificateJob) (certificate : Certificate)
  (runID : String) {s t : σ}

theorem provideJob_found {nodeName : String}
    (holds : view.Holds t certificate.ns (buildJobName cjob.name certificate.name nodeName runID))
    (nodes : List WorkflowNodeState) : provideJob c cjob certificate runID nodeName nodes t = (none, [], t) := by
  obtain ⟨kind, seen, there⟩ := holds
  rcases provideJob_cases view cjob certificate runID nodeName nodes t with
    ⟨e, unread, -⟩ | ⟨-, round⟩ | ⟨missing, -⟩
  · rw [seen] at unread
    cases unread
  · exact round
  · rw [seen] at missing
    exact absurd (Except.ok.inj missing) there

include view in
theorem provideJob_call {nodeName : String} {nodes : List WorkflowNodeState} {call : CreateCall}
    (sent : call ∈ (provideJob c cjob certificate runID nodeName nodes s).2.1) :
    call.job.ns = certificate.ns ∧ call.job.name = buildJobName cjob.name certificate.name nodeName runID := by
  rcases provideJob_cases view cjob certificate runID nodeName nodes s with
    ⟨e, -, round⟩ | ⟨-, round⟩ | ⟨-, ⟨e, -, round⟩ | ⟨job, owned, round⟩⟩
  · rw [round] at sent
    cases sent
  · rw [round] at sent
    cases sent
  · rw [round] at sent
    cases sent
  · rw [round] at sent
    rw [List.mem_singleton.mp sent]
    exact view.addressed s cjob _ job owned

theorem provideJob_again {nodeName : String} {nodes : List WorkflowNodeState} {e : Option ApiError}
    {calls : List CreateCall} {after : σ} (round : provideJob c cjob certificate runID nodeName nodes s = (e, calls, after))
    (accepted : ∀ call ∈ calls, call.stored.isSome = true)
    (created : ∀ call ∈ calls, view.Holds t call.job.ns call.job.name)
    (same : calls = [] → view.seen (view.object t certificate.ns (buildJobName cjob.name certificate.name nodeName runID)) =
      view.seen (view.object s certificate.ns (buildJobName cjob.name certificate.name nodeName runID))) :
    provideJob c cjob certificate runID nodeName nodes t = (e, [], t) := by
  have reread := view.get t certificate.ns (buildJobName cjob.name certificate.name nodeName runID)
  rcases provideJob_cases view cjob certificate runID nodeName nodes s with
    ⟨e', unread, made⟩ | ⟨holds, made⟩ | ⟨missing, ⟨e', unowned, made⟩ | ⟨job, owned, made⟩⟩
  · obtain ⟨rfl, rfl, -⟩ : some e' = e ∧ [] = calls ∧ s = after := by simpa [made] using round
    rw [provideJob_sight, reread, same rfl, unread]
  · obtain ⟨rfl, rfl, -⟩ : none = e ∧ [] = calls ∧ s = after := by simpa [made] using round
    refine provideJob_found view cjob certificate runID ?_ nodes
    rw [PerObject.Holds, same rfl]
    exact holds
  · obtain ⟨rfl, rfl, -⟩ : some e' = e ∧ [] = calls ∧ s = after := by simpa [made] using round
    rw [provideJob_sight, reread, same rfl, missing]
    simp only [sendJob, view.owner s t cjob cjob.status, unowned]
  · have parts := made.symm.trans round
    rw [Prod.mk.injEq, Prod.mk.injEq] at parts
    obtain ⟨rfl, rfl, -⟩ := parts
    have stored := accepted _ List.mem_cons_self
    have there := created _ List.mem_cons_self
    rw [(view.addressed s cjob _ job owned).1, (view.addressed s cjob _ job owned).2] at there
    rw [refusal_none, Option.isNone_iff_eq_none] at stored
    rw [stored]
    exact provideJob_found view cjob certificate runID there nodes

theorem scheduleNodes_names {now : Time} {names : List String} {slots : Int} {nodes : List WorkflowNodeState}
    {out : Scheduling σ} (result : scheduleNodes c cjob certificate runID now names slots nodes s = some out) :
    nodeNames out.nodes = nodeNames nodes := by
  induction names generalizing slots nodes s out with
  | nil =>
    obtain rfl := Option.some.inj result
    rfl
  | cons node rest ih =>
    rcases scheduleNodes_cons cjob certificate runID result with
      ⟨-, rfl⟩ | ⟨-, e, calls, after, -, rfl⟩ | ⟨-, calls, after, next, later, -, marked, scheduled, rfl⟩
    · rfl
    · rfl
    · exact (ih scheduled).trans (updateNode_names marked fun _ => rfl)

theorem scheduleNodes_again (now : Time) (names : List String)
    (distinct : (names.map fun node => buildJobName cjob.name certificate.name node runID).Nodup) (slots : Int)
    (nodes : List WorkflowNodeState) {out : Scheduling σ}
    (result : scheduleNodes c cjob certificate runID now names slots nodes s = some out)
    (accepted : ∀ call ∈ out.calls, call.stored.isSome = true)
    (created : ∀ call ∈ out.calls, view.Holds t call.job.ns call.job.name)
    (same : ∀ node ∈ names, (∀ call ∈ out.calls, ¬ (certificate.ns = call.job.ns ∧
      buildJobName cjob.name certificate.name node runID = call.job.name)) →
        view.seen (view.object t certificate.ns (buildJobName cjob.name certificate.name node runID)) =
          view.seen (view.object s certificate.ns (buildJobName cjob.name certificate.name node runID))) :
    scheduleNodes c cjob certificate runID now names slots nodes t = some ⟨out.nodes, out.err, [], t⟩ := by
  induction names generalizing slots nodes s out with
  | nil =>
    obtain rfl := Option.some.inj result
    rfl
  | cons node rest ih =>
    obtain ⟨apart, distinct⟩ := List.nodup_cons.mp distinct
    rw [scheduleNodes]
    rcases scheduleNodes_cons cjob certificate runID result with
      ⟨full, rfl⟩ | ⟨free, e, calls, after, round, rfl⟩ | ⟨free, calls, after, next, later, round, marked, scheduled, rfl⟩
    · rw [if_pos full]
    · have again := provideJob_again view cjob certificate runID round accepted created
        fun empty => same node List.mem_cons_self (by simp [empty])
      rw [if_neg free, again]
    · obtain ⟨accepted, acceptedLater⟩ := List.forall_mem_append.mp accepted
      obtain ⟨created, createdLater⟩ := List.forall_mem_append.mp created
      have sent : ∀ call ∈ calls, call.job.ns = certificate.ns ∧
          call.job.name = buildJobName cjob.name certificate.name node runID := by
        intro call member
        exact provideJob_call view cjob certificate runID (by rw [round]; exact member)
      have again : provideJob c cjob certificate runID node nodes t = (none, [], t) := by
        by_cases touched : ∃ call ∈ later.calls, certificate.ns = call.job.ns ∧
            buildJobName cjob.name certificate.name node runID = call.job.name
        · obtain ⟨call, member, ns, name⟩ := touched
          refine provideJob_found view cjob certificate runID ?_ nodes
          rw [ns, name]
          exact createdLater call member
        · refine provideJob_again view cjob certificate runID round accepted created fun empty => ?_
          refine same node List.mem_cons_self fun call member => ?_
          rw [empty, List.nil_append] at member
          exact fun here => touched ⟨call, member, here⟩
      have others := ih distinct (slots - 1) next scheduled acceptedLater createdLater (by
        intro other member untouched
        have foreign : buildJobName cjob.name certificate.name other runID ≠
            buildJobName cjob.name certificate.name node runID := by
          intro equal
          exact apart (List.mem_map.mpr ⟨other, member, equal⟩)
        have kept : view.object _ certificate.ns _ = _ :=
          provideJob_others view cjob certificate runID node nodes s foreign
        rw [round] at kept
        rw [kept]
        refine same other (List.mem_cons_of_mem _ member) fun call made here => ?_
        rcases List.mem_append.mp made with first | later
        · exact foreign (here.2.trans (sent call first).2)
        · exact untouched call later here)
      rw [if_neg free, again]
      simp [marked, others]

end

def RunOutcome.again {σ : Type} (run : RunOutcome σ) (t : σ) : RunOutcome σ := { run with calls := [], client := t }

def EntryOutcome.again {σ : Type} (out : EntryOutcome σ) (t : σ) : EntryOutcome σ := { out with calls := [], client := t }

section
variable {σ Object : Type} {c : Client σ} (view : PerObject c Object) {ext : External} {ambient : Ambient}
  {cjob : CertificateJob} {cert : Certificate} {s t : σ}

theorem fillSlots_again {order : MapOrder} {runID : String} {nodes : List WorkflowNodeState}
    {deps : NodeLists} {slots : Int} {now : Time} {out : Scheduling σ}
    (result : fillSlots c order cjob cert runID nodes deps slots now s = some out)
    (apart : ∀ name ∈ nodeNames out.nodes, ∀ other ∈ nodeNames out.nodes, name ≠ other →
      buildJobName cjob.name cert.name name runID ≠ buildJobName cjob.name cert.name other runID)
    (accepted : ∀ call ∈ out.calls, call.stored.isSome = true)
    (created : ∀ call ∈ out.calls, view.Holds t call.job.ns call.job.name)
    (same : ∀ node, (∀ call ∈ out.calls, ¬ (cert.ns = call.job.ns ∧
      buildJobName cjob.name cert.name node runID = call.job.name)) →
        view.seen (view.object t cert.ns (buildJobName cjob.name cert.name node runID)) =
          view.seen (view.object s cert.ns (buildJobName cjob.name cert.name node runID))) :
    fillSlots c order cjob cert runID nodes deps slots now t = some ⟨out.nodes, out.err, [], t⟩ := by
  unfold fillSlots at result ⊢
  split at result
  · rename_i free
    obtain ⟨runnable, selected, scheduled⟩ := Option.bind_eq_some_iff.mp result
    obtain ⟨once, known⟩ := runnableNodes_names selected
    rw [scheduleNodes_names cjob cert runID scheduled] at apart
    have distinct : ((runnable.insertionSort (· ≤ ·)).map fun node => buildJobName cjob.name cert.name node runID).Nodup := by
      refine List.Nodup.map_on ?_ ((List.perm_insertionSort _ _).nodup_iff.mpr once)
      intro name member other member' equal
      by_contra different
      exact apart name (known name ((List.mem_insertionSort _).mp member)) other
        (known other ((List.mem_insertionSort _).mp member')) different equal
    rw [if_pos free, scheduleRunnableNodes, selected]
    exact scheduleNodes_again view cjob cert runID now _ distinct slots nodes scheduled accepted created
      fun node _ => same node
  · rename_i full
    obtain rfl := Option.some.inj result
    rw [if_neg full]

theorem reconcileCertificateRun_again {state : CertificateExecutionState} {graph : GraphMaps}
    {run : RunOutcome σ} (result : reconcileCertificateRun c ambient cjob cert state graph s = some run)
    (apart : ∀ name ∈ nodeNames run.state.nodes, ∀ other ∈ nodeNames run.state.nodes, name ≠ other →
      buildJobName cjob.name cert.name name state.runID ≠ buildJobName cjob.name cert.name other state.runID)
    (accepted : ∀ call ∈ run.calls, call.stored.isSome = true)
    (created : ∀ call ∈ run.calls, view.Holds t call.job.ns call.job.name)
    (recorded : ∀ node ∈ state.nodes, node.jobName ≠ "" →
      view.seen (view.object t cert.ns node.jobName) = view.seen (view.object s cert.ns node.jobName))
    (same : ∀ node, (∀ call ∈ run.calls, ¬ (cert.ns = call.job.ns ∧
      buildJobName cjob.name cert.name node state.runID = call.job.name)) →
        view.seen (view.object t cert.ns (buildJobName cjob.name cert.name node state.runID)) =
          view.seen (view.object s cert.ns (buildJobName cjob.name cert.name node state.runID))) :
    reconcileCertificateRun c ambient cjob cert state graph t = some (run.again t) := by
  have reads : ∀ node ∈ ensureWorkflowNodeStates cjob state.nodes, node.jobName ≠ "" →
      sight (c.getJob t cert.ns node.jobName) = sight (c.getJob s cert.ns node.jobName) := by
    intro node member has
    rcases mem_ensure member with old | ⟨name, -, -, rfl⟩
    · rw [view.get, view.get, recorded node old has]
    · exact absurd rfl has
  have seen := observe_congr (ambient.clock (.certificateRun cert.name)) _ reads
  simp only [reconcileCertificateRun, seen] at result ⊢
  generalize observeWorkflowNodeJobs (c.getJob s cert.ns) (ambient.clock (.certificateRun cert.name))
    (ensureWorkflowNodeStates cjob state.nodes) = observation at result ⊢
  cases failure : observation.err with
  | some e =>
    simp only [failure] at result
    obtain rfl := Option.some.inj result
    rfl
  | none =>
    simp only [failure] at result
    obtain ⟨remaining, policy, result⟩ := Option.bind_eq_some_iff.mp result
    obtain ⟨scheduling, filled, result⟩ := Option.bind_eq_some_iff.mp result
    obtain rfl := Option.some.inj result
    have nodes : (concludeRun (ambient.clock (.certificateRun cert.name)) state observation.sightings scheduling).state.nodes =
        scheduling.nodes := by
      unfold concludeRun
      cases scheduling.err <;> rfl
    rw [concludeRun_calls] at accepted created same
    rw [nodes] at apart
    have again := fillSlots_again view filled apart accepted created same
    simp only [policy, again, Option.bind_eq_bind, Option.bind_some]
    unfold concludeRun
    cases scheduling.err with
    | some e => rfl
    | none => rfl

omit view in
theorem waitForInput_again (entry : CertificateExecutionState) (message : String) :
    waitForInput cert entry message t = (waitForInput cert entry message s).again t := by
  unfold waitForInput
  split <;> rfl

theorem reconcileInput_again {entry : CertificateExecutionState} {workflowCtx : WorkflowContext}
    {hash : String} {out : EntryOutcome σ}
    (result : reconcileInput c ambient cjob cert entry workflowCtx hash s = some out)
    (apart : ∀ name ∈ nodeNames out.state.nodes, ∀ other ∈ nodeNames out.state.nodes, name ≠ other →
      buildJobName cjob.name cert.name name out.state.runID ≠ buildJobName cjob.name cert.name other out.state.runID)
    (accepted : ∀ call ∈ out.calls, call.stored.isSome = true)
    (created : ∀ call ∈ out.calls, view.Holds t call.job.ns call.job.name)
    (recorded : ∀ node ∈ entry.nodes, node.jobName ≠ "" →
      view.seen (view.object t cert.ns node.jobName) = view.seen (view.object s cert.ns node.jobName))
    (same : ∀ node runID, (∀ call ∈ out.calls, ¬ (cert.ns = call.job.ns ∧
      buildJobName cjob.name cert.name node runID = call.job.name)) →
        view.seen (view.object t cert.ns (buildJobName cjob.name cert.name node runID)) =
          view.seen (view.object s cert.ns (buildJobName cjob.name cert.name node runID))) :
    reconcileInput c ambient cjob cert entry workflowCtx hash t = some (out.again t) := by
  -- A run that starts here records no Job yet; one that goes on records those of the entry.
  have records : ∀ node ∈ (applyInputHashTransition cjob cert entry hash workflowCtx.now).nodes, node.jobName ≠ "" →
      view.seen (view.object t cert.ns node.jobName) = view.seen (view.object s cert.ns node.jobName) := by
    intro node member has
    rcases applyInputHashTransition_cases cjob cert entry hash workflowCtx.now with
      ⟨-, nodes, -⟩ | ⟨-, message, kept⟩
    · rw [nodes] at member
      obtain ⟨name, -, rfl⟩ := mem_initial member
      exact absurd rfl has
    · rw [kept] at member
      exact recorded node member has
  simp only [reconcileInput] at result ⊢
  generalize applyInputHashTransition cjob cert entry hash workflowCtx.now = base at result records ⊢
  split at result
  · rename_i ended
    obtain rfl := Option.some.inj result
    rw [if_pos ended]
    rfl
  · rename_i going
    obtain ⟨run, ran, rfl⟩ := Option.map_eq_some_iff.mp result
    rw [concludeEntry_calls] at accepted created
    simp only [concludeEntry_calls] at same
    rw [concludeEntry_nodes, concludeEntry_runID ran] at apart
    rw [if_neg going, reconcileCertificateRun_again view ran apart accepted created records fun node => same node base.runID]
    simp only [Option.map_some, concludeEntry, RunOutcome.again]
    cases run.err with
    | some e => rfl
    | none => rfl

/-- A pass once more, where it finds what it left: it comes to the same and sends nothing. -/
theorem perform_again {entry : CertificateExecutionState} {out : EntryOutcome σ}
    (performed : EntryPass.perform c ext ⟨ambient, cjob, cert, s⟩ entry = some out)
    (apart : ∀ name ∈ nodeNames out.state.nodes, ∀ other ∈ nodeNames out.state.nodes, name ≠ other →
      buildJobName cjob.name cert.name name out.state.runID ≠ buildJobName cjob.name cert.name other out.state.runID)
    (accepted : ∀ call ∈ out.calls, call.stored.isSome = true)
    (created : ∀ call ∈ out.calls, view.Holds t call.job.ns call.job.name)
    (secret : c.getSecret t = c.getSecret s)
    (recorded : ∀ node ∈ entry.nodes, node.jobName ≠ "" →
      view.seen (view.object t cert.ns node.jobName) = view.seen (view.object s cert.ns node.jobName))
    (same : ∀ node runID, (∀ call ∈ out.calls, ¬ (cert.ns = call.job.ns ∧
      buildJobName cjob.name cert.name node runID = call.job.name)) →
        view.seen (view.object t cert.ns (buildJobName cjob.name cert.name node runID)) =
          view.seen (view.object s cert.ns (buildJobName cjob.name cert.name node runID))) :
    EntryPass.perform c ext ⟨ambient, cjob, cert, t⟩ entry = some (out.again t) := by
  obtain ⟨workflowCtx, context, performed⟩ := Option.bind_eq_some_iff.mp performed
  simp only [EntryPass.perform, context, Option.bind_some, reconcileObservedCertificate, secret] at performed ⊢
  split at performed
  · rename_i unnamed
    obtain rfl := Option.some.inj performed
    rw [if_pos unnamed]
    rfl
  · rename_i named
    rw [if_neg named]
    cases read : c.getSecret s cert.ns cert.spec.secretName with
    | error e =>
      simp only [read] at performed
      obtain rfl := Option.some.inj performed
      exact congrArg some (waitForInput_again entry _)
    | ok found =>
      simp only [read] at performed
      cases hashed : buildInputHash ext cert found workflowCtx.workflowSpecHash with
      | error e =>
        simp only [hashed] at performed
        obtain rfl := Option.some.inj performed
        simp only [hashed]
        exact congrArg some (waitForInput_again entry _)
      | ok hash =>
        simp only [hashed] at performed ⊢
        exact reconcileInput_again view performed apart accepted created recorded same

end

section
variable {σ : Type} {s t : σ}

theorem Chained.front {before after : List (Visit σ)} {visit : Visit σ} (chained : Chained s (before ++ visit :: after) t) :
    Chained s before visit.client := by
  induction before generalizing s with
  | nil => exact chained.1
  | cons first before ih => exact ⟨chained.1, ih chained.2⟩

theorem Chained.leaves {α : Type} (read : σ → α) {visits : List (Visit σ)} (chained : Chained s visits t)
    (steps : ∀ visit ∈ visits, read visit.out.client = read visit.client) : read t = read s := by
  induction visits generalizing s with
  | nil => rw [show t = s from chained]
  | cons first rest ih =>
    obtain ⟨rfl, chained⟩ := chained
    rw [ih chained fun visit later => steps visit (List.mem_cons_of_mem _ later)]
    exact steps first List.mem_cons_self

def Visit.again (visit : Visit σ) (t : σ) : Visit σ := ⟨visit.cert, t, visit.out.again t⟩

def Sweep.again (sweep : Sweep σ) (t : σ) : Sweep σ := { sweep with calls := [], client := t }

def Sweep.recordAll (sweep : Sweep σ) (visits : List (Visit σ)) : Sweep σ :=
  visits.foldl (fun sweep visit => sweep.record visit.cert visit.out) sweep

theorem Sweep.recordAll_again (sweep : Sweep σ) (visits : List (Visit σ)) (t : σ) :
    (sweep.again t).recordAll (visits.map (·.again t)) = (sweep.recordAll visits).again t := by
  induction visits generalizing sweep with
  | nil => rfl
  | cons visit rest ih =>
    have first : (sweep.again t).record (visit.again t).cert (visit.again t).out =
      (sweep.record visit.cert visit.out).again t := rfl
    simp only [Sweep.recordAll, List.map_cons, List.foldl_cons, first] at ih ⊢
    exact ih _

variable {c : Client σ} {ext : External} {ambient : Ambient} {cjob : CertificateJob}

theorem Sweep.Indexed.recorded {workflowCtx : WorkflowContext} {sweep last : Sweep σ} (certs : List Certificate)
    (indexed : sweep.Indexed) (context : buildWorkflowContext ext ambient cjob = .ok workflowCtx)
    (distinct : (certs.map (·.key)).Nodup)
    (loop : certs.foldlM (sweepCertificate c ext ambient cjob workflowCtx) sweep = some last) :
    ∃ visits, visits.map (·.cert) = certs ∧ Swept c ext ambient cjob sweep visits last ∧ last = sweep.recordAll visits := by
  induction certs generalizing sweep with
  | nil =>
    obtain rfl := Option.some.inj loop
    exact ⟨[], rfl, .refl sweep, rfl⟩
  | cons cert rest ih =>
    obtain ⟨fresh, distinct⟩ := List.nodup_cons.mp distinct
    rw [List.foldlM_cons] at loop
    obtain ⟨next, round, loop⟩ := Option.bind_eq_some_iff.mp loop
    obtain ⟨out, performed, key, after, rfl⟩ := indexed.step context round
    obtain ⟨visits, names, swept, made⟩ := ih after distinct loop
    have unvisited : cert.key ∉ visits.map (·.cert.key) := by
      rw [← names, List.map_map] at fresh
      exact fresh
    exact ⟨⟨cert, sweep.client, out⟩ :: visits, by rw [List.map_cons, names], swept.cons performed key unvisited, made⟩

theorem visits_again {observed : List CertificateExecutionState} {visits visits' : List (Visit σ)} {t' : σ}
    (repeats : ∀ visit ∈ visits, EntryPass.perform c ext ⟨ambient, cjob, visit.cert, t⟩
      (currentEntry observed visit.cert) = some (visit.out.again t))
    (certs : visits'.map (·.cert) = visits.map (·.cert)) (chained : Chained t visits' t')
    (performed : ∀ visit ∈ visits', EntryPass.perform c ext ⟨ambient, cjob, visit.cert, visit.client⟩
      (currentEntry observed visit.cert) = some visit.out) :
    visits' = visits.map (·.again t) := by
  induction visits generalizing visits' with
  | nil => exact List.map_eq_nil_iff.mp certs
  | cons visit rest ih =>
    obtain ⟨first, later, rfl, cert, others⟩ := List.map_eq_cons_iff.mp certs
    obtain ⟨client, chained⟩ := chained
    have turn := performed first List.mem_cons_self
    rw [client, cert, repeats visit List.mem_cons_self] at turn
    have out := Option.some.inj turn
    have head : Visit.mk first.cert first.client first.out = visit.again t := by rw [client, cert, ← out, Visit.again]
    rw [← out] at chained
    have tail := ih (fun visit inside => repeats visit (List.mem_cons_of_mem _ inside)) others chained
      fun visit inside => performed visit (List.mem_cons_of_mem _ inside)
    rw [List.map_cons, ← head, tail]

end

section
variable {σ Object : Type} {c : Client σ} (view : PerObject c Object) {ext : External} {ambient : Ambient}
  {cjob : CertificateJob} {s : σ} {certs : List Certificate} {visits : List (Visit σ)} {last : Sweep σ}

theorem Swept.kept (swept : Swept c ext ambient cjob (.start cjob s) visits last) {visit : Visit σ}
    (member : visit ∈ visits) : visit.out.state ∈ filterObservedStates last.observed last.matchedKeys := by
  refine List.mem_filter.mpr ⟨?_, decide_eq_true ?_⟩
  · exact (IndexBy.mem_latest_or_stale (·.key)).mpr (.inl ((swept.latest _).mpr (.inr ⟨visit, member, rfl⟩)))
  · refine (swept.matched _).mpr (.inr ?_)
    have key : certificateKey visit.out.state.ns visit.out.state.name = visit.cert.key :=
      (perform_key (swept.performed visit member)).trans (currentEntry_key _ _)
    rw [key]
    exact List.mem_map_of_mem member

theorem Swept.untouched (swept : Swept c ext ambient cjob (.start cjob s) visits last)
    (distinct : (visits.map (·.cert.key)).Nodup) {visit : Visit σ} (member : visit ∈ visits) {ns name : String}
    (apart : ∀ other ∈ visits, other.cert.key ≠ visit.cert.key → ∀ call ∈ other.out.calls,
      ¬ (ns = call.job.ns ∧ name = call.job.name)) :
    view.object visit.client ns name = view.object s ns name := by
  obtain ⟨before, after, rfl⟩ := List.append_of_mem member
  refine swept.chained.front.leaves (fun client => view.object client ns name) fun other early => ?_
  have inside : other ∈ before ++ visit :: after := List.mem_append_left _ early
  refine (perform_effect view (swept.performed other inside) ns name).trans (view.after_untouched _ ?_)
  refine apart other inside fun same => ?_
  rw [List.map_append, List.map_cons, List.nodup_append] at distinct
  exact distinct.2.2 _ (List.mem_map_of_mem early) _ List.mem_cons_self same

include view in
theorem perform_call_named {cert : Certificate} {client : σ} {entry : CertificateExecutionState} {out : EntryOutcome σ}
    (performed : EntryPass.perform c ext ⟨ambient, cjob, cert, client⟩ entry = some out) {call : CreateCall}
    (sent : call ∈ out.calls) : ∃ runID, call.job.name = buildJobName cjob.name cert.name call.node runID := by
  obtain ⟨runID, client, owned⟩ := perform_requested performed call sent
  exact ⟨runID, (view.addressed client cjob _ _ owned).2⟩

include view in
theorem Swept.again {t : σ} (swept : Swept c ext ambient cjob (.start cjob s) visits last)
    (distinct : (visits.map (·.cert.key)).Nodup)
    (caught : CaughtUp c s t (visits.flatMap (·.out.calls)))
    (accepted : ∀ visit ∈ visits, ∀ call ∈ visit.out.calls, call.stored.isSome = true)
    (names : ∀ visit ∈ visits, ∀ other ∈ visits, other.cert.key ≠ visit.cert.key → ∀ node runID node' runID',
      buildJobName cjob.name visit.cert.name node runID ≠ buildJobName cjob.name other.cert.name node' runID')
    (nodes : ∀ visit ∈ visits, ∀ name ∈ nodeNames visit.out.state.nodes, ∀ other ∈ nodeNames visit.out.state.nodes,
      name ≠ other → buildJobName cjob.name visit.cert.name name visit.out.state.runID ≠
        buildJobName cjob.name visit.cert.name other visit.out.state.runID)
    (fresh : ∀ visit ∈ visits, ∀ call ∈ visit.out.calls, ∀ entry ∈ cjob.status.observedCertificates,
      ∀ node ∈ entry.nodes, node.jobName ≠ call.job.name) :
    ∀ visit ∈ visits, EntryPass.perform c ext ⟨ambient, cjob, visit.cert, t⟩
      (currentEntry cjob.status.observedCertificates visit.cert) = some (visit.out.again t) := by
  intro visit member
  have performed := swept.performed visit member
  -- a Job that no turn creates is seen now as this turn saw it
  have others : ∀ ns name, (∀ other ∈ visits, ∀ call ∈ other.out.calls, ¬ (ns = call.job.ns ∧ name = call.job.name)) →
      view.seen (view.object t ns name) = view.seen (view.object visit.client ns name) := by
    intro ns name apart
    have unchanged := caught.others ns name fun call made => by
      obtain ⟨other, inside, sent⟩ := List.mem_flatMap.mp made
      exact apart other inside call sent
    rw [view.get, view.get] at unchanged
    rw [unchanged, swept.untouched view distinct member fun other inside _ => apart other inside]
  refine perform_again view performed (nodes visit member) (accepted visit member) ?_ ?_ ?_ ?_
  · intro call sent
    obtain ⟨job, found⟩ := caught.created call (List.mem_flatMap.mpr ⟨visit, member, sent⟩)
    refine ⟨sightOf job, ?_, sightOf_exists job⟩
    rw [← view.get, found]
    rfl
  · have early := (swept.chained.creates fun visit inside => perform_creates (swept.performed visit inside)).2 visit member
    exact caught.secrets.trans (early.1.frame c.getSecret view.secrets).symm
  · intro node recorded has
    refine others _ _ fun other inside call sent here => ?_
    rcases currentEntry_cases cjob.status.observedCertificates visit.cert with latest | ⟨-, new⟩
    · exact fresh other inside call sent _ ((IndexBy.mem_latest_or_stale _).mpr (.inl latest)) node recorded here.2
    · rw [new] at recorded
      cases recorded
  · intro node runID untouched
    refine others _ _ fun other inside call sent here => ?_
    by_cases own : other.cert.key = visit.cert.key
    · obtain rfl := List.inj_on_of_nodup_map distinct inside member own
      exact untouched call sent here
    · obtain ⟨runID', named⟩ := perform_call_named view (swept.performed other inside) sent
      exact names visit member other inside own node runID call.node runID' (here.2.trans named)

include view in
theorem sweepCertificates_again {workflowCtx : WorkflowContext} {t : σ}
    (context : buildWorkflowContext ext ambient cjob = .ok workflowCtx) (distinct : (certs.map (·.key)).Nodup)
    (loop : certs.foldlM (sweepCertificate c ext ambient cjob workflowCtx) (.start cjob s) = some last)
    (caught : CaughtUp c s t (last.calls.map (·.2)))
    (accepted : ∀ call ∈ last.calls, call.2.stored.isSome = true)
    (names : ∀ cert ∈ certs, ∀ other ∈ certs, other.key ≠ cert.key → ∀ node runID node' runID',
      buildJobName cjob.name cert.name node runID ≠ buildJobName cjob.name other.name node' runID')
    (nodes : ∀ cert ∈ certs, ∀ entry ∈ filterObservedStates last.observed last.matchedKeys, entry.key = cert.key →
      ∀ name ∈ nodeNames entry.nodes, ∀ other ∈ nodeNames entry.nodes, name ≠ other →
        buildJobName cjob.name cert.name name entry.runID ≠ buildJobName cjob.name cert.name other entry.runID)
    (fresh : ∀ call ∈ last.calls, ∀ entry ∈ cjob.status.observedCertificates, ∀ node ∈ entry.nodes,
      node.jobName ≠ call.2.job.name) :
    certs.foldlM (sweepCertificate c ext ambient cjob workflowCtx) (.start cjob t) = some (last.again t) := by
  obtain ⟨visits, visited, swept, made⟩ := Sweep.Indexed.recorded certs (by rfl) context distinct loop
  have calls : last.calls.map (·.2) = visits.flatMap (·.out.calls) := by
    rw [swept.calls]
    simp [Sweep.start, List.map_flatMap, Function.comp_def]
  have sent : ∀ visit ∈ visits, ∀ call ∈ visit.out.calls, (visit.cert.name, call) ∈ last.calls := by
    intro visit inside call sent
    rw [swept.calls]
    exact List.mem_append_right _ (List.mem_flatMap.mpr ⟨visit, inside, List.mem_map_of_mem sent⟩)
  have keys : (visits.map (·.cert.key)).Nodup := by
    rw [← visited, List.map_map] at distinct
    exact distinct
  have matched : ∀ visit ∈ visits, visit.cert ∈ certs := fun visit inside => visited ▸ List.mem_map_of_mem inside
  rw [calls] at caught
  have repeats := swept.again view keys caught (fun visit inside call made => accepted _ (sent visit inside call made))
    (fun visit inside other there => names visit.cert (matched visit inside) other.cert (matched other there))
    (fun visit inside => nodes visit.cert (matched visit inside) _ (swept.kept inside)
      ((perform_key (swept.performed visit inside)).trans (currentEntry_key _ _)))
    (fun visit inside call made => fresh _ (sent visit inside call made))
  obtain ⟨last', loop'⟩ : ∃ last', certs.foldlM (sweepCertificate c ext ambient cjob workflowCtx) (.start cjob t) =
    some last' := Sweep.Indexed.total certs (by rfl) context
  obtain ⟨visits', visited', swept', made'⟩ := Sweep.Indexed.recorded certs (by rfl) context distinct loop'
  have same := visits_again repeats (visited'.trans visited.symm) swept'.chained swept'.performed
  have start : Sweep.start cjob t = (Sweep.start cjob s).again t := rfl
  rw [loop', made', same, start, Sweep.recordAll_again, ← made]

include view in
/-- A reconcile once more, from the status it started from. -/
theorem reconcileCertificateJob_again {t : σ}
    (listing : ∀ all, c.listCertificates s cjob.ns = .ok all → (all.map (·.key)).Nodup) {out : JobOutcome σ}
    (result : reconcileCertificateJob c ext ambient cjob s = some out) (caught : CaughtUp c s t (out.calls.map (·.2)))
    (accepted : ∀ call ∈ out.calls, call.2.stored.isSome = true)
    (names : ∀ certs, listMatchingCertificates c ext cjob s = .ok certs → ∀ cert ∈ certs, ∀ other ∈ certs,
      other.key ≠ cert.key → ∀ node runID node' runID',
        buildJobName cjob.name cert.name node runID ≠ buildJobName cjob.name other.name node' runID')
    (nodes : ∀ certs, listMatchingCertificates c ext cjob s = .ok certs → ∀ cert ∈ certs,
      ∀ entry ∈ out.status.observedCertificates, entry.key = cert.key →
        ∀ name ∈ nodeNames entry.nodes, ∀ other ∈ nodeNames entry.nodes, name ≠ other →
          buildJobName cjob.name cert.name name entry.runID ≠ buildJobName cjob.name cert.name other entry.runID)
    (fresh : ∀ call ∈ out.calls, ∀ entry ∈ cjob.status.observedCertificates, ∀ node ∈ entry.nodes,
      node.jobName ≠ call.2.job.name) :
    reconcileCertificateJob c ext ambient cjob t = some { out with calls := [], client := t } := by
  have relisted : listMatchingCertificates c ext cjob t = listMatchingCertificates c ext cjob s := by
    rw [listMatchingCertificates, listMatchingCertificates, caught.certificates]
  unfold reconcileCertificateJob at result ⊢
  cases context : buildWorkflowContext ext ambient cjob with
  | error e =>
    simp only [context] at result
    obtain rfl := Option.some.inj result
    rfl
  | ok workflowCtx =>
    simp only [context, relisted] at result ⊢
    cases listed : listMatchingCertificates c ext cjob s with
    | error e =>
      simp only [listed] at result
      obtain rfl := Option.some.inj result
      rfl
    | ok certs =>
      simp only [listed] at result
      obtain ⟨last, loop, result⟩ := Option.bind_eq_some_iff.mp result
      obtain rfl := Option.some.inj result
      have again := sweepCertificates_again view context (listMatchingCertificates_distinct listing listed) loop caught
        accepted (names certs listed) (nodes certs listed) fresh
      simp only [Option.bind_eq_bind]
      exact congrArg (Option.bind · _) again

end

/-- A status write that fails loses nothing: the next reconcile, from the status stored before, by any later clock and
    once its reads have caught up, creates no Job again and comes to the status that was lost, up to the times in it. -/
theorem lost_write_recovers {σ Object : Type} (c : Client σ) (view : PerObject c Object) (ext : External)
    (sets : ext.SetsConditions) (ambient ambient' : Ambient) (cjob : CertificateJob) (s t : σ) (out : JobOutcome σ)
    (listing : ∀ all, c.listCertificates s cjob.ns = .ok all → (all.map (·.key)).Nodup)
    (single : cjob.spec.OneReservedKey) (result : reconcileCertificateJob c ext ambient cjob s = some out)
    (caught : CaughtUp c s t (out.calls.map (·.2))) (accepted : ∀ call ∈ out.calls, call.2.stored.isSome = true)
    (names : ∀ certs, listMatchingCertificates c ext cjob s = .ok certs → ∀ cert ∈ certs, ∀ other ∈ certs,
      other.key ≠ cert.key → ∀ node runID node' runID',
        buildJobName cjob.name cert.name node runID ≠ buildJobName cjob.name other.name node' runID')
    (nodes : ∀ certs, listMatchingCertificates c ext cjob s = .ok certs → ∀ cert ∈ certs,
      ∀ entry ∈ out.status.observedCertificates, entry.key = cert.key →
        ∀ name ∈ nodeNames entry.nodes, ∀ other ∈ nodeNames entry.nodes, name ≠ other →
          buildJobName cjob.name cert.name name entry.runID ≠ buildJobName cjob.name cert.name other entry.runID)
    (fresh : ∀ call ∈ out.calls, ∀ entry ∈ cjob.status.observedCertificates, ∀ node ∈ entry.nodes,
      node.jobName ≠ call.2.job.name) :
    ∃ again, reconcileCertificateJob c ext ambient' cjob t = some again ∧
      again.calls = [] ∧ again.client = t ∧ again.status.untimed = out.status.untimed ∧
      again.requeueAfter = out.requeueAfter ∧ again.err = out.err := by
  have owner : OwnerOfObject c := fun s cjob status job => view.owner s s cjob status job
  have repeated := reconcileCertificateJob_again view listing result caught accepted names nodes fresh
  obtain ⟨again, later⟩ := reconcileCertificateJob_total c ext ambient' cjob t
  have agree : again.untimed = ({ out with calls := [], client := t } : JobOutcome σ).untimed := by
    have left := reconcile_untimed ext sets owner ambient' cjob t
    have right := reconcile_untimed ext sets owner ambient cjob t
    have judged := (buildWorkflowGraph_steady_iff ambient'.orders { cjob with status := cjob.status.untimed }).mpr single
    have orders := reconcileCertificateJob_order_free c ext (fun _ => 0) ambient.orders ambient'.orders _
      (judged ambient.orders) t
    rw [orders, ← left, later, repeated] at right
    exact (Option.some.inj right).symm
  have calls := congrArg JobOutcome.calls agree
  have client := congrArg JobOutcome.client agree
  have status := congrArg JobOutcome.status agree
  have requeue := congrArg JobOutcome.requeueAfter agree
  have err := congrArg JobOutcome.err agree
  exact ⟨again, later, List.map_eq_nil_iff.mp calls, client, status, requeue, err⟩

theorem clusterClient_certificates (cluster : Cluster) (job : Job) :
    clusterClient.listCertificates (clusterClient.createJob cluster job).2 = clusterClient.listCertificates cluster := by
  simp only [clusterClient, Cluster.createJob]
  split <;> rfl

theorem clusterClient_caughtUp {ambient : Ambient} {cluster : Cluster} {out : JobOutcome Cluster}
    (result : reconcileCertificateJob clusterClient plainExternal ambient cluster.cjob cluster = some out)
    (found : out.calls.all (fun call => (out.client.jobs call.2.job.ns call.2.job.name).isSome) = true) :
    CaughtUp clusterClient cluster out.client (out.calls.map (·.2)) where
  created := by
    intro call member
    obtain ⟨pair, sent, rfl⟩ := List.mem_map.mp member
    obtain ⟨job, stored⟩ := Option.isSome_iff_exists.mp (List.all_eq_true.mp found pair sent)
    exact ⟨job, by simp [clusterClient, stored]⟩
  others := by
    intro ns name apart
    rw [clusterView.get, clusterView.get, reconcileCertificateJob_effect clusterView result,
      clusterView.after_untouched _ apart]
  secrets := (reconcileCertificateJob_creates result).frame clusterClient.getSecret clusterClient_secrets
  certificates := (reconcileCertificateJob_creates result).frame clusterClient.listCertificates clusterClient_certificates

theorem lost_write_recovers_pair :
    ∃ out again : JobOutcome Cluster,
      reconcileCertificateJob clusterClient plainExternal stillClock midwayCluster.cjob midwayCluster = some out ∧
      out.calls.length = 2 ∧
      reconcileCertificateJob clusterClient plainExternal ⟨fun _ => 60, {}⟩ midwayCluster.cjob out.client = some again ∧
      again.calls = [] ∧ again.status.untimed = out.status.untimed := by
  have played : (reconcileCertificateJob clusterClient plainExternal stillClock midwayCluster.cjob midwayCluster).any
      (fun out => out.calls.length = 2 ∧ out.calls.all (fun call => call.2.stored.isSome) ∧
        out.calls.all (fun call => (out.client.jobs call.2.job.ns call.2.job.name).isSome) ∧
        ([apiCertificate, webCertificate].all fun cert => out.status.observedCertificates.all fun entry =>
          entry.key ≠ cert.key ∨ (nodeNames entry.nodes).all fun name => (nodeNames entry.nodes).all fun other =>
            name = other ∨ buildJobName "renewal" cert.name name entry.runID ≠
              buildJobName "renewal" cert.name other entry.runID) ∧
        out.calls.all fun call => midwayCluster.cjob.status.observedCertificates.all fun entry =>
          entry.nodes.all fun node => node.jobName ≠ call.2.job.name) = true := by
    decide +kernel
  obtain ⟨out, result, sent⟩ := (Option.any_eq_true _ _).mp played
  obtain ⟨count, accepted, found, apart, fresh⟩ := of_decide_eq_true sent
  have distinct : (midwayCluster.certificates.map (·.key)).Nodup := by decide +kernel
  have names : ∀ certs, listMatchingCertificates clusterClient plainExternal midwayCluster.cjob midwayCluster = .ok certs →
      ∀ cert ∈ certs, ∀ other ∈ certs, other.key ≠ cert.key → ∀ node runID node' runID',
        buildJobName "renewal" cert.name node runID ≠ buildJobName "renewal" other.name node' runID' := by
    rintro certs ⟨⟩ cert member
    rcases List.mem_cons.mp member with rfl | last
    · intro other inside different node runID node' runID' same
      rcases List.mem_cons.mp inside with rfl | last
      · exact different rfl
      · rw [List.mem_singleton.mp last] at same
        exact pair_names node' runID' node runID same.symm
    · rw [List.mem_singleton.mp last]
      exact pair_foreign
  have nodes : ∀ certs, listMatchingCertificates clusterClient plainExternal midwayCluster.cjob midwayCluster = .ok certs →
      ∀ cert ∈ certs, ∀ entry ∈ out.status.observedCertificates, entry.key = cert.key →
        ∀ name ∈ nodeNames entry.nodes, ∀ other ∈ nodeNames entry.nodes, name ≠ other →
          buildJobName "renewal" cert.name name entry.runID ≠ buildJobName "renewal" cert.name other entry.runID := by
    rintro certs ⟨⟩ cert member entry left key name inside other inside' different
    have each := of_decide_eq_true (List.all_eq_true.mp (List.all_eq_true.mp apart cert member) entry left)
    have pair := List.all_eq_true.mp (each.resolve_left fun foreign => foreign key) name inside
    exact (of_decide_eq_true (List.all_eq_true.mp pair other inside')).resolve_left different
  have built : buildWorkflowGraph {} midwayCluster.cjob = .ok (builtMaps midwayCluster.cjob) := rfl
  obtain ⟨again, repeated, calls, -, status, -⟩ := lost_write_recovers clusterClient clusterView plainExternal
    plainExternal_setsConditions stillClock ⟨fun _ => 60, {}⟩ midwayCluster.cjob midwayCluster out.client out
    (clusterClient_listing distinct _) (buildWorkflowGraph_oneReservedKey built) result (clusterClient_caughtUp result found)
    (List.all_eq_true.mp accepted) names nodes fun call sent entry recorded node inside => of_decide_eq_true
      (List.all_eq_true.mp (List.all_eq_true.mp (List.all_eq_true.mp fresh call sent) entry recorded) node inside)
  exact ⟨out, again, result, count, repeated, calls, status⟩

end CertificateJobs
