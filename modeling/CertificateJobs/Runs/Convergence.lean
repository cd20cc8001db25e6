import CertificateJobs.Runs.Liveness
import CertificateJobs.Runs.Quiescence
import CertificateJobs.Runs.WellFormed
import CertificateJobs.Runs.Timeline
import Mathlib.Order.Filter.AtTopBot.Basic
import Mathlib.Order.Filter.Finite

namespace CertificateJobs

section
variable {σ : Type} {c : Client σ} {ext : External} {h : EntryHistory σ} {pass : EntryPass σ} {out : EntryOutcome σ}

theorem Sound.sighted (sound : Sound c ext h) (performed : pass.perform c ext h.entry = some out) :
    ∀ line ∈ out.sightings, ∃ node ∈ h.entry.nodes, line.jobName = node.jobName ∧
      Seen (c.getJob pass.client pass.cert.ns) node line.seen := by
  intro line logged
  rcases sound.midway performed with ⟨quiet, -⟩ | ⟨trigger, log, base, graph, run, mid⟩
  · rw [quiet.sightings] at logged
    cases logged
  · have recorded : ∃ node ∈ ensureWorkflowNodeStates pass.cjob base.nodes, line.jobName = node.jobName ∧
        Seen (c.getJob pass.client pass.cert.ns) node line.seen := by
      rw [mid.concluded, concludeEntry_sightings] at logged
      rcases mid.spec with ⟨processed, stopped⟩ | ⟨active, failed, started, done⟩
      · obtain ⟨node, member, -, -, named, read⟩ := stopped.record line logged
        exact ⟨node, member, named, read⟩
      · obtain ⟨node, member, -, named, read⟩ := done.record line logged
        exact ⟨node, member, named, read⟩
    obtain ⟨node, member, named, read⟩ := recorded
    rcases mem_ensure member with old | ⟨name, -, -, rfl⟩
    · rcases mid.origin with ⟨-, -, -, fresh⟩ | ⟨-, -, -, message, rfl⟩
      · rw [fresh] at old
        obtain ⟨name, -, rfl⟩ := mem_initial old
        exact absurd rfl read.1
      · exact ⟨node, old, named, read⟩
    · exact absurd rfl read.1

/-- An entry that has ended is left as it is, as long as no other input is read. -/
theorem perform_stays_ended {entry : CertificateExecutionState} (performed : pass.perform c ext entry = some out)
    (ended : isTerminalPhase entry.phase = true)
    (current : pass.cert.spec.secretName = "" ∨ ∀ hash, pass.inputHash c ext = some hash → entry.inputHash = hash) :
    out.progress.needsRequeue = false ∧ isTerminalPhase out.state.phase = true ∧
      out.state.inputHash = entry.inputHash := by
  obtain ⟨workflowCtx, context⟩ := perform_context performed
  by_cases named : pass.cert.spec.secretName = ""
  · rw [perform_unnamed context named] at performed
    obtain rfl := Option.some.inj performed
    exact ⟨rfl, rfl, rfl⟩
  · rw [perform_rests context named ended (current.resolve_left named)] at performed
    obtain rfl := Option.some.inj performed
    exact ⟨rfl, ended, rfl⟩

end

section
variable {σ : Type} (c : Client σ) (ext : External)

def JobPass.on (pass : JobPass σ) (cert : Certificate) (s : σ) : EntryPass σ := ⟨pass.ambient, pass.cjob, cert, s⟩

def JobPass.entry (pass : JobPass σ) (cert : Certificate) : CertificateExecutionState :=
  currentEntry pass.cjob.status.observedCertificates cert

def ComesTo (certs : List Certificate) (pass : JobPass σ) (out : JobOutcome σ) (cert : Certificate) (s : σ) : Prop :=
  ∃ visits, Reconciled c ext pass.ambient pass.cjob pass.client certs out visits ∧
    ∃ visit ∈ visits, visit.cert = cert ∧ visit.client = s

/-- A new CertificateJob that is reconciled again and again, each result being written, while its spec, the matching
    certificates and their inputs stay what they are. Secrets may be unreadable at times. -/
structure SteadyLife (certs : List Certificate) (passes : ℕ → JobPass σ) (outs : ℕ → JobOutcome σ) : Prop where
  fresh : (passes 0).cjob.status.observedCertificates = []
  result : ∀ i, reconcileCertificateJob c ext (passes i).ambient (passes i).cjob (passes i).client = some (outs i)
  written : ∀ i, (passes (i + 1)).cjob.status = (outs i).status
  spec : ∀ i, (passes i).cjob.spec = (passes 0).cjob.spec
  context : ∀ i, ∃ workflowCtx, buildWorkflowContext ext (passes i).ambient (passes i).cjob = .ok workflowCtx
  listed : ∀ i, listMatchingCertificates c ext (passes i).cjob (passes i).client = .ok certs
  distinct : (certs.map (·.key)).Nodup
  inputs : ∀ cert ∈ certs, ∃ hash, ∀ i s, ComesTo c ext certs (passes i) (outs i) cert s →
    ∀ found, ((passes i).on cert s).inputHash c ext = some found → found = hash

def Sight.Becomes (seen later : Sight) : Prop :=
  (seen = .complete → later = .complete ∨ later = .missing) ∧
  (seen = .failed → later = .failed ∨ later = .complete ∨ later = .missing) ∧
  (seen = .missing → later = .missing)

/-- The Jobs that the runs record are read to end as the verdicts say and to stay ended; each is found finished some day,
    by a reconcile that can do its work on the certificate. -/
structure JobsFinish (certs : List Certificate) (passes : ℕ → JobPass σ) (outs : ℕ → JobOutcome σ)
    (verdict : Certificate → String → Bool) : Prop where
  stays : ∀ cert ∈ certs, ∀ i j, i ≤ j → ∀ node ∈ ((passes i).entry cert).nodes, ∀ s s',
    ComesTo c ext certs (passes i) (outs i) cert s → ComesTo c ext certs (passes j) (outs j) cert s' →
      ∀ seen later, Seen (c.getJob s cert.ns) node seen → Seen (c.getJob s' cert.ns) node later → seen.Becomes later
  judged : ∀ cert ∈ certs, ∀ i, ∀ node ∈ ((passes i).entry cert).nodes, ∀ s,
    ComesTo c ext certs (passes i) (outs i) cert s → ∀ seen, Seen (c.getJob s cert.ns) node seen →
      (seen = .complete → verdict cert node.name = true) ∧ (seen.isFailure = true → verdict cert node.name = false)
  attended : ∀ cert ∈ certs, cert.spec.secretName ≠ "" → ∀ i, ∃ j, i ≤ j ∧
    ∀ s, ComesTo c ext certs (passes j) (outs j) cert s →
      Attended c ext ((passes j).on cert s) ((passes j).entry cert)
  finishes : ∀ cert ∈ certs, ∀ i, ∀ node ∈ ((passes i).entry cert).nodes, node.jobName ≠ "" → ∃ j, i ≤ j ∧
    ∀ s, ComesTo c ext certs (passes j) (outs j) cert s →
      Attended c ext ((passes j).on cert s) ((passes j).entry cert) ∧
        ∃ seen, Seen (c.getJob s cert.ns) node seen ∧ seen.isFinal = true

structure EntryLife (certs : List Certificate) (cert : Certificate) (passes : ℕ → JobPass σ) (outs : ℕ → JobOutcome σ)
    (hs : ℕ → EntryHistory σ) (ps : ℕ → EntryPass σ) : Prop where
  first : hs 0 = { entry := { ns := cert.ns, name := cert.name, phase := .pending } }
  entry : ∀ i, (hs i).entry = (passes i).entry cert
  within : ∀ i, ∃ s, ComesTo c ext certs (passes i) (outs i) cert s ∧ ps i = (passes i).on cert s
  taken : ∀ i, (entryMachine c ext).step (hs i) (ps i) (hs (i + 1))

variable {c ext} {certs : List Certificate} {passes : ℕ → JobPass σ} {outs : ℕ → JobOutcome σ} {cert : Certificate}

theorem ComesTo.creates {pass : JobPass σ} {out : JobOutcome σ} {s : σ} (comes : ComesTo c ext certs pass out cert s) :
    Creates c pass.client s := by
  obtain ⟨visits, turns, visit, inside, -, rfl⟩ := comes
  exact (turns.creates.2 visit inside).1

theorem SteadyLife.turn (life : SteadyLife c ext certs passes outs) (member : cert ∈ certs) (i : ℕ) :
    ∃ s out, ComesTo c ext certs (passes i) (outs i) cert s ∧
      ((passes i).on cert s).perform c ext ((passes i).entry cert) = some out ∧
      (passes (i + 1)).entry cert = out.state := by
  obtain ⟨workflowCtx, context⟩ := life.context i
  obtain ⟨visits, turns⟩ := reconcileCertificateJob_reconciled context (life.listed i) life.distinct (life.result i)
  obtain ⟨visit, inside, rfl⟩ := turns.visit_of member
  refine ⟨visit.client, visit.out, ⟨visits, turns, visit, inside, rfl, rfl⟩, turns.performed visit inside, ?_⟩
  rw [JobPass.entry, life.written]
  exact currentEntry_mem (turns.latest visit inside) (turns.key inside)

theorem SteadyLife.entryLife (life : SteadyLife c ext certs passes outs) (member : cert ∈ certs) :
    ∃ hs ps, EntryLife c ext certs cert passes outs hs ps := by
  choose clients turns comes performed next using life.turn member
  let hs : ℕ → EntryHistory σ := fun i => i.rec { entry := (passes 0).entry cert }
    fun i h => h.next c ext ((passes i).on cert (clients i)) (turns i)
  have entry : ∀ i, (hs i).entry = (passes i).entry cert
    | 0 => rfl
    | i + 1 => (EntryHistory.next_entry _ _ _).trans (next i).symm
  refine ⟨hs, fun i => (passes i).on cert (clients i), ?_, entry, fun i => ⟨clients i, comes i, rfl⟩, fun i => ?_⟩
  · have new : (passes 0).entry cert = { ns := cert.ns, name := cert.name, phase := .pending } := by
      rw [JobPass.entry, life.fresh]
      exact currentEntry_new (by simp)
    exact congrArg (fun entry => ({ entry := entry } : EntryHistory σ)) new
  · exact ⟨turns i, by rw [entry]; exact performed i, rfl⟩

variable {hs : ℕ → EntryHistory σ} {ps : ℕ → EntryPass σ} {verdict : Certificate → String → Bool}

theorem EntryLife.cert_eq (life : EntryLife c ext certs cert passes outs hs ps) (i : ℕ) : (ps i).cert = cert := by
  obtain ⟨s, -, pass⟩ := life.within i
  rw [pass]
  rfl

theorem EntryLife.sound (life : EntryLife c ext certs cert passes outs hs ps) (i : ℕ) : Sound c ext (hs i) := by
  have reached : (entryMachine c ext).Reached (fun _ _ => True) (hs i) := by
    induction i with
    | zero => exact .of_start ⟨_, _, life.first⟩
    | succ i before => exact before.step trivial (life.taken i)
  exact reached_sound reached

theorem EntryLife.origin (life : EntryLife c ext certs cert passes outs hs ps) (i : ℕ) :
    (∀ trigger, (hs i).trigger = some trigger → ∃ k < i, trigger = ps k) ∧
    ∀ line ∈ (hs i).log, ∃ k < i, ∃ node ∈ (hs k).entry.nodes, line.jobName = node.jobName ∧
      Seen (c.getJob (ps k).client cert.ns) node line.seen := by
  induction i with
  | zero =>
    rw [life.first]
    exact ⟨fun trigger started => (by cases started), fun line logged => (by cases logged)⟩
  | succ i before =>
    obtain ⟨triggers, logged⟩ := before
    obtain ⟨out, performed, next⟩ := life.taken i
    have sighted := (life.sound i).sighted performed
    rw [life.cert_eq i] at sighted
    rw [next, EntryHistory.next]
    split
    · refine ⟨fun trigger started => ⟨i, Nat.lt_succ_self i, (Option.some.inj started).symm⟩, fun line inside => ?_⟩
      exact ⟨i, Nat.lt_succ_self i, sighted line inside⟩
    · refine ⟨fun trigger started => ?_, fun line inside => ?_⟩
      · obtain ⟨k, earlier, found⟩ := triggers trigger started
        exact ⟨k, Nat.lt_succ_of_lt earlier, found⟩
      · rcases List.mem_append.mp inside with old | new
        · obtain ⟨k, earlier, found⟩ := logged line old
          exact ⟨k, Nat.lt_succ_of_lt earlier, found⟩
        · exact ⟨i, Nat.lt_succ_self i, sighted line new⟩

theorem EntryLife.allowed (life : EntryLife c ext certs cert passes outs hs ps) (steady : SteadyLife c ext certs passes outs)
    (jobs : JobsFinish c ext certs passes outs verdict) (member : cert ∈ certs) (i : ℕ) :
    (hs i).Allows c ext (SpecHeldAnd (JobsJudged c (verdict cert))) (ps i) := by
  intro _ _ trigger started
  obtain ⟨s, comes, pass⟩ := life.within i
  obtain ⟨triggers, logged⟩ := life.origin i
  refine ⟨?_, ?_, ?_, ?_⟩
  · obtain ⟨k, -, rfl⟩ := triggers trigger started
    obtain ⟨s', -, other⟩ := life.within k
    rw [SpecHeld, pass, other]
    exact (steady.spec i).trans (steady.spec k).symm
  · intro line inside seen read
    obtain ⟨k, earlier, node, recorded, named, before⟩ := logged line inside
    obtain ⟨s', comes', other⟩ := life.within k
    rw [life.entry] at recorded
    rw [other] at before
    rw [pass, named] at read
    exact jobs.stays cert member k i earlier.le node recorded s' s comes' comes line.seen seen before
      ⟨before.1, read⟩
  · intro node recorded read
    rw [life.entry] at recorded
    rw [pass] at read
    exact (jobs.judged cert member i node recorded s comes .complete read).1 rfl
  · intro node recorded seen read
    rw [life.entry] at recorded
    rw [pass] at read
    exact (jobs.judged cert member i node recorded s comes seen read).2

theorem EntryLife.opened (life : EntryLife c ext certs cert passes outs hs ps) {i j : ℕ} (later : i ≤ j)
    (opened : (hs i).trigger ≠ none) : (hs j).trigger ≠ none := by
  induction later with
  | refl => exact opened
  | step _ before =>
    obtain ⟨out, -, next⟩ := life.taken _
    rw [next, EntryHistory.next]
    split
    · simp
    · exact before

/-- The first run of a certificate's entry starts and ends. -/
theorem EntryLife.ends (life : EntryLife c ext certs cert passes outs hs ps) (steady : SteadyLife c ext certs passes outs)
    (jobs : JobsFinish c ext certs passes outs verdict) (member : cert ∈ certs) (named : cert.spec.secretName ≠ "") :
    ∃ n, isTerminalPhase (hs n).entry.phase = true ∧ (hs n).trigger ≠ none := by
  have pass : ∀ j, (∀ s, ComesTo c ext certs (passes j) (outs j) cert s →
      Attended c ext ((passes j).on cert s) ((passes j).entry cert)) → Attended c ext (ps j) (hs j).entry := by
    intro j all
    obtain ⟨s, comes, pass⟩ := life.within j
    rw [pass, life.entry]
    exact all s comes
  obtain ⟨start, -, attended⟩ := jobs.attended cert member named 0
  have opens := (pass start attended).opens (life.sound start) (life.taken start)
  have run : (entryMachine c ext).Trace (EntryHistory.Allows c ext (SpecHeldAnd (JobsJudged c (verdict cert)))) hs ps :=
    ⟨life.allowed steady jobs member, life.taken⟩
  have reached := run.reached (.of_start ⟨_, _, life.first⟩) (start + 1)
  obtain ⟨n, ended⟩ := fair_run_ends c ext (verdict cert) (fun i => hs (start + 1 + i))
    (fun i => ps (start + 1 + i)) reached
    ⟨fun i => run.allowed (start + 1 + i), fun i => run.taken (start + 1 + i)⟩
    (fun i => by
      obtain ⟨j, later, attended⟩ := jobs.attended cert member named (start + 1 + i)
      refine ⟨j - (start + 1), by omega, ?_⟩
      rw [show start + 1 + (j - (start + 1)) = j by omega]
      exact pass j attended)
    fun i node recorded has => by
      rw [life.entry] at recorded
      obtain ⟨j, later, finished⟩ := jobs.finishes cert member (start + 1 + i) node recorded has
      obtain ⟨s, comes, taken⟩ := life.within j
      obtain ⟨attended, found⟩ := finished s comes
      refine ⟨j - (start + 1), by omega, ?_⟩
      rw [show start + 1 + (j - (start + 1)) = j by omega, taken, life.entry]
      exact ⟨attended, found⟩
  exact ⟨start + 1 + n, ended, life.opened (by omega) opens⟩

/-- From some reconcile on a certificate's entry has ended, and no reconcile finds a reason to start it again. -/
theorem SteadyLife.settles (steady : SteadyLife c ext certs passes outs) (jobs : JobsFinish c ext certs passes outs verdict)
    (member : cert ∈ certs) : ∃ n, ∀ i, n ≤ i → isTerminalPhase ((passes i).entry cert).phase = true ∧
      (cert.spec.secretName = "" ∨ ∀ s, ComesTo c ext certs (passes i) (outs i) cert s →
        ∀ hash, ((passes i).on cert s).inputHash c ext = some hash → ((passes i).entry cert).inputHash = hash) := by
  by_cases named : cert.spec.secretName = ""
  · refine ⟨1, fun i later => ⟨?_, .inl named⟩⟩
    obtain ⟨i, rfl⟩ := Nat.exists_eq_add_of_le' later
    obtain ⟨s, out, -, performed, next⟩ := steady.turn member i
    obtain ⟨workflowCtx, context⟩ := perform_context performed
    rw [perform_unnamed context named] at performed
    obtain rfl := Option.some.inj performed
    rw [next]
    rfl
  · obtain ⟨hs, ps, life⟩ := steady.entryLife member
    obtain ⟨hash, same⟩ := steady.inputs cert member
    obtain ⟨n, ended, opened⟩ := life.ends steady jobs member named
    obtain ⟨trigger, started⟩ := Option.ne_none_iff_exists'.mp opened
    have sound := life.sound n
    have known : (hs n).entry.inputHash = hash := by
      obtain ⟨k, -, rfl⟩ := (life.origin n).1 trigger started
      obtain ⟨s, comes, pass⟩ := life.within k
      have input := sound.triggered _ started
      rw [pass] at input
      exact same k s comes _ input
    have held : ∀ i, n ≤ i → isTerminalPhase ((passes i).entry cert).phase = true ∧
        ((passes i).entry cert).inputHash = hash := by
      intro i later
      induction later with
      | refl => exact ⟨life.entry n ▸ ended, life.entry n ▸ known⟩
      | step _ before =>
        obtain ⟨s, out, comes, performed, next⟩ := steady.turn member _
        obtain ⟨-, ended, kept⟩ := perform_stays_ended performed before.1
          (.inr fun found input => before.2.trans (same _ s comes found input).symm)
        rw [next]
        exact ⟨ended, kept.trans before.2⟩
    exact ⟨n, fun i later => ⟨(held i later).1, .inr fun s comes found input =>
      (held i later).2.trans (same i s comes found input).symm⟩⟩

theorem SteadyLife.unique (steady : SteadyLife c ext certs passes outs) (i : ℕ) :
    ((passes i).cjob.status.observedCertificates.map (·.key)).Nodup := by
  induction i with
  | zero =>
    rw [steady.fresh]
    exact List.nodup_nil
  | succ i before =>
    rw [steady.written]
    exact reconcileCertificateJob_unique before (steady.result i)

end

def Cluster.jobPass (cluster : Cluster) : JobPass Cluster := ⟨cluster.pass.ambient, cluster.cjob, cluster⟩

def Cluster.basis (cluster : Cluster) : CertificateJobSpec × String × List Certificate × (String → String → Option Secret) :=
  (cluster.cjob.spec, cluster.cjob.ns, cluster.certificates, cluster.secrets)

theorem createJob_basis (cluster : Cluster) (job : Job) : (clusterClient.createJob cluster job).2.basis = cluster.basis := by
  simp only [clusterClient, Cluster.createJob]
  split <;> rfl

theorem round_basis {cluster next : Cluster} (round : cluster.round = some next) : next.basis = cluster.basis := by
  obtain ⟨out, result, rfl⟩ := Option.map_eq_some_iff.mp round
  have kept := (reconcileCertificateJob_creates result).frame Cluster.basis createJob_basis
  simp only [Cluster.basis, Prod.mk.injEq] at kept ⊢
  exact ⟨trivial, trivial, kept.2.2.1, kept.2.2.2⟩

theorem createJob_found {cluster : Cluster} {ns name : String} {kind : Sight} (job : Job)
    (found : (cluster.jobs ns name).map sightOf = some kind) :
    ((clusterClient.createJob cluster job).2.jobs ns name).map sightOf = some kind := by
  simp only [clusterClient, Cluster.createJob]
  cases held : cluster.jobs job.ns job.name with
  | some old => exact found
  | none =>
    simp only
    split
    · rename_i here
      rw [here.1, here.2, held] at found
      cases found
    · exact found

theorem creates_found {before after : Cluster} (creates : Creates clusterClient before after) {ns name : String}
    {kind : Sight} (found : (before.jobs ns name).map sightOf = some kind) :
    (after.jobs ns name).map sightOf = some kind := by
  induction creates with
  | refl => exact found
  | tail _ step ih =>
    obtain ⟨job, rfl⟩ := step
    exact createJob_found job ih

def Cluster.finished (cluster : Cluster) : Bool :=
  (cluster.jobPass.entry webCertificate).nodes.all fun node =>
    (cluster.jobs "default" node.jobName).map sightOf = some .complete

theorem round_found {cluster next : Cluster} (round : cluster.round = some next) {ns name : String} {kind : Sight}
    (found : (cluster.jobs ns name).map sightOf = some kind) : (next.jobs ns name).map sightOf = some kind := by
  obtain ⟨out, result, rfl⟩ := Option.map_eq_some_iff.mp round
  exact creates_found (reconcileCertificateJob_creates result) found

theorem seen_complete {cluster : Cluster} {node : WorkflowNodeState} (has : node.jobName ≠ "")
    (found : (cluster.jobs "default" node.jobName).map sightOf = some .complete) :
    Seen (clusterClient.getJob cluster webCertificate.ns) node .complete := by
  obtain ⟨job, held, kind⟩ := Option.map_eq_some_iff.mp found
  have read : clusterClient.getJob cluster webCertificate.ns node.jobName = .ok job := by
    simp only [clusterClient]
    rw [show webCertificate.ns = "default" from rfl, held]
    rfl
  exact ⟨has, by rw [read, sight, kind]⟩

theorem basis_listed {cluster : Cluster} (same : cluster.basis = runCluster.basis) :
    listMatchingCertificates clusterClient plainExternal cluster.cjob cluster = .ok [webCertificate] := by
  simp only [Cluster.basis, Prod.mk.injEq] at same
  obtain ⟨spec, ns, certificates, -⟩ := same
  simp only [listMatchingCertificates, certificateSelectorForJob, clusterClient, spec, ns, certificates]
  rfl

theorem basis_input {cluster after : Cluster} (same : cluster.basis = runCluster.basis)
    (creates : Creates clusterClient cluster after) :
    (cluster.jobPass.on webCertificate after).inputHash clusterClient plainExternal =
      (runCluster.jobPass.on webCertificate runCluster).inputHash clusterClient plainExternal := by
  have kept := creates.frame Cluster.basis createJob_basis
  simp only [Cluster.basis, Prod.mk.injEq] at same kept
  obtain ⟨spec, -, -, secrets⟩ := same
  simp only [EntryPass.inputHash, JobPass.on, Cluster.jobPass, clusterClient, kept, secrets, buildWorkflowContext,
    buildWorkflowGraph, spec]
  rfl

structure Cluster.WholeLife (first last again : Cluster) : Prop where
  opened : runCluster.round = some first
  finished : (first.report "a" completeStatus).finished = true
  closed : (first.report "a" completeStatus).round = some last
  stays : last.finished = true
  repeated : last.round = some again
  still : again.cjob.status = last.cjob.status

theorem wholeLife_played :
    runCluster.round.any (fun first =>
      let second := first.report "a" completeStatus
      second.finished ∧ second.round.any fun last =>
        last.finished ∧ last.round.any fun again => again.cjob.status = last.cjob.status) = true := by
  decide +kernel

theorem wholeLife_exists : ∃ first last again, Cluster.WholeLife first last again := by
  obtain ⟨first, opened, checked⟩ := (Option.any_eq_true _ _).mp wholeLife_played
  obtain ⟨finished, checked⟩ := of_decide_eq_true checked
  obtain ⟨last, closed, checked⟩ := (Option.any_eq_true _ _).mp checked
  obtain ⟨stays, checked⟩ := of_decide_eq_true checked
  obtain ⟨again, repeated, checked⟩ := (Option.any_eq_true _ _).mp checked
  exact ⟨first, last, again, opened, finished, closed, stays, repeated, of_decide_eq_true checked⟩

def Cluster.met (first last : Cluster) (i : ℕ) : Cluster := [runCluster, first.report "a" completeStatus].getD i last

theorem round_status {cluster next : Cluster} (round : cluster.round = some next) {out : JobOutcome Cluster}
    (result : reconcileCertificateJob clusterClient plainExternal cluster.jobPass.ambient cluster.jobPass.cjob
      cluster.jobPass.client = some out) : next.cjob.status = out.status := by
  obtain ⟨other, performed, rfl⟩ := Option.map_eq_some_iff.mp round
  rw [Option.some.inj (result.symm.trans performed)]

theorem attended_basis {cluster after : Cluster} (same : cluster.basis = runCluster.basis)
    (creates : Creates clusterClient cluster after) (entry : CertificateExecutionState) :
    Attended clusterClient plainExternal (cluster.jobPass.on webCertificate after) entry where
  input := by
    have found : ((runCluster.jobPass.on webCertificate runCluster).inputHash clusterClient
        plainExternal).isSome = true := by
      decide +kernel
    rw [basis_input same creates]
    exact Option.isSome_iff_ne_none.mp found
  served := clusterClient_served _ entry

theorem basis_context {cluster : Cluster} (same : cluster.basis = runCluster.basis) : ∃ workflowCtx,
    buildWorkflowContext plainExternal cluster.jobPass.ambient cluster.jobPass.cjob = .ok workflowCtx := by
  have accepted : (buildWorkflowContext plainExternal runCluster.jobPass.ambient
      runCluster.cjob).toOption.isSome = true := by
    decide +kernel
  have built : buildWorkflowContext plainExternal cluster.jobPass.ambient cluster.jobPass.cjob =
      buildWorkflowContext plainExternal runCluster.jobPass.ambient runCluster.cjob := by
    have spec : cluster.cjob.spec = runCluster.cjob.spec := congrArg Prod.fst same
    simp only [Cluster.jobPass, buildWorkflowContext, buildWorkflowGraph, spec]
    rfl
  obtain ⟨workflowCtx, found⟩ := Option.isSome_iff_exists.mp accepted
  exact ⟨workflowCtx, built.trans (ok_of_toOption found)⟩

section
variable {first last again : Cluster} (life : Cluster.WholeLife first last again)
include life

theorem Cluster.WholeLife.basis (i : ℕ) : (Cluster.met first last i).basis = runCluster.basis := by
  have kept : first.basis = runCluster.basis := round_basis life.opened
  rcases i with _ | _ | i
  · rfl
  · exact kept
  · exact (round_basis life.closed).trans kept

theorem Cluster.WholeLife.found {i j : ℕ} (later : i ≤ j) :
    ∀ node ∈ ((Cluster.met first last i).jobPass.entry webCertificate).nodes,
      ((Cluster.met first last j).jobs "default" node.jobName).map sightOf = some .complete := by
  intro node recorded
  rcases i with _ | _ | i
  · cases recorded
  · have here := of_decide_eq_true (List.all_eq_true.mp life.finished node recorded)
    rcases j with _ | _ | j
    · omega
    · exact here
    · exact round_found life.closed here
  · rcases j with _ | _ | j
    · omega
    · omega
    · exact of_decide_eq_true (List.all_eq_true.mp life.stays node recorded)

theorem Cluster.WholeLife.complete {i j : ℕ} (later : i ≤ j) {node : WorkflowNodeState}
    (recorded : node ∈ ((Cluster.met first last i).jobPass.entry webCertificate).nodes) {s : Cluster}
    (creates : Creates clusterClient (Cluster.met first last j) s) (has : node.jobName ≠ "") :
    Seen (clusterClient.getJob s webCertificate.ns) node .complete :=
  seen_complete has (creates_found creates (life.found later node recorded))

theorem Cluster.WholeLife.seen {i j : ℕ} (later : i ≤ j) {node : WorkflowNodeState}
    (recorded : node ∈ ((Cluster.met first last i).jobPass.entry webCertificate).nodes) {s : Cluster}
    (creates : Creates clusterClient (Cluster.met first last j) s) {seen : Sight}
    (read : Seen (clusterClient.getJob s webCertificate.ns) node seen) : seen = .complete :=
  Except.ok.inj (read.2.symm.trans (life.complete later recorded creates read.1).2)

theorem Cluster.WholeLife.steady {outs : ℕ → JobOutcome Cluster}
    (result : ∀ i, reconcileCertificateJob clusterClient plainExternal (Cluster.met first last i).jobPass.ambient
      (Cluster.met first last i).jobPass.cjob (Cluster.met first last i).jobPass.client = some (outs i)) :
    SteadyLife clusterClient plainExternal [webCertificate] (fun i => (Cluster.met first last i).jobPass) outs where
  fresh := rfl
  result := result
  written := by
    intro i
    rcases i with _ | _ | i
    · exact round_status life.opened (result 0)
    · exact round_status life.closed (result 1)
    · exact life.still.symm.trans (round_status life.repeated (result (i + 2)))
  spec i := congrArg Prod.fst (life.basis i)
  context i := basis_context (life.basis i)
  listed i := basis_listed (life.basis i)
  distinct := List.nodup_singleton _
  inputs := by
    intro cert member
    obtain rfl := List.mem_singleton.mp member
    refine ⟨((runCluster.jobPass.on webCertificate runCluster).inputHash clusterClient plainExternal).getD "", ?_⟩
    intro i s comes found input
    rw [← basis_input (life.basis i) comes.creates, input]
    rfl

theorem Cluster.WholeLife.jobs (outs : ℕ → JobOutcome Cluster) : JobsFinish clusterClient plainExternal [webCertificate]
    (fun i => (Cluster.met first last i).jobPass) outs fun _ _ => true where
  stays := by
    intro cert member i j later node recorded s s' comes comes' seen after read read'
    obtain rfl := List.mem_singleton.mp member
    obtain rfl := life.seen le_rfl recorded comes.creates read
    obtain rfl := life.seen later recorded comes'.creates read'
    exact ⟨fun _ => .inl rfl, fun other => (by cases other), fun other => (by cases other)⟩
  judged := by
    intro cert member i node recorded s comes seen read
    obtain rfl := List.mem_singleton.mp member
    obtain rfl := life.seen le_rfl recorded comes.creates read
    exact ⟨fun _ => rfl, fun failure => (by cases failure)⟩
  attended := by
    intro cert member _ i
    obtain rfl := List.mem_singleton.mp member
    exact ⟨i, le_rfl, fun s comes => attended_basis (life.basis i) comes.creates _⟩
  finishes := by
    intro cert member i node recorded has
    obtain rfl := List.mem_singleton.mp member
    exact ⟨i, le_rfl, fun s comes => ⟨attended_basis (life.basis i) comes.creates _, .complete,
      life.complete le_rfl recorded comes.creates has, rfl⟩⟩

end

end CertificateJobs
