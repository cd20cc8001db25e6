import CertificateJobs.Library.Machine
import CertificateJobs.Runs.Manager
import CertificateJobs.Runs.Quiescence

namespace CertificateJobs

section
variable (ext : External)

/-- Every selected certificate with a readable Secret has an entry that has ended the run for its current input. -/
def Objects.UpToDate (o : Objects) (req : Request) : Prop :=
  ∀ cjob, o.job req = some cjob → ∀ ambient workflowCtx, buildWorkflowContext ext ambient cjob = .ok workflowCtx →
    ∀ cert ∈ o.certificates, cjob.Selects ext cert → cert.spec.secretName ≠ "" →
      ∀ secret, o.secrets cert.ns cert.spec.secretName = some secret →
        ∀ hash, buildInputHash ext cert secret workflowCtx.workflowSpecHash = .ok hash →
          ∃ entry ∈ cjob.status.observedCertificates,
            entry.key = cert.key ∧ entry.inputHash = hash ∧ isTerminalPhase entry.phase = true

variable {ext} {o o' : Objects} {req : Request}

theorem Objects.UpToDate.transfer (upToDate : o.UpToDate ext req) (same : o.Same ext req o') : o'.UpToDate ext req := by
  intro cjob found ambient workflowCtx context cert member selects named secret stored hash input
  have back := same.job.trans found
  have present := (same.certificates cjob back cert selects).mpr member
  refine upToDate cjob back ambient workflowCtx context cert present selects named secret ?_ hash input
  rw [same.secrets cjob back cert present selects named, stored]

theorem namespace_keys (o : Objects) (ns : String) : ((o.certificates.filter (·.ns = ns)).map (·.key)).Nodup := by
  have distinct : ((o.certificates.filter (·.ns = ns)).map (·.id)).Nodup :=
    o.distinctCertificates.sublist (List.filter_sublist.map _)
  refine List.Nodup.map_on ?_ distinct.of_map
  intro left inside right inside' same
  have here : left.ns = right.ns := by
    rw [of_decide_eq_true (List.mem_filter.mp inside).2, of_decide_eq_true (List.mem_filter.mp inside').2]
  refine List.inj_on_of_nodup_map distinct inside inside' (Prod.ext here ?_)
  rw [Certificate.key, Certificate.key, here] at same
  exact certificateKey_name same

/-- The answers that the reconcile of a request gets are what the cache holds. The Get of the CertificateJob and the List
    may fail, but not the Get of a Secret that is there. -/
structure ReadsCache {σ : Type} (c : Client σ) (ext : External) (s : σ) (req : Request) (cache : Objects) : Prop where
  job : ∀ cjob, c.getCertificateJob s req.ns req.name = .ok cjob → cache.job req = some cjob
  missing : ∀ e, c.getCertificateJob s req.ns req.name = .error e → e.isNotFound = true → cache.job req = none
  distinct : ∀ all, c.listCertificates s req.ns = .ok all → (all.map (·.key)).Nodup
  certificates : ∀ cjob all, cache.job req = some cjob → c.listCertificates s req.ns = .ok all →
    ∀ cert, cjob.Selects ext cert → (cert ∈ all ↔ cert ∈ cache.certificates)
  secrets : ∀ cjob, cache.job req = some cjob → ∀ cert ∈ cache.certificates, cjob.Selects ext cert →
    cert.spec.secretName ≠ "" → ∀ secret, cache.secrets cert.ns cert.spec.secretName = some secret →
      c.getSecret s cert.ns cert.spec.secretName = .ok secret

section
variable {σ : Type} {c : Client σ} {s : σ} {ambient : Ambient} {out : ReconcileOutcome σ}

theorem ReadsCache.found (reads : ReadsCache c ext s req o) {cjob : CertificateJob} (found : o.job req = some cjob)
    (result : reconcile c ext ambient req.ns req.name s = some out) (ok : out.err = none) :
    c.getCertificateJob s req.ns req.name = .ok cjob := by
  cases read : c.getCertificateJob s req.ns req.name with
  | ok other => rw [← Option.some.inj ((reads.job other read).symm.trans found)]
  | error e =>
    simp only [reconcile, read] at result
    obtain rfl := Option.some.inj result
    cases missing : e.isNotFound with
    | true => exact absurd ((reads.missing e read missing).symm.trans found) (by simp)
    | false => simp [missing] at ok

/-- A reconcile that asks for nothing more has found everything it read up to date. -/
theorem quiet_upToDate (steady : ∀ s job, c.getSecret (c.createJob s job).2 = c.getSecret s)
    (reads : ReadsCache c ext s req o) (result : reconcile c ext ambient req.ns req.name s = some out)
    (ok : out.err = none) (settled : out.requeueAfter = none) (unwritten : out.wrote = false) : o.UpToDate ext req := by
  intro cjob found other workflowCtx accepted cert member selects named secret stored hash input
  have read := reads.found found result ok
  obtain ⟨inside, rfl⟩ := job_mem found
  have unique := o.tables cjob inside
  obtain ⟨inner, performed, same, calm, fine⟩ := reconcile_unwritten read result ok settled unwritten
  have context := buildWorkflowContext_again accepted ambient cjob.status
  obtain ⟨certSelector, valid, accepts⟩ := selects.2
  cases answer : c.listCertificates s cjob.ns with
  | error e =>
    have failed : listMatchingCertificates c ext cjob s = .error e := by
      simp only [listMatchingCertificates, valid, answer, bind, Except.bind]
    rw [reconcileCertificateJob, context] at performed
    simp only [failed] at performed
    obtain rfl := Option.some.inj performed
    cases fine
  | ok all =>
    obtain ⟨matching, listed, matched⟩ := listMatching_of_listed valid answer
    obtain ⟨visits, turns⟩ := reconcileCertificateJob_reconciled context listed
      (listMatchingCertificates_distinct reads.distinct listed) performed
    have present := (reads.certificates cjob all found answer cert selects).mpr member
    obtain ⟨visit, inside, rfl⟩ := turns.visit_of ((matched cert).mpr ⟨present, accepts⟩)
    have kept := (turns.entries_unique unique visit.out.state).mpr ⟨visit, inside, rfl⟩
    rw [same] at kept
    have turn := turns.performed visit inside
    rw [currentEntry_unique unique, entryFor_mem unique kept (turns.key inside)] at turn
    have quiet : visit.out.progress.needsRequeue = false := by
      have none := turns.requeue.symm.trans calm
      simp only [ite_eq_right_iff, reduceCtorEq, imp_false, Bool.not_eq_true, List.any_eq_false] at none
      exact none visit inside
    refine ⟨visit.out.state, kept, turns.key inside, perform_unchanged turn rfl quiet ?_, ?_⟩
    · rw [turns.inputHash steady inside, inputHash_eq context named]
      simp [reads.secrets cjob found visit.cert member selects named secret stored, input, Except.toOption]
    · rw [(perform_asks turn).1] at quiet
      simpa using quiet

end

end

/-- What can be observed of an API server with a manager at work: the objects on the server, the objects whose changes
    the manager's cache has not heard of, and the manager's loop. -/
structure ManagerView (ρ : Type) where
  server : ρ → Objects
  unheard : ρ → Target → Prop
  loop : ρ → LoopView Request Objects Notice

section
variable {σ ρ ε : Type} (c : WatchClient σ) (ext : External) (view : ManagerView ρ)

/-- The laws of a step. A change on the server is unheard until it is delivered. The handlers of the watches map a notice
    to requests, and their Lists answer from the cache. The work on a request is one call of `Reconcile`; it is retried if
    that returns an error or asks for it, a status that it has written is unheard when it ends or has been asked for since,
    and if nothing that it reads changes in the cache while it works, it is answered from the cache. -/
structure ManagerStep (m : ρ) (event : LoopEvent Request (Target × Objects) Notice) (m' : ρ) : Prop where
  loop : LoopStep (watching ext) (view.loop m) event (view.loop m')
  changed : ∀ target, (view.server m).Agrees target (view.server m') ∨ view.unheard m' target
  unheard : ∀ target, view.unheard m target → view.unheard m' target ∨ ∃ source, event = .deliver (target, source)
  delivered : ∀ target source, event = .deliver (target, source) → source.Agrees target (view.server m)
  handled : ∀ notice keys, event = .handle notice keys →
    ∃ order s, Serves c s (view.loop m).cache.toSnapshot ∧ keys = notice.requests c ext order s
  finished : ∀ req again, event = .finish req again → ∃ ambient s out,
    reconcile c.toClient ext ambient req.ns req.name s = some out ∧
    again = (out.err.isSome || out.requeueAfter.isSome) ∧
    (out.wrote = true → view.unheard m' (.certificateJob req) ∨ (view.loop m').Asked (watching ext) req) ∧
    ((∀ o, (view.loop m).seen req o → o.Same ext req (view.loop m).cache) →
      ReadsCache c.toClient ext s req (view.loop m).cache)

/-- What is taken of the API server, of the manager's caches and watches and of its work queue: it starts with an empty
    cache and no work under way, and every step is one that the laws allow. -/
structure Manages (runtime : Machine ρ ε) : Prop where
  starts : ∀ m, runtime.start m → (view.loop m).cache = .empty ∧ (∀ req, ¬ (view.loop m).busy req) ∧
    ∀ target, ¬ view.unheard m target → Objects.empty.Agrees target (view.server m)
  steps : ∀ m e m', runtime.step m e m' → ∃ event, ManagerStep c ext view m event m'

structure ManagerView.Sound (m : ρ) : Prop where
  covered : ∀ req, (view.loop m).Covered (watching ext) (fun req => view.unheard m (.certificateJob req))
    (fun o req => o.UpToDate ext req) req
  agrees : ∀ target, ¬ view.unheard m target → (view.loop m).cache.Agrees target (view.server m)

variable {c ext view} {m m' : ρ} {event : LoopEvent Request (Target × Objects) Notice}

theorem Manages.start {runtime : Machine ρ ε} (laws : Manages c ext view runtime) (first : runtime.start m) :
    view.Sound ext m := by
  obtain ⟨empty, idle, heard⟩ := laws.starts m first
  refine ⟨fun req => ⟨fun busy => absurd busy (idle req), fun _ => .inr (.inr (.inr ?_))⟩, fun target => ?_⟩
  · rw [empty]
    intro cjob found
    cases found
  · rw [empty]
    exact heard target

theorem ManagerStep.heard (step : ManagerStep c ext view m event m') {target : Target}
    (heard : ¬ view.unheard m' target) (other : ∀ source, event ≠ .deliver (target, source)) :
    ¬ view.unheard m target := by
  intro unheard
  rcases step.unheard target unheard with still | ⟨source, delivers⟩
  · exact heard still
  · exact other source delivers

theorem ManagerView.Sound.agrees_step (sound : view.Sound ext m) (step : ManagerStep c ext view m event m')
    {target : Target} (heard : ¬ view.unheard m' target) :
    (view.loop m').cache.Agrees target (view.server m') := by
  refine Objects.Agrees.trans ?_ ((step.changed target).resolve_right heard)
  by_cases delivery : ∃ change, event = .deliver change
  · obtain ⟨⟨there, source⟩, delivers⟩ := delivery
    have cache : (view.loop m').cache = (view.loop m).cache.take there source := step.loop.delivered _ delivers
    rw [cache]
    by_cases here : target = there
    · subst here
      exact (take_agrees _ _ _).trans (step.delivered _ _ delivers)
    · refine (take_agrees_other _ _ here).trans (sound.agrees target (step.heard heard fun other delivers' => here ?_))
      rw [delivers] at delivers'
      exact (congrArg Prod.fst (LoopEvent.deliver.inj delivers')).symm
  · rw [not_exists] at delivery
    rw [step.loop.cached delivery]
    exact sound.agrees target (step.heard heard fun source => delivery _)

theorem ManagerView.Sound.step (steady : ∀ s job, c.getSecret (c.createJob s job).2 = c.getSecret s)
    (sound : view.Sound ext m) (step : ManagerStep c ext view m event m') : view.Sound ext m' := by
  refine ⟨fun req => (sound.covered req).step step.loop (fun _ _ same current => current.transfer same) ?_ ?_ ?_,
    fun target heard => sound.agrees_step step heard⟩
  · intro notice keys handles asks
    obtain ⟨order, s, serves, rfl⟩ := step.handled notice keys handles
    exact Notice.Asks.requests serves asks
  · intro due
    rcases step.unheard _ due with still | ⟨source, delivers⟩
    · exact .inl still
    · exact .inr (.inr ⟨.certificateJob req, step.loop.told _ delivers _ (List.mem_singleton_self _), rfl⟩)
  · intro finishes unmoved
    obtain ⟨ambient, s, out, result, calm, wrote, reads⟩ := step.finished req false finishes
    simp only [Bool.false_eq, Bool.or_eq_false_iff, Option.isSome_eq_false_iff, Option.isNone_iff_eq_none] at calm
    cases written : out.wrote with
    | true => exact (wrote written).imp_right .inl
    | false => exact .inr (.inr (quiet_upToDate steady (reads unmoved) result calm.1 calm.2 written))

end

/-- No wakeup is lost. Once the cache has heard of every change, the handlers have taken up every notice, and a
    CertificateJob is neither queued nor being reconciled nor waiting for a retry, it has run to the end for what the
    server holds: nothing that changed on the way went unnoticed. -/
theorem no_lost_wakeup {σ ρ ε : Type} (c : WatchClient σ) (ext : External) (runtime : Machine ρ ε) (view : ManagerView ρ)
    (laws : Manages c ext view runtime) (steady : ∀ s job, c.getSecret (c.createJob s job).2 = c.getSecret s)
    (m : ρ) (req : Request) (reached : runtime.Reached (fun _ _ => True) m) (heard : ∀ target, ¬ view.unheard m target)
    (handled : ∀ notice, ¬ (view.loop m).pending notice) (unqueued : ¬ (view.loop m).added req)
    (unbusy : ¬ (view.loop m).busy req) (undelayed : ¬ (view.loop m).delayed req) :
    (view.server m).UpToDate ext req := by
  have sound : view.Sound ext m := by
    refine reached.invariant (view.Sound ext) (fun _ first => laws.start first) fun m e m' sound _ taken => ?_
    obtain ⟨event, step⟩ := laws.steps m e m' taken
    exact sound.step steady step
  have current := (sound.covered req).rest unqueued unbusy undelayed handled (heard _)
  exact current.transfer (same_of_agrees fun target => sound.agrees target (heard target))

structure Manager where
  server : Objects
  cache : Objects
  cluster : Cluster
  unheard : List Target
  pending : List Notice
  added : List Request
  busy : List Request
  delayed : List Request

def Manager.view : ManagerView Manager where
  server := Manager.server
  unheard m target := target ∈ m.unheard
  loop m :=
    { cache := m.cache
      pending := (· ∈ m.pending)
      added := (· ∈ m.added)
      busy := (· ∈ m.busy)
      delayed := (· ∈ m.delayed)
      seen := fun _ o => o = m.cache }

inductive Move
  | hear (target : Target)
  | attend
  | take
  | work (change : Cluster → Cluster)
  | expire (req : Request)

def Manager.conclude (m : Manager) (req : Request) (rest : List Request) (out : ReconcileOutcome (Objects × Cluster)) :
    Manager :=
  { m with
    server := if out.wrote then
        ((out.client.1.job req).map fun cjob => m.server.storeStatus req cjob.status).getD m.server
      else m.server
    cluster := out.client.2
    unheard := if out.wrote then .certificateJob req :: m.unheard else m.unheard
    busy := rest
    delayed := if out.err.isSome || out.requeueAfter.isSome then req :: m.delayed else m.delayed }

def Manager.move (m : Manager) : Move → Option Manager
  | .hear target => some { m with
      cache := m.cache.take target m.server
      unheard := m.unheard.filter (· ≠ target)
      pending := m.pending ++ m.cache.notices target m.server }
  | .attend =>
    match m.pending with
    | [] => none
    | notice :: rest => some { m with
        pending := rest
        added := m.added ++ notice.requests (managerClient clusterClient) plainExternal .listed (m.cache, m.cluster) }
  | .take =>
    match m.added with
    | [] => none
    | req :: rest => some { m with added := rest.filter (· ≠ req), busy := req :: m.busy }
  | .work change =>
    match m.busy with
    | [] => none
    | req :: rest =>
      (reconcile (managerClient clusterClient).toClient plainExternal stillClock req.ns req.name
        (m.cache, change m.cluster)).map (m.conclude req rest)
  | .expire req =>
    if req ∈ m.delayed then some { m with added := req :: m.added, delayed := m.delayed.filter (· ≠ req) } else none

def singleServer : Objects where
  certificates := [webCertificate]
  certificateJobs := [{ ns := "default", name := "renewal", spec := flatSpec ["a"] 1 .stopDownstream }]
  distinct := by decide
  secrets ns name := if ns = "default" ∧ name = "tls" then some { type := "kubernetes.io/tls" } else none
  distinctCertificates := by decide
  tables := by simp

def renewalRequest : Request := ⟨"default", "renewal"⟩

def newManager : Manager where
  server := singleServer
  cache := .empty
  cluster := sampleCluster { jobs := [] }
  unheard := [.certificateJob renewalRequest, .certificate "default" "web", .secret "default" "tls"]
  pending := []
  added := []
  busy := []
  delayed := []

def managerMachine : Machine Manager Move where
  start m := m = newManager
  step m move m' := m.move move = some m'

theorem newManager_heard (target : Target) (heard : target ∉ newManager.unheard) :
    Objects.empty.Agrees target newManager.server := by
  simp only [newManager, List.mem_cons, List.not_mem_nil, or_false, not_or] at heard
  cases target with
  | certificate ns name =>
    have other : ¬ ("default" = ns ∧ "web" = name) := fun here => heard.2.1 (by rw [here.1, here.2])
    simp [Objects.Agrees, Objects.certificate, Objects.empty, singleServer, webCertificate, Certificate.id, newManager,
      other]
  | secret ns name =>
    have other : ¬ (ns = "default" ∧ name = "tls") := fun here => heard.2.2 (by rw [here.1, here.2])
    simp [Objects.Agrees, Objects.empty, singleServer, newManager, other]
  | certificateJob req =>
    have missing : singleServer.job req = none := by
      refine List.find?_eq_none.mpr fun cjob member => ?_
      obtain rfl := List.mem_singleton.mp member
      exact fun same => heard.1 (congrArg _ (of_decide_eq_true same).symm)
    exact missing.symm

theorem managerClient_reads (o : Objects) (cluster : Cluster) (req : Request) :
    ReadsCache (managerClient clusterClient).toClient plainExternal (o, cluster) req o where
  job cjob read := by
    cases found : o.job req with
    | none => simp [managerClient, found, notFound] at read
    | some other =>
      simp only [managerClient, found, Option.elim_some, Except.ok.injEq] at read
      rw [read]
  missing e read _ := by
    cases found : o.job req with
    | none => rfl
    | some other => simp [managerClient, found] at read
  distinct all listed := by
    obtain rfl := Except.ok.inj listed
    exact namespace_keys o req.ns
  certificates cjob all found listed cert selects := by
    obtain rfl := Except.ok.inj listed
    obtain ⟨-, rfl⟩ := job_mem found
    simp [selects.1.symm, CertificateJob.request]
  secrets cjob _ cert _ _ _ secret stored := by
    simp [managerClient, stored]

section
variable {m : Manager}

theorem hear_step (target : Target) : ManagerStep (managerClient clusterClient) plainExternal Manager.view m
    (.deliver (target, m.server)) { m with
      cache := m.cache.take target m.server
      unheard := m.unheard.filter (· ≠ target)
      pending := m.pending ++ m.cache.notices target m.server } where
  loop := {
    delivered := by rintro change ⟨⟩; rfl
    cached := fun other => absurd rfl (other _)
    told := by rintro change ⟨⟩ notice new; exact List.mem_append_right _ new
    pending := fun notice waits => .inl (List.mem_append_left _ waits)
    handled := nofun
    added := fun _ added => .inl added
    started := nofun
    busy := fun _ busy => .inl busy
    finished := fun _ busy => .inl busy
    retried := nofun
    delayed := fun _ delayed => .inl delayed
    seen := fun _ _ seen => .inl seen }
  changed other := .inl (.refl m.server other)
  unheard other unheard := by
    by_cases here : other = target
    · exact .inr ⟨m.server, by rw [here]⟩
    · exact .inl (List.mem_filter.mpr ⟨unheard, decide_eq_true here⟩)
  delivered := by rintro other source ⟨⟩; exact .refl m.server target
  handled := nofun
  finished := nofun

theorem attend_step {notice : Notice} {rest : List Notice} (shape : m.pending = notice :: rest) :
    ManagerStep (managerClient clusterClient) plainExternal Manager.view m
      (.handle notice (notice.requests (managerClient clusterClient) plainExternal .listed (m.cache, m.cluster)))
      { m with
        pending := rest
        added := m.added ++
          notice.requests (managerClient clusterClient) plainExternal .listed (m.cache, m.cluster) } where
  loop := {
    delivered := nofun
    cached := fun _ => rfl
    told := nofun
    pending := fun other (waits : other ∈ m.pending) => by
      rcases List.mem_cons.mp (shape ▸ waits) with rfl | later
      · exact .inr ⟨_, rfl⟩
      · exact .inl later
    handled := by rintro _ _ ⟨⟩ req asked; exact List.mem_append_right _ asked
    added := fun _ added => .inl (List.mem_append_left _ added)
    started := nofun
    busy := fun _ busy => .inl busy
    finished := fun _ busy => .inl busy
    retried := nofun
    delayed := fun _ delayed => .inl delayed
    seen := fun _ _ seen => .inl seen }
  changed other := .inl (.refl m.server other)
  unheard _ unheard := .inl unheard
  delivered := nofun
  handled := by rintro _ _ ⟨⟩; exact ⟨.listed, _, managerClient_serves clusterClient _, rfl⟩
  finished := nofun

theorem take_step {req : Request} {rest : List Request} (shape : m.added = req :: rest) :
    ManagerStep (managerClient clusterClient) plainExternal Manager.view m (.start req)
      { m with added := rest.filter (· ≠ req), busy := req :: m.busy } where
  loop := {
    delivered := nofun
    cached := fun _ => rfl
    told := nofun
    pending := fun _ waits => .inl waits
    handled := nofun
    added := fun other (added : other ∈ m.added) => by
      rcases List.mem_cons.mp (shape ▸ added) with rfl | later
      · exact .inr rfl
      · by_cases here : other = req
        · exact .inr (by rw [here])
        · exact .inl (List.mem_filter.mpr ⟨later, decide_eq_true here⟩)
    started := by rintro _ ⟨⟩; exact List.mem_cons_self
    busy := fun other busy => by
      rcases List.mem_cons.mp busy with rfl | before
      · exact .inr rfl
      · exact .inl before
    finished := fun _ busy => .inl (List.mem_cons_of_mem _ busy)
    retried := nofun
    delayed := fun _ delayed => .inl delayed
    seen := fun _ _ seen => .inl seen }
  changed other := .inl (.refl m.server other)
  unheard _ unheard := .inl unheard
  delivered := nofun
  handled := nofun
  finished := nofun

theorem work_step {req : Request} {rest : List Request} (shape : m.busy = req :: rest) {cluster : Cluster}
    {out : ReconcileOutcome (Objects × Cluster)}
    (result : reconcile (managerClient clusterClient).toClient plainExternal stillClock req.ns req.name
      (m.cache, cluster) = some out) :
    ManagerStep (managerClient clusterClient) plainExternal Manager.view m
      (.finish req (out.err.isSome || out.requeueAfter.isSome)) (m.conclude req rest out) where
  loop := {
    delivered := nofun
    cached := fun _ => rfl
    told := nofun
    pending := fun _ waits => .inl waits
    handled := nofun
    added := fun _ added => .inl added
    started := nofun
    busy := fun _ busy => .inl (by simp only [Manager.view, shape]; exact List.mem_cons_of_mem _ busy)
    finished := fun other (busy : other ∈ m.busy) => by
      rcases List.mem_cons.mp (shape ▸ busy) with rfl | later
      · exact .inr ⟨_, rfl⟩
      · exact .inl later
    retried := by
      intro other ends
      obtain ⟨rfl, again⟩ := LoopEvent.finish.inj ends
      exact .inl (by simp [Manager.view, Manager.conclude, again])
    delayed := fun other delayed => .inl (by
      simp only [Manager.view, Manager.conclude]
      split
      · exact List.mem_cons_of_mem _ delayed
      · exact delayed)
    seen := fun _ _ seen => .inl seen }
  changed target := by
    cases wrote : out.wrote with
    | false =>
      refine .inl ?_
      simp only [Manager.view, Manager.conclude, wrote]
      exact .refl m.server target
    | true =>
      by_cases own : target = .certificateJob req
      · exact .inr (by simp [Manager.view, Manager.conclude, wrote, own])
      · refine .inl ?_
        simp only [Manager.view, Manager.conclude, wrote, if_true]
        cases out.client.1.job req with
        | none => exact .refl m.server target
        | some cjob => exact storeStatus_agrees m.server own cjob.status
  unheard target unheard := .inl (by
    simp only [Manager.view, Manager.conclude]
    split
    · exact List.mem_cons_of_mem _ unheard
    · exact unheard)
  delivered := nofun
  handled := nofun
  finished := by
    rintro _ _ ⟨⟩
    refine ⟨stillClock, _, out, result, rfl, fun wrote => .inl ?_, fun _ => managerClient_reads m.cache cluster req⟩
    simp [Manager.view, Manager.conclude, wrote]

theorem expire_step (req : Request) : ManagerStep (managerClient clusterClient) plainExternal Manager.view m .other
    { m with added := req :: m.added, delayed := m.delayed.filter (· ≠ req) } where
  loop := {
    delivered := nofun
    cached := fun _ => rfl
    told := nofun
    pending := fun _ waits => .inl waits
    handled := nofun
    added := fun _ added => .inl (List.mem_cons_of_mem _ added)
    started := nofun
    busy := fun _ busy => .inl busy
    finished := fun _ busy => .inl busy
    retried := nofun
    delayed := fun other delayed => by
      by_cases here : other = req
      · exact .inr (by rw [here]; exact List.mem_cons_self)
      · exact .inl (List.mem_filter.mpr ⟨delayed, decide_eq_true here⟩)
    seen := fun _ _ seen => .inl seen }
  changed other := .inl (.refl m.server other)
  unheard _ unheard := .inl unheard
  delivered := nofun
  handled := nofun
  finished := nofun

end

theorem managerMachine_manages : Manages (managerClient clusterClient) plainExternal Manager.view managerMachine where
  starts := by
    rintro m rfl
    exact ⟨rfl, fun req busy => (by cases busy), newManager_heard⟩
  steps := by
    intro m move m' moved
    have moved : m.move move = some m' := moved
    cases move with
    | hear target =>
      obtain rfl := Option.some.inj moved
      exact ⟨_, hear_step target⟩
    | attend =>
      simp only [Manager.move] at moved
      cases shape : m.pending with
      | nil => simp [shape] at moved
      | cons notice rest =>
        simp only [shape] at moved
        obtain rfl := Option.some.inj moved
        exact ⟨_, attend_step shape⟩
    | take =>
      simp only [Manager.move] at moved
      cases shape : m.added with
      | nil => simp [shape] at moved
      | cons req rest =>
        simp only [shape] at moved
        obtain rfl := Option.some.inj moved
        exact ⟨_, take_step shape⟩
    | work change =>
      simp only [Manager.move] at moved
      cases shape : m.busy with
      | nil => simp [shape] at moved
      | cons req rest =>
        simp only [shape] at moved
        obtain ⟨out, result, rfl⟩ := Option.map_eq_some_iff.mp moved
        exact ⟨_, work_step shape result⟩
    | expire req =>
      simp only [Manager.move, Option.ite_none_right_eq_some, Option.some.injEq] at moved
      obtain ⟨-, rfl⟩ := moved
      exact ⟨_, expire_step req⟩

def Manager.moves (m : Manager) (script : List Move) : Option Manager := script.foldlM Manager.move m

theorem moves_leads (script : List Move) {m last : Manager} (moved : m.moves script = some last) :
    managerMachine.Leads (fun _ _ => True) m last := by
  induction script generalizing m with
  | nil =>
    obtain rfl := Option.some.inj moved
    exact .refl m
  | cons move rest ih =>
    rw [Manager.moves, List.foldlM_cons] at moved
    obtain ⟨next, first, moved⟩ := Option.bind_eq_some_iff.mp moved
    exact (Machine.Leads.step (.refl m) trivial (l := move) first).trans (ih moved)

def wholeScript : List Move :=
  [.hear (.certificateJob renewalRequest), .hear (.certificate "default" "web"), .hear (.secret "default" "tls"),
   .attend, .attend, .attend, .take, .work id,
   .hear (.certificateJob renewalRequest), .attend, .take, .work (·.report "a" completeStatus),
   .hear (.certificateJob renewalRequest), .attend, .take, .work id, .expire renewalRequest, .take, .work id]

theorem wholeScript_played :
    (newManager.moves wholeScript).any (fun last =>
      last.unheard = [] ∧ last.pending.isEmpty ∧ last.added = [] ∧ last.busy = [] ∧ last.delayed = [] ∧
      (last.server.job renewalRequest).any (fun cjob => cjob.status.observedCertificates.map (·.phase) = [.succeeded])) =
      true := by
  decide +kernel

theorem no_lost_wakeup_at_rest :
    ∃ m : Manager, managerMachine.Reached (fun _ _ => True) m ∧
      (m.server.job renewalRequest).any (fun cjob => cjob.status.observedCertificates.map (·.phase) = [.succeeded]) = true ∧
      m.server.UpToDate plainExternal renewalRequest := by
  obtain ⟨last, moved, checked⟩ := (Option.any_eq_true _ _).mp wholeScript_played
  obtain ⟨heard, handled, unqueued, unbusy, undelayed, ended⟩ := of_decide_eq_true checked
  have reached : managerMachine.Reached (fun _ _ => True) last := ⟨newManager, rfl, moves_leads _ moved⟩
  exact ⟨last, reached, ended, no_lost_wakeup _ _ _ Manager.view managerMachine_manages (fun _ _ => rfl) last
    renewalRequest reached (by simp [Manager.view, heard]) (by simp [Manager.view, List.isEmpty_iff.mp handled])
    (by simp [Manager.view, unqueued]) (by simp [Manager.view, unbusy]) (by simp [Manager.view, undelayed])⟩

end CertificateJobs
