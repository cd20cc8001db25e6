import CertificateJobs.Runs.Rules
import CertificateJobs.Workflow.Total

namespace CertificateJobs

def CertificateExecutionState.key (entry : CertificateExecutionState) : String := certificateKey entry.ns entry.name

def Certificate.key (cert : Certificate) : String := certificateKey cert.ns cert.name

theorem certificateKey_name {ns left right : String} (same : certificateKey ns left = certificateKey ns right) :
    left = right := (String.append_right_inj _).mp same

def entryFor (observed : List CertificateExecutionState) (cert : Certificate) : CertificateExecutionState :=
  (observed.find? (·.key = cert.key)).getD { ns := cert.ns, name := cert.name, phase := .pending }

section
variable {observed : List CertificateExecutionState} {cert : Certificate}

theorem entryFor_key (observed : List CertificateExecutionState) (cert : Certificate) :
    (entryFor observed cert).key = cert.key := by
  unfold entryFor
  cases found : observed.find? (·.key = cert.key) with
  | none => rfl
  | some entry => simpa using List.find?_some found

theorem entryFor_new (absent : cert.key ∉ observed.map (·.key)) :
    entryFor observed cert = { ns := cert.ns, name := cert.name, phase := .pending } := by
  have none : observed.find? (·.key = cert.key) = none := by
    rw [List.find?_eq_none]
    intro entry member same
    exact absent (of_decide_eq_true same ▸ List.mem_map_of_mem member)
  rw [entryFor, none, Option.getD_none]

theorem entryFor_mem (unique : (observed.map (·.key)).Nodup) {entry : CertificateExecutionState}
    (member : entry ∈ observed) (same : entry.key = cert.key) : entryFor observed cert = entry := by
  unfold entryFor
  cases found : observed.find? (·.key = cert.key) with
  | none => exact absurd (decide_eq_true same) (List.find?_eq_none.mp found entry member)
  | some other =>
    have key : other.key = cert.key := by simpa using List.find?_some found
    exact List.inj_on_of_nodup_map unique (List.mem_of_find?_eq_some found) member (key.trans same.symm)

theorem entryFor_congr {left right : List CertificateExecutionState} (leftUnique : (left.map (·.key)).Nodup)
    (rightUnique : (right.map (·.key)).Nodup)
    (same : ∀ entry : CertificateExecutionState, entry.key = cert.key → (entry ∈ left ↔ entry ∈ right)) :
    entryFor left cert = entryFor right cert := by
  by_cases present : cert.key ∈ left.map (·.key)
  · obtain ⟨entry, member, key⟩ := List.mem_map.mp present
    rw [entryFor_mem leftUnique member key, entryFor_mem rightUnique ((same entry key).mp member) key]
  · have absent : cert.key ∉ right.map (·.key) := by
      intro inside
      obtain ⟨entry, member, key⟩ := List.mem_map.mp inside
      exact present (key ▸ List.mem_map_of_mem ((same entry key).mpr member))
    rw [entryFor_new present, entryFor_new absent]

/-- The entry that the loop works on: of several entries with one key, the index keeps the last. -/
def currentEntry (observed : List CertificateExecutionState) (cert : Certificate) : CertificateExecutionState :=
  entryFor (observed.latestBy (·.key)) cert

theorem currentEntry_unique (unique : (observed.map (·.key)).Nodup) (cert : Certificate) :
    currentEntry observed cert = entryFor observed cert := by
  rw [currentEntry, (IndexBy.latestBy_of_unique unique).1]

theorem currentEntry_key (observed : List CertificateExecutionState) (cert : Certificate) :
    (currentEntry observed cert).key = cert.key := entryFor_key _ _

theorem currentEntry_mem {entry : CertificateExecutionState} (member : entry ∈ observed.latestBy (·.key))
    (same : entry.key = cert.key) : currentEntry observed cert = entry :=
  entryFor_mem (IndexBy.latestBy_unique _ _) member same

theorem currentEntry_new (absent : cert.key ∉ observed.map (·.key)) :
    currentEntry observed cert = { ns := cert.ns, name := cert.name, phase := .pending } :=
  entryFor_new fun present => absent (IndexBy.mem_latestBy.mp present)

theorem currentEntry_cases (observed : List CertificateExecutionState) (cert : Certificate) :
    (currentEntry observed cert ∈ observed.latestBy (·.key)) ∨
      (cert.key ∉ observed.map (·.key) ∧
        currentEntry observed cert = { ns := cert.ns, name := cert.name, phase := .pending }) := by
  by_cases present : cert.key ∈ observed.map (·.key)
  · obtain ⟨entry, member, key⟩ := List.mem_map.mp (IndexBy.mem_latestBy.mpr present)
    rw [currentEntry_mem member key]
    exact .inl member
  · exact .inr ⟨present, currentEntry_new present⟩

theorem currentEntry_put {entry : CertificateExecutionState} (other : entry.key ≠ cert.key) :
    currentEntry (observed.putBy (·.key) entry) cert = currentEntry observed cert := by
  refine entryFor_congr (IndexBy.latestBy_unique _ _) (IndexBy.latestBy_unique _ _) ?_
  intro found key
  rw [IndexBy.mem_latestBy_putBy]
  constructor
  · rintro (rfl | ⟨member, -⟩)
    · exact absurd key other
    · exact member
  · intro member
    exact .inr ⟨member, fun same => other (same.symm.trans key)⟩

end

section
variable {σ : Type} {c : Client σ} {ext : External}

theorem perform_identity {pass : EntryPass σ} {entry : CertificateExecutionState} {out : EntryOutcome σ}
    (performed : pass.perform c ext entry = some out) : out.state.ns = entry.ns ∧ out.state.name = entry.name := by
  rcases perform_cases c ext performed with quiet | ⟨graph, base, run, ran⟩
  · obtain ⟨secretName, phase, message, completed, written⟩ := quiet.rewritten
    rw [written]
    exact ⟨rfl, rfl⟩
  · obtain ⟨phase, message, completed, written⟩ := ran.rewritten
    rw [written]
    exact ran.identity

theorem perform_key {pass : EntryPass σ} {entry : CertificateExecutionState} {out : EntryOutcome σ}
    (performed : pass.perform c ext entry = some out) : out.state.key = entry.key := by
  obtain ⟨ns, name⟩ := perform_identity performed
  rw [CertificateExecutionState.key, CertificateExecutionState.key, ns, name]

theorem perform_creates {pass : EntryPass σ} {entry : CertificateExecutionState} {out : EntryOutcome σ}
    (performed : pass.perform c ext entry = some out) : Creates c pass.client out.client := by
  rcases perform_cases c ext performed with quiet | ⟨graph, base, run, ran⟩
  · rw [quiet.client]
    exact .refl
  · rw [ran.concluded, concludeEntry_client]
    exact (reconcileCertificateRun_outline ran.result).1.1

theorem perform_requested {pass : EntryPass σ} {entry : CertificateExecutionState} {out : EntryOutcome σ}
    (performed : pass.perform c ext entry = some out) :
    ∀ call ∈ out.calls, ∃ runID, Requested c pass.cjob pass.cert runID call := by
  intro call made
  rcases perform_cases c ext performed with quiet | ⟨graph, base, run, ran⟩
  · rw [quiet.calls] at made
    cases made
  · rw [ran.concluded, concludeEntry_calls] at made
    exact ⟨base.runID, (reconcileCertificateRun_outline ran.result).1.2 call made⟩

theorem perform_total {pass : EntryPass σ} {workflowCtx : WorkflowContext}
    (context : buildWorkflowContext ext pass.ambient pass.cjob = .ok workflowCtx) (entry : CertificateExecutionState) :
    ∃ out, pass.perform c ext entry = some out := by
  by_cases named : pass.cert.spec.secretName = ""
  · exact ⟨_, perform_unnamed context named⟩
  · cases input : pass.inputHash c ext with
    | none =>
      obtain ⟨message, waits⟩ := perform_blind context named input
      exact ⟨_, waits⟩
    | some hash =>
      rw [perform_input context input, reconcileInput]
      split
      · exact ⟨_, rfl⟩
      · obtain ⟨run, result⟩ := reconcileCertificateRun_total c pass.cjob pass.cert (buildWorkflowContext_accepted context)
          pass.ambient (applyInputHashTransition pass.cjob pass.cert entry hash workflowCtx.now) pass.client
        exact ⟨_, by rw [result, Option.map_some]⟩

end

def Sweep.Indexed {σ : Type} (sweep : Sweep σ) : Prop := sweep.stateIndex = observedStateIndex sweep.observed

def Sweep.start {σ : Type} (cjob : CertificateJob) (s : σ) : Sweep σ where
  observed := cjob.status.observedCertificates
  stateIndex := observedStateIndex cjob.status.observedCertificates
  matchedKeys := []
  progress := {}
  calls := []
  client := s

@[simps] def Sweep.record {σ : Type} (sweep : Sweep σ) (cert : Certificate) (out : EntryOutcome σ) : Sweep σ where
  observed := sweep.observed.putBy (·.key) out.state
  stateIndex := observedStateIndex (sweep.observed.putBy (·.key) out.state)
  matchedKeys := sweep.matchedKeys.insert cert.key
  progress := sweep.progress.merge out.progress
  calls := sweep.calls ++ out.calls.map fun call => (cert.name, call)
  client := out.client

section
variable {σ : Type} {c : Client σ} {ext : External} {ambient : Ambient} {cjob : CertificateJob}
  {workflowCtx : WorkflowContext} {sweep next last : Sweep σ} {cert : Certificate}

theorem Sweep.Indexed.ensure (indexed : sweep.Indexed) (cert : Certificate) :
    (ensureObservedCertificateState sweep cert).1.observed[(ensureObservedCertificateState sweep cert).2]? =
      some (currentEntry sweep.observed cert) ∧
    ∀ entry : CertificateExecutionState, entry.key = cert.key →
      (ensureObservedCertificateState sweep cert).1.observed.set (ensureObservedCertificateState sweep cert).2 entry =
        sweep.observed.putBy (·.key) entry ∧
      (ensureObservedCertificateState sweep cert).1.stateIndex =
        observedStateIndex (sweep.observed.putBy (·.key) entry) := by
  have index : sweep.stateIndex = sweep.observed.indexBy (·.key) := indexed
  unfold ensureObservedCertificateState
  cases found : sweep.stateIndex.lookup (certificateKey cert.ns cert.name) with
  | some position =>
    rw [index] at found
    obtain ⟨entry, latest, at_position, key⟩ := IndexBy.lookup_latest found
    refine ⟨by rw [currentEntry_mem latest key]; exact at_position, ?_⟩
    intro entry' key'
    have lookup : (sweep.observed.indexBy (·.key)).lookup entry'.key = some position := key' ▸ found
    have present : entry'.key ∈ sweep.observed.map (·.key) := by
      rw [key', Certificate.key, ← key]
      exact List.mem_map_of_mem (List.mem_of_getElem? at_position)
    refine ⟨by rw [List.putBy, lookup], index.trans ?_⟩
    exact (IndexBy.indexBy_putBy _ _).trans (if_pos present) |>.symm
  | none =>
    rw [index, IndexBy.lookup_eq_none] at found
    refine ⟨by rw [currentEntry_new found]; simp, ?_⟩
    intro entry key
    have absent : entry.key ∉ sweep.observed.map (·.key) := key ▸ found
    refine ⟨by rw [List.putBy, IndexBy.lookup_eq_none.mpr absent]; simp, ?_⟩
    have put : observedStateIndex (sweep.observed.putBy (·.key) entry) =
        (sweep.observed.indexBy (·.key)).insert entry.key sweep.observed.length :=
      (IndexBy.indexBy_putBy _ _).trans (if_neg absent)
    rw [put, key]
    simp only [index]
    rfl

/-- One turn of the loop, as a pass over the certificate's entry. -/
theorem Sweep.Indexed.turn (indexed : sweep.Indexed) (context : buildWorkflowContext ext ambient cjob = .ok workflowCtx)
    (cert : Certificate) :
    sweepCertificate c ext ambient cjob workflowCtx sweep cert =
      (EntryPass.perform c ext ⟨ambient, cjob, cert, sweep.client⟩ (currentEntry sweep.observed cert)).map
        (sweep.record cert) := by
  obtain ⟨entry, writes⟩ := indexed.ensure cert
  have pass : EntryPass.perform c ext ⟨ambient, cjob, cert, sweep.client⟩ (currentEntry sweep.observed cert) =
      reconcileObservedCertificate c ext ambient cjob cert (currentEntry sweep.observed cert) workflowCtx
        sweep.client := by
    simp only [EntryPass.perform, context, Except.toOption, Option.bind_some]
  simp only [sweepCertificate, entry, Option.bind_eq_bind, Option.bind_some, ← pass]
  cases performed : EntryPass.perform c ext ⟨ambient, cjob, cert, sweep.client⟩ (currentEntry sweep.observed cert) with
  | none => rfl
  | some out =>
    obtain ⟨observed, index⟩ := writes out.state ((perform_key performed).trans (currentEntry_key _ _))
    simp only [Option.bind_some, Option.map_some, observed, index]
    rfl

theorem Sweep.Indexed.step (indexed : sweep.Indexed) (context : buildWorkflowContext ext ambient cjob = .ok workflowCtx)
    (round : sweepCertificate c ext ambient cjob workflowCtx sweep cert = some next) :
    ∃ out, EntryPass.perform c ext ⟨ambient, cjob, cert, sweep.client⟩ (currentEntry sweep.observed cert) = some out ∧
      out.state.key = cert.key ∧ next.Indexed ∧ next = sweep.record cert out := by
  rw [indexed.turn context] at round
  obtain ⟨out, performed, rfl⟩ := Option.map_eq_some_iff.mp round
  exact ⟨out, performed, (perform_key performed).trans (currentEntry_key _ _), rfl, rfl⟩

theorem Sweep.Indexed.total (certs : List Certificate) (indexed : sweep.Indexed)
    (context : buildWorkflowContext ext ambient cjob = .ok workflowCtx) :
    ∃ last, certs.foldlM (sweepCertificate c ext ambient cjob workflowCtx) sweep = some last := by
  induction certs generalizing sweep with
  | nil => exact ⟨sweep, rfl⟩
  | cons cert certs ih =>
    obtain ⟨out, performed⟩ : ∃ out, EntryPass.perform c ext ⟨ambient, cjob, cert, sweep.client⟩
      (currentEntry sweep.observed cert) = some out := perform_total context _
    rw [List.foldlM_cons, indexed.turn context, performed, Option.map_some, Option.bind_eq_bind, Option.bind_some]
    exact ih rfl

theorem Sweep.Indexed.invariant (certs : List Certificate) (holds : Sweep σ → Prop)
    (keep : ∀ cert ∈ certs, ∀ (sweep : Sweep σ) out, holds sweep →
      EntryPass.perform c ext ⟨ambient, cjob, cert, sweep.client⟩ (currentEntry sweep.observed cert) = some out →
        holds (sweep.record cert out))
    (indexed : sweep.Indexed) (context : buildWorkflowContext ext ambient cjob = .ok workflowCtx)
    (loop : certs.foldlM (sweepCertificate c ext ambient cjob workflowCtx) sweep = some last) (before : holds sweep) :
    holds last := by
  induction certs generalizing sweep with
  | nil =>
    obtain rfl := Option.some.inj loop
    exact before
  | cons cert rest ih =>
    rw [List.foldlM_cons] at loop
    obtain ⟨next, round, loop⟩ := Option.bind_eq_some_iff.mp loop
    obtain ⟨out, performed, -, after, rfl⟩ := indexed.step context round
    exact ih (fun cert inside => keep cert (List.mem_cons_of_mem _ inside)) after loop
      (keep cert List.mem_cons_self sweep out before performed)

/-- A property that new entries have and that passes over the certificates keep holds of every entry after the loop. -/
theorem Sweep.Indexed.entries (certs : List Certificate) (holds : CertificateExecutionState → Prop)
    (new : ∀ cert ∈ certs, holds { ns := cert.ns, name := cert.name, phase := .pending })
    (keep : ∀ cert ∈ certs, ∀ client entry out, entry.key = cert.key → holds entry →
      EntryPass.perform c ext ⟨ambient, cjob, cert, client⟩ entry = some out → holds out.state)
    (indexed : sweep.Indexed) (context : buildWorkflowContext ext ambient cjob = .ok workflowCtx)
    (loop : certs.foldlM (sweepCertificate c ext ambient cjob workflowCtx) sweep = some last)
    (before : ∀ entry ∈ sweep.observed, holds entry) : ∀ entry ∈ last.observed, holds entry := by
  refine Sweep.Indexed.invariant certs (fun sweep => ∀ entry ∈ sweep.observed, holds entry) ?_ indexed context loop before
  intro cert inside sweep out before performed
  have first : holds (currentEntry sweep.observed cert) := by
    rcases currentEntry_cases sweep.observed cert with latest | ⟨-, new_⟩
    · exact before _ ((IndexBy.mem_latest_or_stale _).mpr (.inl latest))
    · rw [new_]
      exact new cert inside
  intro entry member
  rcases (IndexBy.mem_latest_or_stale (·.key)).mp member with latest | stale
  · rcases IndexBy.mem_latestBy_putBy.mp latest with rfl | ⟨old, -⟩
    · exact keep cert inside _ _ _ (currentEntry_key _ _) first performed
    · exact before entry ((IndexBy.mem_latest_or_stale _).mpr (.inl old))
  · rw [Sweep.record_observed, IndexBy.staleBy_putBy] at stale
    exact before entry ((IndexBy.mem_latest_or_stale _).mpr (.inr stale))

/-- What a reconcile leaves of a status, and what it sends, comes from the loop over the certificates, if it gets there. -/
theorem reconcileCertificateJob_cases {s : σ} {out : JobOutcome σ}
    (result : reconcileCertificateJob c ext ambient cjob s = some out) :
    (out.status.observedCertificates = cjob.status.observedCertificates ∧ out.calls = []) ∨
    ∃ workflowCtx certs last, buildWorkflowContext ext ambient cjob = .ok workflowCtx ∧
      listMatchingCertificates c ext cjob s = .ok certs ∧
      certs.foldlM (sweepCertificate c ext ambient cjob workflowCtx) (.start cjob s) = some last ∧
      out.status.observedCertificates = filterObservedStates last.observed last.matchedKeys ∧
      out.calls = last.calls := by
  unfold reconcileCertificateJob at result
  split at result
  · obtain rfl := Option.some.inj result
    exact .inl ⟨rfl, rfl⟩
  · rename_i workflowCtx context
    split at result
    · obtain rfl := Option.some.inj result
      exact .inl ⟨rfl, rfl⟩
    · rename_i certs listed
      obtain ⟨last, loop, result⟩ := Option.bind_eq_some_iff.mp result
      obtain rfl := Option.some.inj result
      exact .inr ⟨workflowCtx, certs, last, context, listed, loop, rfl, rfl⟩

end

structure Visit (σ : Type) where
  cert : Certificate
  client : σ
  out : EntryOutcome σ

def Chained {σ : Type} : σ → List (Visit σ) → σ → Prop
  | s, [], t => t = s
  | s, visit :: rest, t => visit.client = s ∧ Chained visit.out.client rest t

def totalProgress {σ : Type} (first : CertificateWorkflowProgress) (visits : List (Visit σ)) :
    CertificateWorkflowProgress :=
  { needsRequeue := first.needsRequeue || visits.any (·.out.progress.needsRequeue)
    anyFailed := first.anyFailed || visits.any (·.out.progress.anyFailed)
    anyInProgress := first.anyInProgress || visits.any (·.out.progress.anyInProgress) }

section
variable {σ : Type} (c : Client σ) (ext : External) (ambient : Ambient) (cjob : CertificateJob)

structure Swept (sweep : Sweep σ) (visits : List (Visit σ)) (last : Sweep σ) : Prop where
  performed : ∀ visit ∈ visits, EntryPass.perform c ext ⟨ambient, cjob, visit.cert, visit.client⟩
    (currentEntry sweep.observed visit.cert) = some visit.out
  chained : Chained sweep.client visits last.client
  stale : last.observed.staleBy (·.key) = sweep.observed.staleBy (·.key)
  latest : ∀ entry, entry ∈ last.observed.latestBy (·.key) ↔
    (entry ∈ sweep.observed.latestBy (·.key) ∧ entry.key ∉ visits.map (·.cert.key)) ∨
      ∃ visit ∈ visits, entry = visit.out.state
  unchanged : (∀ visit ∈ visits, visit.out.state ∈ sweep.observed.latestBy (·.key)) → last.observed = sweep.observed
  matched : ∀ key, key ∈ last.matchedKeys ↔ key ∈ sweep.matchedKeys ∨ key ∈ visits.map (·.cert.key)
  calls : last.calls = sweep.calls ++ visits.flatMap fun visit => visit.out.calls.map fun call => (visit.cert.name, call)
  progress : last.progress = totalProgress sweep.progress visits

variable {c ext ambient cjob} {workflowCtx : WorkflowContext} {sweep last : Sweep σ} {visits : List (Visit σ)}

theorem Swept.refl (sweep : Sweep σ) : Swept c ext ambient cjob sweep [] sweep where
  performed := by simp
  chained := rfl
  stale := rfl
  latest := by simp
  unchanged _ := rfl
  matched := by simp
  calls := by simp
  progress := by simp [totalProgress]

theorem Swept.cons {cert : Certificate} {out : EntryOutcome σ}
    (performed : EntryPass.perform c ext ⟨ambient, cjob, cert, sweep.client⟩ (currentEntry sweep.observed cert) = some out)
    (key : out.state.key = cert.key) (fresh : cert.key ∉ visits.map (·.cert.key))
    (rest : Swept c ext ambient cjob (sweep.record cert out) visits last) :
    Swept c ext ambient cjob sweep (⟨cert, sweep.client, out⟩ :: visits) last := by
  refine ⟨?_, ⟨rfl, rest.chained⟩, ?_, ?_, ?_, ?_, ?_, ?_⟩
  · intro visit member
    rcases List.mem_cons.mp member with rfl | later
    · exact performed
    · have other : out.state.key ≠ visit.cert.key := by
        rw [key]
        exact fun same => fresh (same ▸ List.mem_map_of_mem later)
      rw [← currentEntry_put other]
      exact rest.performed visit later
  · rw [rest.stale, Sweep.record_observed, IndexBy.staleBy_putBy]
  · intro entry
    rw [rest.latest, Sweep.record_observed, IndexBy.mem_latestBy_putBy, key, List.map_cons, List.mem_cons, not_or]
    constructor
    · rintro (⟨rfl | ⟨old, other⟩, unvisited⟩ | ⟨visit, later, rfl⟩)
      · exact .inr ⟨_, List.mem_cons_self, rfl⟩
      · exact .inl ⟨old, other, unvisited⟩
      · exact .inr ⟨visit, List.mem_cons_of_mem _ later, rfl⟩
    · rintro (⟨old, other, unvisited⟩ | ⟨visit, member, rfl⟩)
      · exact .inl ⟨.inr ⟨old, other⟩, unvisited⟩
      · rcases List.mem_cons.mp member with rfl | later
        · exact .inl ⟨.inl rfl, key ▸ fresh⟩
        · exact .inr ⟨visit, later, rfl⟩
  · intro kept
    have same : sweep.observed.putBy (·.key) out.state = sweep.observed :=
      IndexBy.putBy_same (kept _ List.mem_cons_self)
    rw [← same]
    apply rest.unchanged
    intro visit later
    simp only [Sweep.record_observed, same]
    exact kept visit (List.mem_cons_of_mem _ later)
  · intro name
    rw [rest.matched, Sweep.record_matchedKeys, List.mem_insert_iff, List.map_cons, List.mem_cons]
    tauto
  · rw [rest.calls, Sweep.record_calls, List.flatMap_cons, List.append_assoc]
  · rw [rest.progress]
    simp [totalProgress, CertificateWorkflowProgress.merge, Bool.or_assoc]

theorem Sweep.Indexed.run (certs : List Certificate) (indexed : sweep.Indexed)
    (context : buildWorkflowContext ext ambient cjob = .ok workflowCtx) (distinct : (certs.map (·.key)).Nodup)
    (loop : certs.foldlM (sweepCertificate c ext ambient cjob workflowCtx) sweep = some last) :
    ∃ visits, visits.map (·.cert) = certs ∧ Swept c ext ambient cjob sweep visits last := by
  induction certs generalizing sweep with
  | nil =>
    obtain rfl := Option.some.inj loop
    exact ⟨[], rfl, .refl sweep⟩
  | cons cert rest ih =>
    obtain ⟨fresh, distinct⟩ := List.nodup_cons.mp distinct
    rw [List.foldlM_cons] at loop
    obtain ⟨next, round, loop⟩ := Option.bind_eq_some_iff.mp loop
    obtain ⟨out, performed, key, after, rfl⟩ := indexed.step context round
    obtain ⟨visits, names, swept⟩ := ih after distinct loop
    have unvisited : cert.key ∉ visits.map (·.cert.key) := by
      rw [← names, List.map_map] at fresh
      exact fresh
    exact ⟨⟨cert, sweep.client, out⟩ :: visits, by rw [List.map_cons, names], swept.cons performed key unvisited⟩

theorem Swept.matched_certs {s : σ} {certs : List Certificate} (swept : Swept c ext ambient cjob (.start cjob s) visits last)
    (visited : visits.map (·.cert) = certs) (key : String) : key ∈ last.matchedKeys ↔ key ∈ certs.map (·.key) := by
  rw [swept.matched, ← visited, List.map_map]
  exact or_iff_right List.not_mem_nil

end

section
variable {σ : Type} (c : Client σ) (ext : External) (ambient : Ambient) (cjob : CertificateJob) (s : σ)

/-- A reconcile that gets to its certificates, as the turns it makes. -/
structure Reconciled (certs : List Certificate) (out : JobOutcome σ) (visits : List (Visit σ)) : Prop where
  visited : visits.map (·.cert) = certs
  performed : ∀ visit ∈ visits, EntryPass.perform c ext ⟨ambient, cjob, visit.cert, visit.client⟩
    (currentEntry cjob.status.observedCertificates visit.cert) = some visit.out
  chained : Chained s visits out.client
  entries : ∀ entry, entry ∈ out.status.observedCertificates ↔ (∃ visit ∈ visits, entry = visit.out.state) ∨
    (entry ∈ cjob.status.observedCertificates.staleBy (·.key) ∧ entry.key ∈ certs.map (·.key))
  latest : ∀ visit ∈ visits, visit.out.state ∈ out.status.observedCertificates.latestBy (·.key)
  unchanged : (∀ visit ∈ visits, visit.out.state ∈ cjob.status.observedCertificates.latestBy (·.key)) →
    (∀ entry ∈ cjob.status.observedCertificates, entry.key ∈ certs.map (·.key)) →
      out.status.observedCertificates = cjob.status.observedCertificates
  conditions : out.status.conditions =
    applyCertificateJobConditions ext ambient cjob certs.length (totalProgress {} visits)
  requeue : out.requeueAfter = if visits.any (·.out.progress.needsRequeue) then some 10 else none
  err : out.err = none
  calls : out.calls = visits.flatMap fun visit => visit.out.calls.map fun call => (visit.cert.name, call)

variable {c ext ambient cjob s} {workflowCtx : WorkflowContext} {certs : List Certificate} {out : JobOutcome σ}
  {visits : List (Visit σ)} {visit : Visit σ}

/-- No reconcile dereferences a missing node, whatever the status holds. -/
theorem reconcileCertificateJob_total (c : Client σ) (ext : External) (ambient : Ambient) (cjob : CertificateJob) (s : σ) :
    ∃ out, reconcileCertificateJob c ext ambient cjob s = some out := by
  unfold reconcileCertificateJob
  split
  · exact ⟨_, rfl⟩
  · rename_i workflowCtx context
    split
    · exact ⟨_, rfl⟩
    · rename_i certs _
      obtain ⟨last, loop⟩ : ∃ last, certs.foldlM (sweepCertificate c ext ambient cjob workflowCtx)
          { observed := cjob.status.observedCertificates
            stateIndex := observedStateIndex cjob.status.observedCertificates
            matchedKeys := [], progress := {}, calls := [], client := s } = some last :=
        Sweep.Indexed.total certs rfl context
      rw [loop]
      exact ⟨_, rfl⟩

theorem reconcile_total (c : Client σ) (ext : External) (ambient : Ambient) (ns name : String) (s : σ) :
    ∃ out, reconcile c ext ambient ns name s = some out := by
  unfold reconcile
  cases c.getCertificateJob s ns name with
  | error e => exact ⟨_, rfl⟩
  | ok cjob =>
    obtain ⟨out, result⟩ := reconcileCertificateJob_total c ext ambient cjob s
    simp only [result, Option.bind_eq_bind, Option.bind_some]
    split
    · exact ⟨_, rfl⟩
    · split
      · exact ⟨_, rfl⟩
      · exact ⟨_, rfl⟩

theorem reconcileCertificateJob_creates (result : reconcileCertificateJob c ext ambient cjob s = some out) : Creates c s out.client := by
  unfold reconcileCertificateJob at result
  split at result
  · obtain rfl := Option.some.inj result
    exact .refl
  · rename_i workflowCtx context
    split at result
    · obtain rfl := Option.some.inj result
      exact .refl
    · rename_i certs listed
      obtain ⟨last, loop, result⟩ := Option.bind_eq_some_iff.mp result
      obtain rfl := Option.some.inj result
      refine Sweep.Indexed.invariant certs (fun sweep => Creates c s sweep.client) ?_ (by rfl) context loop .refl
      exact fun cert _ sweep out before performed => before.trans (perform_creates performed)

theorem reconcileCertificateJob_reconciled (context : buildWorkflowContext ext ambient cjob = .ok workflowCtx)
    (listed : listMatchingCertificates c ext cjob s = .ok certs) (distinct : (certs.map (·.key)).Nodup)
    (result : reconcileCertificateJob c ext ambient cjob s = some out) :
    ∃ visits, Reconciled c ext ambient cjob s certs out visits := by
  simp only [reconcileCertificateJob, context, listed] at result
  obtain ⟨last, loop, result⟩ := Option.bind_eq_some_iff.mp result
  obtain rfl := Option.some.inj result
  obtain ⟨visits, names, swept⟩ := Sweep.Indexed.run certs (by rfl) context distinct loop
  have keys : visits.map (·.cert.key) = certs.map (·.key) := by rw [← names, List.map_map]; rfl
  have matched := swept.matched_certs names
  refine ⟨visits, names, swept.performed, swept.chained, ?_, ?_, ?_, by rw [swept.progress], by simp [swept.progress,
    totalProgress], rfl, by rw [swept.calls, List.nil_append]⟩
  · intro entry
    have key : certificateKey entry.ns entry.name = entry.key := rfl
    simp only [filterObservedStates, List.mem_filter, decide_eq_true_eq, key, matched]
    rw [IndexBy.mem_latest_or_stale (·.key), swept.latest, swept.stale, keys]
    constructor
    · rintro ⟨(⟨-, unvisited⟩ | visited) | stale, named⟩
      · exact absurd named unvisited
      · exact .inl visited
      · exact .inr ⟨stale, named⟩
    · rintro (⟨visit, inside, rfl⟩ | ⟨stale, named⟩)
      · refine ⟨.inl (.inr ⟨visit, inside, rfl⟩), ?_⟩
        rw [(perform_key (swept.performed visit inside)).trans (currentEntry_key _ _), ← keys]
        exact List.mem_map_of_mem inside
      · exact ⟨.inr stale, named⟩
  · intro visit inside
    have present : visit.out.state.key ∈ last.matchedKeys := by
      rw [matched, (perform_key (swept.performed visit inside)).trans (currentEntry_key _ _), ← keys]
      exact List.mem_map_of_mem inside
    have filtered := IndexBy.latestBy_filter (·.key) (fun key => decide (key ∈ last.matchedKeys)) last.observed
    simp only [filterObservedStates]
    rw [show (fun entry : CertificateExecutionState => decide (certificateKey entry.ns entry.name ∈ last.matchedKeys)) =
      fun entry => decide (entry.key ∈ last.matchedKeys) from rfl, filtered, List.mem_filter]
    exact ⟨(swept.latest _).mpr (.inr ⟨visit, inside, rfl⟩), decide_eq_true present⟩
  · intro kept named
    have same : last.observed = cjob.status.observedCertificates := swept.unchanged kept
    simp only [filterObservedStates, same]
    rw [List.filter_eq_self]
    intro entry member
    exact decide_eq_true ((matched _).mpr (named entry member))

theorem Reconciled.matched (turns : Reconciled c ext ambient cjob s certs out visits) (member : visit ∈ visits) :
    visit.cert ∈ certs := turns.visited ▸ List.mem_map_of_mem member

theorem Reconciled.visit_of (turns : Reconciled c ext ambient cjob s certs out visits) {cert : Certificate}
    (member : cert ∈ certs) : ∃ visit ∈ visits, visit.cert = cert :=
  List.mem_map.mp (turns.visited ▸ member)

theorem Reconciled.key (turns : Reconciled c ext ambient cjob s certs out visits) (member : visit ∈ visits) :
    visit.out.state.key = visit.cert.key :=
  (perform_key (turns.performed visit member)).trans (currentEntry_key _ _)

theorem Reconciled.entry (turns : Reconciled c ext ambient cjob s certs out visits) (member : visit ∈ visits) :
    currentEntry out.status.observedCertificates visit.cert = visit.out.state :=
  currentEntry_mem (turns.latest visit member) (turns.key member)

theorem Chained.creates {s t : σ} (chained : Chained s visits t)
    (steps : ∀ visit ∈ visits, Creates c visit.client visit.out.client) :
    Creates c s t ∧ ∀ visit ∈ visits, Creates c s visit.client ∧ Creates c visit.out.client t := by
  induction visits generalizing s with
  | nil =>
    obtain rfl : t = s := chained
    exact ⟨.refl, by simp⟩
  | cons first rest ih =>
    obtain ⟨rfl, chained⟩ := chained
    obtain ⟨whole, parts⟩ := ih chained fun visit later => steps visit (List.mem_cons_of_mem _ later)
    have step := steps first List.mem_cons_self
    refine ⟨step.trans whole, ?_⟩
    intro visit member
    rcases List.mem_cons.mp member with rfl | later
    · exact ⟨.refl, whole⟩
    · exact ⟨step.trans (parts visit later).1, (parts visit later).2⟩

theorem Reconciled.creates (turns : Reconciled c ext ambient cjob s certs out visits) :
    Creates c s out.client ∧ ∀ visit ∈ visits, Creates c s visit.client ∧ Creates c visit.out.client out.client :=
  turns.chained.creates fun visit member => perform_creates (turns.performed visit member)

theorem Reconciled.inputHash (turns : Reconciled c ext ambient cjob s certs out visits)
    (steady : ∀ s job, c.getSecret (c.createJob s job).2 = c.getSecret s) (member : visit ∈ visits) :
    EntryPass.inputHash c ext ⟨ambient, cjob, visit.cert, visit.client⟩ =
      EntryPass.inputHash c ext ⟨ambient, cjob, visit.cert, s⟩ := by
  -- Creating Jobs does not touch the Secrets, so every turn finds the input that was there at first.
  have secrets := (turns.creates.2 visit member).1.frame c.getSecret steady
  simp only [EntryPass.inputHash, secrets]

theorem reconcileCertificateJob_entries (holds : CertificateExecutionState → Prop)
    (new : ∀ certs, listMatchingCertificates c ext cjob s = .ok certs → ∀ cert ∈ certs,
      holds { ns := cert.ns, name := cert.name, phase := .pending })
    (keep : ∀ certs, listMatchingCertificates c ext cjob s = .ok certs → ∀ cert ∈ certs, ∀ client entry out,
      entry.key = cert.key → holds entry →
      EntryPass.perform c ext ⟨ambient, cjob, cert, client⟩ entry = some out → holds out.state)
    (result : reconcileCertificateJob c ext ambient cjob s = some out)
    (before : ∀ entry ∈ cjob.status.observedCertificates, holds entry) :
    ∀ entry ∈ out.status.observedCertificates, holds entry := by
  rcases reconcileCertificateJob_cases result with ⟨same, -⟩ | ⟨workflowCtx, certs, last, context, listed, loop, left, -⟩
  · rw [same]
    exact before
  · rw [left]
    intro entry member
    exact Sweep.Indexed.entries certs holds (new certs listed) (keep certs listed) (by rfl) context loop before entry
      (List.mem_filter.mp member).1

theorem reconcileCertificateJob_requested (result : reconcileCertificateJob c ext ambient cjob s = some out) :
    ∀ call ∈ out.calls, ∃ cert runID, Requested c cjob cert runID call.2 := by
  rcases reconcileCertificateJob_cases result with ⟨-, none⟩ | ⟨workflowCtx, certs, last, context, -, loop, -, calls⟩
  · rw [none]
    simp
  · rw [calls]
    refine Sweep.Indexed.invariant certs (fun sweep => ∀ call ∈ sweep.calls, ∃ cert runID, Requested c cjob cert runID call.2)
      ?_ (by rfl) context loop (by simp [Sweep.start])
    intro cert _ sweep turn before performed
    refine List.forall_mem_append.mpr ⟨before, List.forall_mem_map.mpr ?_⟩
    exact fun call made => ⟨cert, perform_requested performed call made⟩

theorem reconcileCertificateJob_unique (unique : (cjob.status.observedCertificates.map (·.key)).Nodup)
    (result : reconcileCertificateJob c ext ambient cjob s = some out) :
    (out.status.observedCertificates.map (·.key)).Nodup := by
  rcases reconcileCertificateJob_cases result with ⟨same, -⟩ | ⟨workflowCtx, certs, last, context, -, loop, left, -⟩
  · rw [same]
    exact unique
  · have after : (last.observed.map (·.key)).Nodup := by
      refine Sweep.Indexed.invariant certs (fun sweep => (sweep.observed.map (·.key)).Nodup) ?_ (by rfl) context loop unique
      exact fun _ _ _ turn before _ => IndexBy.putBy_unique before turn.state
    rw [left]
    exact after.sublist (List.filter_sublist.map _)

/-- Where entries and certificates have distinct keys, the entries after a reconcile are the results of its turns. -/
theorem Reconciled.entries_unique (turns : Reconciled c ext ambient cjob s certs out visits)
    (unique : (cjob.status.observedCertificates.map (·.key)).Nodup) (entry : CertificateExecutionState) :
    entry ∈ out.status.observedCertificates ↔ ∃ visit ∈ visits, entry = visit.out.state := by
  rw [turns.entries, (IndexBy.latestBy_of_unique unique).2]
  simp

end

end CertificateJobs
