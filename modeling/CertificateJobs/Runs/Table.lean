import CertificateJobs.Controller.Cluster
import CertificateJobs.Library.Slice
import CertificateJobs.Runs.Sweep

namespace CertificateJobs

open Slices

/-! The loop over the certificates as it runs in memory: `Status.ObservedCertificates` is a slice that `append` may move,
    and an entry is read and written through its address. -/

namespace InMemory

abbrev Table := Backed CertificateExecutionState

structure Sweep (σ : Type) where
  table : Table
  stateIndex : AList (fun _ : String => Nat)
  matchedKeys : List String
  progress : CertificateWorkflowProgress
  calls : List (String × CreateCall)
  client : σ

def ensureObservedCertificateState {σ : Type} (grow : Growth) (sweep : Sweep σ) (cert : Certificate) :
    Option (Sweep σ × Pointer) :=
  -- `none` is an index out of range.
  match sweep.stateIndex.lookup (certificateKey cert.ns cert.name) with
  | some idx => (sweep.table.slice.address idx).map fun pointer => (sweep, pointer)
  | none =>
    let table := sweep.table.append grow { ns := cert.ns, name := cert.name, phase := .pending }
    let idx := table.slice.length - 1
    (table.slice.address idx).map fun pointer =>
      ({ sweep with table := table, stateIndex := sweep.stateIndex.insert (certificateKey cert.ns cert.name) idx }, pointer)

def sweepCertificate {σ : Type} (grow : Growth) (c : Client σ) (ext : External) (ambient : Ambient) (cjob : CertificateJob)
    (workflowCtx : WorkflowContext) (sweep : Sweep σ) (cert : Certificate) : Option (Sweep σ) := do
  let (ensured, state) ← ensureObservedCertificateState grow sweep cert
  let out ← reconcileObservedCertificate c ext ambient cjob cert (ensured.table.memory.load state) workflowCtx sweep.client
  return { ensured with
    table := ensured.table.store state out.state
    matchedKeys := sweep.matchedKeys.insert (certificateKey cert.ns cert.name)
    progress := sweep.progress.merge out.progress
    calls := sweep.calls ++ out.calls.map fun call => (cert.name, call)
    client := out.client }

def filterObservedStates (grow : Growth) (table : Table) (matchedKeys : List String) : Table :=
  table.select grow fun entry => certificateKey entry.ns entry.name ∈ matchedKeys

/-- `reconcileCertificateJob` and the slice that the status has at its end. -/
def reconcileCertificateJob {σ : Type} (grow : Growth) (c : Client σ) (ext : External) (ambient : Ambient)
    (cjob : CertificateJob) (table : Table) (s : σ) : Option (Table × JobOutcome σ) :=
  match buildWorkflowContext ext ambient cjob with
  | .error e =>
    some (table,
      { status := { observedCertificates := table.view, conditions := invalidSpecConditions ext ambient cjob e }
        requeueAfter := none, err := none, calls := [], client := s })
  | .ok workflowCtx =>
    match listMatchingCertificates c ext cjob s with
    | .error e =>
      some (table,
        { status := { observedCertificates := table.view, conditions := listFailedConditions ext ambient cjob e.text }
          requeueAfter := none, err := some e, calls := [], client := s })
    | .ok certificates => do
      let sweep ← certificates.foldlM (sweepCertificate grow c ext ambient cjob workflowCtx)
        { table := table
          stateIndex := observedStateIndex table.view
          matchedKeys := [], progress := {}, calls := [], client := s }
      let filtered := filterObservedStates grow sweep.table sweep.matchedKeys
      return (filtered,
        { status := {
            observedCertificates := filtered.view
            conditions := applyCertificateJobConditions ext ambient cjob certificates.length sweep.progress }
          requeueAfter := if sweep.progress.needsRequeue then some 10 else none
          err := none
          calls := sweep.calls
          client := sweep.client })

section
variable {σ : Type} (grow : Growth)

@[simps client] def Sweep.shown (sweep : Sweep σ) : CertificateJobs.Sweep σ where
  observed := sweep.table.view
  stateIndex := sweep.stateIndex
  matchedKeys := sweep.matchedKeys
  progress := sweep.progress
  calls := sweep.calls
  client := sweep.client

theorem ensureObservedCertificateState_refines (sweep : Sweep σ) (cert : Certificate) :
    let ensured := CertificateJobs.ensureObservedCertificateState sweep.shown cert
    (ensured.1.observed[ensured.2]? = none ∧ ensureObservedCertificateState grow sweep cert = none) ∨
    ∃ after pointer, ensureObservedCertificateState grow sweep cert = some (after, pointer) ∧ after.shown = ensured.1 ∧
      after.table.slice.address ensured.2 = some pointer := by
  unfold ensureObservedCertificateState CertificateJobs.ensureObservedCertificateState
  simp only [Sweep.shown]
  cases sweep.stateIndex.lookup (certificateKey cert.ns cert.name) with
  | some idx =>
    simp only [Backed.view, Memory.getElem?_view]
    cases address : sweep.table.slice.address idx with
    | none => exact .inl ⟨rfl, rfl⟩
    | some pointer => exact .inr ⟨sweep, pointer, rfl, rfl, address⟩
  | none =>
    right
    have last : (sweep.table.append grow { ns := cert.ns, name := cert.name, phase := .pending }).slice.length - 1 =
        sweep.table.view.length := by
      rw [Backed.length_append, Nat.add_sub_cancel, Backed.view, Memory.length_view]
    have inside : sweep.table.view.length <
        (sweep.table.append grow { ns := cert.ns, name := cert.name, phase := .pending }).slice.length := by
      rw [Backed.length_append, Backed.view, Memory.length_view]
      exact Nat.lt_succ_self _
    simp only [last, Slice.address, if_pos inside, Option.map_some]
    exact ⟨_, _, rfl, by simp only [Backed.view_append], if_pos inside⟩

variable (c : Client σ) (ext : External) (ambient : Ambient) (cjob : CertificateJob) (workflowCtx : WorkflowContext)

theorem sweepCertificate_refines (sweep : Sweep σ) (cert : Certificate) :
    (sweepCertificate grow c ext ambient cjob workflowCtx sweep cert).map Sweep.shown =
      CertificateJobs.sweepCertificate c ext ambient cjob workflowCtx sweep.shown cert := by
  unfold sweepCertificate CertificateJobs.sweepCertificate
  simp only [Option.bind_eq_bind]
  rcases ensureObservedCertificateState_refines grow sweep cert with ⟨outside, panics⟩ | ⟨after, pointer, found, shown, address⟩
  · rw [outside, panics]
    rfl
  · have entry : (CertificateJobs.ensureObservedCertificateState sweep.shown cert).1.observed[
        (CertificateJobs.ensureObservedCertificateState sweep.shown cert).2]? = some (after.table.memory.load pointer) := by
      rw [← shown, Sweep.shown, Backed.view, Memory.getElem?_view, address, Option.map_some]
    rw [found, entry, Option.bind_some, Option.bind_some, Sweep.shown_client]
    cases reconcileObservedCertificate c ext ambient cjob cert (after.table.memory.load pointer) workflowCtx
      sweep.client with
    | none => rfl
    | some out =>
      simp only [Option.bind_some, Option.map_some, Option.pure_def, ← shown]
      rw [Sweep.shown, Backed.view_store address]
      rfl

theorem sweep_refines (certs : List Certificate) (sweep : Sweep σ) :
    (certs.foldlM (sweepCertificate grow c ext ambient cjob workflowCtx) sweep).map Sweep.shown =
      certs.foldlM (CertificateJobs.sweepCertificate c ext ambient cjob workflowCtx) sweep.shown :=
  foldlM_shows Sweep.shown (fun _ => True)
    (fun sweep cert _ => sweepCertificate_refines grow c ext ambient cjob workflowCtx sweep cert)
    (fun _ _ _ _ _ => trivial) certs trivial

/-- Wherever `append` moves the entries, the status shows at the end what the model over lists says. -/
theorem reconcileCertificateJob_refines (table : Table) (s : σ) (stored : table.view = cjob.status.observedCertificates) :
    ∃ last out, reconcileCertificateJob grow c ext ambient cjob table s = some (last, out) ∧
      CertificateJobs.reconcileCertificateJob c ext ambient cjob s = some out ∧
      out.status.observedCertificates = last.view := by
  obtain ⟨out, result⟩ := reconcileCertificateJob_total c ext ambient cjob s
  have whole := result
  unfold CertificateJobs.reconcileCertificateJob at whole
  unfold reconcileCertificateJob
  cases context : buildWorkflowContext ext ambient cjob with
  | error e =>
    simp only [context, ← stored] at whole ⊢
    exact ⟨table, out, by rw [← Option.some.inj whole], result, by rw [← Option.some.inj whole]⟩
  | ok workflowCtx =>
    cases listed : listMatchingCertificates c ext cjob s with
    | error e =>
      simp only [context, listed, ← stored] at whole ⊢
      exact ⟨table, out, by rw [← Option.some.inj whole], result, by rw [← Option.some.inj whole]⟩
    | ok certs =>
      simp only [context, listed, ← stored] at whole ⊢
      have loop := sweep_refines grow c ext ambient cjob workflowCtx certs
        ⟨table, observedStateIndex table.view, [], {}, [], s⟩
      simp only [Sweep.shown] at loop
      rw [← loop] at whole
      cases swept : certs.foldlM (sweepCertificate grow c ext ambient cjob workflowCtx)
        ⟨table, observedStateIndex table.view, [], {}, [], s⟩ with
      | none =>
        rw [swept] at whole
        cases whole
      | some sweep =>
        rw [swept] at whole
        have outcome := Option.some.inj whole
        refine ⟨filterObservedStates grow sweep.table sweep.matchedKeys, out, ?_, result, ?_⟩
        · rw [← outcome]
          simp only [Option.bind_eq_bind, Option.bind_some, filterObservedStates, Backed.view_select]
          rfl
        · rw [← outcome, filterObservedStates, Backed.view_select]
          rfl

end

end InMemory

structure NamespacedName where
  ns : String
  name : String
  deriving DecidableEq

def CertificateExecutionState.namespacedName (entry : CertificateExecutionState) : NamespacedName := ⟨entry.ns, entry.name⟩

def Certificate.namespacedName (cert : Certificate) : NamespacedName := ⟨cert.ns, cert.name⟩

/-- The API server admits no namespace or name with a slash. -/
def Certificate.Plain (cert : Certificate) : Prop := '/' ∉ cert.ns.toList ∧ '/' ∉ cert.name.toList

section
variable {cert : Certificate}

/-- For a plain certificate the concatenated keys tell the same as the pairs, whatever the entry holds. -/
theorem key_eq_iff (plain : cert.Plain) (entry : CertificateExecutionState) :
    entry.key = cert.key ↔ entry.namespacedName = cert.namespacedName := by
  have text : ∀ ns name : String, (certificateKey ns name).toList = ns.toList ++ '/' :: name.toList := by
    intro ns name
    simp [certificateKey]
  unfold CertificateExecutionState.key Certificate.key
  rw [eq_comm, ← String.toList_inj, text, text, List.append_cons_inj_of_notMem plain.1 plain.2, String.toList_inj,
    String.toList_inj, CertificateExecutionState.namespacedName, Certificate.namespacedName, NamespacedName.mk.injEq]
  constructor
  · rintro ⟨ns, -, name⟩
    exact ⟨ns.symm, name.symm⟩
  · rintro ⟨ns, name⟩
    exact ⟨ns.symm, rfl, name.symm⟩

theorem currentEntry_named (plain : cert.Plain) (observed : List CertificateExecutionState) :
    (currentEntry observed cert).namespacedName = cert.namespacedName :=
  (key_eq_iff plain _).mp (currentEntry_key observed cert)

def StartsFrom (observed : List CertificateExecutionState) (cert : Certificate) (entry : CertificateExecutionState) : Prop :=
  (entry ∈ observed ∧ entry.namespacedName = cert.namespacedName) ∨
    (cert.namespacedName ∉ observed.map (·.namespacedName) ∧
      entry = { ns := cert.ns, name := cert.name, phase := .pending })

theorem currentEntry_startsFrom (plain : cert.Plain) (observed : List CertificateExecutionState) :
    StartsFrom observed cert (currentEntry observed cert) := by
  rcases currentEntry_cases observed cert with latest | ⟨absent, new⟩
  · exact .inl ⟨(IndexBy.mem_latest_or_stale (·.key)).mpr (.inl latest), currentEntry_named plain observed⟩
  · refine .inr ⟨fun present => absent ?_, new⟩
    obtain ⟨entry, member, named⟩ := List.mem_map.mp present
    exact (key_eq_iff plain entry).mpr named ▸ List.mem_map_of_mem member

end

section
variable {σ : Type} {c : Client σ} {ext : External} {ambient : Ambient} {cjob : CertificateJob} {s : σ}
  {workflowCtx : WorkflowContext} {certs : List Certificate}

theorem perform_named {cert : Certificate} {client : σ} {observed : List CertificateExecutionState} {out : EntryOutcome σ}
    (plain : cert.Plain)
    (performed : EntryPass.perform c ext ⟨ambient, cjob, cert, client⟩ (currentEntry observed cert) = some out) :
    out.state.namespacedName = cert.namespacedName := by
  obtain ⟨ns, name⟩ := perform_identity performed
  rw [CertificateExecutionState.namespacedName, ns, name]
  exact currentEntry_named plain observed

theorem Sweep.record_names (sweep : Sweep σ) {cert : Certificate} {out : EntryOutcome σ} (plain : cert.Plain)
    (named : out.state.namespacedName = cert.namespacedName) :
    (sweep.record cert out).observed.map (·.namespacedName) =
      if cert.namespacedName ∈ sweep.observed.map (·.namespacedName) then sweep.observed.map (·.namespacedName)
      else sweep.observed.map (·.namespacedName) ++ [cert.namespacedName] := by
  -- A turn of the loop keeps every entry's place, and puts the entry of a new certificate last.
  have keyed : out.state.key = cert.key := (key_eq_iff plain _).mpr named
  have same : ∀ entry ∈ sweep.observed, entry.key = out.state.key ↔ entry.namespacedName = out.state.namespacedName := by
    intro entry _
    rw [keyed, named]
    exact key_eq_iff plain entry
  rw [Sweep.record_observed, IndexBy.map_putBy CertificateExecutionState.namespacedName same, named]

theorem Sweep.Indexed.names {sweep last : Sweep σ} (certs : List Certificate) (plain : ∀ cert ∈ certs, cert.Plain)
    (distinct : (certs.map (·.namespacedName)).Nodup) (indexed : sweep.Indexed)
    (context : buildWorkflowContext ext ambient cjob = .ok workflowCtx)
    (loop : certs.foldlM (sweepCertificate c ext ambient cjob workflowCtx) sweep = some last) :
    last.observed.map (·.namespacedName) = sweep.observed.map (·.namespacedName) ++
      (certs.map (·.namespacedName)).filter (· ∉ sweep.observed.map (·.namespacedName)) := by
  induction certs generalizing sweep with
  | nil =>
    obtain rfl := Option.some.inj loop
    simp
  | cons cert rest ih =>
    obtain ⟨fresh, distinct⟩ := List.nodup_cons.mp distinct
    rw [List.foldlM_cons] at loop
    obtain ⟨next, round, loop⟩ := Option.bind_eq_some_iff.mp loop
    obtain ⟨out, performed, -, after, rfl⟩ := indexed.step context round
    have here := plain cert List.mem_cons_self
    have turn := sweep.record_names here (perform_named here performed)
    rw [ih (fun cert later => plain cert (List.mem_cons_of_mem _ later)) distinct after loop, turn, List.map_cons]
    by_cases present : cert.namespacedName ∈ sweep.observed.map (·.namespacedName)
    · rw [if_pos present, List.filter_cons_of_neg (by simpa using present)]
    · rw [if_neg present, List.filter_cons_of_pos (by simpa using present), List.append_assoc, List.singleton_append]
      congr 2
      -- The rest of the list does not name the certificate again.
      apply List.filter_congr
      intro name later
      have other : name ≠ cert.namespacedName := by
        rintro rfl
        exact fresh later
      simp [other]

theorem reconcileCertificateJob_names {out : JobOutcome σ} (context : buildWorkflowContext ext ambient cjob = .ok workflowCtx)
    (listed : listMatchingCertificates c ext cjob s = .ok certs) (plain : ∀ cert ∈ certs, cert.Plain)
    (distinct : (certs.map (·.namespacedName)).Nodup) (keys : (certs.map (·.key)).Nodup)
    (result : reconcileCertificateJob c ext ambient cjob s = some out) :
    out.status.observedCertificates.map (·.namespacedName) =
      (cjob.status.observedCertificates.map (·.namespacedName)).filter (· ∈ certs.map (·.namespacedName)) ++
      (certs.map (·.namespacedName)).filter (· ∉ cjob.status.observedCertificates.map (·.namespacedName)) := by
  simp only [reconcileCertificateJob, context, listed] at result
  obtain ⟨last, loop, result⟩ := Option.bind_eq_some_iff.mp result
  obtain rfl := Option.some.inj result
  have names := Sweep.Indexed.names certs plain distinct (by rfl) context loop
  obtain ⟨visits, visited, swept⟩ := Sweep.Indexed.run certs (by rfl) context keys loop
  have matched : ∀ entry : CertificateExecutionState,
      certificateKey entry.ns entry.name ∈ last.matchedKeys ↔ entry.namespacedName ∈ certs.map (·.namespacedName) := by
    intro entry
    rw [swept.matched_certs visited, List.mem_map, List.mem_map]
    constructor
    · rintro ⟨cert, member, key⟩
      exact ⟨cert, member, ((key_eq_iff (plain cert member) entry).mp key.symm).symm⟩
    · rintro ⟨cert, member, named⟩
      exact ⟨cert, member, ((key_eq_iff (plain cert member) entry).mpr named.symm).symm⟩
  have kept : (filterObservedStates last.observed last.matchedKeys).map (·.namespacedName) =
      (last.observed.map (·.namespacedName)).filter (· ∈ certs.map (·.namespacedName)) := by
    rw [List.filter_map, filterObservedStates]
    congr 1
    apply List.filter_congr
    intro entry _
    simp only [matched, Function.comp_apply]
  rw [kept, names, List.filter_append, List.filter_filter]
  congr 1
  apply List.filter_congr
  intro name member
  simp only [member, decide_true, Bool.true_and]

structure ExactTable (c : Client σ) (ext : External) (ambient : Ambient) (cjob : CertificateJob) (s : σ)
    (certs : List Certificate) (client : σ) (observed : List CertificateExecutionState) : Prop where
  -- One entry per certificate and no other.
  exact : (observed.map (·.namespacedName)).Perm (certs.map (·.namespacedName))
  -- The old entries in their old order, then the new ones.
  order : observed.map (·.namespacedName) =
    (cjob.status.observedCertificates.map (·.namespacedName)).filter (· ∈ certs.map (·.namespacedName)) ++
    (certs.map (·.namespacedName)).filter (· ∉ cjob.status.observedCertificates.map (·.namespacedName))
  -- What each certificate's turn made of its entry is there.
  updates : ∃ visits : List (Visit σ), visits.map (·.cert) = certs ∧ Chained s visits client ∧ ∀ visit ∈ visits,
    visit.out.state ∈ observed ∧ visit.out.state.namespacedName = visit.cert.namespacedName ∧
    ∃ entry, StartsFrom cjob.status.observedCertificates visit.cert entry ∧
      EntryPass.perform c ext ⟨ambient, cjob, visit.cert, visit.client⟩ entry = some visit.out

end

theorem nodup_by_name {β : Type} {certs : List Certificate} (names : (certs.map (·.name)).Nodup) {f : Certificate → β}
    {g : String → β} (agrees : ∀ cert ∈ certs, f cert = g cert.name) (injective : Function.Injective g) :
    (certs.map f).Nodup := by
  rw [List.map_congr_left agrees, show (fun cert : Certificate => g cert.name) = g ∘ (·.name) from rfl, ← List.map_map]
  exact names.map injective

theorem kept_and_new_perm {α : Type} [DecidableEq α] {old wanted : List α} (unique : old.Nodup) (distinct : wanted.Nodup) :
    (old.filter (· ∈ wanted) ++ wanted.filter (· ∉ old)).Perm wanted := by
  refine (List.perm_ext_iff_of_nodup ?_ distinct).mpr ?_
  · refine List.nodup_append.mpr ⟨unique.filter _, distinct.filter _, ?_⟩
    rintro a kept b new rfl
    simp_all
  · intro a
    by_cases present : a ∈ old
    · simp [present]
    · simp [present]

/-- However the slice grows, a reconcile leaves exactly one entry for each matching certificate: the entries that were there
    keep their order, and every update made in the loop is in the status at its end. -/
theorem observed_table_exact {σ : Type} (grow : Growth) (c : Client σ) (ext : External) (ambient : Ambient)
    (cjob : CertificateJob) (table : InMemory.Table) (s : σ) (workflowCtx : WorkflowContext) (certs : List Certificate)
    (stored : table.view = cjob.status.observedCertificates)
    (unique : (cjob.status.observedCertificates.map (·.namespacedName)).Nodup)
    (context : buildWorkflowContext ext ambient cjob = .ok workflowCtx)
    (listed : listMatchingCertificates c ext cjob s = .ok certs) (here : ∀ cert ∈ certs, cert.ns = cjob.ns)
    (names : (certs.map (·.name)).Nodup) (plain : ∀ cert ∈ certs, cert.Plain) :
    ∃ last out, InMemory.reconcileCertificateJob grow c ext ambient cjob table s = some (last, out) ∧
      reconcileCertificateJob c ext ambient cjob s = some out ∧ out.status.observedCertificates = last.view ∧
      ExactTable c ext ambient cjob s certs out.client last.view := by
  obtain ⟨last, out, inMemory, result, shown⟩ :=
    InMemory.reconcileCertificateJob_refines grow c ext ambient cjob table s stored
  have distinct : (certs.map (·.namespacedName)).Nodup :=
    nodup_by_name names (fun cert member => by rw [Certificate.namespacedName, here cert member])
      fun _ _ same => (NamespacedName.mk.inj same).2
  have keys : (certs.map (·.key)).Nodup :=
    nodup_by_name names (fun cert member => by rw [Certificate.key, here cert member]) fun _ _ => certificateKey_name
  have order := reconcileCertificateJob_names context listed plain distinct keys result
  obtain ⟨visits, turns⟩ := reconcileCertificateJob_reconciled context listed keys result
  refine ⟨last, out, inMemory, result, shown, ?_⟩
  rw [← shown]
  refine ⟨?_, order, visits, turns.visited, turns.chained, ?_⟩
  · rw [order]
    exact kept_and_new_perm unique distinct
  · intro visit member
    have here := plain visit.cert (turns.matched member)
    exact ⟨(turns.entries _).mpr (.inl ⟨visit, member, rfl⟩), perform_named here (turns.performed visit member),
      _, currentEntry_startsFrom here _, turns.performed visit member⟩

def tableCluster : Cluster :=
  { sampleCluster (flatSpec ["a"] 1 .stopDownstream) with
    certificates := ["web", "api"].map fun name => { ns := "default", name := name, spec := { secretName := "" } } }

def tableJob : CertificateJob :=
  { tableCluster.cjob with
    status := { observedCertificates := [{ ns := "default", name := "old", phase := .succeeded },
      { ns := "default", name := "web", phase := .pending }] } }

theorem tableJob_played :
    (buildWorkflowContext plainExternal stillClock tableJob).toOption.isSome = true ∧
    (listMatchingCertificates clusterClient plainExternal tableJob tableCluster).toOption.any (fun certs =>
      certs.map (·.name) = ["api", "web"] ∧ certs.all fun cert => cert.ns = "default") = true := by
  decide +kernel

theorem observed_table_exact_moved :
    let table : InMemory.Table := ⟨⟨fun _ index =>
      if index = 0 then { ns := "default", name := "old", phase := .succeeded }
      else { ns := "default", name := "web", phase := .pending }, 1⟩, ⟨0, 2, 2, Nat.le_refl 2⟩, Nat.one_pos⟩
    ∃ last out, InMemory.reconcileCertificateJob (fun _ => 0) clusterClient plainExternal stillClock tableJob table
        tableCluster = some (last, out) ∧
      last.view.map (·.namespacedName) = [⟨"default", "web"⟩, ⟨"default", "api"⟩] := by
  intro table
  obtain ⟨accepted, matched⟩ := tableJob_played
  obtain ⟨workflowCtx, context⟩ := Option.isSome_iff_exists.mp accepted
  obtain ⟨certs, listed, checked⟩ := (Option.any_eq_true _ _).mp matched
  obtain ⟨names, here⟩ := of_decide_eq_true checked
  have here : ∀ cert ∈ certs, cert.ns = "default" := by simpa using here
  have pairs : certs.map (·.namespacedName) = ["api", "web"].map (NamespacedName.mk "default") := by
    rw [← names, List.map_map]
    exact List.map_congr_left fun cert member => by rw [Certificate.namespacedName, here cert member]; rfl
  have plain : ∀ cert ∈ certs, cert.Plain := by
    intro cert member
    have named : cert.name ∈ ["api", "web"] := names ▸ List.mem_map_of_mem member
    have slashless : ∀ name ∈ ["api", "web"], '/' ∉ name.toList := by decide
    exact ⟨by rw [here cert member]; decide, slashless _ named⟩
  obtain ⟨last, out, inMemory, -, -, table⟩ := observed_table_exact (fun _ => 0) clusterClient plainExternal stillClock
    tableJob table tableCluster workflowCtx certs rfl (by decide) (ok_of_toOption context) (ok_of_toOption listed) here
    (by rw [names]; decide) plain
  refine ⟨last, out, inMemory, ?_⟩
  rw [table.order, pairs]
  decide

end CertificateJobs
