import CertificateJobs.Controller.Reconcile
import CertificateJobs.Workflow.GraphSound

namespace CertificateJobs

def reservedKeys (labels : Labels) : List String := labels.keys.filter (· ∈ reservedOperatorLabels)

def MapOrder.from (key : String) : MapOrder where
  visit keys := if key ∈ keys then key :: keys.erase key else keys
  perm keys := by
    split
    · rename_i present
      exact (List.perm_cons_erase present).symm
    · exact .rfl

theorem mem_reservedKeys {labels : Labels} {key : String} :
    key ∈ reservedKeys labels ↔ key ∈ labels ∧ key ∈ reservedOperatorLabels := by
  simp [reservedKeys, AList.mem_keys]

theorem reservedKeys_nodup (labels : Labels) : (reservedKeys labels).Nodup := labels.nodupKeys.filter _

theorem reservedKeys_eq_nil {labels : Labels} :
    reservedKeys labels = [] ↔ ∀ key ∈ labels, key ∉ reservedOperatorLabels := by
  simp [reservedKeys, List.filter_eq_nil_iff, AList.mem_keys]

section
variable {order order' : MapOrder} {labels : Labels} {e e' : SecurityError}

theorem validateReservedLabels_error (refused : validateReservedLabels order labels = .error e) :
    ∃ key ∈ reservedKeys labels, e = .reservedLabel key := by
  unfold validateReservedLabels at refused
  split at refused
  · rename_i key found
    have member := order.mem_visit.mp (List.mem_of_find?_eq_some found)
    have reserved : key ∈ reservedOperatorLabels := by simpa using List.find?_some found
    exact ⟨key, mem_reservedKeys.mpr ⟨AList.mem_keys.mpr member, reserved⟩, (Except.error.inj refused).symm⟩
  · cases refused

theorem validateReservedLabels_from {key : String} (reserved : key ∈ reservedKeys labels) :
    validateReservedLabels (.from key) labels = .error (.reservedLabel key) := by
  obtain ⟨present, reserved⟩ := mem_reservedKeys.mp reserved
  simp [validateReservedLabels, MapOrder.from, AList.mem_keys.mp present, reserved]

theorem validateReservedLabels_orders (accepted : validateReservedLabels order labels = .ok ()) (other : MapOrder) :
    validateReservedLabels other labels = .ok () :=
  (validateReservedLabels_ok_iff other labels).mpr ((validateReservedLabels_ok_iff order labels).mp accepted)

theorem validateReservedLabels_refused (refused : validateReservedLabels order labels = .error e) (other : MapOrder) :
    ∃ key ∈ reservedKeys labels, validateReservedLabels other labels = .error (.reservedLabel key) := by
  cases verdict : validateReservedLabels other labels with
  | ok _ =>
    rw [validateReservedLabels_orders verdict order] at refused
    cases refused
  | error e' =>
    obtain ⟨key, member, rfl⟩ := validateReservedLabels_error verdict
    exact ⟨key, member, rfl⟩

theorem validateReservedLabels_steady_iff (order : MapOrder) (labels : Labels) :
    (∀ other, validateReservedLabels other labels = validateReservedLabels order labels) ↔
      (reservedKeys labels).length ≤ 1 := by
  constructor
  · intro steady
    by_contra several
    obtain ⟨first, second, rest, keys⟩ : ∃ first second rest, reservedKeys labels = first :: second :: rest := by
      rcases found : reservedKeys labels with _ | ⟨first, _ | ⟨second, rest⟩⟩
      · simp [found] at several
      · simp [found] at several
      · exact ⟨first, second, rest, rfl⟩
    have named := steady (.from first)
    have renamed := steady (.from second)
    rw [validateReservedLabels_from (by simp [keys])] at named renamed
    have same : first = second := SecurityError.reservedLabel.inj (Except.error.inj (named.trans renamed.symm))
    have distinct := reservedKeys_nodup labels
    rw [keys, same] at distinct
    exact (List.nodup_cons.mp distinct).1 List.mem_cons_self
  · intro single other
    cases verdict : validateReservedLabels order labels with
    | ok _ => exact validateReservedLabels_orders verdict other
    | error e =>
      obtain ⟨key, member, rfl⟩ := validateReservedLabels_error verdict
      obtain ⟨key', member', verdict'⟩ := validateReservedLabels_refused verdict other
      obtain ⟨only, keys⟩ := List.length_eq_one_iff.mp (le_antisymm single (List.length_pos_of_mem member))
      rw [keys, List.mem_singleton] at member member'
      rw [verdict', member, member']

end

/-- At most one reserved key in the label map that a template is refused for: its own, or that of its pods. -/
def CertificateJobTemplate.OneReservedKey (job : CertificateJobTemplate) : Prop :=
  (reservedKeys job.labels).length ≤ 1 ∧
    (reservedKeys job.labels = [] → (reservedKeys job.template.template.labels).length ≤ 1)

def GraphError.Akin (e e' : GraphError) : Prop :=
  e = e' ∨ ∃ name, ∃ key ∈ reservedOperatorLabels, ∃ key' ∈ reservedOperatorLabels,
    (e = .jobLabels name (.reservedLabel key) ∧ e' = .jobLabels name (.reservedLabel key')) ∨
    (e = .podLabels name (.reservedLabel key) ∧ e' = .podLabels name (.reservedLabel key'))

section
variable {order order' : MapOrder} {maps : GraphMaps} {job : CertificateJobTemplate} {e e' : GraphError}

theorem registerJob_new (order : MapOrder) (named : job.name ≠ "") (fresh : job.name ∉ maps.deps) :
    registerJob order maps job = (do
      (validateReservedLabels order job.labels).mapError (.jobLabels job.name)
      (validateReservedLabels order job.template.template.labels).mapError (.podLabels job.name)
      (validateJobTemplateSecurity job.template).mapError (.security job.name)
      return maps.register job.name) := by
  simp only [registerJob, named, fresh, if_false]
  rfl

theorem registerJob_akin (refused : registerJob order maps job = .error e) (refused' : registerJob order' maps job = .error e') :
    e.Akin e' := by
  by_cases named : job.name = ""
  · simp only [registerJob, named, if_true] at refused refused'
    exact .inl (Except.error.inj (refused.symm.trans refused'))
  by_cases fresh : job.name ∈ maps.deps
  · simp only [registerJob, named, fresh, if_true, if_false] at refused refused'
    exact .inl (Except.error.inj (refused.symm.trans refused'))
  rw [registerJob_new order named fresh] at refused
  rw [registerJob_new order' named fresh] at refused'
  cases own : validateReservedLabels order job.labels with
  | error cause =>
    obtain ⟨key, member, rfl⟩ := validateReservedLabels_error own
    obtain ⟨key', member', own'⟩ := validateReservedLabels_refused own order'
    simp only [own, own', Except.mapError, bind, Except.bind] at refused refused'
    exact .inr ⟨job.name, key, (mem_reservedKeys.mp member).2, key', (mem_reservedKeys.mp member').2,
      .inl ⟨(Except.error.inj refused).symm, (Except.error.inj refused').symm⟩⟩
  | ok _ =>
    have own' := validateReservedLabels_orders own order'
    cases pods : validateReservedLabels order job.template.template.labels with
    | error cause =>
      obtain ⟨key, member, rfl⟩ := validateReservedLabels_error pods
      obtain ⟨key', member', pods'⟩ := validateReservedLabels_refused pods order'
      simp only [own, own', pods, pods', Except.mapError, bind, Except.bind] at refused refused'
      exact .inr ⟨job.name, key, (mem_reservedKeys.mp member).2, key', (mem_reservedKeys.mp member').2,
        .inr ⟨(Except.error.inj refused).symm, (Except.error.inj refused').symm⟩⟩
    | ok _ =>
      have pods' := validateReservedLabels_orders pods order'
      simp only [own, own', pods, pods'] at refused refused'
      exact .inl (Except.error.inj (refused.symm.trans refused'))

theorem registerJob_steady_iff (order : MapOrder) (named : job.name ≠ "") (fresh : job.name ∉ maps.deps) :
    (∀ other, registerJob other maps job = registerJob order maps job) ↔ job.OneReservedKey := by
  simp only [registerJob_new _ named fresh]
  by_cases clean : reservedKeys job.labels = []
  · have own : ∀ other, validateReservedLabels other job.labels = .ok () :=
      fun other => (validateReservedLabels_ok_iff other _).mpr (reservedKeys_eq_nil.mp clean)
    rw [CertificateJobTemplate.OneReservedKey, clean, ← validateReservedLabels_steady_iff order]
    simp only [own, List.length_nil, zero_le, true_and, true_imp_iff]
    refine forall_congr' fun other => ⟨fun same => ?_, fun same => by rw [same]⟩
    cases pods : validateReservedLabels order job.template.template.labels with
    | ok _ => exact validateReservedLabels_orders pods other
    | error cause =>
      obtain ⟨key, -, pods'⟩ := validateReservedLabels_refused pods other
      simp only [pods, pods', Except.mapError, bind, Except.bind, Except.error.injEq, GraphError.podLabels.injEq,
        true_and] at same
      rw [pods', same]
  · rw [CertificateJobTemplate.OneReservedKey, ← validateReservedLabels_steady_iff order]
    simp only [clean, false_imp_iff, and_true]
    have refuses : ∀ other, ∃ cause, validateReservedLabels other job.labels = .error cause := by
      intro other
      cases own : validateReservedLabels other job.labels with
      | ok _ => exact absurd (reservedKeys_eq_nil.mpr ((validateReservedLabels_ok_iff other _).mp own)) clean
      | error cause => exact ⟨cause, rfl⟩
    refine forall_congr' fun other => ?_
    obtain ⟨cause, own⟩ := refuses order
    obtain ⟨cause', own'⟩ := refuses other
    simp only [own, own', Except.mapError, bind, Except.bind, Except.error.injEq, GraphError.jobLabels.injEq, true_and]

theorem registerJob_orders {next : GraphMaps} (accepted : registerJob order maps job = .ok next) (other : MapOrder) :
    registerJob other maps job = .ok next := registerJob_ok_iff.mpr (registerJob_ok_iff.mp accepted)

theorem registerJob_refused (refused : registerJob order maps job = .error e) (other : MapOrder) :
    ∃ cause, registerJob other maps job = .error cause := by
  cases verdict : registerJob other maps job with
  | ok next =>
    rw [registerJob_orders verdict order] at refused
    cases refused
  | error cause => exact ⟨cause, rfl⟩

theorem CertificateJobTemplate.Valid.oneReservedKey (valid : job.Valid) : job.OneReservedKey := by
  have own := reservedKeys_eq_nil.mpr valid.labels
  have pods := reservedKeys_eq_nil.mpr valid.podLabels
  simp [CertificateJobTemplate.OneReservedKey, own, pods]

end

/-- The template at which the job loop stops, after valid ones of other names, has at most one reserved key in the map
    that it is refused for. -/
def CertificateJobSpec.OneReservedKey (spec : CertificateJobSpec) : Prop :=
  ∀ before job after, spec.jobs = before ++ job :: after → (∀ earlier ∈ before, earlier.Valid) → job.name ≠ "" →
    ((before ++ [job]).map (·.name)).Nodup → job.OneReservedKey

section
variable {order order' : MapOrder}

theorem registerJobs_akin (jobs : List CertificateJobTemplate) {maps : GraphMaps} {e e' : GraphError}
    (refused : jobs.foldlM (registerJob order) maps = .error e)
    (refused' : jobs.foldlM (registerJob order') maps = .error e') : e.Akin e' := by
  induction jobs generalizing maps with
  | nil => cases refused
  | cons job jobs ih =>
    rw [List.foldlM_cons] at refused refused'
    cases first : registerJob order maps job with
    | ok next =>
      rw [first] at refused
      rw [registerJob_orders first order'] at refused'
      exact ih refused refused'
    | error cause =>
      obtain ⟨cause', first'⟩ := registerJob_refused first order'
      rw [first] at refused
      rw [first'] at refused'
      rw [← Except.error.inj refused, ← Except.error.inj refused']
      exact registerJob_akin first first'

def StopsAtOneKey (maps : GraphMaps) (jobs : List CertificateJobTemplate) : Prop :=
  ∀ before job after, jobs = before ++ job :: after → (∀ earlier ∈ before, earlier.Valid) → job.name ≠ "" →
    ((before ++ [job]).map (·.name)).Nodup → (∀ each ∈ before ++ [job], each.name ∉ maps.deps) → job.OneReservedKey

theorem stopsAtOneKey_passed {maps : GraphMaps} {job : CertificateJobTemplate} {jobs : List CertificateJobTemplate}
    (valid : job.Valid) (fresh : job.name ∉ maps.deps) :
    StopsAtOneKey (maps.register job.name) jobs ↔ StopsAtOneKey maps (job :: jobs) := by
  constructor
  · intro later before found after split earlier named distinct absent
    rcases List.cons_eq_append_iff.mp split with ⟨rfl, here⟩ | ⟨others, rfl, rest⟩
    · obtain ⟨rfl, -⟩ := List.cons.inj here
      exact valid.oneReservedKey
    · obtain ⟨apart, distinct⟩ := List.nodup_cons.mp distinct
      refine later others found after rest (List.forall_mem_cons.mp earlier).2 named distinct fun each member => ?_
      simp only [GraphMaps.register, AList.mem_insert, not_or]
      exact ⟨fun same => apart (List.mem_map.mpr ⟨each, member, same⟩), absent each (List.mem_cons_of_mem _ member)⟩
  · intro later before found after split earlier named distinct absent
    simp only [GraphMaps.register, AList.mem_insert, not_or] at absent
    refine later (job :: before) found after (by rw [split, List.cons_append])
      (List.forall_mem_cons.mpr ⟨valid, earlier⟩) named (List.nodup_cons.mpr ⟨?_, distinct⟩)
      (List.forall_mem_cons.mpr ⟨fresh, fun each member => (absent each member).2⟩)
    intro repeated
    obtain ⟨each, member, same⟩ := List.mem_map.mp repeated
    exact (absent each member).1 same

theorem stopsAtOneKey_refused {maps : GraphMaps} {job : CertificateJobTemplate} (jobs : List CertificateJobTemplate)
    {cause : GraphError} (refused : registerJob order maps job = .error cause) :
    (∀ other, registerJob other maps job = registerJob order maps job) ↔ StopsAtOneKey maps (job :: jobs) := by
  constructor
  · intro steady before found after split earlier named distinct absent
    rcases List.cons_eq_append_iff.mp split with ⟨rfl, here⟩ | ⟨others, rfl, rest⟩
    · obtain ⟨rfl, -⟩ := List.cons.inj here
      exact (registerJob_steady_iff order named (absent _ (by simp))).mp steady
    -- a valid template of a new name would have been passed over
    · have passed : registerJob order maps job = .ok (maps.register job.name) :=
        registerJob_ok_iff.mpr ⟨earlier job List.mem_cons_self, absent job (by simp), rfl⟩
      rw [passed] at refused
      cases refused
  · intro single
    by_cases named : job.name = ""
    · simp only [registerJob, named, if_true, implies_true]
    by_cases fresh : job.name ∈ maps.deps
    · simp only [registerJob, named, fresh, if_true, if_false, implies_true]
    · exact (registerJob_steady_iff order named fresh).mpr
        (single [] job jobs rfl (by simp) named (by simp) (by simpa using fresh))

theorem registerJobs_steady_iff (order : MapOrder) (jobs : List CertificateJobTemplate) (maps : GraphMaps) :
    (∀ other, jobs.foldlM (registerJob other) maps = jobs.foldlM (registerJob order) maps) ↔ StopsAtOneKey maps jobs := by
  induction jobs generalizing maps with
  | nil => simp [StopsAtOneKey]
  | cons job jobs ih =>
    simp only [List.foldlM_cons]
    cases first : registerJob order maps job with
    | ok next =>
      obtain ⟨valid, fresh, rfl⟩ := registerJob_ok_iff.mp first
      simp only [registerJob_orders first, bind, Except.bind]
      exact (ih _).trans (stopsAtOneKey_passed valid fresh)
    | error cause =>
      rw [← stopsAtOneKey_refused jobs first]
      refine forall_congr' fun other => ?_
      obtain ⟨cause', here⟩ := registerJob_refused first other
      simp only [here, first, bind, Except.bind]

theorem registerJobs_refused {jobs : List CertificateJobTemplate} {e : GraphError}
    (refused : jobs.foldlM (registerJob order) {} = .error e) (other : MapOrder) :
    ∃ cause, jobs.foldlM (registerJob other) {} = .error cause := by
  cases verdict : jobs.foldlM (registerJob other) {} with
  | ok maps =>
    rw [(registerJobs_ok_iff _).mpr ((registerJobs_ok_iff _).mp verdict)] at refused
    cases refused
  | error cause => exact ⟨cause, rfl⟩

end

section
variable {orders orders' : MapOrders} {cjob : CertificateJob}

theorem buildWorkflowGraph_registered
    (same : cjob.spec.jobs.foldlM (registerJob orders'.labels) {} = cjob.spec.jobs.foldlM (registerJob orders.labels) {}) :
    buildWorkflowGraph orders' cjob = buildWorkflowGraph orders cjob := by
  rw [← buildWorkflowGraph_orders orders' orders.deps orders.indegree cjob]
  unfold buildWorkflowGraph
  simp only [same]
  rfl

theorem buildWorkflowGraph_refused {e : GraphError}
    (refused : cjob.spec.jobs.foldlM (registerJob orders.labels) {} = .error e) :
    buildWorkflowGraph orders cjob = .error e := by
  have jobs : cjob.spec.jobs.length ≠ 0 := by
    intro none
    rw [List.length_eq_zero_iff.mp none] at refused
    cases refused
  simp only [buildWorkflowGraph, jobs, if_false, refused, bind, Except.bind]

theorem buildWorkflowGraph_akin {e e' : GraphError} (refused : buildWorkflowGraph orders cjob = .error e)
    (refused' : buildWorkflowGraph orders' cjob = .error e') : e.Akin e' := by
  have agree (same : cjob.spec.jobs.foldlM (registerJob orders'.labels) {} =
      cjob.spec.jobs.foldlM (registerJob orders.labels) {}) : e.Akin e' := by
    rw [buildWorkflowGraph_registered same, refused] at refused'
    exact .inl (Except.error.inj refused')
  cases registered : cjob.spec.jobs.foldlM (registerJob orders.labels) {} with
  | ok maps =>
    have again : cjob.spec.jobs.foldlM (registerJob orders'.labels) {} = .ok maps :=
      (registerJobs_ok_iff _).mpr ((registerJobs_ok_iff _).mp registered)
    exact agree (again.trans registered.symm)
  | error cause =>
    obtain ⟨cause', registered'⟩ := registerJobs_refused registered orders'.labels
    rw [buildWorkflowGraph_refused registered] at refused
    rw [buildWorkflowGraph_refused registered'] at refused'
    rw [← Except.error.inj refused, ← Except.error.inj refused']
    exact registerJobs_akin _ registered registered'

theorem buildWorkflowGraph_steady_iff (orders : MapOrders) (cjob : CertificateJob) :
    (∀ other, buildWorkflowGraph other cjob = buildWorkflowGraph orders cjob) ↔ cjob.spec.OneReservedKey := by
  have loop : (∀ other, cjob.spec.jobs.foldlM (registerJob other) {} = cjob.spec.jobs.foldlM (registerJob orders.labels) {})
      ↔ cjob.spec.OneReservedKey := by
    rw [registerJobs_steady_iff]
    simp [StopsAtOneKey, CertificateJobSpec.OneReservedKey]
  rw [← loop]
  refine ⟨fun steady other => ?_, fun steady other => buildWorkflowGraph_registered (steady other.labels)⟩
  have same := steady { orders with labels := other }
  cases registered : cjob.spec.jobs.foldlM (registerJob orders.labels) {} with
  | ok maps => exact (registerJobs_ok_iff _).mpr ((registerJobs_ok_iff _).mp registered)
  | error cause =>
    obtain ⟨cause', registered'⟩ := registerJobs_refused registered other
    rw [buildWorkflowGraph_refused registered] at same
    have renamed : buildWorkflowGraph { orders with labels := other } cjob = .error cause' :=
      buildWorkflowGraph_refused registered'
    rw [registered', ← Except.error.inj (renamed.symm.trans same)]

theorem buildWorkflowGraph_oneReservedKey {maps : GraphMaps} (built : buildWorkflowGraph orders cjob = .ok maps) :
    cjob.spec.OneReservedKey := by
  refine (buildWorkflowGraph_steady_iff orders cjob).mp fun other => ?_
  rw [built]
  exact buildWorkflowGraph_ok_iff.mpr (buildWorkflowGraph_ok_iff.mp built)

end

theorem quoted_reserved (isPrint : Char → Bool) :
    ∀ key ∈ reservedOperatorLabels, quoted isPrint key = "\"" ++ key ++ "\"" := by
  simp only [reservedOperatorLabels, List.forall_mem_cons]
  refine ⟨rfl, rfl, rfl, rfl, rfl, rfl, by simp⟩

theorem reservedLabel_text {isPrint : Char → Bool} {key key' : String} (reserved : key ∈ reservedOperatorLabels)
    (reserved' : key' ∈ reservedOperatorLabels)
    (same : (SecurityError.reservedLabel key).text isPrint = (SecurityError.reservedLabel key').text isPrint) : key = key' := by
  unfold SecurityError.text at same
  have inner := (String.append_right_inj _).mp ((String.append_left_inj _).mp same)
  rw [quoted_reserved isPrint key reserved, quoted_reserved isPrint key' reserved'] at inner
  exact (String.append_right_inj _).mp ((String.append_left_inj _).mp inner)

theorem GraphError.Akin.text {e e' : GraphError} (akin : e.Akin e') {isPrint : Char → Bool}
    (same : e.text isPrint = e'.text isPrint) : e = e' := by
  rcases akin with rfl | ⟨name, key, reserved, key', reserved', ⟨rfl, rfl⟩ | ⟨rfl, rfl⟩⟩
  · rfl
  · unfold GraphError.text at same
    rw [reservedLabel_text reserved reserved' ((String.append_right_inj _).mp same)]
  · unfold GraphError.text at same
    rw [reservedLabel_text reserved reserved' ((String.append_right_inj _).mp same)]

/-- A rejected spec is rejected in the same words whatever order its maps are visited in, exactly if the template at which
    the job loop stops has one reserved key at most. A spec that cannot be encoded is rejected before the loop. -/
theorem buildWorkflowContext_steady_iff {ext : External} {ambient : Ambient} {cjob : CertificateJob} {e : String}
    (rejected : buildWorkflowContext ext ambient cjob = .error e) :
    (∀ other, buildWorkflowContext ext other cjob = .error e) ↔
      ∀ json, ext.marshalSpec cjob.spec = .ok json → cjob.spec.OneReservedKey := by
  cases encoded : ext.marshalSpec cjob.spec with
  | error cause =>
    simp only [buildWorkflowContext, buildWorkflowSpecHash, encoded, Except.mapError, Except.map, bind,
      Except.bind] at rejected ⊢
    simp [rejected]
  | ok json =>
    have judged : ∀ other : Ambient, buildWorkflowContext ext other cjob =
        ((buildWorkflowGraph other.orders cjob).mapError (GraphError.text ext.isPrint)).map
          fun graph => ⟨other.clock .workflowContext, hashString json, graph⟩ := by
      intro other
      simp only [buildWorkflowContext, buildWorkflowSpecHash, encoded, Except.mapError, Except.map, bind, Except.bind, pure,
        Except.pure]
    cases graph : buildWorkflowGraph ambient.orders cjob with
    | ok maps =>
      rw [judged, graph] at rejected
      cases rejected
    | error cause =>
      have words : cause.text ext.isPrint = e := by
        rw [judged, graph] at rejected
        exact Except.error.inj rejected
      simp only [Except.ok.injEq, forall_eq']
      rw [← buildWorkflowGraph_steady_iff ambient.orders cjob, graph]
      constructor
      · intro steady orders
        have same := steady { ambient with orders := orders }
        rw [judged] at same
        cases other : buildWorkflowGraph orders cjob with
        | ok maps =>
          rw [other] at same
          cases same
        | error cause' =>
          rw [other] at same
          rw [(buildWorkflowGraph_akin other graph).text ((Except.error.inj same).trans words.symm)]
      · intro steady other
        rw [judged, steady other.orders]
        exact congrArg Except.error words

theorem buildWorkflowContext_rejected {ext : External} {ambient other : Ambient} {cjob : CertificateJob} {e : String}
    (rejected : buildWorkflowContext ext ambient cjob = .error e) (same : ambient.orders = other.orders) :
    buildWorkflowContext ext other cjob = .error e := by
  unfold buildWorkflowContext at rejected ⊢
  rw [← same]
  cases hash : buildWorkflowSpecHash ext cjob.spec with
  | error cause =>
    rw [hash] at rejected
    exact rejected
  | ok value =>
    cases graph : buildWorkflowGraph ambient.orders cjob with
    | error cause =>
      rw [hash, graph] at rejected
      exact rejected
    | ok maps =>
      rw [hash, graph] at rejected
      cases rejected

theorem buildWorkflowContext_oneReservedKey {ext : External} {ambient : Ambient} {cjob : CertificateJob}
    {workflowCtx : WorkflowContext} (accepted : buildWorkflowContext ext ambient cjob = .ok workflowCtx) :
    cjob.spec.OneReservedKey := by
  cases graph : buildWorkflowGraph ambient.orders cjob with
  | error cause =>
    unfold buildWorkflowContext at accepted
    cases hash : buildWorkflowSpecHash ext cjob.spec with
    | error cause =>
      rw [hash] at accepted
      cases accepted
    | ok value =>
      rw [hash, graph] at accepted
      cases accepted
  | ok maps => exact buildWorkflowGraph_oneReservedKey graph

end CertificateJobs
