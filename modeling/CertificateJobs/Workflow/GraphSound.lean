import CertificateJobs.Security.Policy
import CertificateJobs.Workflow.Graph

namespace CertificateJobs

open Relation

def Edge (cjob : CertificateJob) (a b : String) : Prop :=
  ∃ edge ∈ cjob.spec.workflow.edges, edge.fromNode = a ∧ edge.toNode = b

def jobNames (cjob : CertificateJob) : List String := cjob.spec.jobs.map (·.name)

/-- What the scheduler may rely on once `buildWorkflowGraph` has returned. -/
structure Accepted (cjob : CertificateJob) (maps : GraphMaps) : Prop where
  jobs : cjob.spec.jobs ≠ []
  names : (jobNames cjob).Nodup
  named : ∀ name ∈ jobNames cjob, name ≠ ""
  ends : ∀ a b, Edge cjob a b → a ∈ jobNames cjob ∧ b ∈ jobNames cjob
  deps : ∀ n d, d ∈ maps.deps.get n ↔ Edge cjob d n
  reverse : ∀ n c, c ∈ maps.reverse.get n ↔ Edge cjob n c
  rank : ∃ rank : String → Nat, ∀ a b, Edge cjob a b → rank a < rank b

theorem get_insert (lists : NodeLists) (a b : String) (values : List String) :
    NodeLists.get (lists.insert a values) b = if b = a then values else lists.get b := by
  unfold NodeLists.get
  by_cases same : b = a
  · subst same
    simp
  · simp [same, AList.lookup_insert_ne same]

theorem get_of_not_mem {lists : NodeLists} {name : String} (absent : name ∉ lists) : lists.get name = [] := by
  simp [NodeLists.get, AList.lookup_eq_none.mpr absent]

structure CertificateJobTemplate.Valid (job : CertificateJobTemplate) : Prop where
  named : job.name ≠ ""
  labels : ∀ key ∈ job.labels, key ∉ reservedOperatorLabels
  podLabels : ∀ key ∈ job.template.template.labels, key ∉ reservedOperatorLabels
  permitted : job.template.template.spec.Permitted

def GraphMaps.register (maps : GraphMaps) (name : String) : GraphMaps :=
  { deps := maps.deps.insert name [], reverse := maps.reverse.insert name [] }

def GraphMaps.connect (maps : GraphMaps) (edge : CertificateWorkflowEdge) : GraphMaps :=
  { deps := maps.deps.insert edge.toNode (maps.deps.get edge.toNode ++ [edge.fromNode])
    reverse := maps.reverse.insert edge.fromNode (maps.reverse.get edge.fromNode ++ [edge.toNode]) }

def builtMaps (cjob : CertificateJob) : GraphMaps :=
  cjob.spec.workflow.edges.foldl GraphMaps.connect ((jobNames cjob).foldl GraphMaps.register {})

theorem mapError_ok_iff {ε δ α : Type} {e : Except ε α} {f : ε → δ} {a : α} : e.mapError f = .ok a ↔ e = .ok a := by
  cases e with
  | error e => simp [Except.mapError]
  | ok value => simp [Except.mapError]

theorem registerJob_ok_iff {order : MapOrder} {maps result : GraphMaps} {job : CertificateJobTemplate} :
    registerJob order maps job = .ok result ↔ job.Valid ∧ job.name ∉ maps.deps ∧ result = maps.register job.name := by
  unfold registerJob
  split
  · rename_i empty
    simp only [reduceCtorEq, false_iff]
    exact fun all => all.1.named empty
  · rename_i named
    split
    · rename_i repeated
      simp only [reduceCtorEq, false_iff]
      exact fun all => all.2.1 repeated
    · rename_i fresh
      rw [then_ok_iff, then_ok_iff, then_ok_iff, mapError_ok_iff, mapError_ok_iff, mapError_ok_iff,
        validateReservedLabels_ok_iff, validateReservedLabels_ok_iff, validateJobTemplateSecurity_ok_iff]
      constructor
      · rintro ⟨labels, podLabels, permitted, built⟩
        exact ⟨⟨named, labels, podLabels, permitted⟩, fresh, (Except.ok.inj built).symm⟩
      · rintro ⟨valid, -, rfl⟩
        exact ⟨valid.labels, valid.podLabels, valid.permitted, rfl⟩

theorem registerJobs_ok_iff {order : MapOrder} (jobs : List CertificateJobTemplate) {maps result : GraphMaps} :
    jobs.foldlM (registerJob order) maps = .ok result ↔
      (∀ job ∈ jobs, job.Valid ∧ job.name ∉ maps.deps) ∧ (jobs.map (·.name)).Nodup ∧
        result = (jobs.map (·.name)).foldl GraphMaps.register maps := by
  induction jobs generalizing maps with
  | nil => simp [pure, Except.pure, eq_comm]
  | cons job jobs ih =>
    rw [List.foldlM_cons, bind_ok_iff, List.map_cons, List.nodup_cons, List.foldl_cons, List.forall_mem_cons]
    constructor
    · rintro ⟨next, first, later⟩
      obtain ⟨valid, fresh, rfl⟩ := registerJob_ok_iff.mp first
      obtain ⟨others, distinct, built⟩ := ih.mp later
      refine ⟨⟨⟨valid, fresh⟩, ?_⟩, ⟨?_, distinct⟩, built⟩
      · intro other member
        obtain ⟨otherValid, otherFresh⟩ := others other member
        simp only [GraphMaps.register, AList.mem_insert, not_or] at otherFresh
        exact ⟨otherValid, otherFresh.2⟩
      · intro repeated
        obtain ⟨other, member, same⟩ := List.mem_map.mp repeated
        exact (others other member).2 (by rw [same]; simp [GraphMaps.register])
    · rintro ⟨⟨⟨valid, fresh⟩, others⟩, ⟨unrepeated, distinct⟩, built⟩
      refine ⟨_, registerJob_ok_iff.mpr ⟨valid, fresh, rfl⟩, ih.mpr ⟨?_, distinct, built⟩⟩
      intro other member
      obtain ⟨otherValid, otherFresh⟩ := others other member
      refine ⟨otherValid, ?_⟩
      simp only [GraphMaps.register, AList.mem_insert, not_or]
      exact ⟨fun same => unrepeated (same ▸ List.mem_map_of_mem member), otherFresh⟩

theorem register_all (names : List String) {maps : GraphMaps} (emptyDeps : ∀ n, maps.deps.get n = [])
    (emptyReverse : ∀ n, maps.reverse.get n = []) :
    (∀ n, n ∈ (names.foldl GraphMaps.register maps).deps ↔ n ∈ maps.deps ∨ n ∈ names) ∧
      (∀ n, (names.foldl GraphMaps.register maps).deps.get n = []) ∧
      ∀ n, (names.foldl GraphMaps.register maps).reverse.get n = [] := by
  induction names generalizing maps with
  | nil => exact ⟨by simp, emptyDeps, emptyReverse⟩
  | cons name names ih =>
    have empties : ∀ lists : NodeLists, (∀ n, lists.get n = []) → ∀ n, NodeLists.get (lists.insert name []) n = [] := by
      intro lists empty n
      rw [get_insert]
      split
      · rfl
      · exact empty n
    have emptyDeps' : ∀ n, (maps.register name).deps.get n = [] := empties _ emptyDeps
    have emptyReverse' : ∀ n, (maps.register name).reverse.get n = [] := empties _ emptyReverse
    obtain ⟨members, deps, reverse⟩ := ih emptyDeps' emptyReverse'
    refine ⟨?_, deps, reverse⟩
    intro n
    rw [List.foldl_cons, members, GraphMaps.register, AList.mem_insert, List.mem_cons]
    tauto

theorem addEdge_ok_iff {names : List String} {maps result : GraphMaps} {edge : CertificateWorkflowEdge} :
    addEdge names maps edge = .ok result ↔
      (edge.fromNode ∈ names ∧ edge.toNode ∈ names ∧ edge.fromNode ≠ edge.toNode) ∧ result = maps.connect edge := by
  unfold addEdge
  split
  · rename_i unknown
    simp only [reduceCtorEq, false_iff]
    rintro ⟨⟨source, target, -⟩, -⟩
    exact unknown.elim (fun absent => absent source) fun absent => absent target
  · rename_i known
    rw [not_or, not_not, not_not] at known
    split
    · rename_i same
      simp only [reduceCtorEq, false_iff]
      exact fun all => all.1.2.2 same
    · rename_i different
      simp only [Except.ok.injEq, known, ne_eq, different, not_false_eq_true, and_self, true_and]
      exact eq_comm

theorem addEdges_ok_iff {names : List String} (edges : List CertificateWorkflowEdge) {maps result : GraphMaps} :
    edges.foldlM (addEdge names) maps = .ok result ↔
      (∀ edge ∈ edges, edge.fromNode ∈ names ∧ edge.toNode ∈ names ∧ edge.fromNode ≠ edge.toNode) ∧
        result = edges.foldl GraphMaps.connect maps := by
  induction edges generalizing maps with
  | nil => simp [pure, Except.pure, eq_comm]
  | cons edge edges ih =>
    rw [List.foldlM_cons, bind_ok_iff, List.forall_mem_cons, List.foldl_cons]
    constructor
    · rintro ⟨next, first, later⟩
      obtain ⟨ends, rfl⟩ := addEdge_ok_iff.mp first
      obtain ⟨others, built⟩ := ih.mp later
      exact ⟨⟨ends, others⟩, built⟩
    · rintro ⟨⟨ends, others⟩, built⟩
      exact ⟨_, addEdge_ok_iff.mpr ⟨ends, rfl⟩, ih.mpr ⟨others, built⟩⟩

theorem connect_all (edges : List CertificateWorkflowEdge) (maps : GraphMaps) :
    (∀ n, n ∈ (edges.foldl GraphMaps.connect maps).deps ↔ n ∈ maps.deps ∨ ∃ edge ∈ edges, edge.toNode = n) ∧
      (∀ n, (edges.foldl GraphMaps.connect maps).deps.get n =
        maps.deps.get n ++ (edges.filter (·.toNode = n)).map (·.fromNode)) ∧
      ∀ n, (edges.foldl GraphMaps.connect maps).reverse.get n =
        maps.reverse.get n ++ (edges.filter (·.fromNode = n)).map (·.toNode) := by
  induction edges generalizing maps with
  | nil => simp
  | cons edge edges ih =>
    obtain ⟨members, deps, reverse⟩ := ih (maps.connect edge)
    refine ⟨?_, ?_, ?_⟩
    · intro n
      rw [List.foldl_cons, members, GraphMaps.connect, AList.mem_insert]
      simp only [List.mem_cons, exists_eq_or_imp]
      constructor
      · rintro ((rfl | old) | new)
        · exact .inr (.inl rfl)
        · exact .inl old
        · exact .inr (.inr new)
      · rintro (old | rfl | new)
        · exact .inl (.inr old)
        · exact .inl (.inl rfl)
        · exact .inr new
    · intro n
      rw [List.foldl_cons, deps, GraphMaps.connect, get_insert]
      by_cases same : n = edge.toNode
      · subst same
        simp
      · have other : edge.toNode ≠ n := fun h => same h.symm
        simp [same, other]
    · intro n
      rw [List.foldl_cons, reverse, GraphMaps.connect, get_insert]
      by_cases same : n = edge.fromNode
      · subst same
        simp
      · have other : edge.fromNode ≠ n := fun h => same h.symm
        simp [same, other]

theorem builtMaps_lists (cjob : CertificateJob) :
    (∀ n, n ∈ (builtMaps cjob).deps ↔ n ∈ jobNames cjob ∨ ∃ edge ∈ cjob.spec.workflow.edges, edge.toNode = n) ∧
      (∀ n, (builtMaps cjob).deps.get n = (cjob.spec.workflow.edges.filter (·.toNode = n)).map (·.fromNode)) ∧
      ∀ n, (builtMaps cjob).reverse.get n = (cjob.spec.workflow.edges.filter (·.fromNode = n)).map (·.toNode) := by
  have empty : ∀ n, NodeLists.get ∅ n = [] := fun n => get_of_not_mem (by simp)
  have fresh : ∀ n, ({} : GraphMaps).deps.get n = [] ∧ ({} : GraphMaps).reverse.get n = [] :=
    fun n => ⟨empty n, empty n⟩
  obtain ⟨jobs, depsEmpty, reverseEmpty⟩ := register_all (jobNames cjob) (fun n => (fresh n).1) fun n => (fresh n).2
  obtain ⟨members, deps, reverse⟩ :=
    connect_all cjob.spec.workflow.edges ((jobNames cjob).foldl GraphMaps.register {})
  refine ⟨?_, ?_, ?_⟩
  · intro n
    rw [builtMaps, members, jobs]
    simp
  · intro n
    rw [builtMaps, deps, depsEmpty, List.nil_append]
  · intro n
    rw [builtMaps, reverse, reverseEmpty, List.nil_append]

theorem builtMaps_get (cjob : CertificateJob) :
    (∀ n, n ∈ (builtMaps cjob).deps ↔ n ∈ jobNames cjob ∨ ∃ m, Edge cjob m n) ∧
      (∀ n d, d ∈ (builtMaps cjob).deps.get n ↔ Edge cjob d n) ∧
      ∀ n c, c ∈ (builtMaps cjob).reverse.get n ↔ Edge cjob n c := by
  obtain ⟨members, deps, reverse⟩ := builtMaps_lists cjob
  refine ⟨?_, ?_, ?_⟩
  · intro n
    rw [members]
    refine or_congr_right ⟨?_, ?_⟩
    · rintro ⟨edge, member, target⟩
      exact ⟨edge.fromNode, edge, member, rfl, target⟩
    · rintro ⟨-, edge, member, -, target⟩
      exact ⟨edge, member, target⟩
  · intro n d
    rw [deps]
    simp only [List.mem_map, List.mem_filter, decide_eq_true_eq, Edge]
    constructor
    · rintro ⟨edge, ⟨member, target⟩, source⟩
      exact ⟨edge, member, source, target⟩
    · rintro ⟨edge, member, source, target⟩
      exact ⟨edge, ⟨member, target⟩, source⟩
  · intro n c
    rw [reverse]
    simp only [List.mem_map, List.mem_filter, decide_eq_true_eq, Edge]
    constructor
    · rintro ⟨edge, ⟨member, source⟩, target⟩
      exact ⟨edge, member, source, target⟩
    · rintro ⟨edge, member, source, target⟩
      exact ⟨edge, ⟨member, source⟩, target⟩

theorem builtMaps_closed {cjob : CertificateJob} (ends : ∀ a b, Edge cjob a b → a ∈ jobNames cjob) :
    ∀ n d, d ∈ (builtMaps cjob).deps.get n → d ∈ (builtMaps cjob).deps.keys := by
  obtain ⟨members, deps, -⟩ := builtMaps_get cjob
  intro n d dep
  exact AList.mem_keys.mpr ((members d).mpr (.inl (ends d n ((deps n d).mp dep))))

theorem builtMaps_count (cjob : CertificateJob) (a b : String) :
    ((builtMaps cjob).deps.get b).count a = cjob.spec.workflow.edges.count ⟨a, b⟩ ∧
      ((builtMaps cjob).reverse.get a).count b = cjob.spec.workflow.edges.count ⟨a, b⟩ := by
  obtain ⟨-, deps, reverse⟩ := builtMaps_lists cjob
  have same : ∀ edge : CertificateWorkflowEdge, edge = ⟨a, b⟩ ↔ edge.fromNode = a ∧ edge.toNode = b := by
    rintro ⟨source, target⟩
    simp
  rw [deps, reverse]
  simp only [List.count_eq_countP, List.countP_map, List.countP_filter]
  constructor
  · refine List.countP_congr fun edge _ => ?_
    simp [same]
  · refine List.countP_congr fun edge _ => ?_
    simp [same, and_comm]

theorem countDependencies (node : String) (list : List String) (maps : (String → Int) × (String → List String)) :
    (∀ n, (list.foldl (countDependency node) maps).1 n =
      maps.1 n + if n = node then (list.length : Int) else 0) ∧
      ∀ a b, ((list.foldl (countDependency node) maps).2 a).count b =
        (maps.2 a).count b + if b = node then list.count a else 0 := by
  induction list generalizing maps with
  | nil => simp
  | cons dep list ih =>
    obtain ⟨degrees, outs⟩ := ih (countDependency node maps dep)
    refine ⟨?_, ?_⟩
    · intro n
      rw [List.foldl_cons, degrees]
      by_cases same : n = node
      · subst same
        simp only [countDependency, Function.update_self, if_true, List.length_cons]
        push_cast
        omega
      · simp [countDependency, same]
    · intro a b
      rw [List.foldl_cons, outs]
      by_cases target : a = dep
      · subst target
        simp only [countDependency, Function.update_self, List.count_append, List.count_cons_self]
        by_cases same : b = node
        · subst same
          simp only [List.count_singleton_self, if_true]
          omega
        · have other : node ≠ b := fun h => same h.symm
          simp [same, other]
      · have other : dep ≠ a := fun h => target h.symm
        simp [countDependency, Function.update_of_ne target, other]

theorem countNodes (deps : NodeLists) (nodes : List String) (distinct : nodes.Nodup)
    (maps : (String → Int) × (String → List String)) :
    (∀ n, (nodes.foldl (countNode deps) maps).1 n =
      maps.1 n + if n ∈ nodes then ((deps.get n).length : Int) else 0) ∧
      ∀ a b, ((nodes.foldl (countNode deps) maps).2 a).count b =
        (maps.2 a).count b + if b ∈ nodes then (deps.get b).count a else 0 := by
  induction nodes generalizing maps with
  | nil => simp
  | cons node nodes ih =>
    obtain ⟨fresh, distinct⟩ := List.nodup_cons.mp distinct
    obtain ⟨degrees, outs⟩ := ih distinct (countNode deps maps node)
    obtain ⟨firstDegrees, firstOuts⟩ := countDependencies node (deps.get node) maps
    refine ⟨?_, ?_⟩
    · intro n
      rw [List.foldl_cons, degrees, countNode, firstDegrees]
      by_cases same : n = node
      · subst same
        simp [fresh]
      · simp [same]
    · intro a b
      rw [List.foldl_cons, outs, countNode, firstOuts]
      by_cases same : b = node
      · subst same
        simp [fresh]
      · simp [same]

theorem counted_inv (orders : MapOrders) (deps : NodeLists) :
    let counted := (orders.deps.visit deps.keys).foldl (countNode deps) (fun _ => 0, fun _ => [])
    (∀ a, ∀ b ∈ deps.keys, (counted.2 a).count b = (deps.get b).count a) ∧
      (∀ a, ∀ b ∈ counted.2 a, b ∈ deps.keys) ∧
      Kahn.Inv deps.keys deps.get []
        ⟨counted.1, (orders.indegree.visit deps.keys).filter fun node => counted.1 node = 0, 0⟩ := by
  have distinct : (orders.deps.visit deps.keys).Nodup :=
    (orders.deps.perm deps.keys).nodup_iff.mpr deps.keys_nodup
  obtain ⟨degrees, outs⟩ := countNodes deps _ distinct (fun _ => 0, fun _ => [])
  dsimp only
  generalize (orders.deps.visit deps.keys).foldl (countNode deps) (fun _ => 0, fun _ => []) = counted at degrees outs
  simp only [MapOrder.mem_visit, List.count_nil, Nat.zero_add] at degrees outs
  refine ⟨?_, ?_, rfl, ?_, ?_, ?_, ?_, ?_⟩
  · intro a b member
    rw [outs, if_pos member]
  · intro a b member
    have positive := List.count_pos_iff.mpr member
    rw [outs] at positive
    by_contra outside
    simp [outside] at positive
  · exact ((orders.indegree.perm deps.keys).nodup_iff.mpr deps.keys_nodup).filter _
  · intro b member
    rw [List.nil_append] at member
    exact MapOrder.mem_visit.mp (List.mem_filter.mp member).1
  · intro b member
    simp [degrees, member]
  · intro b member
    simp [MapOrder.mem_visit, member]
  · intro before b after impossible
    simp at impossible

/-- A graph passes the check exactly if it can be ranked with every dependency below its dependents. -/
theorem validateAcyclic_ok_iff {orders : MapOrders} {deps : NodeLists}
    (closed : ∀ n d, d ∈ deps.get n → d ∈ deps.keys) :
    validateAcyclic orders deps = .ok () ↔ ∃ rank : String → Nat, ∀ n, ∀ d ∈ deps.get n, rank d < rank n := by
  obtain ⟨edges, inside, initial⟩ := counted_inv orders deps
  simp only [validateAcyclic]
  constructor
  · intro passed
    split at passed
    · cases passed
    · rename_i visited
      rw [ne_eq, not_not] at visited
      obtain ⟨order, final, -⟩ := Kahn.run_inv edges inside (deps.keys.length + 1) initial
      exact final.rank visited fun b outside => get_of_not_mem fun member => outside (AList.mem_keys.mp member)
  · rintro ⟨rank, ranked⟩
    have visited := Kahn.run_complete edges inside deps.keys_nodup (fun b _ d => closed b d) ranked initial
    rw [if_neg (not_not.mpr visited)]

structure TemplatesValid (cjob : CertificateJob) : Prop where
  jobs : cjob.spec.jobs ≠ []
  valid : ∀ job ∈ cjob.spec.jobs, job.Valid

structure WellConnected (cjob : CertificateJob) : Prop where
  names : (jobNames cjob).Nodup
  ends : ∀ a b, Edge cjob a b → a ∈ jobNames cjob ∧ b ∈ jobNames cjob
  acyclic : ∀ name, ¬ TransGen (Edge cjob) name name

theorem WellConnected.edge_ends {cjob : CertificateJob} (connected : WellConnected cjob) :
    ∀ edge ∈ cjob.spec.workflow.edges, edge.fromNode ∈ jobNames cjob ∧ edge.toNode ∈ jobNames cjob ∧
      edge.fromNode ≠ edge.toNode := by
  intro edge member
  have listed : Edge cjob edge.fromNode edge.toNode := ⟨edge, member, rfl, rfl⟩
  obtain ⟨source, target⟩ := connected.ends _ _ listed
  refine ⟨source, target, fun same => connected.acyclic edge.toNode (.single ?_)⟩
  rwa [same] at listed

theorem rank_acyclic {cjob : CertificateJob} {rank : String → Nat} (ranked : ∀ a b, Edge cjob a b → rank a < rank b)
    (name : String) : ¬ TransGen (Edge cjob) name name := by
  have increasing : ∀ a b, TransGen (Edge cjob) a b → rank a < rank b := by
    intro a b path
    induction path with
    | single edge => exact ranked _ _ edge
    | tail _ edge ih => exact ih.trans (ranked _ _ edge)
  exact fun cycle => Nat.lt_irrefl _ (increasing _ _ cycle)

theorem buildWorkflowGraph_steps {orders : MapOrders} {cjob : CertificateJob} {maps : GraphMaps} :
    buildWorkflowGraph orders cjob = .ok maps ↔ TemplatesValid cjob ∧ (jobNames cjob).Nodup ∧
      (∀ edge ∈ cjob.spec.workflow.edges, edge.fromNode ∈ jobNames cjob ∧ edge.toNode ∈ jobNames cjob ∧
        edge.fromNode ≠ edge.toNode) ∧
      validateAcyclic orders (builtMaps cjob).deps = .ok () ∧ maps = builtMaps cjob := by
  unfold buildWorkflowGraph
  split
  · rename_i none
    simp only [reduceCtorEq, false_iff]
    exact fun all => all.1.jobs (List.length_eq_zero_iff.mp none)
  · rename_i some
    have jobs : cjob.spec.jobs ≠ [] := fun none => some (by rw [none]; rfl)
    rw [bind_ok_iff]
    constructor
    · rintro ⟨first, registered, built⟩
      obtain ⟨last, connected, built⟩ := bind_ok_iff.mp built
      obtain ⟨passed, same⟩ := then_ok_iff.mp built
      obtain ⟨valid, names, rfl⟩ := (registerJobs_ok_iff _).mp registered
      obtain ⟨ends, rfl⟩ := (addEdges_ok_iff _).mp connected
      exact ⟨⟨jobs, fun job member => (valid job member).1⟩, names, ends, passed, (Except.ok.inj same).symm⟩
    · rintro ⟨templates, names, ends, passed, rfl⟩
      refine ⟨_, (registerJobs_ok_iff _).mpr ⟨fun job member => ⟨templates.valid job member, ?_⟩, names, rfl⟩, ?_⟩
      · exact AList.notMem_empty _
      · exact bind_ok_iff.mpr ⟨_, (addEdges_ok_iff _).mpr ⟨ends, rfl⟩, then_ok_iff.mpr ⟨passed, rfl⟩⟩

/-- Which specs are accepted, and with which maps, does not depend on any map order. -/
theorem buildWorkflowGraph_ok_iff {orders : MapOrders} {cjob : CertificateJob} {maps : GraphMaps} :
    buildWorkflowGraph orders cjob = .ok maps ↔ TemplatesValid cjob ∧ WellConnected cjob ∧ maps = builtMaps cjob := by
  obtain ⟨-, deps, -⟩ := builtMaps_get cjob
  rw [buildWorkflowGraph_steps]
  constructor
  · rintro ⟨templates, names, known, passed, built⟩
    have ends : ∀ a b, Edge cjob a b → a ∈ jobNames cjob ∧ b ∈ jobNames cjob := by
      rintro a b ⟨edge, member, rfl, rfl⟩
      exact ⟨(known edge member).1, (known edge member).2.1⟩
    have closed := builtMaps_closed fun a b edge => (ends a b edge).1
    obtain ⟨rank, ranked⟩ := (validateAcyclic_ok_iff closed).mp passed
    exact ⟨templates, ⟨names, ends, rank_acyclic fun a b edge => ranked b a ((deps b a).mpr edge)⟩, built⟩
  · rintro ⟨templates, connected, built⟩
    have closed := builtMaps_closed fun a b edge => (connected.ends a b edge).1
    obtain ⟨rank, ranked⟩ := Kahn.rank_of_acyclic (fun a b edge => (connected.ends a b edge).1) connected.acyclic
    refine ⟨templates, connected.names, connected.edge_ends, ?_, built⟩
    exact (validateAcyclic_ok_iff closed).mpr ⟨rank, fun n d dep => ranked d n ((deps n d).mp dep)⟩

theorem buildWorkflowGraph_accepted {orders : MapOrders} {cjob : CertificateJob} {maps : GraphMaps}
    (h : buildWorkflowGraph orders cjob = .ok maps) : Accepted cjob maps := by
  obtain ⟨templates, connected, rfl⟩ := buildWorkflowGraph_ok_iff.mp h
  obtain ⟨-, deps, reverse⟩ := builtMaps_get cjob
  refine ⟨templates.jobs, connected.names, ?_, connected.ends, deps, reverse,
    Kahn.rank_of_acyclic (fun a b edge => (connected.ends a b edge).1) connected.acyclic⟩
  intro name member
  obtain ⟨job, present, rfl⟩ := List.mem_map.mp member
  exact (templates.valid job present).named

theorem validateAcyclic_cases (orders : MapOrders) (deps : NodeLists) :
    validateAcyclic orders deps = .ok () ∨ validateAcyclic orders deps = .error .cycle := by
  simp only [validateAcyclic]
  split
  · exact .inr rfl
  · exact .inl rfl

theorem validateAcyclic_orders (orders orders' : MapOrders) {deps : NodeLists}
    (closed : ∀ n d, d ∈ deps.get n → d ∈ deps.keys) : validateAcyclic orders deps = validateAcyclic orders' deps := by
  have agree : validateAcyclic orders deps = .ok () ↔ validateAcyclic orders' deps = .ok () :=
    (validateAcyclic_ok_iff closed).trans (validateAcyclic_ok_iff closed).symm
  rcases validateAcyclic_cases orders deps with passed | failed
  · rw [passed, agree.mp passed]
  · rcases validateAcyclic_cases orders' deps with passed | failed'
    · rw [agree.mpr passed] at failed
      cases failed
    · rw [failed, failed']

/-- The order in which `validateAcyclic` meets the nodes makes no difference, to the error neither. -/
theorem buildWorkflowGraph_orders (orders : MapOrders) (deps indegree : MapOrder) (cjob : CertificateJob) :
    buildWorkflowGraph { orders with deps := deps, indegree := indegree } cjob = buildWorkflowGraph orders cjob := by
  unfold buildWorkflowGraph
  split
  · rfl
  · cases registered : cjob.spec.jobs.foldlM (registerJob orders.labels) {} with
    | error e => rfl
    | ok first =>
      obtain ⟨-, -, built⟩ := (registerJobs_ok_iff _).mp registered
      cases connected : cjob.spec.workflow.edges.foldlM (addEdge (cjob.spec.jobs.map (·.name))) first with
      | error e => simp only [bind, Except.bind, connected]
      | ok maps =>
        obtain ⟨ends, rfl⟩ := (addEdges_ok_iff _).mp connected
        have same : cjob.spec.workflow.edges.foldl GraphMaps.connect first = builtMaps cjob := by rw [built]; rfl
        have closed : ∀ n d, d ∈ (builtMaps cjob).deps.get n → d ∈ (builtMaps cjob).deps.keys := by
          refine builtMaps_closed ?_
          rintro a b ⟨edge, member, rfl, rfl⟩
          exact (ends edge member).1
        simp only [bind, Except.bind, connected, same,
          validateAcyclic_orders { orders with deps := deps, indegree := indegree } orders closed]

structure CertificateJob.Acceptable (order : MapOrder) (cjob : CertificateJob) : Prop where
  jobs : cjob.spec.jobs ≠ []
  named : ∀ job ∈ cjob.spec.jobs, job.name ≠ ""
  distinct : (cjob.spec.jobs.map (·.name)).Nodup
  labels : ∀ job ∈ cjob.spec.jobs, validateReservedLabels order job.labels = .ok () ∧
    validateReservedLabels order job.template.template.labels = .ok ()
  secure : ∀ job ∈ cjob.spec.jobs, validateJobTemplateSecurity job.template = .ok ()
  ends : ∀ edge ∈ cjob.spec.workflow.edges, edge.fromNode ∈ cjob.spec.jobs.map (·.name) ∧
    edge.toNode ∈ cjob.spec.jobs.map (·.name) ∧ edge.fromNode ≠ edge.toNode
  acyclic : ∀ name, ¬ TransGen (Edge cjob) name name

theorem acceptable_iff (order : MapOrder) (cjob : CertificateJob) :
    cjob.Acceptable order ↔ TemplatesValid cjob ∧ WellConnected cjob := by
  constructor
  · intro acceptable
    refine ⟨⟨acceptable.jobs, fun job member => ?_⟩, acceptable.distinct, ?_, acceptable.acyclic⟩
    · exact ⟨acceptable.named job member,
        (validateReservedLabels_ok_iff order _).mp (acceptable.labels job member).1,
        (validateReservedLabels_ok_iff order _).mp (acceptable.labels job member).2,
        (validateJobTemplateSecurity_ok_iff _).mp (acceptable.secure job member)⟩
    · rintro a b ⟨edge, member, rfl, rfl⟩
      exact ⟨(acceptable.ends edge member).1, (acceptable.ends edge member).2.1⟩
  · rintro ⟨templates, connected⟩
    refine ⟨templates.jobs, fun job member => (templates.valid job member).named, connected.names, ?_, ?_,
      connected.edge_ends, connected.acyclic⟩
    · exact fun job member => ⟨(validateReservedLabels_ok_iff order _).mpr (templates.valid job member).labels,
        (validateReservedLabels_ok_iff order _).mpr (templates.valid job member).podLabels⟩
    · exact fun job member => (validateJobTemplateSecurity_ok_iff _).mpr (templates.valid job member).permitted

/-- Which specs are accepted, what the maps of an accepted spec hold, and that no map order decides either. -/
theorem graph_acceptance_exact (orders : MapOrders) (cjob : CertificateJob) :
    ((∃ maps, buildWorkflowGraph orders cjob = .ok maps) ↔ cjob.Acceptable orders.labels) ∧
    (∀ maps, buildWorkflowGraph orders cjob = .ok maps → ∀ a b,
      (maps.deps.get b).count a = cjob.spec.workflow.edges.count ⟨a, b⟩ ∧
      (maps.reverse.get a).count b = cjob.spec.workflow.edges.count ⟨a, b⟩) ∧
    ∀ deps indegree : MapOrder,
      buildWorkflowGraph { orders with deps := deps, indegree := indegree } cjob = buildWorkflowGraph orders cjob := by
  refine ⟨?_, ?_, fun deps indegree => buildWorkflowGraph_orders orders deps indegree cjob⟩
  · rw [acceptable_iff]
    constructor
    · rintro ⟨maps, built⟩
      obtain ⟨templates, connected, -⟩ := buildWorkflowGraph_ok_iff.mp built
      exact ⟨templates, connected⟩
    · rintro ⟨templates, connected⟩
      exact ⟨_, buildWorkflowGraph_ok_iff.mpr ⟨templates, connected, rfl⟩⟩
  · intro maps built a b
    obtain ⟨-, -, rfl⟩ := buildWorkflowGraph_ok_iff.mp built
    exact builtMaps_count cjob a b

end CertificateJobs
