import CertificateJobs.Library.Trim
import CertificateJobs.Runs.Tenants

namespace CertificateJobs

def isSpace (r : Char) : Bool :=
  r.val ∈ [0x09, 0x0A, 0x0B, 0x0C, 0x0D, 0x20, 0x85, 0xA0, 0x1680, 0x2028, 0x2029, 0x202F, 0x205F, 0x3000] ∨
    (0x2000 ≤ r.val ∧ r.val ≤ 0x200A)

def trimSpace (s : String) : String := String.ofList (s.toList.trimBy isSpace)

def splitString (s : String) (sep : Char) : List String := (s.toList.splitOnP (· == sep)).map String.ofList

structure CacheConfig where

def addNamespace (result : AList (fun _ : String => CacheConfig)) (entry : String) :
    AList (fun _ : String => CacheConfig) :=
  let ns := trimSpace entry
  if ns = "" then result else result.insert ns {}

def parseWatchNamespaces (raw : String) : AList (fun _ : String => CacheConfig) :=
  -- A nil map and an empty one are the same to the callers.
  let watchNamespaces := trimSpace raw
  if watchNamespaces = "" then ∅ else (splitString watchNamespaces ',').foldl addNamespace ∅

def watchNamespaceCacheConfig (getenv : String → String) : AList (fun _ : String => CacheConfig) :=
  let watchConfig := parseWatchNamespaces (getenv "WATCH_NAMESPACE")
  if watchConfig.keys.length > 0 then watchConfig
  else
    let podNamespace := trimSpace (getenv "POD_NAMESPACE")
    if podNamespace = "" then ∅ else AList.insert podNamespace {} ∅

inductive CacheScope
  | all
  | defaultNamespaces (config : AList (fun _ : String => CacheConfig))

/-- The choice that `main` makes before it starts the manager. -/
def cacheScope (getenv : String → String) : CacheScope :=
  let watchConfig := watchNamespaceCacheConfig getenv
  if watchConfig.keys.length > 0 then .defaultNamespaces watchConfig else .all

def CacheScope.watches (ns : String) : CacheScope → Bool
  | .all => true
  | .defaultNamespaces config => ns ∈ config

def namesIn (raw : String) : List String := ((splitString raw ',').map trimSpace).filter (· ≠ "")

/-- What the operator is told to watch: the names in `WATCH_NAMESPACE`, or else the namespace of its pod, or else
    everything. -/
def Watched (getenv : String → String) (ns : String) : Prop :=
  if namesIn (getenv "WATCH_NAMESPACE") ≠ [] then ns ∈ namesIn (getenv "WATCH_NAMESPACE")
  else trimSpace (getenv "POD_NAMESPACE") = "" ∨ ns = trimSpace (getenv "POD_NAMESPACE")

theorem isSpace_comma : isSpace ',' = false := by decide

theorem trimSpace_ofList (l : List Char) : trimSpace (String.ofList l) = String.ofList (l.trimBy isSpace) := by
  rw [trimSpace, String.toList_ofList]

theorem trimmed_parts (raw : String) :
    (splitString (trimSpace raw) ',').map trimSpace = (splitString raw ',').map trimSpace := by
  have apart : ∀ a, isSpace a = true → (a == ',') = false := by
    intro a space
    refine beq_false_of_ne ?_
    rintro rfl
    rw [isSpace_comma] at space
    cases space
  have parts := congrArg (List.map String.ofList) (Trim.splitOnP_trimBy apart raw.toList)
  simp only [List.map_map] at parts
  simp only [splitString, List.map_map, trimSpace, String.toList_ofList, Function.comp_def] at parts ⊢
  exact parts

theorem mem_addNamespaces (entries : List String) (config : AList (fun _ : String => CacheConfig)) (ns : String) :
    ns ∈ entries.foldl addNamespace config ↔ ns ∈ config ∨ ns ∈ (entries.map trimSpace).filter (· ≠ "") := by
  induction entries generalizing config with
  | nil => simp
  | cons entry rest ih =>
    rw [List.foldl_cons, ih, List.map_cons]
    by_cases empty : trimSpace entry = ""
    · rw [addNamespace, if_pos empty, List.filter_cons_of_neg (by simpa using empty)]
    · rw [addNamespace, if_neg empty, List.filter_cons_of_pos (by simpa using empty), AList.mem_insert, List.mem_cons,
        or_left_comm, or_assoc]

theorem mem_parseWatchNamespaces (raw ns : String) : ns ∈ parseWatchNamespaces raw ↔ ns ∈ namesIn raw := by
  rw [parseWatchNamespaces, namesIn, ← trimmed_parts]
  by_cases empty : trimSpace raw = ""
  · rw [if_pos empty, empty]
    simp [splitString, trimSpace, List.trimBy]
  · rw [if_neg empty, mem_addNamespaces]
    simp

theorem parseWatchNamespaces_length (raw : String) :
    (parseWatchNamespaces raw).keys.length > 0 ↔ namesIn raw ≠ [] := by
  rw [gt_iff_lt, List.length_pos_iff_exists_mem, ← List.length_pos_iff, List.length_pos_iff_exists_mem]
  exact exists_congr fun ns => mem_parseWatchNamespaces raw ns

theorem cacheScope_watches (getenv : String → String) (ns : String) :
    (cacheScope getenv).watches ns = true ↔ Watched getenv ns := by
  unfold cacheScope watchNamespaceCacheConfig Watched
  by_cases named : namesIn (getenv "WATCH_NAMESPACE") ≠ []
  · have some := (parseWatchNamespaces_length _).mpr named
    simp only [some, if_true, if_pos named, CacheScope.watches, decide_eq_true_eq, mem_parseWatchNamespaces]
  · have none := (parseWatchNamespaces_length (getenv "WATCH_NAMESPACE")).not.mpr named
    simp only [none, if_false, if_neg named]
    by_cases pod : trimSpace (getenv "POD_NAMESPACE") = ""
    · simp [pod, CacheScope.watches]
    · simp only [pod, if_false, CacheScope.watches, false_or]
      rw [if_pos (by simp), decide_eq_true_eq, AList.mem_insert]
      simp

structure WatchEntry where
  before : List Char
  name : String
  after : List Char
  blank : ∀ r ∈ before ++ after, isSpace r = true
  named : name ≠ ""
  single : ',' ∉ name.toList
  plain : trimSpace name = name

def WatchEntry.text (entry : WatchEntry) : String := String.ofList (entry.before ++ entry.name.toList ++ entry.after)

theorem WatchEntry.trimmed (entry : WatchEntry) : trimSpace entry.text = entry.name := by
  obtain ⟨before, after⟩ := List.forall_mem_append.mp entry.blank
  rw [WatchEntry.text, trimSpace_ofList, Trim.trimBy_right after, Trim.trimBy_left before]
  exact entry.plain

theorem WatchEntry.comma (entry : WatchEntry) : ',' ∉ entry.text.toList := by
  obtain ⟨before, after⟩ := List.forall_mem_append.mp entry.blank
  have solid : ∀ pad : List Char, (∀ r ∈ pad, isSpace r = true) → ',' ∉ pad := by
    intro pad blank member
    have space := blank ',' member
    rw [isSpace_comma] at space
    cases space
  simp only [WatchEntry.text, String.toList_ofList, List.mem_append, not_or]
  exact ⟨⟨solid _ before, entry.single⟩, solid _ after⟩

theorem namesIn_entries {entries : List WatchEntry} (some : entries ≠ []) :
    namesIn (String.intercalate "," (entries.map (·.text))) = entries.map (·.name) := by
  have parts : splitString (String.intercalate "," (entries.map (·.text))) ',' = entries.map (·.text) := by
    have solid : ∀ text ∈ entries.map (·.text.toList), ',' ∉ text :=
      List.forall_mem_map.mpr fun entry _ => entry.comma
    have back := List.splitOn_intercalate ',' solid (by simpa using some)
    rw [splitString, String.toList_intercalate, List.map_map]
    have inner := congrArg (List.map String.ofList) back
    rw [List.map_map] at inner
    refine Eq.trans inner (List.map_congr_left fun entry _ => ?_)
    exact String.ofList_toList
  rw [namesIn, parts, List.map_map]
  have names : entries.map (trimSpace ∘ (·.text)) = entries.map (·.name) :=
    List.map_congr_left fun entry _ => entry.trimmed
  rw [names, List.filter_eq_self]
  exact List.forall_mem_map.mpr fun entry _ => decide_eq_true entry.named

/-- Whatever names are written into `WATCH_NAMESPACE`, with whatever space around them, those are the namespaces that
    the manager watches. -/
theorem watch_scope_round_trip (getenv : String → String) (entries : List WatchEntry) (some : entries ≠ [])
    (value : getenv "WATCH_NAMESPACE" = String.intercalate "," (entries.map (·.text))) (ns : String) :
    (cacheScope getenv).watches ns = true ↔ ns ∈ entries.map (·.name) := by
  have names : namesIn (getenv "WATCH_NAMESPACE") = entries.map (·.name) := by
    rw [value, namesIn_entries some]
  rw [cacheScope_watches, Watched, names, if_pos (by simpa using some)]

def blueEntry : WatchEntry where
  before := [' ', '\t']
  name := "blue"
  after := ['\u00a0']
  blank := List.all_eq_true.mp (by decide)
  named := by decide
  single := by decide
  plain := by decide

def redEntry : WatchEntry where
  before := []
  name := "red"
  after := ['\n']
  blank := List.all_eq_true.mp (by decide)
  named := by decide
  single := by decide
  plain := by decide

theorem watch_scope_round_trip_pair :
    let scope := cacheScope fun _ => String.intercalate "," [blueEntry.text, redEntry.text]
    scope.watches "blue" = true ∧ scope.watches "red" = true ∧ scope.watches "green" = false := by
  have scope := watch_scope_round_trip (fun _ => String.intercalate "," [blueEntry.text, redEntry.text])
    [blueEntry, redEntry] (by simp) rfl
  refine ⟨(scope "blue").mpr (by decide), (scope "red").mpr (by decide), Bool.eq_false_iff.mpr fun watched => ?_⟩
  have named := (scope "green").mp watched
  revert named
  decide

section
variable {σ Object Stored Event : Type} {c : Client σ}

/-- What is taken of the manager's cache: a Get of a CertificateJob in a namespace that it does not cover fails. -/
def CacheScope.Limits (scope : CacheScope) (c : Client σ) : Prop :=
  ∀ s ns name, scope.watches ns = false → ∃ e, c.getCertificateJob s ns name = .error e

def TenantEvent.SpareIn (ns : String) : TenantEvent Event → Prop
  | .reconcile _ _ _ => True
  | .change there _ => ns ≠ there

theorem reconcile_out_of_scope (view : PerNamespace c Object Stored) {scope : CacheScope} (limits : scope.Limits c)
    {ns there name : String} (outside : scope.watches ns = false) {ext : External} {ambient : Ambient} {s : σ}
    {out : ReconcileOutcome σ} (result : reconcile c ext ambient there name s = some out) :
    view.record out.client ns = view.record s ns ∧ view.object out.client ns = view.object s ns := by
  -- A request out of scope fails at its first read, and any other stays in its own namespace.
  by_cases here : there = ns
  · obtain ⟨e, refused⟩ := limits s there name (here ▸ outside)
    simp only [reconcile, refused] at result
    obtain rfl := Option.some.inj result
    exact ⟨rfl, rfl⟩
  · have same := reconcile_confined view (Ne.symm here) result
    exact ⟨same.records.symm, same.objects.symm⟩

theorem tenantStep_out_of_scope (view : PerNamespace c Object Stored) (ext : External) {change : σ → String → Event → σ}
    (confines : view.Confines ext change) {scope : CacheScope} (limits : scope.Limits c) {ns : String}
    (outside : scope.watches ns = false) (event : TenantEvent Event) (spare : event.SpareIn ns) (s : σ) :
    view.record (tenantStep c ext change s event).2 ns = view.record s ns ∧
      view.object (tenantStep c ext change s event).2 ns = view.object s ns := by
  cases event with
  | reconcile ambient there name =>
    simp only [tenantStep]
    cases result : reconcile c ext ambient there name s with
    | none => exact ⟨rfl, rfl⟩
    | some out => exact reconcile_out_of_scope view limits outside result
  | change there event =>
    have same := confines.elsewhere s event spare
    exact ⟨same.records.symm, same.objects.symm⟩

end

/-- In a namespace that the environment does not tell the operator to watch, the operator creates no Job and writes no
    status, whatever requests it reconciles and whatever is done elsewhere. -/
theorem unwatched_namespaces_untouched {σ Object Stored Event : Type} (getenv : String → String) (c : Client σ)
    (limits : (cacheScope getenv).Limits c) (view : PerNamespace c Object Stored) (ext : External)
    (change : σ → String → Event → σ) (confines : view.Confines ext change) (ns : String)
    (unwatched : ¬ Watched getenv ns) (s : σ) (events : List (TenantEvent Event))
    (spare : ∀ event ∈ events, event.SpareIn ns) :
    let last := events.foldl (fun s event => (tenantStep c ext change s event).2) s
    view.record last ns = view.record s ns ∧ view.object last ns = view.object s ns := by
  have outside : (cacheScope getenv).watches ns = false :=
    Bool.eq_false_iff.mpr fun watched => unwatched ((cacheScope_watches getenv ns).mp watched)
  induction events generalizing s with
  | nil => exact ⟨rfl, rfl⟩
  | cons event rest ih =>
    obtain ⟨first, others⟩ := List.forall_mem_cons.mp spare
    obtain ⟨records, objects⟩ := tenantStep_out_of_scope view ext confines limits outside event first s
    obtain ⟨records', objects'⟩ := ih (tenantStep c ext change s event).2 others
    exact ⟨records'.trans records, objects'.trans objects⟩

section
variable {σ Object Stored Event : Type} {c : Client σ} (scope : CacheScope)

def outOfScope (ns name : String) : ApiError :=
  .other ("unable to get: " ++ ns ++ "/" ++ name ++ " because of unknown namespace for the cache")

def scopedClient (c : Client σ) : Client σ :=
  { c with getCertificateJob := fun s ns name =>
      if scope.watches ns then c.getCertificateJob s ns name else .error (outOfScope ns name) }

theorem scopedClient_limits (c : Client σ) : scope.Limits (scopedClient scope c) := by
  intro s ns name outside
  exact ⟨outOfScope ns name, by simp only [scopedClient, outside, Bool.false_eq_true, if_false]⟩

def PerNamespace.scoped (view : PerNamespace c Object Stored) : PerNamespace (scopedClient scope c) Object
    (Option ApiError × Stored) where
  object := view.object
  seen := view.seen
  create := view.create
  get := view.get
  answer := view.answer
  stored := view.stored
  others := view.others
  secrets := view.secrets
  owner := view.owner
  addressed := view.addressed
  record s ns name := (if scope.watches ns then none else some (outOfScope ns name), view.record s ns name)
  load stored := stored.1.elim (view.load stored.2) .error
  save stored cjob := ((view.save stored.2 cjob).1, (stored.1, (view.save stored.2 cjob).2))
  loaded s ns name := by
    simp only [scopedClient]
    split
    · exact view.loaded s ns name
    · rfl
  located s ns name cjob found := by
    simp only [scopedClient] at found
    split at found
    · exact view.located s ns name cjob found
    · cases found
  within := view.within
  createRecords s job := by
    funext ns name
    exact Prod.ext rfl (congrFun₂ (view.createRecords s job) ns name)
  createCertificates := view.createCertificates
  updateAnswer := view.updateAnswer
  updateSaved s cjob := Prod.ext rfl (view.updateSaved s cjob)
  updateOthers s cjob ns name other := Prod.ext rfl (view.updateOthers s cjob ns name other)
  updateObjects := view.updateObjects
  updateSecrets := view.updateSecrets
  updateCertificates := view.updateCertificates

variable {scope}

theorem PerNamespace.scoped_same {view : PerNamespace c Object Stored} {ext : External} {ns : String} {s t : σ} :
    (view.scoped scope).Same ext ns s t ↔ view.Same ext ns s t := by
  constructor
  · intro same
    refine ⟨?_, same.certificates, same.inputs, same.objects⟩
    funext name
    exact congrArg Prod.snd (congrFun same.records name)
  · intro same
    refine ⟨?_, same.certificates, same.inputs, same.objects⟩
    funext name
    exact Prod.ext rfl (congrFun same.records name)

theorem PerNamespace.Confines.scoped {view : PerNamespace c Object Stored} {ext : External}
    {change : σ → String → Event → σ} (confines : view.Confines ext change) : (view.scoped scope).Confines ext change where
  here event same := scoped_same.mpr (confines.here event (scoped_same.mp same))
  elsewhere s event other := scoped_same.mpr (confines.elsewhere s event other)

end

def blueEnv (name : String) : String := if name = "WATCH_NAMESPACE" then " blue,, " else ""

def bothRequests : List (TenantEvent (String × JobStatus)) :=
  [.reconcile stillClock "green" "renewal", .reconcile stillClock "blue" "renewal"]

theorem unwatched_namespaces_untouched_green :
    let last := bothRequests.foldl (fun s event => (tenantStep
      (scopedClient (cacheScope blueEnv) (managerClient clusterClient).toClient) plainExternal reportJob s event).2)
      (tenantServer true)
    (managerClient clusterClient).getCertificateJob last "green" "renewal" = .ok greenJob ∧
      (last.1.job ⟨"blue", "renewal"⟩).any (fun cjob => cjob.status.observedCertificates.length = 1) = true := by
  have unwatched : ¬ Watched blueEnv "green" := by
    unfold Watched
    rw [if_pos (by decide +kernel)]
    decide +kernel
  have spare : ∀ event ∈ bothRequests, event.SpareIn "green" := by
    simp [bothRequests, TenantEvent.SpareIn]
  obtain ⟨records, -⟩ := unwatched_namespaces_untouched blueEnv _ (scopedClient_limits (cacheScope blueEnv) _)
    (managerView.scoped (cacheScope blueEnv)) plainExternal reportJob reportJob_confines.scoped "green" unwatched
    (tenantServer true) bothRequests spare
  exact ⟨congrArg Prod.snd (congrFun records "renewal"), by decide +kernel⟩

end CertificateJobs
