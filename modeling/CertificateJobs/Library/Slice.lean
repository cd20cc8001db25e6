import CertificateJobs.Library.IndexBy

namespace Slices

theorem foldlM_shows {α β γ : Type} (shown : α → β) (holds : α → Prop) {step : α → γ → Option α}
    {stepShown : β → γ → Option β}
    (round : ∀ a item, holds a → (step a item).map shown = stepShown (shown a) item)
    (keeps : ∀ a item next, holds a → step a item = some next → holds next) (items : List γ) {a : α} (start : holds a) :
    (items.foldlM step a).map shown = items.foldlM stepShown (shown a) := by
  induction items generalizing a with
  | nil => rfl
  | cons item items ih =>
    rw [List.foldlM_cons, List.foldlM_cons, ← round a item start]
    cases stepped : step a item with
    | none => rfl
    | some next => exact ih (keeps a item next start stepped)

/-- Arrays by number, cell by cell. The arrays from `next` on are not allocated yet. -/
structure Memory (α : Type) where
  cell : Nat → Nat → α
  next : Nat

structure Pointer where
  array : Nat
  index : Nat
  deriving DecidableEq

/-- A slice shows the first `length` cells of its array and may grow in place up to `capacity`. -/
structure Slice where
  array : Nat
  length : Nat
  capacity : Nat
  fits : length ≤ capacity

def Slice.address (slice : Slice) (i : Nat) : Option Pointer :=
  if i < slice.length then some ⟨slice.array, i⟩ else none

/-- How many spare cells the runtime gives a slice that it moves to a larger array. -/
abbrev Growth := Slice → Nat

namespace Memory

variable {α : Type}

def load (memory : Memory α) (pointer : Pointer) : α := memory.cell pointer.array pointer.index

def store (memory : Memory α) (pointer : Pointer) (a : α) : Memory α :=
  { memory with
    cell := fun array index => if array = pointer.array ∧ index = pointer.index then a else memory.cell array index }

def view (memory : Memory α) (slice : Slice) : List α := (List.range slice.length).map (memory.cell slice.array)

def make (memory : Memory α) (capacity : Nat) : Memory α × Slice :=
  ({ memory with next := memory.next + 1 }, ⟨memory.next, 0, capacity, Nat.zero_le _⟩)

def append (grow : Growth) (memory : Memory α) (slice : Slice) (a : α) : Memory α × Slice :=
  -- `append(slice, a)`: in place if there is room, otherwise in a copy of the array.
  if room : slice.length < slice.capacity then
    (memory.store ⟨slice.array, slice.length⟩ a, { slice with length := slice.length + 1, fits := room })
  else
    ({ cell := fun array index =>
         if array = memory.next then (if index = slice.length then a else memory.cell slice.array index)
         else memory.cell array index
       next := memory.next + 1 },
      { array := memory.next
        length := slice.length + 1
        capacity := slice.length + 1 + grow slice
        fits := Nat.le_add_right _ _ })

section
variable {memory : Memory α} {slice other : Slice} {pointer : Pointer}

@[simp] theorem length_view (memory : Memory α) (slice : Slice) : (memory.view slice).length = slice.length := by
  simp [view]

theorem getElem?_view (memory : Memory α) (slice : Slice) (i : Nat) :
    (memory.view slice)[i]? = (slice.address i).map memory.load := by
  unfold view Slice.address
  by_cases inside : i < slice.length
  · simp [inside, load]
  · simp [inside]

theorem load_store (memory : Memory α) (pointer : Pointer) (a : α) (array index : Nat) :
    (memory.store pointer a).cell array index =
      if array = pointer.array ∧ index = pointer.index then a else memory.cell array index := rfl

theorem view_store {i : Nat} (here : slice.address i = some pointer) (a : α) :
    (memory.store pointer a).view slice = (memory.view slice).set i a := by
  unfold Slice.address at here
  split at here
  · obtain rfl := Option.some.inj here
    apply List.ext_getElem?
    intro j
    rw [List.getElem?_set, getElem?_view, getElem?_view, length_view, Slice.address]
    by_cases same : i = j
    · subst same
      simp_all [load, store]
    · by_cases inside : j < slice.length
      · simp [inside, same, load, store, Ne.symm same]
      · simp [inside, same]
  · cases here

theorem view_modify {i : Nat} (here : slice.address i = some pointer) (write : α → α) :
    (memory.store pointer (write (memory.load pointer))).view slice = (memory.view slice).modify i write := by
  have read : (memory.view slice)[i]? = some (memory.load pointer) := by rw [getElem?_view, here, Option.map_some]
  rw [view_store here]
  apply List.ext_getElem?
  intro j
  rw [List.getElem?_set, List.getElem?_modify]
  by_cases same : i = j
  · subst same
    have inside : i < slice.length := by simpa using (List.getElem?_eq_some_iff.mp read).1
    simp only [if_true, length_view, inside, read, Option.map_eq_map, Option.map_some]
  · simp [same]

/-- Wherever the slice ends up, it shows its old elements and the new one. -/
theorem view_append (grow : Growth) (memory : Memory α) (slice : Slice) (a : α) :
    (memory.append grow slice a).1.view (memory.append grow slice a).2 = memory.view slice ++ [a] := by
  have old : ∀ i ∈ List.range slice.length, i ≠ slice.length :=
    fun i inside => Nat.ne_of_lt (List.mem_range.mp inside)
  unfold append
  split
  · rw [view, view, List.range_succ, List.map_append, List.map_singleton]
    congr 1
    · apply List.map_congr_left
      intro i inside
      rw [load_store, if_neg fun both => old i inside both.2]
    · simp [load_store]
  · rw [view, view, List.range_succ, List.map_append, List.map_singleton]
    congr 1
    · apply List.map_congr_left
      intro i inside
      simp [old i inside]
    · simp

theorem length_append (grow : Growth) (memory : Memory α) (slice : Slice) (a : α) :
    (memory.append grow slice a).2.length = slice.length + 1 := by
  unfold append
  split <;> rfl

theorem append_allocated (grow : Growth) (a : α) (allocated : slice.array < memory.next) :
    (memory.append grow slice a).2.array < (memory.append grow slice a).1.next := by
  unfold append
  split
  · exact allocated
  · exact Nat.lt_succ_self _

/-- Growing one slice leaves the arrays of others alone, and never takes one of them over. -/
theorem append_other (grow : Growth) (slice : Slice) (a : α) {array : Nat} (allocated : array < memory.next)
    (apart : slice.array ≠ array) :
    (memory.append grow slice a).1.cell array = memory.cell array ∧ (memory.append grow slice a).2.array ≠ array ∧
      array < (memory.append grow slice a).1.next := by
  unfold append
  split
  · refine ⟨?_, apart, allocated⟩
    funext i
    rw [load_store, if_neg fun both => apart both.1.symm]
  · refine ⟨?_, Nat.ne_of_gt allocated, Nat.lt_succ_of_lt allocated⟩
    funext i
    simp only [if_neg (Nat.ne_of_lt allocated)]

end

def select (grow : Growth) (keep : α → Bool) (memory : Memory α) (slice : Slice) : Memory α × Slice :=
  (List.range slice.length).foldl
    (fun state i =>
      let entry := state.1.cell slice.array i
      if keep entry then state.1.append grow state.2 entry else state)
    (memory.make slice.length)

theorem select_spec (grow : Growth) (keep : α → Bool) (memory : Memory α) (slice : Slice)
    (allocated : slice.array < memory.next) :
    (memory.select grow keep slice).1.view (memory.select grow keep slice).2 = (memory.view slice).filter keep ∧
      (memory.select grow keep slice).2.array < (memory.select grow keep slice).1.next := by
  -- The copy grows by what passes among the first `n` cells, while the cells it reads stay as they are.
  suffices loop : ∀ n, ∃ state : Memory α × Slice,
      (List.range n).foldl (fun state i =>
        let entry := state.1.cell slice.array i
        if keep entry then state.1.append grow state.2 entry else state) (memory.make slice.length) = state ∧
      state.1.view state.2 = ((List.range n).map (memory.cell slice.array)).filter keep ∧
      state.2.array < state.1.next ∧ state.1.cell slice.array = memory.cell slice.array ∧
      state.2.array ≠ slice.array ∧ slice.array < state.1.next by
    obtain ⟨state, result, shown, placed, -⟩ := loop slice.length
    rw [select, result]
    exact ⟨shown, placed⟩
  intro n
  induction n with
  | zero => exact ⟨_, rfl, rfl, Nat.lt_succ_self _, rfl, Nat.ne_of_gt allocated, Nat.lt_succ_of_lt allocated⟩
  | succ n ih =>
    obtain ⟨state, result, shown, placed, source, apart, below⟩ := ih
    rw [List.range_succ, List.foldl_append, result, List.map_append, List.filter_append]
    simp only [List.foldl_cons, List.foldl_nil, List.map_cons, List.map_nil, source]
    by_cases kept : keep (memory.cell slice.array n) = true
    · obtain ⟨cells, away, next⟩ := append_other grow state.2 (memory.cell slice.array n) below apart
      refine ⟨_, rfl, ?_, ?_⟩
      · rw [if_pos kept, view_append, shown, List.filter_cons_of_pos kept, List.filter_nil]
      · rw [if_pos kept]
        exact ⟨append_allocated grow _ placed, cells.trans source, away, next⟩
    · refine ⟨_, rfl, ?_, ?_⟩
      · rw [if_neg kept, shown, List.filter_cons_of_neg kept, List.filter_nil, List.append_nil]
      · rw [if_neg kept]
        exact ⟨placed, source, apart, below⟩

section
variable {κ : Type} [DecidableEq κ] (key : α → κ)

def pointersBy (memory : Memory α) (slice : Slice) : AList (fun _ : κ => Pointer) :=
  (List.range slice.length).foldl
    (fun table i => table.insert (key (memory.cell slice.array i)) ⟨slice.array, i⟩) ∅

/-- The addresses are those of the positions that the index of the shown elements has. -/
theorem pointersBy_index (memory : Memory α) (slice : Slice) :
    (memory.pointersBy key slice).keys = ((memory.view slice).indexBy key).keys ∧
    ∀ k, (memory.pointersBy key slice).lookup k =
      (((memory.view slice).indexBy key).lookup k).map fun i => ⟨slice.array, i⟩ := by
  unfold pointersBy view
  induction slice.length with
  | zero => exact ⟨rfl, fun _ => rfl⟩
  | succ n ih =>
    obtain ⟨keys, lookups⟩ := ih
    rw [List.range_succ, List.foldl_append, List.map_append, List.map_singleton, IndexBy.indexBy_append, List.length_map,
      List.length_range]
    simp only [List.foldl_cons, List.foldl_nil]
    refine ⟨by rw [AList.keys_insert, AList.keys_insert, keys], ?_⟩
    intro k
    by_cases same : k = key (memory.cell slice.array n)
    · rw [same, AList.lookup_insert, AList.lookup_insert, Option.map_some]
    · rw [AList.lookup_insert_ne same, AList.lookup_insert_ne same, lookups]

end

end Memory

structure Backed (α : Type) where
  memory : Memory α
  slice : Slice
  allocated : slice.array < memory.next

namespace Backed

variable {α : Type}

def view (table : Backed α) : List α := table.memory.view table.slice

def store (table : Backed α) (pointer : Pointer) (a : α) : Backed α where
  memory := table.memory.store pointer a
  slice := table.slice
  allocated := table.allocated

def append (grow : Growth) (table : Backed α) (a : α) : Backed α where
  memory := (table.memory.append grow table.slice a).1
  slice := (table.memory.append grow table.slice a).2
  allocated := Memory.append_allocated grow a table.allocated

def select (grow : Growth) (keep : α → Bool) (table : Backed α) : Backed α where
  memory := (table.memory.select grow keep table.slice).1
  slice := (table.memory.select grow keep table.slice).2
  allocated := (Memory.select_spec grow keep table.memory table.slice table.allocated).2

theorem view_store {table : Backed α} {i : Nat} {pointer : Pointer} (here : table.slice.address i = some pointer) (a : α) :
    (table.store pointer a).view = table.view.set i a := Memory.view_store here a

@[simp] theorem view_append (grow : Growth) (table : Backed α) (a : α) :
    (table.append grow a).view = table.view ++ [a] := Memory.view_append grow _ _ a

@[simp] theorem length_append (grow : Growth) (table : Backed α) (a : α) :
    (table.append grow a).slice.length = table.slice.length + 1 := Memory.length_append grow _ _ a

@[simp] theorem view_select (grow : Growth) (keep : α → Bool) (table : Backed α) :
    (table.select grow keep).view = table.view.filter keep :=
  (Memory.select_spec grow keep table.memory table.slice table.allocated).1

end Backed

end Slices
