import Mathlib.Data.Fintype.Order
import Mathlib.Data.List.Basic
import Mathlib.Order.OrderIsoNat

/-- A labelled transition system. A label carries what the surroundings decide about a step. -/
structure Machine (σ ℓ : Type*) where
  start : σ → Prop
  step : σ → ℓ → σ → Prop

namespace Machine

section
variable {σ ℓ : Type*} (m : Machine σ ℓ) (ok : σ → ℓ → Prop)

/-- A stretch of a run in which every step is taken from a state and under a label that `ok` allows. -/
inductive Leads : σ → σ → Prop
  | refl (s : σ) : Leads s s
  | step {s t u : σ} {l : ℓ} : Leads s t → ok t l → m.step t l u → Leads s u

def Reached (t : σ) : Prop := ∃ s, m.start s ∧ m.Leads ok s t

variable {m ok}

theorem Leads.trans {s t u : σ} (first : m.Leads ok s t) (second : m.Leads ok t u) : m.Leads ok s u := by
  induction second with
  | refl => exact first
  | step _ allowed taken ih => exact ih.step allowed taken

theorem Leads.invariant (inv : σ → Prop) (keep : ∀ s l t, inv s → ok s l → m.step s l t → inv t) {s t : σ}
    (run : m.Leads ok s t) (first : inv s) : inv t := by
  induction run with
  | refl => exact first
  | step _ allowed taken ih => exact keep _ _ _ ih allowed taken

theorem Leads.strengthen {ok' : σ → ℓ → Prop} (inv : σ → Prop)
    (keep : ∀ s l t, inv s → ok s l → m.step s l t → inv t) (stronger : ∀ s l, inv s → ok s l → ok' s l) {s t : σ}
    (run : m.Leads ok s t) (first : inv s) : m.Leads ok' s t := by
  induction run with
  | refl => exact .refl s
  | step before allowed taken ih => exact ih.step (stronger _ _ (before.invariant inv keep first) allowed) taken

theorem Reached.of_start {s : σ} (first : m.start s) : m.Reached ok s := ⟨s, first, .refl s⟩

theorem Reached.step {s t : σ} {l : ℓ} (reached : m.Reached ok s) (allowed : ok s l) (taken : m.step s l t) :
    m.Reached ok t := by
  obtain ⟨first, starts, run⟩ := reached
  exact ⟨first, starts, run.step allowed taken⟩

theorem Reached.invariant (inv : σ → Prop) (base : ∀ s, m.start s → inv s)
    (keep : ∀ s l t, inv s → ok s l → m.step s l t → inv t) {t : σ} (reached : m.Reached ok t) : inv t := by
  obtain ⟨first, starts, run⟩ := reached
  exact run.invariant inv keep (base first starts)

/-- An invariant may rest on what is already known of the states a run reaches. -/
theorem Reached.invariant_with {known : σ → Prop} (given : ∀ s, m.Reached ok s → known s) (inv : σ → Prop)
    (base : ∀ s, m.start s → inv s) (keep : ∀ s l t, known s → inv s → ok s l → m.step s l t → inv t) {t : σ}
    (reached : m.Reached ok t) : inv t := by
  have both := reached.invariant (fun s => m.Reached ok s ∧ inv s)
    (fun s first => ⟨.of_start first, base s first⟩)
    fun s l t before allowed taken =>
      ⟨before.1.step allowed taken, keep s l t (given s before.1) before.2 allowed taken⟩
  exact both.2

end

section
variable {σ ℓ : Type*}

def ofFun (start : σ → Prop) (apply : σ → ℓ → Option σ) : Machine σ ℓ where
  start := start
  step s l t := apply s l = some t

def play (apply : σ → ℓ → Option σ) (allowed : σ → ℓ → Bool) (s : σ) : List (σ → ℓ) → Option σ
  | [] => some s
  | l :: rest => if allowed s (l s) then (apply s (l s)).bind fun t => play apply allowed t rest else none

theorem play_leads {start : σ → Prop} {apply : σ → ℓ → Option σ} {allowed : σ → ℓ → Bool} {ok : σ → ℓ → Prop}
    (weaker : ∀ s l, allowed s l = true → ok s l) (script : List (σ → ℓ)) {s t : σ}
    (played : play apply allowed s script = some t) : (ofFun start apply).Leads ok s t := by
  induction script generalizing s with
  | nil =>
    obtain rfl := Option.some.inj played
    exact .refl s
  | cons l rest ih =>
    simp only [play] at played
    split at played
    · rename_i fine
      obtain ⟨next, first, played⟩ := Option.bind_eq_some_iff.mp played
      have taken : (ofFun start apply).step s (l s) next := first
      exact (Leads.step (.refl s) (weaker _ _ fine) taken).trans (ih played)
    · cases played

end

section
variable {σ ℓ : Type*}

structure Trace (m : Machine σ ℓ) (ok : σ → ℓ → Prop) (s : ℕ → σ) (l : ℕ → ℓ) : Prop where
  allowed : ∀ i, ok (s i) (l i)
  taken : ∀ i, m.step (s i) (l i) (s (i + 1))

variable {m : Machine σ ℓ} {ok : σ → ℓ → Prop} {s : ℕ → σ} {l : ℕ → ℓ}

theorem Trace.leads (run : m.Trace ok s l) {i j : ℕ} (later : i ≤ j) : m.Leads ok (s i) (s j) := by
  induction later with
  | refl => exact .refl (s i)
  | step _ ih => exact ih.step (run.allowed _) (run.taken _)

theorem Trace.reached (run : m.Trace ok s l) (first : m.Reached ok (s 0)) (i : ℕ) : m.Reached ok (s i) := by
  obtain ⟨start, starts, before⟩ := first
  exact ⟨start, starts, before.trans (run.leads (Nat.zero_le i))⟩

end

/-- A measure that never falls and stays below a bound stops rising. -/
theorem settles {weight : ℕ → ℕ} {bound : ℕ} (i : ℕ) (rises : ∀ j, i ≤ j → weight j ≤ weight (j + 1))
    (bounded : ∀ j, i ≤ j → weight j ≤ bound) : ∃ k, i ≤ k ∧ ∀ j, k ≤ j → weight (j + 1) = weight j := by
  let climb : ℕ →o Fin (bound + 1) :=
    ⟨fun j => ⟨weight (i + j), Nat.lt_succ_of_le (bounded _ (Nat.le_add_right i j))⟩,
      monotone_nat_of_le_succ fun j => rises (i + j) (Nat.le_add_right i j)⟩
  obtain ⟨k, steady⟩ := WellFoundedGT.monotone_chain_condition climb
  refine ⟨i + k, Nat.le_add_right i k, fun j later => ?_⟩
  obtain ⟨d, rfl⟩ := Nat.exists_eq_add_of_le later
  have here := congrArg Fin.val (steady (k + d) (Nat.le_add_right k d))
  have next := congrArg Fin.val (steady (k + d + 1) (by omega))
  simp only [climb, OrderHom.coe_mk, ← Nat.add_assoc] at here next
  exact next.symm.trans here

end Machine
