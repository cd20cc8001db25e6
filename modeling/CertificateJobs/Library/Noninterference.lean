import Mathlib.Data.List.Basic

namespace Noninterference

section
variable {σ ℓ ο : Type*} (step : σ → ℓ → ο × σ) (shown : ℓ → Bool)

def observe (s : σ) : List ℓ → List ο × σ
  | [] => ([], s)
  | l :: rest =>
    let later := observe (step s l).2 rest
    (if shown l then (step s l).1 :: later.1 else later.1, later.2)

/-- A notion of states that look the same: inputs that are not shown cannot be told from nothing, and those that are
    shown are answered and followed alike. -/
structure Unwinds (same : σ → σ → Prop) : Prop where
  equivalence : Equivalence same
  hidden : ∀ s l, shown l = false → same s (step s l).2
  answers : ∀ {s t} l, shown l = true → same s t → (step s l).1 = (step t l).1
  follows : ∀ {s t} l, shown l = true → same s t → same (step s l).2 (step t l).2

variable {step shown} {same : σ → σ → Prop} {s t : σ}

/-- A run looks like the run of the inputs that are shown. -/
theorem Unwinds.purge (unwinds : Unwinds step shown same) (alike : same s t) (inputs : List ℓ) :
    (observe step shown s inputs).1 = (observe step shown t (inputs.filter shown)).1 ∧
      same (observe step shown s inputs).2 (observe step shown t (inputs.filter shown)).2 := by
  induction inputs generalizing s t with
  | nil => exact ⟨rfl, alike⟩
  | cons l rest ih =>
    cases visible : shown l with
    | false =>
      have unchanged := unwinds.equivalence.symm (unwinds.hidden s l visible)
      obtain ⟨answers, ends⟩ := ih (unwinds.equivalence.trans unchanged alike)
      rw [List.filter_cons_of_neg (by simp [visible])]
      exact ⟨by simpa [observe, visible] using answers, ends⟩
    | true =>
      obtain ⟨answers, ends⟩ := ih (unwinds.follows l visible alike)
      rw [List.filter_cons_of_pos visible]
      exact ⟨by simp [observe, visible, unwinds.answers l visible alike, answers], ends⟩

/-- Runs whose inputs differ in what is hidden only look the same. -/
theorem Unwinds.indistinguishable (unwinds : Unwinds step shown same) (alike : same s t) {left right : List ℓ}
    (inputs : left.filter shown = right.filter shown) :
    (observe step shown s left).1 = (observe step shown t right).1 ∧
      same (observe step shown s left).2 (observe step shown t right).2 := by
  obtain ⟨answers, ends⟩ := unwinds.purge alike left
  obtain ⟨answers', ends'⟩ := unwinds.purge (unwinds.equivalence.refl t) right
  rw [inputs] at answers ends
  exact ⟨answers.trans answers'.symm, unwinds.equivalence.trans ends (unwinds.equivalence.symm ends')⟩

end

end Noninterference
