import Mathlib.Logic.Relation

/-!
# Level-triggered control loops

A controller keeps a cache of the objects it watches. Every change of the cache leaves notices, a handler turns a notice
into keys for the work queue, and the work on a key reads the cache while it goes on changing. Nothing is lost if the
notices of a change reach every key for which the change matters. Of the loop itself no more is used than the laws of
`LoopStep`.
-/

/-- How changes of a cache are reported. `same k` relates caches that agree on what the work on `k` reads, and `asks`
    says that handling a notice at a cache asks for a key. -/
structure Watching (κ O Change Notice : Type*) where
  apply : O → Change → O
  notices : O → Change → List Notice
  asks : O → Notice → κ → Prop
  same : κ → O → O → Prop
  equivalence : ∀ k, Equivalence (same k)
  reports : ∀ o change k, same k o (apply o change) ∨ ∃ n ∈ notices o change, asks (apply o change) n k
  keeps : ∀ o change n k, asks o n k →
    asks (apply o change) n k ∨ ∃ n' ∈ notices o change, asks (apply o change) n' k

structure LoopView (κ O Notice : Type*) where
  cache : O
  pending : Notice → Prop
  added : κ → Prop
  busy : κ → Prop
  delayed : κ → Prop
  seen : κ → O → Prop

inductive LoopEvent (κ Change Notice : Type*)
  | deliver (change : Change)
  | handle (n : Notice) (keys : List κ)
  | start (k : κ)
  | finish (k : κ) (again : Bool)
  | other

section
variable {κ O Change Notice : Type*} (w : Watching κ O Change Notice)

/-- The laws of a step. Only a delivery changes the cache, and its notices wait until they are handled. A key that a
    handler asks for is added, and stays so until it is handed out, even while it is worked on. A key is worked on from
    the moment it is handed out until its work is finished, and work that asks for a retry gets one. -/
structure LoopStep (v : LoopView κ O Notice) (event : LoopEvent κ Change Notice) (v' : LoopView κ O Notice) : Prop where
  delivered : ∀ change, event = .deliver change → v'.cache = w.apply v.cache change
  cached : (∀ change, event ≠ .deliver change) → v'.cache = v.cache
  told : ∀ change, event = .deliver change → ∀ n ∈ w.notices v.cache change, v'.pending n
  pending : ∀ n, v.pending n → v'.pending n ∨ ∃ keys, event = .handle n keys
  handled : ∀ n keys, event = .handle n keys → ∀ k ∈ keys, v'.added k
  added : ∀ k, v.added k → v'.added k ∨ event = .start k
  started : ∀ k, event = .start k → v'.busy k
  busy : ∀ k, v'.busy k → v.busy k ∨ event = .start k
  finished : ∀ k, v.busy k → v'.busy k ∨ ∃ again, event = .finish k again
  retried : ∀ k, event = .finish k true → v'.delayed k ∨ v'.added k
  delayed : ∀ k, v.delayed k → v'.delayed k ∨ v'.added k
  seen : ∀ k o, v'.seen k o → o = v'.cache ∨ v.seen k o ∧ event ≠ .start k

namespace LoopView

def Asked (v : LoopView κ O Notice) (k : κ) : Prop := v.added k ∨ ∃ n, v.pending n ∧ w.asks v.cache n k

/-- Nothing is lost for `k`. While it is worked on, a change that matters for it has been asked for. Otherwise it will be
    worked on again, because it is asked for, delayed, or a change of its own is still due; or it is up to date. -/
structure Covered (v : LoopView κ O Notice) (due : κ → Prop) (current : O → κ → Prop) (k : κ) : Prop where
  busy : v.busy k → v.Asked w k ∨ ∀ o, v.seen k o → w.same k o v.cache
  idle : ¬ v.busy k → v.Asked w k ∨ v.delayed k ∨ due k ∨ current v.cache k

variable {w} {v v' : LoopView κ O Notice} {event : LoopEvent κ Change Notice} {due due' : κ → Prop}
  {current : O → κ → Prop} {k : κ}

theorem Asked.step (asked : v.Asked w k) (step : LoopStep w v event v')
    (answers : ∀ n keys, event = .handle n keys → w.asks v.cache n k → k ∈ keys) :
    v'.Asked w k ∨ event = .start k := by
  rcases asked with added | ⟨n, waits, asks⟩
  · exact (step.added k added).imp_left .inl
  rcases step.pending n waits with still | ⟨keys, handles⟩
  · left
    by_cases delivery : ∃ change, event = .deliver change
    · obtain ⟨change, delivers⟩ := delivery
      rcases w.keeps v.cache change n k asks with holds | ⟨n', new, asks'⟩
      · exact .inr ⟨n, still, step.delivered change delivers ▸ holds⟩
      · exact .inr ⟨n', step.told change delivers n' new, step.delivered change delivers ▸ asks'⟩
    · rw [not_exists] at delivery
      exact .inr ⟨n, still, step.cached delivery ▸ asks⟩
  · exact .inl (.inl (step.handled n keys handles k (answers n keys handles asks)))

theorem cache_step (step : LoopStep w v event v') (k : κ) : w.same k v.cache v'.cache ∨ v'.Asked w k := by
  by_cases delivery : ∃ change, event = .deliver change
  · obtain ⟨change, delivers⟩ := delivery
    rw [step.delivered change delivers]
    rcases w.reports v.cache change k with same | ⟨n, new, asks⟩
    · exact .inl same
    · exact .inr (.inr ⟨n, step.told change delivers n new, step.delivered change delivers ▸ asks⟩)
  · rw [not_exists] at delivery
    rw [step.cached delivery]
    exact .inl ((w.equivalence k).refl _)

theorem Covered.step (covered : v.Covered w due current k) (step : LoopStep w v event v')
    (transfers : ∀ o o', w.same k o o' → current o k → current o' k)
    (answers : ∀ n keys, event = .handle n keys → w.asks v.cache n k → k ∈ keys)
    (dues : due k → due' k ∨ v'.Asked w k)
    (ends : event = .finish k false → (∀ o, v.seen k o → w.same k o v.cache) →
      due' k ∨ v'.Asked w k ∨ current v.cache k) :
    v'.Covered w due' current k := by
  by_cases starts : event = .start k
  · refine ⟨fun _ => .inr fun o saw => ?_, fun idle => absurd (step.started k starts) idle⟩
    rcases step.seen k o saw with rfl | ⟨-, other⟩
    · exact (w.equivalence k).refl _
    · exact absurd starts other
  have asked : v.Asked w k → v'.Asked w k := fun asks => (asks.step step answers).resolve_right starts
  refine ⟨fun working => ?_, fun idle => ?_⟩
  · rcases covered.busy ((step.busy k working).resolve_right starts) with asks | steady
    · exact .inl (asked asks)
    rcases cache_step step k with same | asks
    · refine .inr fun o saw => ?_
      rcases step.seen k o saw with rfl | ⟨before, -⟩
      · exact (w.equivalence k).refl _
      · exact (w.equivalence k).trans (steady o before) same
    · exact .inl asks
  · have moves : current v.cache k → v'.Asked w k ∨ current v'.cache k := fun fine =>
      (cache_step step k).symm.imp_right fun same => transfers _ _ same fine
    by_cases working : v.busy k
    · obtain ⟨again, ends'⟩ := (step.finished k working).resolve_left idle
      rcases covered.busy working with asks | steady
      · exact .inl (asked asks)
      cases again with
      | true =>
        rcases step.retried k ends' with waits | added
        · exact .inr (.inl waits)
        · exact .inl (.inl added)
      | false =>
        rcases ends ends' steady with waits | asks | fine
        · exact .inr (.inr (.inl waits))
        · exact .inl asks
        · exact (moves fine).imp_right fun fine => .inr (.inr fine)
    · rcases covered.idle working with asks | waits | waits | fine
      · exact .inl (asked asks)
      · rcases step.delayed k waits with waits | added
        · exact .inr (.inl waits)
        · exact .inl (.inl added)
      · rcases dues waits with waits | asks
        · exact .inr (.inr (.inl waits))
        · exact .inl asks
      · exact (moves fine).imp_right fun fine => .inr (.inr fine)

/-- Where nothing is left to do for a key, it is up to date. -/
theorem Covered.rest (covered : v.Covered w due current k) (unadded : ¬ v.added k) (unbusy : ¬ v.busy k)
    (undelayed : ¬ v.delayed k) (handled : ∀ n, ¬ v.pending n) (delivered : ¬ due k) : current v.cache k := by
  rcases covered.idle unbusy with (added | ⟨n, pending, -⟩) | delayed | waits | upToDate
  · exact absurd added unadded
  · exact absurd pending (handled n)
  · exact absurd delayed undelayed
  · exact absurd waits delivered
  · exact upToDate

end LoopView

end
