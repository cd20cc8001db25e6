import CertificateJobs.Library.Machine
import Mathlib.Algebra.BigOperators.Group.Finset.Basic
import Mathlib.Algebra.Order.BigOperators.Group.Finset
import Mathlib.Logic.Function.Basic
import Mathlib.Logic.Relation

/-!
# Workflows over a dependency relation

A workflow starts every node once, after what the node depends on, and a failure may make it give up nodes that still
wait. How the work of a node ends is decided elsewhere: a plan carries the verdict of every node, and an execution
finds it out.
-/

namespace Dag

open Relation

inductive Status
  | waiting
  | started
  | succeeded
  | failed
  | skipped
  deriving DecidableEq

inductive Reaction
  | halt
  | prune
  | ignore
  deriving DecidableEq

structure Plan (N : Type*) where
  before : N → N → Prop
  reaction : Reaction
  verdict : N → Bool

def Status.Begun (status : Status) : Prop := status = .started ∨ status = .succeeded ∨ status = .failed

def Status.Over (status : Status) : Prop := status = .succeeded ∨ status = .failed ∨ status = .skipped

def Status.rank : Status → Nat
  | .waiting => 0
  | .started => 1
  | .succeeded | .failed | .skipped => 2

section
variable {N : Type*} (plan : Plan N)

def Plan.Ready (board : N → Status) (n : N) : Prop :=
  ∀ d, plan.before d n → board d = .succeeded ∨ (plan.reaction = .ignore ∧ board d = .failed)

def Plan.GivesUp (failed : N → Prop) (n : N) : Prop :=
  match plan.reaction with
  | .halt => ∃ root, failed root
  | .prune => ∃ root, failed root ∧ TransGen plan.before root n
  | .ignore => False

def Plan.result (n : N) : Status := if plan.verdict n then .succeeded else .failed

inductive Plan.Step [DecidableEq N] : (N → Status) → N → (N → Status) → Prop
  | start {board : N → Status} {n : N} : board n = .waiting → plan.Ready board n →
      Plan.Step board n (Function.update board n .started)
  | finish {board : N → Status} {n : N} : board n = .started →
      Plan.Step board n (Function.update board n (plan.result n))
  | skip {board : N → Status} {n : N} : board n = .waiting → plan.GivesUp (board · = .failed) n →
      Plan.Step board n (Function.update board n .skipped)

def Plan.machine [DecidableEq N] : Machine (N → Status) N where
  start board := board = fun _ => .waiting
  step := plan.Step

theorem Plan.GivesUp.mono {plan : Plan N} {failed failed' : N → Prop} {n : N} (gives : plan.GivesUp failed n)
    (more : ∀ m, failed m → failed' m) : plan.GivesUp failed' n := by
  unfold Plan.GivesUp at *
  cases reaction : plan.reaction <;> simp only [reaction] at gives ⊢
  case halt => exact gives.imp more
  case prune =>
    obtain ⟨root, fails, path⟩ := gives
    exact ⟨root, more root fails, path⟩

theorem Plan.Ready.mono {plan : Plan N} {board board' : N → Status} {n : N} (ready : plan.Ready board n)
    (keep : ∀ d, board d = .succeeded ∨ board d = .failed → board' d = board d) : plan.Ready board' n := by
  intro d edge
  rcases ready d edge with succeeded | ⟨ignores, failed⟩
  · exact .inl ((keep d (.inl succeeded)).trans succeeded)
  · exact .inr ⟨ignores, (keep d (.inr failed)).trans failed⟩

theorem Plan.result_over (n : N) : plan.result n = .succeeded ∨ plan.result n = .failed := by
  unfold Plan.result
  split
  · exact .inl rfl
  · exact .inr rfl

end

/-- Goes from `board` to `board'` node by node, when each node that differs can make its step at any mixture of the
    two boards. -/
theorem leads_pointwise {N S : Type*} [DecidableEq N] {m : Machine (N → S) N} {ok : (N → S) → N → Prop}
    {board' : N → S} (names : List N) (distinct : names.Nodup) (board : N → S)
    (outside : ∀ n, n ∉ names → board' n = board n) (allowed : ∀ n ∈ names, ∀ mid, ok mid n)
    (step : ∀ n ∈ names, board' n ≠ board n → ∀ mid, (∀ k, mid k = board k ∨ mid k = board' k) →
      mid n = board n → m.step mid n (Function.update mid n (board' n))) :
    m.Leads ok board board' := by
  induction names generalizing board with
  | nil =>
    obtain rfl : board' = board := funext fun n => outside n List.not_mem_nil
    exact .refl board'
  | cons n rest ih =>
    obtain ⟨apart, distinct⟩ := List.nodup_cons.mp distinct
    have first : m.Leads ok board (Function.update board n (board' n)) := by
      by_cases same : board' n = board n
      · rw [same, Function.update_eq_self]
        exact .refl board
      · exact .step (.refl board) (allowed n List.mem_cons_self board)
          (step n List.mem_cons_self same board (fun k => .inl rfl) rfl)
    refine first.trans (ih distinct _ ?_ (fun k inside => allowed k (List.mem_cons_of_mem n inside)) ?_)
    · intro k missing
      by_cases here : k = n
      · subst here
        exact (Function.update_self k (board' k) board).symm
      · rw [Function.update_of_ne here]
        refine outside k ?_
        rw [List.mem_cons]
        exact not_or.mpr ⟨here, missing⟩
    · intro k inside differs mid mixed still
      have other : k ≠ n := fun here => apart (here ▸ inside)
      rw [Function.update_of_ne other] at differs still
      refine step k (List.mem_cons_of_mem n inside) differs mid (fun j => ?_) still
      by_cases here : j = n
      · subst here
        exact .inr ((mixed j).elim (fun old => old.trans (Function.update_self ..)) id)
      · rw [← Function.update_of_ne here (board' n) board]
        exact mixed j

def mixture {N S : Type*} (board board' : N → S) (moved : N → Bool) (n : N) : S :=
  if moved n then board' n else board n

theorem leads_mixture {N S : Type*} [DecidableEq N] {m : Machine (N → S) N} {ok : (N → S) → N → Prop}
    {board board' : N → S} (names : List N) (distinct : names.Nodup)
    (outside : ∀ n, n ∉ names → board' n = board n) (allowed : ∀ n ∈ names, ∀ mid, ok mid n) (moved later : N → Bool)
    (more : ∀ n, moved n = true → later n = true)
    (step : ∀ n, moved n = false → later n = true → board' n ≠ board n → ∀ mid,
      (∀ k, moved k = true → mid k = board' k) → (∀ k, mid k = board k ∨ mid k = board' k) → mid n = board n →
        m.step mid n (Function.update mid n (board' n))) :
    m.Leads ok (mixture board board' moved) (mixture board board' later) := by
  refine leads_pointwise names distinct _ ?_ allowed ?_
  · intro n missing
    simp only [mixture, outside n missing, ite_self]
  · intro n _ differs mid mixed still
    have waits : moved n = false := by
      cases early : moved n with
      | false => rfl
      | true => exact absurd (by simp [mixture, early, more n early]) differs
    have goes : later n = true := by
      cases late : later n with
      | true => rfl
      | false => exact absurd (by simp [mixture, waits, late]) differs
    simp only [mixture, waits, goes, if_true, Bool.false_eq_true, if_false] at differs still ⊢
    refine step n waits goes differs mid ?_ ?_ still
    · intro k early
      simpa [mixture, early, more k early] using mixed k
    · intro k
      rcases mixed k with old | new
      · rw [old, mixture]
        split
        · exact .inr rfl
        · exact .inl rfl
      · rw [new, mixture]
        split
        · exact .inr rfl
        · exact .inl rfl

section
variable {N : Type*} {plan : Plan N} {board board' : N → Status} {ok : (N → Status) → N → Prop}

/-- What may happen to a node while a workflow moves from one board to another in one go. -/
inductive Plan.Change (plan : Plan N) (board board' : N → Status) (n : N) : Prop
  | stays : board' n = board n → Plan.Change plan board board' n
  | finishes : board n = .started → board' n = plan.result n → Plan.Change plan board board' n
  | skips : board n = .waiting → board' n = .skipped → plan.GivesUp (board' · = .failed) n →
      Plan.Change plan board board' n
  | starts : board n = .waiting → board' n = .started → plan.Ready board' n → Plan.Change plan board board' n

theorem Plan.Change.settled {n : N} (change : plan.Change board board' n)
    (ended : board' n = .succeeded ∨ board' n = .failed) {mid : N → Status}
    (finished : board n = .started → mid n = board' n) (mixed : mid n = board n ∨ mid n = board' n) :
    mid n = board' n := by
  cases change with
  | stays same => exact mixed.elim (fun old => old.trans same.symm) id
  | finishes started => exact finished started
  | skips _ skipped => simp [skipped] at ended
  | starts _ started => simp [started] at ended

theorem leads_of_changes [DecidableEq N] (names : List N) (distinct : names.Nodup)
    (outside : ∀ n, n ∉ names → board' n = board n) (allowed : ∀ n ∈ names, ∀ mid, ok mid n)
    (changes : ∀ n, plan.Change board board' n) : plan.machine.Leads ok board board' := by
  -- First the nodes that finish, then those that are given up, then those that start.
  have finish : plan.machine.Leads ok (mixture board board' fun _ => false)
      (mixture board board' fun n => board n = .started) := by
    refine leads_mixture names distinct outside allowed _ _ (by simp) ?_
    intro n _ started differs mid _ _ still
    have started : board n = .started := by simpa using started
    cases changes n with
    | stays same => exact absurd same differs
    | finishes _ result => exact result ▸ .finish (still.trans started)
    | skips waiting => simp [waiting] at started
    | starts waiting => simp [waiting] at started
  have skip : plan.machine.Leads ok (mixture board board' fun n => board n = .started)
      (mixture board board' fun n => board n = .started ∨ board' n = .skipped) := by
    refine leads_mixture names distinct outside allowed _ _ (by simp +contextual) ?_
    intro n unstarted skipped differs mid finished mixed still
    simp only [decide_eq_true_eq, decide_eq_false_iff_not] at unstarted skipped finished
    cases changes n with
    | stays same => exact absurd same differs
    | finishes started => exact absurd started unstarted
    | skips waiting target gives =>
      rw [target]
      refine .skip (still.trans waiting) (gives.mono fun m failed => ?_)
      exact ((changes m).settled (.inr failed) (finished m) (mixed m)).trans failed
    | starts _ target => simp [unstarted, target] at skipped
  have start : plan.machine.Leads ok (mixture board board' fun n => board n = .started ∨ board' n = .skipped)
      (mixture board board' fun _ => true) := by
    refine leads_mixture names distinct outside allowed _ _ (by simp) ?_
    intro n moved _ differs mid finished mixed still
    simp only [decide_eq_true_eq, decide_eq_false_iff_not, not_or] at moved finished
    cases changes n with
    | stays same => exact absurd same differs
    | finishes started => exact absurd started moved.1
    | skips _ target => exact absurd target moved.2
    | starts waiting target ready =>
      rw [target]
      refine .start (still.trans waiting) (ready.mono fun d ended => ?_)
      exact (changes d).settled ended (fun started => finished d (.inl started)) (mixed d)
  exact (finish.trans skip).trans start

end

section
variable {N : Type*} {plan : Plan N} {board board' : N → Status} {ok : (N → Status) → N → Prop} {n : N}

/-- What a board shows agrees with the plan: results are the verdicts, a node begins after its dependencies, and a
    skipped node has a failure to blame. -/
structure Plan.Sound (plan : Plan N) (board : N → Status) : Prop where
  judged : ∀ n, board n = .succeeded ∨ board n = .failed → board n = plan.result n
  ready : ∀ n, (board n).Begun → plan.Ready board n
  given : ∀ n, board n = .skipped → plan.GivesUp (plan.verdict · = false) n

theorem Plan.Sound.verdict (sound : plan.Sound board) (failed : board n = .failed) : plan.verdict n = false := by
  have result := sound.judged n (.inr failed)
  rw [failed, Plan.result] at result
  cases verdict : plan.verdict n with
  | false => rfl
  | true => simp [verdict] at result

theorem Plan.Sound.update [DecidableEq N] (sound : plan.Sound board) {status : Status}
    (unsettled : board n = .waiting ∨ board n = .started)
    (judged : status = .succeeded ∨ status = .failed → status = plan.result n)
    (ready : status.Begun → plan.Ready board n)
    (given : status = .skipped → plan.GivesUp (plan.verdict · = false) n) :
    plan.Sound (Function.update board n status) := by
  have kept : ∀ k, plan.Ready board k → plan.Ready (Function.update board n status) k := by
    intro k before
    refine before.mono fun d ended => Function.update_of_ne ?_ ..
    rintro rfl
    rcases unsettled with waiting | started
    · simp [waiting] at ended
    · simp [started] at ended
  refine ⟨fun k ended => ?_, fun k begun => kept k ?_, fun k skipped => ?_⟩
  · by_cases here : k = n
    · subst here
      rw [Function.update_self] at ended ⊢
      exact judged ended
    · rw [Function.update_of_ne here] at ended ⊢
      exact sound.judged k ended
  · by_cases here : k = n
    · subst here
      rw [Function.update_self] at begun
      exact ready begun
    · rw [Function.update_of_ne here] at begun
      exact sound.ready k begun
  · by_cases here : k = n
    · subst here
      rw [Function.update_self] at skipped
      exact given skipped
    · rw [Function.update_of_ne here] at skipped
      exact sound.given k skipped

theorem Plan.Sound.step [DecidableEq N] (sound : plan.Sound board) (step : plan.Step board n board') :
    plan.Sound board' := by
  cases step with
  | start waiting ready => exact sound.update (.inl waiting) (by simp) (fun _ => ready) (by simp)
  | finish started =>
    refine sound.update (.inr started) (fun _ => rfl) (fun _ => sound.ready n (.inl started)) fun skipped => ?_
    rcases plan.result_over n with ended | ended <;> simp [ended] at skipped
  | skip waiting gives =>
    exact sound.update (.inl waiting) (by simp) (by simp [Status.Begun])
      fun _ => gives.mono fun _ failed => sound.verdict failed

theorem Plan.reached_sound [DecidableEq N] (reached : plan.machine.Reached ok board) : plan.Sound board := by
  refine reached.invariant plan.Sound ?_ fun _ _ _ sound _ step => sound.step step
  rintro _ rfl
  exact ⟨by simp, by simp [Status.Begun], by simp⟩

/-- Everything a begun node depends on, directly or not, has ended well enough for it. -/
theorem Plan.Sound.ancestors (sound : plan.Sound board) (begun : (board n).Begun) {a : N}
    (path : TransGen plan.before a n) :
    board a = .succeeded ∨ (plan.reaction = .ignore ∧ board a = .failed) := by
  induction path with
  | single edge => exact sound.ready _ begun a edge
  | tail _ edge ih =>
    refine ih ?_
    rcases sound.ready _ begun _ edge with succeeded | ⟨-, failed⟩
    · exact .inr (.inl succeeded)
    · exact .inr (.inr failed)

/-- What becomes of a node in the end, where a failure does not halt the whole workflow. -/
def Plan.Outcome (plan : Plan N) (n : N) : Status → Prop
  | .succeeded => plan.verdict n = true ∧ ¬ plan.GivesUp (plan.verdict · = false) n
  | .failed => plan.verdict n = false ∧ ¬ plan.GivesUp (plan.verdict · = false) n
  | .skipped => plan.GivesUp (plan.verdict · = false) n
  | .waiting | .started => False

theorem Plan.Outcome.unique {left right : Status} (first : plan.Outcome n left) (second : plan.Outcome n right) :
    left = right := by
  cases left <;> cases right <;> simp_all [Plan.Outcome]

theorem Plan.Sound.outcome (sound : plan.Sound board) (goes_on : plan.reaction ≠ .halt) (ended : (board n).Over) :
    plan.Outcome n (board n) := by
  have ungiven : (board n).Begun → ¬ plan.GivesUp (plan.verdict · = false) n := by
    intro begun gives
    unfold Plan.GivesUp at gives
    cases reaction : plan.reaction <;> simp only [reaction] at gives
    case halt => exact goes_on reaction
    case prune =>
      obtain ⟨root, fails, path⟩ := gives
      rcases sound.ancestors begun path with succeeded | ⟨ignores, -⟩
      · have result := sound.judged root (.inl succeeded)
        simp [succeeded, Plan.result, fails] at result
      · simp [reaction] at ignores
  rcases ended with succeeded | failed | skipped
  · have result := sound.judged n (.inl succeeded)
    rw [succeeded] at result ungiven ⊢
    refine ⟨?_, ungiven (.inr (.inl rfl))⟩
    cases verdict : plan.verdict n with
    | true => rfl
    | false => simp [Plan.result, verdict] at result
  · have verdict := sound.verdict failed
    rw [failed] at ungiven ⊢
    exact ⟨verdict, ungiven (.inr (.inr rfl))⟩
  · rw [skipped]
    exact sound.given n skipped

end

/-! ### Progress -/

section
variable {N : Type*} (nodes : Finset N)

def weight (board : N → Status) : Nat := ∑ n ∈ nodes, (board n).rank

theorem weight_le (board : N → Status) : weight nodes board ≤ nodes.card * 2 :=
  Finset.sum_le_card_nsmul nodes _ 2 fun n _ => by cases board n <;> simp [Status.rank]

variable {nodes} [DecidableEq N] {plan : Plan N} {board board' : N → Status}

theorem Plan.Step.rank {n : N} (step : plan.Step board n board') : (board n).rank < (board' n).rank := by
  cases step with
  | start waiting => simp [waiting, Status.rank]
  | finish started => rcases plan.result_over n with ended | ended <;> simp [started, ended, Status.rank]
  | skip waiting => simp [waiting, Status.rank]

theorem Plan.Step.others {n : N} (step : plan.Step board n board') {k : N} (other : k ≠ n) : board' k = board k := by
  cases step with
  | start => exact Function.update_of_ne other ..
  | finish => exact Function.update_of_ne other ..
  | skip => exact Function.update_of_ne other ..

theorem Plan.Step.weight_lt {n : N} (step : plan.Step board n board') (inside : n ∈ nodes) :
    weight nodes board < weight nodes board' := by
  refine Finset.sum_lt_sum (fun k _ => ?_) ⟨n, inside, step.rank⟩
  by_cases here : k = n
  · exact here ▸ step.rank.le
  · rw [step.others here]

theorem eq_or_weight_lt (run : plan.machine.Leads (fun _ n => n ∈ nodes) board board') :
    board' = board ∨ weight nodes board < weight nodes board' := by
  -- An execution that does anything raises the weight, which the number of nodes bounds.
  induction run with
  | refl => exact .inl rfl
  | step _ inside taken ih =>
    have rises := Plan.Step.weight_lt taken inside
    rcases ih with rfl | before
    · exact .inr rises
    · exact .inr (before.trans rises)

end

end Dag
