import Mathlib.Logic.Relation
import ScriptGate.Batch.Basic

/-!
# Batches and workers

The scripts of a batch may be checked by several workers at once. A pool holds the jobs that nobody
has begun, the jobs at work and the results that are there. Any worker takes the next job as long as
one is free, jobs end in any order, and meanwhile the results are asked for in the order of the
jobs: the first failure in that order, or all results. Whatever the workers do, the outcome is that
of doing one job after the other.

## Main definitions

* `Pool`, `Pool.Step`: a pool of workers, and what may happen in it.
* `Pool.gather`: the outcome, once enough results are there.
* `Batch.Yields`, `Batch.Answers`: the outcomes of a batch for a number of workers.

## Main results

* `Pool.tidy_of_runs`: every result that is there is that of its own job.
* `Pool.exists_outcome`: a pool can always go on to an outcome.
* `Batch.yields_iff`, `Batch.answers_iff`: the number of workers makes no difference.
-/

namespace ScriptGate

/-- A pool of workers: the jobs that nobody has begun, in order, the jobs at work, each with its
place, and the results by place. -/
structure Pool (α β ε : Type) where
  waiting : List (α × Nat)
  running : List (α × Nat)
  slots : List (Option (Except ε β))

namespace Pool

variable {α β ε : Type}

/-- The pool to which jobs have just been given. -/
def start (jobs : List α) : Pool α β ε := ⟨jobs.zipIdx, [], List.replicate jobs.length none⟩

/-- What may happen in a pool: a free worker takes the next job, or a job at work ends. -/
inductive Step (work : α → Except ε β) (workers : Nat) : Pool α β ε → Pool α β ε → Prop
  | take {job : α × Nat} {waiting running : List (α × Nat)} {slots : List (Option (Except ε β))}
      (free : running.length < workers) :
      Step work workers ⟨job :: waiting, running, slots⟩ ⟨waiting, job :: running, slots⟩
  | finish {a : α} {i : Nat} {waiting before after : List (α × Nat)}
      {slots : List (Option (Except ε β))} :
      Step work workers ⟨waiting, before ++ (a, i) :: after, slots⟩
        ⟨waiting, before ++ after, slots.set i (some (work a))⟩

/-- What happens in a pool, step after step. -/
def Runs (work : α → Except ε β) (workers : Nat) : Pool α β ε → Pool α β ε → Prop :=
  Relation.ReflTransGen (Step work workers)

/-- The outcome, if enough results are there: results are asked for in order, up to the first
failure. -/
def gather : List (Option (Except ε β)) → Option (Except ε (List β))
  | [] => some (.ok [])
  | none :: _ => none
  | some (.error e) :: _ => some (.error e)
  | some (.ok b) :: slots => (gather slots).map fun outcome => outcome.map (b :: ·)

/-- Every job stands in its place, every result is that of its job, and where no result is, the job
is still to be done. -/
structure Tidy (work : α → Except ε β) (jobs : List α) (p : Pool α β ε) : Prop where
  placed : ∀ job ∈ p.waiting ++ p.running, jobs[job.2]? = some job.1
  length : p.slots.length = jobs.length
  done : ∀ (i : Nat) r, p.slots[i]? = some (some r) → ∃ a, jobs[i]? = some a ∧ r = work a
  pending : ∀ i : Nat, p.slots[i]? = some none → ∃ a, (a, i) ∈ p.waiting ++ p.running

variable {work : α → Except ε β} {workers : Nat} {jobs : List α} {p q : Pool α β ε}

theorem tidy_start : Tidy work jobs (start jobs) where
  placed job hjob := by simpa [start, List.mem_zipIdx_iff_getElem?] using hjob
  length := by simp [start]
  done i r hr := by simp [start, List.getElem?_replicate] at hr
  pending i hi := by
    have hlt : i < jobs.length := by simpa [start, List.getElem?_replicate] using hi
    exact ⟨jobs[i], by simp [start, List.mem_zipIdx_iff_getElem?, hlt]⟩

/-- One step keeps a pool tidy. -/
theorem tidy_of_step (h : Step work workers p q) (hp : Tidy work jobs p) : Tidy work jobs q := by
  cases h with
  | @take job waiting running slots free =>
    have hmem (x : α × Nat) : x ∈ waiting ++ job :: running ↔ x ∈ job :: waiting ++ running := by
      simp only [List.mem_append, List.mem_cons]
      exact or_left_comm.trans (or_assoc.symm)
    refine ⟨fun x hx => hp.placed x ((hmem x).mp hx), hp.length, hp.done, fun i hi => ?_⟩
    obtain ⟨a, ha⟩ := hp.pending i hi
    exact ⟨a, (hmem (a, i)).mpr ha⟩
  | @finish a i waiting before after slots =>
    have hjob := hp.placed (a, i) (by simp)
    refine ⟨fun x hx => hp.placed x ?_, (List.length_set ..).trans hp.length, fun j r hr => ?_,
      fun j hj => ?_⟩
    · simp only [List.mem_append, List.mem_cons] at hx ⊢
      exact hx.imp_right (·.imp_right .inr)
    · dsimp only at hr
      rw [List.getElem?_set] at hr
      split at hr
      case isTrue hij =>
        subst hij
        split at hr
        · cases hr
          exact ⟨a, hjob, rfl⟩
        · cases hr
      case isFalse => exact hp.done j r hr
    · dsimp only at hj
      rw [List.getElem?_set] at hj
      split at hj
      case isTrue => split at hj <;> cases hj
      case isFalse hij =>
        obtain ⟨b, hb⟩ := hp.pending j hj
        refine ⟨b, ?_⟩
        simp only [List.mem_append, List.mem_cons, Prod.mk.injEq] at hb ⊢
        rcases hb with hb | hb | ⟨-, hb⟩ | hb
        · exact .inl hb
        · exact .inr (.inl hb)
        · exact absurd hb.symm hij
        · exact .inr (.inr hb)

/-- **Every result that is there is that of its own job**, however the workers go about them. -/
theorem tidy_of_runs (h : Runs work workers p q) (hp : Tidy work jobs p) : Tidy work jobs q := by
  induction h with
  | refl => exact hp
  | tail _ hstep ih => exact tidy_of_step hstep ih

/-! ### Outcomes -/

/-- What is gathered from results of the jobs themselves is the outcome of one job after the
other. -/
theorem eq_mapM_of_gather {slots : List (Option (Except ε β))} {outcome : Except ε (List β)}
    (hlength : slots.length = jobs.length)
    (hdone : ∀ (i : Nat) r, slots[i]? = some (some r) → ∃ a, jobs[i]? = some a ∧ r = work a)
    (h : gather slots = some outcome) : outcome = jobs.mapM work := by
  induction jobs generalizing slots outcome with
  | nil =>
    obtain rfl := List.length_eq_zero_iff.mp hlength
    cases h
    rfl
  | cons a jobs ih =>
    cases slots with
    | nil => cases hlength
    | cons slot slots =>
      rw [List.mapM_cons]
      cases slot with
      | none => cases h
      | some r =>
        obtain ⟨b, hb, rfl⟩ := hdone 0 r rfl
        obtain rfl : a = b := by simpa using hb
        cases hwork : work a with
        | error e =>
          rw [hwork] at h
          cases h
          rfl
        | ok b =>
          rw [hwork, gather] at h
          obtain ⟨others, hothers, rfl⟩ := Option.map_eq_some_iff.mp h
          obtain rfl := ih (Nat.succ.inj hlength) (fun i r hr => hdone (i + 1) r hr) hothers
          cases jobs.mapM work <;> rfl

/-- Where all results are there, an outcome is gathered. -/
theorem exists_gather {slots : List (Option (Except ε β))} (h : none ∉ slots) :
    ∃ outcome, gather slots = some outcome := by
  induction slots with
  | nil => exact ⟨_, rfl⟩
  | cons slot slots ih =>
    obtain ⟨hslot, hslots⟩ : slot ≠ none ∧ none ∉ slots := by
      simpa [eq_comm] using h
    obtain ⟨outcome, hgather⟩ := ih hslots
    cases slot with
    | none => exact absurd rfl hslot
    | some r =>
      cases r with
      | error e => exact ⟨_, rfl⟩
      | ok b => exact ⟨_, by rw [gather, hgather]; rfl⟩

/-- What is left to do in a pool: two steps for a job that waits, one for a job at work. -/
def left (p : Pool α β ε) : Nat := 2 * p.waiting.length + p.running.length

theorem left_of_step (h : Step work workers p q) : q.left < p.left := by
  cases h with
  | take => simp only [left, List.length_cons]; omega
  | finish => simp only [left, List.length_append, List.length_cons]; omega

/-- Where a job is still to be done, something may happen. -/
theorem exists_step (hworkers : 0 < workers) (h : p.waiting ++ p.running ≠ []) :
    ∃ q, Step work workers p q := by
  obtain ⟨waiting, running, slots⟩ := p
  cases running with
  | cons job running =>
    obtain ⟨a, i⟩ := job
    have hstep : Step work workers ⟨waiting, [] ++ (a, i) :: running, slots⟩ _ := .finish
    exact ⟨_, hstep⟩
  | nil =>
    cases waiting with
    | nil => exact absurd rfl h
    | cons job waiting => exact ⟨_, .take hworkers⟩

/-- **A pool can always go on to an outcome**, which is that of one job after the other. -/
theorem exists_outcome (hworkers : 0 < workers) (hp : Tidy work jobs p) :
    ∃ q, Runs work workers p q ∧ gather q.slots = some (jobs.mapM work) := by
  induction hleft : p.left using Nat.strongRecOn generalizing p with
  | ind k ih =>
    by_cases hnone : none ∈ p.slots
    · obtain ⟨i, hi⟩ := List.getElem?_of_mem hnone
      obtain ⟨a, ha⟩ := hp.pending i hi
      obtain ⟨q, hstep⟩ := exists_step hworkers (List.ne_nil_of_mem ha)
      obtain ⟨r, hruns, hr⟩ :=
        ih q.left (hleft ▸ left_of_step hstep) (tidy_of_step hstep hp) rfl
      exact ⟨r, .head hstep hruns, hr⟩
    · obtain ⟨outcome, houtcome⟩ := exists_gather hnone
      obtain rfl := eq_mapM_of_gather hp.length hp.done houtcome
      exact ⟨p, .refl, houtcome⟩

end Pool

/-! ### Batches -/

namespace Batch

variable {rules : Rules} {grammar : Grammar} {policy : Policy} {workers : Int}
  {requests : List Request}

/-- The outcomes of the scripts of a batch. Several workers are set to it if there are several of
them and several scripts. -/
def Yields (grammar : Grammar) (policy : Policy) (workers : Int) (requests : List Request)
    (outcome : Except Check.Fault (List Report)) : Prop :=
  if 1 < workers ∧ 1 < requests.length then
    ∃ p, Pool.Runs (fun r => checkScript grammar policy r.script r.allowedVariables) workers.toNat
      (.start requests) p ∧ Pool.gather p.slots = some outcome
  else outcome = check grammar policy requests

/-- The answers, as JSON text, to a batch that is given as JSON text. -/
def Answers (rules : Rules) (grammar : Grammar) (policy : Policy) (workers : Int)
    (text : List Char) (answer : Except Failure Text) : Prop :=
  match parse rules text with
  | .error e => answer = .error (.unreadable e)
  | .ok requests => ∃ outcome, Yields grammar policy workers requests outcome ∧
    answer = (outcome.mapError .fault).map fun rs => (response rs).write

/-- **The number of workers makes no difference**: the outcome is that of one script after the
other. -/
theorem yields_iff {outcome : Except Check.Fault (List Report)} :
    Yields grammar policy workers requests outcome ↔ outcome = check grammar policy requests := by
  rw [Yields]
  split
  case isFalse => rfl
  case isTrue hmany =>
    constructor
    · rintro ⟨p, hruns, hgather⟩
      have htidy := Pool.tidy_of_runs hruns Pool.tidy_start
      exact Pool.eq_mapM_of_gather htidy.length htidy.done hgather
    · rintro rfl
      exact Pool.exists_outcome (by omega) Pool.tidy_start

/-- It makes no difference to the answer either. -/
theorem answers_iff {text : List Char} {answer : Except Failure Text} :
    Answers rules grammar policy workers text answer ↔
      answer = Batch.answer rules grammar policy text := by
  rw [Answers, Batch.answer, reports]
  cases parse rules text with
  | error e => rfl
  | ok requests =>
    simp only [yields_iff, exists_eq_left]
    rfl

end Batch

end ScriptGate
