import Sekas.Root.TxnId

/-! Root leadership (`Root::step_leader`, `Root::run_schedule`). `step_leader` loads the
persisted maximum into the core of a new leadership, bumps it, spawns the bumper, publishes
the core, enables the heartbeat queue and runs the leader loop; when the loop ends it drops
the bumper's handle, stores 0 into `max_txn_id`, disables the heartbeat queue and clears
the published core. Each awaited call can fail, and its error returns at once through `?`.
A bump of the bumper whose write of the persisted maximum succeeded before the lease was
lost can still store its maximum after the store of 0. -/
namespace Sekas.Root
open Sekas.Engine

structure RootState where
  core : Option Nat
  epochs : Nat
  maxTxnIds : Nat → UInt64
  published : List Nat
  heartbeatEnabled : Bool
  bootstrapped : Bool
  lateStored : List Nat

def RootState.init : RootState := ⟨none, 0, fun _ => 0, [], false, false, []⟩

/-- `Root::is_root`. -/
def RootState.isRoot (s : RootState) : Bool := s.core.isSome

/-- `RootShared::schema`: the schema of the published core, or `NotRootLeader`. -/
def RootState.schema (s : RootState) : Except Error Nat :=
  match s.core with
  | some e => .ok e
  | none => .error .notRootLeader

structure Leadership where
  bootstrap : Except Error Unit
  maxTxnId : Except Error UInt64
  now : UInt64
  setTxnId : Except Error Unit
  onStepLeader : Except Error Unit
  listNode : Except Error Unit
  lateBump : Option UInt64

/-- How `step_leader` ends: it returns, or panics on a failed bootstrap. -/
inductive Outcome where
  | returned (result : Except Error Unit)
  | panicked
  deriving DecidableEq, Repr

def RootState.stepDown (s : RootState) (e : Nat) : RootState :=
  { s with maxTxnIds := Function.update s.maxTxnIds e 0, heartbeatEnabled := false, core := none }

def RootState.lateStore (s : RootState) (e : Nat) : Option UInt64 → RootState
  | none => s
  | some x => { s with maxTxnIds := Function.update s.maxTxnIds e x, lateStored := s.lateStored ++ [e] }

/-- `Root::step_leader` for one leadership. -/
def stepLeader (l : Leadership) (s : RootState) : Outcome × RootState :=
  match if s.bootstrapped then .ok () else l.bootstrap with
  | .error _ => (.panicked, s)
  | .ok () =>
    let s := { s with bootstrapped := true }
    match l.maxTxnId with
    | .error err => (.returned (.error err), s)
    | .ok m =>
      let e := s.epochs
      let s := { s with epochs := e + 1, maxTxnIds := Function.update s.maxTxnIds e m }
      match l.setTxnId with
      | .error err => (.returned (.error err), s)
      | .ok () =>
        let s := { s with
          maxTxnIds := Function.update s.maxTxnIds e (bumpTarget m l.now)
          core := some e, published := s.published ++ [e], heartbeatEnabled := true }
        match l.onStepLeader with
        | .error err => (.returned (.error err), s)
        | .ok () =>
          match l.listNode with
          | .error err => (.returned (.error err), s)
          | .ok () => (.returned (.ok ()), (s.stepDown e).lateStore e l.lateBump)

def Outcome.continues : Outcome → Bool
  | .returned (.ok ()) => true
  | .returned (.error (.notLeader _ _)) => true
  | _ => false

/-- `Root::run_schedule` over a sequence of leaderships. The flag says whether the run
panicked. -/
def runSchedule : List Leadership → RootState → Bool × RootState
  | [], s => (false, s)
  | l :: ls, s =>
    let r := stepLeader l s
    if r.1.continues then runSchedule ls r.2 else (true, r.2)

structure RootState.Follower (s : RootState) : Prop where
  core_none : s.core = none
  heartbeat_disabled : s.heartbeatEnabled = false
  max_zero : ∀ e ∈ s.published, e ∉ s.lateStored → s.maxTxnIds e = 0
  published_lt : ∀ e ∈ s.published, e < s.epochs

theorem RootState.follower_init : RootState.init.Follower :=
  ⟨rfl, rfl, fun _ h => (nomatch h), fun _ h => (nomatch h)⟩

def Leadership.failsAfterPublish (l : Leadership) : Bool :=
  l.maxTxnId.isOk && l.setTxnId.isOk && !(l.onStepLeader.isOk && l.listNode.isOk)

@[simp] theorem isOk_ok {α : Type} (a : α) : (Except.ok a : Except Error α).isOk = true := rfl

@[simp] theorem isOk_error {α : Type} (err : Error) : (Except.error err : Except Error α).isOk = false :=
  rfl

variable {s s' : RootState} {l : Leadership}

theorem RootState.Follower.fresh (hs : s.Follower) (m : UInt64) (b : Bool) :
    ({ s with
      epochs := s.epochs + 1, maxTxnIds := Function.update s.maxTxnIds s.epochs m
      bootstrapped := b } : RootState).Follower where
  core_none := hs.core_none
  heartbeat_disabled := hs.heartbeat_disabled
  max_zero e he hl := by
    dsimp only at he hl ⊢
    rw [Function.update_noteq (Nat.ne_of_lt (hs.published_lt e he))]
    exact hs.max_zero e he hl
  published_lt e he := Nat.lt_succ_of_lt (hs.published_lt e he)

theorem RootState.follower_stepDown_lateStore {t : RootState} {i : Nat} (late : Option UInt64)
    (hmax : ∀ e ∈ t.published, e ≠ i → e ∉ t.lateStored → t.maxTxnIds e = 0)
    (hlt : ∀ e ∈ t.published, e < t.epochs) :
    ((t.stepDown i).lateStore i late).Follower := by
  refine ⟨by cases late <;> rfl, by cases late <;> rfl, fun e he hl => ?_, by cases late <;> exact hlt⟩
  by_cases hi : e = i
  · subst hi
    cases late with
    | none => exact Function.update_same _ _ _
    | some x => exact absurd (List.mem_append_right _ (List.mem_singleton_self e)) hl
  · have hl' : e ∉ t.lateStored := fun h =>
      hl (by cases late <;> simp [RootState.lateStore, RootState.stepDown, h])
    have hm : ((t.stepDown i).lateStore i late).maxTxnIds e = t.maxTxnIds e := by
      cases late <;> simp [RootState.lateStore, RootState.stepDown, Function.update_noteq hi]
    rw [hm]
    exact hmax e (by cases late <;> exact he) hi hl'

theorem stepLeader_follower_iff (hs : s.Follower) {r : Except Error Unit}
    (h : stepLeader l s = (.returned r, s')) :
    s'.Follower ↔ l.failsAfterPublish = false := by
  unfold stepLeader at h
  split at h
  · cases h
  · cases hm : l.maxTxnId with
    | error err =>
      simp only [hm, Prod.mk.injEq] at h
      obtain ⟨-, rfl⟩ := h
      exact iff_of_true { hs with } (by simp [Leadership.failsAfterPublish, hm])
    | ok m =>
      simp only [hm] at h
      cases ht : l.setTxnId with
      | error err =>
        simp only [ht, Prod.mk.injEq] at h
        obtain ⟨-, rfl⟩ := h
        exact iff_of_true (hs.fresh m true) (by simp [Leadership.failsAfterPublish, ht])
      | ok u =>
        simp only [ht] at h
        cases hj : l.onStepLeader with
        | error err =>
          simp only [hj, Prod.mk.injEq] at h
          obtain ⟨-, rfl⟩ := h
          exact iff_of_false (fun hf => nomatch hf.core_none)
            (by simp [Leadership.failsAfterPublish, hm, ht, hj])
        | ok u' =>
          simp only [hj] at h
          cases hn : l.listNode with
          | error err =>
            simp only [hn, Prod.mk.injEq] at h
            obtain ⟨-, rfl⟩ := h
            exact iff_of_false (fun hf => nomatch hf.core_none)
              (by simp [Leadership.failsAfterPublish, hm, ht, hj, hn])
          | ok u'' =>
            simp only [hn, Prod.mk.injEq] at h
            obtain ⟨-, rfl⟩ := h
            refine iff_of_true (RootState.follower_stepDown_lateStore _ (fun e he hi hl => ?_)
              fun e he => ?_) (by simp [Leadership.failsAfterPublish, hm, ht, hj, hn])
            · simp only [List.mem_append, List.mem_singleton] at he
              dsimp only at hl ⊢
              rw [Function.update_noteq hi, Function.update_noteq hi]
              exact hs.max_zero e (he.resolve_right hi) hl
            · simp only [List.mem_append, List.mem_singleton] at he
              rcases he with he | rfl
              · exact Nat.lt_succ_of_lt (hs.published_lt e he)
              · exact Nat.lt_succ_self _

theorem stepLeader_panicked (h : stepLeader l s = (.panicked, s')) : s' = s := by
  unfold stepLeader at h
  repeat' split at h
  all_goals first | exact (Prod.mk.inj h).2.symm | cases h

theorem runSchedule_follower (hs : s.Follower) {ls : List Leadership}
    (hl : ∀ l ∈ ls, l.failsAfterPublish = false) : (runSchedule ls s).2.Follower := by
  induction ls generalizing s with
  | nil => exact hs
  | cons l ls ih =>
    have hs' : (stepLeader l s).2.Follower := by
      rcases h : stepLeader l s with ⟨r | _, s'⟩
      · exact (stepLeader_follower_iff hs h).2 (hl l (List.mem_cons_self _ _))
      · rw [stepLeader_panicked h]
        exact hs
    simp only [runSchedule]
    split_ifs
    · exact ih hs' fun l' h => hl l' (List.mem_cons_of_mem _ h)
    · exact hs'

/-- A `step_leader` that returns leaves a follower exactly when it does not fail after publishing;
so without such failures `run_schedule` is a follower after each leadership. -/
theorem run_schedule_restores_follower (ls : List Leadership) (s : RootState)
    (hs : s.Follower) :
    (∀ l r s', stepLeader l s = (.returned r, s') → (s'.Follower ↔ l.failsAfterPublish = false)) ∧
    ((∀ l ∈ ls, l.failsAfterPublish = false) → (runSchedule ls s).2.Follower) :=
  ⟨fun _ _ _ h => stepLeader_follower_iff hs h, runSchedule_follower hs⟩

def twoLeaderships : List Leadership :=
  [⟨.ok (), .error (.notLeader 0 0), 0, .ok (), .ok (), .ok (), none⟩,
   ⟨.ok (), .ok 0, 0, .ok (), .ok (), .ok (), some 10000000000⟩]

theorem run_schedule_restores_follower_of_two :
    (∀ l r s', stepLeader l RootState.init = (.returned r, s') →
      (s'.Follower ↔ l.failsAfterPublish = false)) ∧
    ((∀ l ∈ twoLeaderships, l.failsAfterPublish = false) →
      (runSchedule twoLeaderships RootState.init).2.Follower) :=
  run_schedule_restores_follower _ _ RootState.follower_init

def jobsLoseLeadership : Leadership :=
  ⟨.ok (), .ok 0, 0, .ok (), .error (.notLeader 0 0), .ok (), none⟩

/-- `step_leader` returns its error through `?` and skips the restore: the core stays published,
its `max_txn_id` bumped, and the heartbeat queue enabled. -/
theorem step_leader_error_leaves_core_published :
    (stepLeader jobsLoseLeadership RootState.init).1 = .returned (.error (.notLeader 0 0)) ∧
      (runSchedule [jobsLoseLeadership] RootState.init).1 = false ∧
      (runSchedule [jobsLoseLeadership] RootState.init).2.isRoot = true ∧
      (runSchedule [jobsLoseLeadership] RootState.init).2.schema = .ok 0 ∧
      (runSchedule [jobsLoseLeadership] RootState.init).2.maxTxnIds 0 = 5000000000 ∧
      (runSchedule [jobsLoseLeadership] RootState.init).2.heartbeatEnabled = true := by
  decide

end Sekas.Root
