import Sekas.Root.Heartbeat

/-! What the heartbeat queue guarantees its callers. Seen from outside, the queue is one
deadline per node: `try_schedule` gives each node of its tasks the earlier of `when` and the
deadline it had, `try_poll` returns the nodes whose deadline has passed and forgets them,
and a change of `enable` forgets everything. `HeartbeatQueueCore`, with its delay queue,
slab keys and sentinels, refines that map over every sequence of calls, with the nodes each
`try_poll` returns. On the map: a node scheduled on an enabled queue is returned by the first
`try_poll` at or after its `when`, unless the queue is disabled first, and a node that is not
due is returned only after a `try_schedule` names it again. -/
namespace Sekas.Root

structure PendingMap where
  enable : Bool
  pending : UInt64 → Option Nat

namespace PendingMap

def init : PendingMap := ⟨false, fun _ => none⟩

/-- `try_schedule(tasks, when)`: on an enabled queue each node of `tasks` is due at the
earlier of `when` and the deadline it had. -/
def schedule (p : PendingMap) (tasks : List HeartbeatTask) (when : Nat) : PendingMap :=
  if p.enable then
    { p with pending := fun n =>
      if n ∈ tasks.map (·.nodeId) then some ((p.pending n).elim when (min when))
      else p.pending n }
  else p

def due (p : PendingMap) (now : Nat) (n : UInt64) : Bool :=
  p.enable && (p.pending n).any (· ≤ now)

def poll (p : PendingMap) (now : Nat) : PendingMap :=
  { p with pending := fun n => if p.due now n then none else p.pending n }

/-- `enable(b)`: a change forgets every pending heartbeat. -/
def setEnable (p : PendingMap) (b : Bool) : PendingMap :=
  if p.enable ≠ b then ⟨b, fun _ => none⟩ else p

def step (p : PendingMap) : HeartbeatOp → PendingMap × (UInt64 → Bool)
  | .trySchedule tasks when => (p.schedule tasks when, fun _ => false)
  | .tryPoll now => (p.poll now, p.due now)
  | .waitOneHeartbeatTick _ => (p, fun _ => false)
  | .enable b => (p.setEnable b, fun _ => false)

def run (p : PendingMap) : List HeartbeatOp → PendingMap × List (UInt64 → Bool)
  | [] => (p, [])
  | op :: ops =>
    let r := (p.step op).1.run ops
    (r.1, (p.step op).2 :: r.2)

@[simp] theorem run_nil (p : PendingMap) : p.run [] = (p, []) := rfl

@[simp] theorem run_cons (p : PendingMap) (op : HeartbeatOp) (ops : List HeartbeatOp) :
    p.run (op :: ops) = (((p.step op).1.run ops).1, (p.step op).2 :: ((p.step op).1.run ops).2) :=
  rfl

variable {p : PendingMap} {n : UInt64} {now : Nat}

def DueBy (p : PendingMap) (n : UInt64) (now : Nat) : Prop :=
  p.enable = true ∧ ∃ d, p.pending n = some d ∧ d ≤ now

theorem DueBy.step (h : p.DueBy n now) {op : HeartbeatOp} (hop : op ≠ .enable false) :
    (p.step op).2 n = true ∨ (p.step op).1.DueBy n now := by
  obtain ⟨he, d, hd, hle⟩ := h
  cases op with
  | trySchedule tasks when =>
    refine .inr ⟨by simp only [PendingMap.step, schedule, he, if_true], ?_⟩
    simp only [PendingMap.step, schedule, he, if_true]
    by_cases hn : n ∈ tasks.map (·.nodeId)
    · exact ⟨_, by rw [if_pos hn, hd]; rfl, Nat.le_trans (Nat.min_le_right _ _) hle⟩
    · exact ⟨d, by rw [if_neg hn, hd], hle⟩
  | tryPoll now' =>
    by_cases hdue : p.due now' n = true
    · exact .inl hdue
    · exact .inr ⟨he, d, by simp only [PendingMap.step, poll, hdue, Bool.false_eq_true, if_false, hd],
        hle⟩
  | waitOneHeartbeatTick _ => exact .inr ⟨he, d, hd, hle⟩
  | enable b =>
    cases b with
    | false => exact absurd rfl hop
    | true =>
      refine .inr ?_
      simp only [PendingMap.step, setEnable, he, ne_eq, not_true_eq_false, if_false]
      exact ⟨he, d, hd, hle⟩

theorem DueBy.mono (h : p.DueBy n now) {now' : Nat} (hle : now ≤ now') : p.DueBy n now' :=
  ⟨h.1, h.2.elim fun d hd => ⟨d, hd.1, Nat.le_trans hd.2 hle⟩⟩

theorem DueBy.returned (h : p.DueBy n now) (mid : List HeartbeatOp)
    (hmid : .enable false ∉ mid) :
    ∃ out ∈ (p.run (mid ++ [.tryPoll now])).2, out n = true := by
  induction mid generalizing p with
  | nil =>
    obtain ⟨he, d, hd, hle⟩ := h
    refine ⟨_, List.mem_singleton_self _, ?_⟩
    simp only [PendingMap.step, due, he, hd, Bool.true_and, Option.any_some, decide_eq_true_eq]
    exact hle
  | cons op mid ih =>
    rw [List.cons_append, run_cons]
    rcases h.step fun he => hmid (he ▸ List.mem_cons_self _ _) with hr | hd
    · exact ⟨_, List.mem_cons_self _ _, hr⟩
    · obtain ⟨out, hout, hn⟩ := ih hd fun hm => hmid (List.mem_cons_of_mem _ hm)
      exact ⟨out, List.mem_cons_of_mem _ hout, hn⟩

theorem dueBy_schedule (he : p.enable = true) {tasks : List HeartbeatTask} {when : Nat}
    (hn : n ∈ tasks.map (·.nodeId)) : (p.schedule tasks when).DueBy n when := by
  refine ⟨by simp only [schedule, he, if_true], (p.pending n).elim when (min when),
    by simp only [schedule, he, if_true, if_pos hn], ?_⟩
  cases p.pending n
  · exact Nat.le_refl _
  · exact Nat.min_le_left _ _

def NotDue (p : PendingMap) (n : UInt64) (now : Nat) : Prop :=
  ∀ d, p.pending n = some d → now < d

theorem NotDue.step (h : p.NotDue n now) {op : HeartbeatOp}
    (hop : ∀ tasks when, op = .trySchedule tasks when → n ∈ tasks.map (·.nodeId) →
      now < when) :
    (p.step op).1.NotDue n now := by
  cases op with
  | trySchedule tasks when =>
    intro d hd
    by_cases he : p.enable = true
    · simp only [PendingMap.step, schedule, he, if_true] at hd
      split_ifs at hd with hn
      · cases hp : p.pending n with
        | none =>
          rw [hp] at hd
          exact Option.some.inj hd ▸ hop tasks when rfl hn
        | some d' =>
          rw [hp] at hd
          exact Option.some.inj hd ▸ Nat.lt_min.2 ⟨hop tasks when rfl hn, h d' hp⟩
      · exact h d hd
    · simp only [PendingMap.step, schedule, he, if_false] at hd
      exact h d hd
  | tryPoll now' =>
    intro d hd
    by_cases hdue : p.due now' n = true
    · simp only [PendingMap.step, poll, hdue, if_true, reduceCtorEq] at hd
    · simp only [PendingMap.step, poll, hdue, Bool.false_eq_true, if_false] at hd
      exact h d hd
  | waitOneHeartbeatTick _ => exact h
  | enable b =>
    simp only [PendingMap.step, setEnable]
    split_ifs
    · exact fun _ hd => nomatch hd
    · exact h

theorem NotDue.run (h : p.NotDue n now) (mid : List HeartbeatOp)
    (hmid : ∀ tasks when, .trySchedule tasks when ∈ mid → n ∈ tasks.map (·.nodeId) → now < when) :
    (p.run mid).1.NotDue n now := by
  induction mid generalizing p with
  | nil => exact h
  | cons op mid ih =>
    exact ih (h.step fun tasks when hop => hmid tasks when (hop ▸ List.mem_cons_self _ _))
      fun tasks when hm => hmid tasks when (List.mem_cons_of_mem _ hm)

theorem NotDue.due_eq_false (h : p.NotDue n now) : p.due now n = false := by
  cases hp : p.pending n with
  | none => simp only [due, hp, Option.any_none, Bool.and_false]
  | some d =>
    simp only [due, hp, Option.any_some, decide_eq_true_eq, Bool.and_eq_false_iff]
    exact .inr (by simpa using h d hp)

end PendingMap

def HeartbeatQueueCore.pendingMap (core : HeartbeatQueueCore) : PendingMap :=
  ⟨core.enable, fun n => (core.nodeScheduled n).map (·.2)⟩

def HeartbeatQueue.trace (alloc : KeyAlloc) (core : HeartbeatQueueCore) :
    List HeartbeatOp → Option (HeartbeatQueueCore × List (List HeartbeatTask))
  | [] => some (core, [])
  | op :: ops => (op.step alloc core).bind fun r =>
    (trace alloc r.1 ops).map fun t => (t.1, r.2 :: t.2)

def Returns (out : List HeartbeatTask) (due : UInt64 → Bool) : Prop :=
  (out.map (·.nodeId)).Nodup ∧ ∀ n, n ∈ out.map (·.nodeId) ↔ due n = true

theorem Returns.nil : Returns [] fun _ => false :=
  ⟨List.nodup_nil, fun _ => ⟨nofun, nofun⟩⟩

theorem scheduledWhen_eq_elim (when : Nat) (o : Option (Nat × Nat)) :
    scheduledWhen when o = (o.map (·.2)).elim when (min when) := by
  rcases o with _ | ⟨_, d⟩ <;> rfl

namespace HeartbeatQueue

variable (alloc : KeyAlloc) {core : HeartbeatQueueCore}

theorem due_pendingMap (h : Lockstep core) (now : Nat) (n : UInt64) :
    core.pendingMap.due now n = true ↔
      ∃ k w, core.nodeScheduled n = some (k, w) ∧ w ≤ now := by
  cases he : core.enable
  · simp only [PendingMap.due, HeartbeatQueueCore.pendingMap, he, Bool.false_and,
      Bool.false_eq_true, false_iff, h.nodeScheduled_of_disabled he, reduceCtorEq, false_and,
      exists_false, not_false_eq_true]
  · simp only [PendingMap.due, HeartbeatQueueCore.pendingMap, he, Bool.true_and]
    rcases core.nodeScheduled n with _ | ⟨k, w⟩
    · simp only [Option.map_none', Option.any_none, Bool.false_eq_true, reduceCtorEq, false_and,
        exists_false]
    · simp only [Option.map_some', Option.any_some, decide_eq_true_eq, Option.some.injEq,
        Prod.mk.injEq]
      exact ⟨fun hw => ⟨k, w, ⟨rfl, rfl⟩, hw⟩, fun ⟨_, _, ⟨_, hw⟩, hle⟩ => hw ▸ hle⟩

theorem pendingMap_trySchedule (h : Lockstep core) (tasks : List HeartbeatTask) (when : Nat) :
    ∃ core', trySchedule alloc core tasks when = some core' ∧ Lockstep core' ∧
      core'.pendingMap = core.pendingMap.schedule tasks when := by
  cases he : core.enable
  · refine ⟨core, by simp [trySchedule, he], h, ?_⟩
    simp only [PendingMap.schedule, HeartbeatQueueCore.pendingMap, he, Bool.false_eq_true, if_false]
  · obtain ⟨core', hc, hl, he', hn⟩ := trySchedule_spec alloc h he tasks when
    refine ⟨core', hc, hl, ?_⟩
    simp only [PendingMap.schedule, HeartbeatQueueCore.pendingMap, he, if_true, he',
      PendingMap.mk.injEq, true_and]
    funext n
    by_cases hm : n ∈ tasks.map (·.nodeId)
    · obtain ⟨k, hk⟩ := (hn n).1 hm
      rw [if_pos hm, hk, scheduledWhen_eq_elim]
      rfl
    · rw [if_neg hm, (hn n).2 hm]

theorem tryPoll_fst_enable (now : Nat) : (tryPoll core now).1.enable = core.enable := by
  unfold tryPoll
  split
  · rfl
  · exact (foldl_collectExpired _ _).1

theorem pendingMap_tryPoll (h : Lockstep core) (now : Nat) :
    (tryPoll core now).1.pendingMap = core.pendingMap.poll now ∧
      Returns (tryPoll core now).2 (core.pendingMap.due now) := by
  obtain ⟨hnd, hmem, hns, -⟩ := tryPoll_returns h now
  have hd : ∀ n, n ∈ (tryPoll core now).2.map (·.nodeId) ↔ core.pendingMap.due now n = true :=
    fun n => (hmem n).trans (due_pendingMap h now n).symm
  refine ⟨?_, hnd, hd⟩
  have hpend : ∀ n, ((tryPoll core now).1.nodeScheduled n).map (·.2) =
      if core.pendingMap.due now n then none else core.pendingMap.pending n := fun n => by
    rw [hns n]
    by_cases hm : n ∈ (tryPoll core now).2.map (·.nodeId)
    · rw [if_pos hm, if_pos ((hd n).1 hm), Option.map_none']
    · rw [if_neg hm, if_neg (fun hdue => hm ((hd n).2 hdue))]
      rfl
  exact congrArg₂ PendingMap.mk (tryPoll_fst_enable now) (funext hpend)

theorem pendingMap_waitOneHeartbeatTick (now : Nat) :
    (waitOneHeartbeatTick alloc core now).pendingMap = core.pendingMap := by
  unfold waitOneHeartbeatTick
  split <;> rfl

theorem pendingMap_enable (b : Bool) :
    (enable core b).pendingMap = core.pendingMap.setEnable b := by
  by_cases hb : core.enable = b
  · simp only [enable, PendingMap.setEnable, HeartbeatQueueCore.pendingMap, hb, ne_eq,
      not_true_eq_false, if_false]
  · simp only [enable, PendingMap.setEnable, HeartbeatQueueCore.pendingMap, hb, ne_eq,
      not_false_eq_true, if_true, Option.map_none']

end HeartbeatQueue

theorem HeartbeatOp.step_refines (alloc : KeyAlloc) {core : HeartbeatQueueCore}
    (h : Lockstep core) (op : HeartbeatOp) :
    ∃ core' out, op.step alloc core = some (core', out) ∧ Lockstep core' ∧
      core'.pendingMap = (core.pendingMap.step op).1 ∧
        Returns out (core.pendingMap.step op).2 := by
  cases op with
  | trySchedule tasks when =>
    obtain ⟨core', hc, hl, hp⟩ := HeartbeatQueue.pendingMap_trySchedule alloc h tasks when
    exact ⟨core', [], by simp [HeartbeatOp.step, hc], hl, hp, Returns.nil⟩
  | tryPoll now =>
    obtain ⟨r, hr, hl⟩ := HeartbeatOp.step_lockstep alloc h (.tryPoll now)
    cases hr
    obtain ⟨hp, hret⟩ := HeartbeatQueue.pendingMap_tryPoll h now
    exact ⟨_, _, rfl, hl, hp, hret⟩
  | waitOneHeartbeatTick now =>
    exact ⟨_, [], rfl, HeartbeatQueue.waitOneHeartbeatTick_lockstep alloc h now,
      HeartbeatQueue.pendingMap_waitOneHeartbeatTick alloc now, Returns.nil⟩
  | enable b =>
    exact ⟨_, [], rfl, HeartbeatQueue.enable_lockstep h b, HeartbeatQueue.pendingMap_enable b,
      Returns.nil⟩

namespace HeartbeatQueue

variable (alloc : KeyAlloc) {core : HeartbeatQueueCore}

theorem trace_nil (core : HeartbeatQueueCore) : trace alloc core [] = some (core, []) := rfl

theorem trace_cons (core : HeartbeatQueueCore) (op : HeartbeatOp) (ops : List HeartbeatOp) :
    trace alloc core (op :: ops) = (op.step alloc core).bind fun r =>
      (trace alloc r.1 ops).map fun t => (t.1, r.2 :: t.2) := rfl

theorem trace_append_singleton (core : HeartbeatQueueCore) (ops : List HeartbeatOp)
    (op : HeartbeatOp) :
    trace alloc core (ops ++ [op]) = (trace alloc core ops).bind fun t =>
      (op.step alloc t.1).map fun r => (r.1, t.2 ++ [r.2]) := by
  induction ops generalizing core with
  | nil =>
    rw [List.nil_append, trace_cons, trace_nil, Option.some_bind]
    cases op.step alloc core <;> rfl
  | cons o ops ih =>
    rw [List.cons_append, trace_cons, trace_cons]
    cases o.step alloc core with
    | none => rfl
    | some r =>
      rw [Option.some_bind, Option.some_bind, ih]
      cases trace alloc r.1 ops with
      | none => rfl
      | some t =>
        rw [Option.some_bind, Option.map_some', Option.some_bind]
        cases op.step alloc t.1 <;> rfl

theorem trace_refines (h : Lockstep core) (ops : List HeartbeatOp) :
    ∃ core' outs, trace alloc core ops = some (core', outs) ∧ Lockstep core' ∧
      core'.pendingMap = (core.pendingMap.run ops).1 ∧
      List.Forall₂ Returns outs (core.pendingMap.run ops).2 := by
  induction ops generalizing core with
  | nil => exact ⟨core, [], rfl, h, rfl, .nil⟩
  | cons op ops ih =>
    obtain ⟨c₁, out, hs, h₁, hp₁, hr₁⟩ := HeartbeatOp.step_refines alloc h op
    obtain ⟨c₂, outs, ht, h₂, hp₂, hr₂⟩ := ih h₁
    refine ⟨c₂, out :: outs, by simp only [trace, hs, ht, Option.some_bind, Option.map_some'],
      h₂, ?_, ?_⟩
    · rw [PendingMap.run_cons, ← hp₁, hp₂]
    · rw [PendingMap.run_cons, ← hp₁]
      exact .cons hr₁ hr₂

theorem lockstep_of_run {pre : List HeartbeatOp} (h : run alloc .default pre = some core) :
    Lockstep core := by
  obtain ⟨c, hc, hl⟩ := run_lockstep alloc lockstep_default pre
  rw [h] at hc
  cases hc
  exact hl

end HeartbeatQueue

theorem exists_returns_of_mem {outs : List (List HeartbeatTask)} {dues : List (UInt64 → Bool)}
    (h : List.Forall₂ Returns outs dues) {due : UInt64 → Bool} (hd : due ∈ dues) :
    ∃ out ∈ outs, Returns out due := by
  induction h with
  | nil => cases hd
  | cons hr _ ih =>
    rcases List.mem_cons.1 hd with rfl | hd
    · exact ⟨_, List.mem_cons_self _ _, hr⟩
    · obtain ⟨out, hout, hr'⟩ := ih hd
      exact ⟨out, List.mem_cons_of_mem _ hout, hr'⟩

/-- The heartbeat queue refines a map from nodes to deadlines: over every sequence of calls no call
panics, and each returns, once each, exactly the nodes the map's call returns. -/
theorem heartbeat_queue_refines_pending_map (alloc : KeyAlloc) (ops : List HeartbeatOp) :
    ∃ core outs, HeartbeatQueue.trace alloc .default ops = some (core, outs) ∧
      core.pendingMap = (PendingMap.init.run ops).1 ∧
      List.Forall₂ Returns outs (PendingMap.init.run ops).2 := by
  obtain ⟨core, outs, ht, -, hp, hr⟩ := HeartbeatQueue.trace_refines alloc lockstep_default ops
  exact ⟨core, outs, ht, hp, hr⟩

/-- No heartbeat is lost: after `try_schedule(tasks, when)` each node of `tasks` is returned by the
first `try_poll` at or after `when` or earlier, unless `enable(false)` runs in between. -/
theorem scheduled_heartbeat_is_returned (alloc : KeyAlloc) (pre : List HeartbeatOp)
    (core : HeartbeatQueueCore) (hpre : HeartbeatQueue.run alloc .default pre = some core)
    (he : core.enable = true) (tasks : List HeartbeatTask) (when now : Nat) (n : UInt64)
    (hn : n ∈ tasks.map (·.nodeId)) (hw : when ≤ now) (mid : List HeartbeatOp)
    (hmid : .enable false ∉ mid) :
    ∃ c outs, HeartbeatQueue.trace alloc core (.trySchedule tasks when :: (mid ++ [.tryPoll now])) =
      some (c, outs) ∧ ∃ out ∈ outs, n ∈ out.map (·.nodeId) := by
  obtain ⟨c, outs, ht, -, -, hr⟩ := HeartbeatQueue.trace_refines alloc
    (HeartbeatQueue.lockstep_of_run alloc hpre) (.trySchedule tasks when :: (mid ++ [.tryPoll now]))
  have hdue := ((PendingMap.dueBy_schedule (p := core.pendingMap) he hn).mono hw).returned mid hmid
  obtain ⟨due, hdm, hdn⟩ := hdue
  obtain ⟨out, hout, hret⟩ := exists_returns_of_mem hr (List.mem_cons_of_mem _ hdm)
  exact ⟨c, outs, ht, out, hout, (hret.2 n).2 hdn⟩

theorem scheduled_heartbeat_is_returned_after_early_poll :
    HeartbeatQueue.run slabAlloc .default [.enable true] =
        some (HeartbeatQueue.enable .default true) ∧
      (HeartbeatQueue.enable .default true).enable = true ∧
      (1 : UInt64) ∈ [(⟨1⟩ : HeartbeatTask)].map (·.nodeId) ∧ 5 ≤ 7 ∧
      HeartbeatOp.enable false ∉ [HeartbeatOp.tryPoll 3] ∧
      ∃ c outs, HeartbeatQueue.trace slabAlloc (HeartbeatQueue.enable .default true)
          (.trySchedule [⟨1⟩] 5 :: ([.tryPoll 3] ++ [.tryPoll 7])) = some (c, outs) ∧
        ∃ out ∈ outs, (1 : UInt64) ∈ out.map (·.nodeId) :=
  ⟨rfl, rfl, by decide, by decide, by simp,
    scheduled_heartbeat_is_returned slabAlloc [.enable true] _ rfl rfl [⟨1⟩] 5 7 1 (by decide)
      (by decide) [.tryPoll 3] (by simp)⟩

/-- No heartbeat comes early or twice: a node not pending at or before `now` is returned by a
`try_poll` at `now` only after a `try_schedule` naming it with a `when` at or before `now`. -/
theorem heartbeat_not_returned_before_scheduled (alloc : KeyAlloc) (pre : List HeartbeatOp)
    (core : HeartbeatQueueCore) (hpre : HeartbeatQueue.run alloc .default pre = some core)
    (n : UInt64) (now : Nat) (hnd : ∀ k d, core.nodeScheduled n = some (k, d) → now < d)
    (mid : List HeartbeatOp)
    (hmid : ∀ tasks when, .trySchedule tasks when ∈ mid → n ∈ tasks.map (·.nodeId) → now < when) :
    ∃ c outs out, HeartbeatQueue.trace alloc core (mid ++ [.tryPoll now]) = some (c, outs ++ [out]) ∧
      n ∉ out.map (·.nodeId) := by
  obtain ⟨c₁, outs, ht, h₁, hp₁, -⟩ := HeartbeatQueue.trace_refines alloc
    (HeartbeatQueue.lockstep_of_run alloc hpre) mid
  obtain ⟨c₂, out, hs, -, -, hr⟩ := HeartbeatOp.step_refines alloc h₁ (.tryPoll now)
  have hnot : core.pendingMap.NotDue n now := fun d hd => by
    obtain ⟨⟨k, d'⟩, hk, rfl⟩ := Option.map_eq_some'.1 hd
    exact hnd k d' hk
  have hfalse := (hnot.run mid hmid).due_eq_false
  rw [← hp₁] at hfalse
  refine ⟨c₂, outs, out, by rw [HeartbeatQueue.trace_append_singleton, ht]; simp [hs], fun hm => ?_⟩
  have := (hr.2 n).1 hm
  simp only [PendingMap.step, hfalse, Bool.false_eq_true] at this

theorem heartbeat_not_returned_before_its_deadline :
    HeartbeatQueue.run slabAlloc .default [.enable true] =
        some (HeartbeatQueue.enable .default true) ∧
      (∀ k d, (HeartbeatQueue.enable .default true).nodeScheduled 1 = some (k, d) → 7 < d) ∧
      (∀ (tasks : List HeartbeatTask) (when : Nat), HeartbeatOp.trySchedule tasks when ∈
          [HeartbeatOp.trySchedule [⟨1⟩] 9, .trySchedule [⟨2⟩] 3, .tryPoll 5] →
        (1 : UInt64) ∈ tasks.map (·.nodeId) → 7 < when) ∧
      ∃ c outs out, HeartbeatQueue.trace slabAlloc (HeartbeatQueue.enable .default true)
          ([.trySchedule [⟨1⟩] 9, .trySchedule [⟨2⟩] 3, .tryPoll 5] ++ [.tryPoll 7]) =
          some (c, outs ++ [out]) ∧ (1 : UInt64) ∉ out.map (·.nodeId) := by
  have hnd : ∀ k d, (HeartbeatQueue.enable .default true).nodeScheduled 1 = some (k, d) → 7 < d :=
    fun _ _ h => nomatch h
  have hmid : ∀ tasks when, .trySchedule tasks when ∈
      [HeartbeatOp.trySchedule [⟨1⟩] 9, .trySchedule [⟨2⟩] 3, .tryPoll 5] →
      (1 : UInt64) ∈ tasks.map (·.nodeId) → 7 < when := by
    intro tasks when hm hn
    simp only [List.mem_cons, HeartbeatOp.trySchedule.injEq, reduceCtorEq, List.mem_nil_iff,
      or_false] at hm
    rcases hm with ⟨rfl, rfl⟩ | ⟨rfl, rfl⟩
    · decide
    · exact absurd hn (by decide)
  exact ⟨rfl, hnd, hmid, heartbeat_not_returned_before_scheduled slabAlloc [.enable true] _ rfl 1 7
    hnd _ hmid⟩

end Sekas.Root
