import Sekas.Engine
import Sekas.Root.Delivery

/-! The nodes a root heartbeats while it leads. `step_leader` publishes its core, then enables
the heartbeat queue, then lists the schema's nodes and schedules a heartbeat of each. At the
same time `join` calls pass `schema()`, add their node and schedule its heartbeat,
`run_heartbeat` polls, and the components outside src/ that hold the queue (the jobs, the
scheduler) schedule more. A join that schedules before the queue is enabled loses that
heartbeat, but `list_node` comes later and lists its node. Over every interleaving of these
steps, once a leadership has scheduled its cluster heartbeat, every node of the schema is
pending on the queue or was returned by a poll, unless a join that added it is still between
`add_node` and its `try_schedule`, or gave up there; and while the leadership lasts, a node
scheduled at `t` is returned by the first poll at or after `t`. -/
namespace Sekas.Root
open Sekas.Engine

/-- Where `step_leader` is, from the publication of its core to the end of its leadership. -/
inductive LeaderPc where
  /-- Outside a leadership: a follower, or a `step_leader` that has returned an error. -/
  | follower
  /-- The core is published; `enable(true)` is next. -/
  | published
  /-- The queue is enabled; `on_step_leader` and `list_node` are next. -/
  | enabled
  /-- `list_node` answered these nodes; their `try_schedule` is next. -/
  | listed (nodes : List UInt64)
  /-- The cluster heartbeat of these nodes is scheduled; the leader loop runs. -/
  | leading (nodes : List UInt64)
  /-- The leader loop has ended and the queue is disabled; the core is cleared next. -/
  | steppingDown
  deriving DecidableEq, Repr

def LeaderPc.queueEnabled : LeaderPc → Bool
  | .enabled | .listed _ | .leading _ => true
  | _ => false

/-- Where one `Root::join` call is. -/
inductive JoinPc where
  | start
  /-- `schema()` answered. -/
  | checked
  /-- `add_node` answered `id`; `cluster_id`, `get_root_desc` and `try_schedule` are next. -/
  | added (id : UInt64)
  /-- An await after `add_node` failed, or `unwrap` panicked. -/
  | abandoned (id : UInt64)
  | done
  deriving DecidableEq, Repr

structure ClusterWorld where
  core : Bool
  leader : LeaderPc
  nodes : List UInt64
  joins : Nat → JoinPc
  queue : HeartbeatQueueCore
  heartbeated : List UInt64

def ClusterWorld.init (nodes : List UInt64) : ClusterWorld :=
  ⟨false, .follower, nodes, fun _ => .start, .default, []⟩

inductive ClusterEvent where
  | publish
  | enable
  /-- `on_step_leader` or `list_node` fails, and `step_leader` returns the error. -/
  | failStart
  | listNode
  | scheduleCluster (now : Nat)
  | stepDown
  | clearCore
  | joinSchema (i : Nat)
  | joinAddNode (i : Nat) (id : Except Error UInt64)
  /-- Join `i` ends after `add_node`: with `ok`, its awaits answered and it schedules the
  node's heartbeat at `now`. -/
  | joinFinish (i : Nat) (ok : Bool) (now : Nat)
  /-- One pass of `run_heartbeat`. -/
  | poll (now : Nat)
  /-- A `try_schedule` or `wait_one_heartbeat_tick` of a component outside src/. -/
  | other (op : HeartbeatOp)

namespace ClusterWorld

def queueOp (alloc : KeyAlloc) (w : ClusterWorld) (op : HeartbeatOp) :
    Option (ClusterWorld × List HeartbeatTask) :=
  (op.step alloc w.queue).map fun r => ({ w with queue := r.1 }, r.2)

def setJoin (w : ClusterWorld) (i : Nat) (pc : JoinPc) : ClusterWorld :=
  { w with joins := Function.update w.joins i pc }

def step (alloc : KeyAlloc) (w : ClusterWorld) : ClusterEvent → Option ClusterWorld
  | .publish =>
    match w.leader with
    | .follower => some { w with core := true, leader := .published, heartbeated := [] }
    | _ => none
  | .enable =>
    match w.leader with
    | .published => (w.queueOp alloc (.enable true)).map fun r => { r.1 with leader := .enabled }
    | _ => none
  | .failStart =>
    match w.leader with
    | .enabled => some { w with leader := .follower }
    | _ => none
  | .listNode =>
    match w.leader with
    | .enabled => some { w with leader := .listed w.nodes }
    | _ => none
  | .scheduleCluster now =>
    match w.leader with
    | .listed nodes =>
      (w.queueOp alloc (.trySchedule (nodes.map (⟨·⟩)) now)).map fun r =>
        { r.1 with leader := .leading nodes }
    | _ => none
  | .stepDown =>
    match w.leader with
    | .leading _ =>
      (w.queueOp alloc (.enable false)).map fun r => { r.1 with leader := .steppingDown }
    | _ => none
  | .clearCore =>
    match w.leader with
    | .steppingDown => some { w with core := false, leader := .follower }
    | _ => none
  | .joinSchema i =>
    match w.joins i with
    | .start => some (w.setJoin i (if w.core then .checked else .done))
    | _ => none
  | .joinAddNode i r =>
    match w.joins i, r with
    | .checked, .ok id => some { w.setJoin i (.added id) with nodes := w.nodes ++ [id] }
    | .checked, .error _ => some (w.setJoin i .done)
    | _, _ => none
  | .joinFinish i ok now =>
    match w.joins i with
    | .added id =>
      if ok then (w.queueOp alloc (.trySchedule [⟨id⟩] now)).map fun r => r.1.setJoin i .done
      else some (w.setJoin i (.abandoned id))
    | _ => none
  | .poll now =>
    if w.core then
      (w.queueOp alloc (.tryPoll now)).map fun r =>
        { r.1 with heartbeated := w.heartbeated ++ r.2.map (·.nodeId) }
    else some w
  | .other op =>
    match op with
    | .trySchedule _ _ | .waitOneHeartbeatTick _ => (w.queueOp alloc op).map (·.1)
    | .tryPoll _ | .enable _ => none

def run (alloc : KeyAlloc) : ClusterWorld → List ClusterEvent → Option ClusterWorld
  | w, [] => some w
  | w, e :: es => (w.step alloc e).bind fun w => run alloc w es

/-- `n` has a heartbeat pending on the queue, or a poll has returned it. -/
def Covered (w : ClusterWorld) (n : UInt64) : Prop :=
  (w.queue.pendingMap.pending n).isSome ∨ n ∈ w.heartbeated

def Unscheduled (w : ClusterWorld) (n : UInt64) : Prop :=
  ∃ i, w.joins i = .added n ∨ w.joins i = .abandoned n

end ClusterWorld

namespace PendingMap

variable {p : PendingMap} {n : UInt64}

theorem isSome_schedule (tasks : List HeartbeatTask) (when : Nat) (h : (p.pending n).isSome) :
    ((p.schedule tasks when).pending n).isSome := by
  unfold schedule
  split
  · dsimp only
    split
    · rfl
    · exact h
  · exact h

theorem isSome_schedule_of_mem (when : Nat) {tasks : List HeartbeatTask} (he : p.enable = true)
    (hn : n ∈ tasks.map (·.nodeId)) : ((p.schedule tasks when).pending n).isSome := by
  simp only [schedule, he, if_true, if_pos hn]
  rfl

theorem isSome_poll (now : Nat) (h : (p.pending n).isSome) :
    ((p.poll now).pending n).isSome ∨ p.due now n = true := by
  cases hd : p.due now n
  · exact .inl (by simpa [poll, hd] using h)
  · exact .inr rfl

theorem setEnable_enable (b : Bool) : (p.setEnable b).enable = b := by
  unfold setEnable
  split
  · rfl
  · exact not_not.1 ‹_›

theorem step_enable {op : HeartbeatOp} (hop : ∀ b, op ≠ .enable b) : (p.step op).1.enable = p.enable := by
  cases op with
  | trySchedule tasks when =>
    show (p.schedule tasks when).enable = p.enable
    unfold schedule
    split <;> rfl
  | tryPoll _ | waitOneHeartbeatTick _ => rfl
  | enable b => exact absurd rfl (hop b)

end PendingMap

namespace ClusterWorld

variable (alloc : KeyAlloc) {w w' : ClusterWorld}

theorem queueOp_spec (h : Lockstep w.queue) (op : HeartbeatOp) :
    ∃ core out, w.queueOp alloc op = some ({ w with queue := core }, out) ∧ Lockstep core ∧
      core.pendingMap = (w.queue.pendingMap.step op).1 ∧
      Returns out (w.queue.pendingMap.step op).2 := by
  obtain ⟨core, out, hs, hl, hp, hr⟩ := HeartbeatOp.step_refines alloc h op
  exact ⟨core, out, by simp only [queueOp, hs, Option.map_some'], hl, hp, hr⟩

theorem enable_eq_of_step {core : HeartbeatQueueCore} {op : HeartbeatOp}
    (hop : ∀ b, op ≠ .enable b) (hp : core.pendingMap = (w.queue.pendingMap.step op).1) :
    core.enable = w.queue.enable := by
  show core.pendingMap.enable = w.queue.pendingMap.enable
  rw [hp]
  exact PendingMap.step_enable hop

structure Inv (w : ClusterWorld) : Prop where
  lockstep : Lockstep w.queue
  enabled : w.leader.queueEnabled = true → w.queue.enable = true
  listed : ∀ snap, w.leader = .listed snap → ∀ n ∈ w.nodes, n ∈ snap ∨ w.Covered n ∨ w.Unscheduled n
  leading : ∀ snap, w.leader = .leading snap → ∀ n ∈ w.nodes, w.Covered n ∨ w.Unscheduled n
  core : w.leader ≠ .follower → w.core = true

theorem inv_init (nodes : List UInt64) : (init nodes).Inv :=
  ⟨lockstep_default, nofun, fun _ h => (nomatch h), fun _ h => (nomatch h), fun h => absurd rfl h⟩

theorem Inv.of_queueEnabled_false (hl : Lockstep w.queue) (h : w.leader.queueEnabled = false)
    (hcore : w.leader ≠ .follower → w.core = true) : w.Inv where
  lockstep := hl
  enabled he := absurd (h.symm.trans he) Bool.false_ne_true
  listed snap hs := by rw [hs] at h; cases h
  leading snap hs := by rw [hs] at h; cases h
  core := hcore

theorem Inv.of_frame (hi : w.Inv) (hl : Lockstep w'.queue) (hleader : w'.leader = w.leader)
    (hen : w'.queue.enable = w.queue.enable) (hcore : w'.core = w.core)
    (hnodes : ∀ n ∈ w'.nodes, n ∈ w.nodes ∨ w'.Unscheduled n)
    (hkeep : w.queue.enable = true → ∀ n, w.Covered n ∨ w.Unscheduled n →
      w'.Covered n ∨ w'.Unscheduled n) : w'.Inv where
  lockstep := hl
  enabled h := hen.trans (hi.enabled (hleader ▸ h))
  listed snap hs n hn := by
    have hs' : w.leader = .listed snap := hleader ▸ hs
    have he := hi.enabled (by rw [hs']; rfl)
    rcases hnodes n hn with hn | hu
    · rcases hi.listed snap hs' n hn with hm | hc
      · exact .inl hm
      · exact .inr (hkeep he n hc)
    · exact .inr (.inr hu)
  leading snap hs n hn := by
    have hs' : w.leader = .leading snap := hleader ▸ hs
    rcases hnodes n hn with hn | hu
    · exact hkeep (hi.enabled (by rw [hs']; rfl)) n (hi.leading snap hs' n hn)
    · exact .inr hu
  core h := hcore.trans (hi.core (hleader ▸ h))

theorem unscheduled_setJoin {i : Nat} {pc : JoinPc} {n : UInt64} (h : w.Unscheduled n)
    (hpc : w.joins i = .added n ∨ w.joins i = .abandoned n → pc = .added n ∨ pc = .abandoned n) :
    (w.setJoin i pc).Unscheduled n := by
  obtain ⟨k, hk⟩ := h
  by_cases hki : k = i
  · subst hki
    exact ⟨k, by simpa only [setJoin, Function.update_same] using hpc hk⟩
  · exact ⟨k, by simpa only [setJoin, Function.update_noteq hki] using hk⟩

theorem Inv.setJoin (hi : w.Inv) {i : Nat} {pc : JoinPc}
    (hold : ∀ n, w.joins i ≠ .added n ∧ w.joins i ≠ .abandoned n) : (w.setJoin i pc).Inv :=
  hi.of_frame hi.lockstep rfl rfl rfl (fun _ hn => .inl hn) fun _ n hc =>
    hc.imp id fun hu => unscheduled_setJoin hu fun h => h.elim (absurd · (hold n).1)
      (absurd · (hold n).2)

theorem covered_step {op : HeartbeatOp} (hop : ∀ b, op ≠ .enable b) {hb : List UInt64}
    (hw : w.heartbeated ⊆ hb) (hret : ∀ n, (w.queue.pendingMap.step op).2 n = true → n ∈ hb)
    {core : HeartbeatQueueCore} (hp : core.pendingMap = (w.queue.pendingMap.step op).1)
    {n : UInt64} (hc : w.Covered n) :
    ({ w with queue := core, heartbeated := hb } : ClusterWorld).Covered n := by
  rcases hc with hc | hc
  · show (core.pendingMap.pending n).isSome ∨ n ∈ hb
    rw [hp]
    cases op with
    | trySchedule tasks when => exact .inl (PendingMap.isSome_schedule tasks when hc)
    | tryPoll now => exact (PendingMap.isSome_poll now hc).imp_right (hret n)
    | waitOneHeartbeatTick _ => exact .inl hc
    | enable b => exact absurd rfl (hop b)
  · exact .inr (hw hc)

theorem Inv.queueCall (hi : w.Inv) {op : HeartbeatOp} {core : HeartbeatQueueCore}
    (hl : Lockstep core) (hp : core.pendingMap = (w.queue.pendingMap.step op).1)
    (hop : ∀ b, op ≠ .enable b) {hb : List UInt64} (hw : w.heartbeated ⊆ hb)
    (hret : ∀ n, (w.queue.pendingMap.step op).2 n = true → n ∈ hb) :
    ({ w with queue := core, heartbeated := hb } : ClusterWorld).Inv :=
  hi.of_frame hl rfl (enable_eq_of_step hop hp) rfl (fun _ hn => .inl hn) fun _ _ hcov =>
    hcov.imp (covered_step hop hw hret hp) id

/-! One lemma per step of `step_leader` and `join`, then the step and the run. -/

theorem Inv.enableQueue (hi : w.Inv) (hpub : w.leader = .published)
    (h : (w.queueOp alloc (.enable true)).map (fun r => { r.1 with leader := .enabled }) =
      some w') : w'.Inv := by
  obtain ⟨core, out, hq, hl, hp, -⟩ := queueOp_spec alloc hi.lockstep (.enable true)
  rw [hq, Option.map_some'] at h
  cases h
  refine ⟨hl, fun _ => ?_, fun _ h => (nomatch h), fun _ h => (nomatch h),
    fun _ => hi.core (by rw [hpub]; nofun)⟩
  show core.pendingMap.enable = true
  rw [hp]
  exact PendingMap.setEnable_enable true

theorem Inv.listNode (hi : w.Inv) (hl : w.leader = .enabled) :
    ({ w with leader := .listed w.nodes } : ClusterWorld).Inv :=
  ⟨hi.lockstep, fun _ => hi.enabled (by rw [hl]; rfl), fun _ h n hn => by cases h; exact .inl hn,
    fun _ h => (nomatch h), fun _ => hi.core (by rw [hl]; nofun)⟩

theorem Inv.scheduleCluster (hi : w.Inv) {snap : List UInt64} (hs : w.leader = .listed snap)
    {now : Nat} (h : (w.queueOp alloc (.trySchedule (snap.map (⟨·⟩)) now)).map
      (fun r => { r.1 with leader := .leading snap }) = some w') : w'.Inv := by
  have he := hi.enabled (by rw [hs]; rfl)
  have hop : ∀ b, HeartbeatOp.trySchedule (snap.map (⟨·⟩)) now ≠ .enable b := by
    intro _ h; cases h
  obtain ⟨core, out, hq, hl, hp, -⟩ := queueOp_spec alloc hi.lockstep _
  rw [hq, Option.map_some'] at h
  cases h
  refine ⟨hl, fun _ => (enable_eq_of_step hop hp).trans he, fun _ h => (nomatch h), ?_,
    fun _ => hi.core (by rw [hs]; nofun)⟩
  rintro _ ⟨⟩ n hn
  rcases hi.listed snap hs n hn with hm | hc | hu
  · refine .inl (.inl ?_)
    show (core.pendingMap.pending n).isSome
    rw [hp]
    exact PendingMap.isSome_schedule_of_mem now he (by simpa using hm)
  · exact .inl (covered_step hop (List.Subset.refl _) (fun _ hd => absurd hd Bool.false_ne_true)
      hp hc)
  · exact .inr hu

theorem Inv.addNode (hi : w.Inv) {i : Nat} (hc : w.joins i = .checked) (m : UInt64) :
    ({ w.setJoin i (.added m) with nodes := w.nodes ++ [m] } : ClusterWorld).Inv := by
  refine hi.of_frame hi.lockstep rfl rfl rfl (fun n hn => ?_) fun _ n hcov =>
    hcov.imp id fun hu => unscheduled_setJoin hu fun h => by simp [hc] at h
  rcases List.mem_append.1 hn with hn | hn
  · exact .inl hn
  · refine .inr ⟨i, .inl ?_⟩
    rw [List.mem_singleton.1 hn]
    exact Function.update_same _ _ _

theorem Inv.joinScheduled (hi : w.Inv) {i : Nat} {m : UInt64} (ha : w.joins i = .added m)
    {now : Nat} (h : (w.queueOp alloc (.trySchedule [⟨m⟩] now)).map (fun r => r.1.setJoin i .done) =
      some w') : w'.Inv := by
  have hop : ∀ b, HeartbeatOp.trySchedule [⟨m⟩] now ≠ .enable b := by intro _ h; cases h
  obtain ⟨core, out, hq, hl, hp, -⟩ := queueOp_spec alloc hi.lockstep _
  rw [hq, Option.map_some'] at h
  cases h
  refine hi.of_frame hl rfl (enable_eq_of_step hop hp) rfl (fun _ hn => .inl hn) fun he n hcov => ?_
  by_cases hn : n = m
  · subst hn
    refine .inl (.inl ?_)
    show (core.pendingMap.pending n).isSome
    rw [hp]
    exact PendingMap.isSome_schedule_of_mem now he (List.mem_singleton_self _)
  · refine hcov.imp (covered_step hop (List.Subset.refl _)
      (fun _ hd => absurd hd Bool.false_ne_true) hp) fun hu => unscheduled_setJoin hu fun h => ?_
    rw [ha] at h
    exact absurd h (by simpa using Ne.symm hn)

theorem Inv.abandon (hi : w.Inv) {i : Nat} {m : UInt64} (ha : w.joins i = .added m) :
    (w.setJoin i (.abandoned m)).Inv :=
  hi.of_frame hi.lockstep rfl rfl rfl (fun _ hn => .inl hn) fun _ n hcov =>
    hcov.imp id fun hu => unscheduled_setJoin hu fun h => by
      rw [ha] at h
      obtain rfl : m = n := by simpa using h
      exact .inr rfl

theorem Inv.step (hi : w.Inv) {e : ClusterEvent} (h : w.step alloc e = some w') : w'.Inv := by
  cases e <;> simp only [ClusterWorld.step] at h
  case publish =>
    split at h <;> cases h
    exact .of_queueEnabled_false hi.lockstep rfl fun _ => rfl
  case failStart | clearCore =>
    split at h <;> cases h
    exact .of_queueEnabled_false hi.lockstep rfl fun h => absurd rfl h
  case enable =>
    split at h
    exacts [hi.enableQueue alloc ‹_› h, nomatch h]
  case listNode =>
    split at h
    · next hl => cases h; exact hi.listNode hl
    · cases h
  case scheduleCluster =>
    split at h
    exacts [hi.scheduleCluster alloc ‹_› h, nomatch h]
  case stepDown =>
    split at h
    · next hs =>
      obtain ⟨core, out, hq, hl, -, -⟩ := queueOp_spec alloc hi.lockstep (.enable false)
      rw [hq, Option.map_some'] at h
      cases h
      exact .of_queueEnabled_false hl rfl fun _ => hi.core (by rw [hs]; nofun)
    · cases h
  case joinSchema =>
    split at h
    · next hs => cases h; exact hi.setJoin fun n => by rw [hs]; exact ⟨nofun, nofun⟩
    · cases h
  case joinAddNode =>
    split at h
    · next _ _ m hc => cases h; exact hi.addNode hc m
    · next _ _ _ hc => cases h; exact hi.setJoin fun n => by rw [hc]; exact ⟨nofun, nofun⟩
    · cases h
  case joinFinish =>
    split at h
    · next m ha =>
      split at h
      · exact hi.joinScheduled alloc ha h
      · cases h; exact hi.abandon ha
    · cases h
  case poll now =>
    split at h
    · obtain ⟨core, out, hq, hl, hp, hr⟩ := queueOp_spec alloc hi.lockstep (.tryPoll now)
      rw [hq, Option.map_some'] at h
      cases h
      exact hi.queueCall hl hp (by intro _ h; cases h) (List.subset_append_left _ _)
        fun n hd => List.mem_append_right _ ((hr.2 n).2 hd)
    · cases h
      exact hi
  case other op =>
    obtain ⟨core, out, hq, hl, hp, -⟩ := queueOp_spec alloc hi.lockstep op
    cases op <;> simp only [hq, Option.map_some', Option.some.injEq, reduceCtorEq] at h
    all_goals
      subst h
      exact hi.queueCall hl hp (by intro _ h; cases h) (List.Subset.refl _)
        fun _ hd => absurd hd Bool.false_ne_true

theorem Inv.run (hi : w.Inv) {events : List ClusterEvent} (h : ClusterWorld.run alloc w events = some w') :
    w'.Inv := by
  induction events generalizing w with
  | nil => cases h; exact hi
  | cons e events ih =>
    obtain ⟨w₁, h₁, h⟩ := Option.bind_eq_some.1 h
    exact ih (hi.step alloc h₁) h

def SchedulesAt (w : ClusterWorld) (e : ClusterEvent) (n : UInt64) (t : Nat) : Prop :=
  (∃ snap, w.leader = .listed snap ∧ n ∈ snap ∧ e = .scheduleCluster t) ∨
  (∃ snap i, w.leader = .leading snap ∧ w.joins i = .added n ∧ e = .joinFinish i true t) ∨
  (∃ snap tasks, w.leader = .leading snap ∧ n ∈ tasks.map (·.nodeId) ∧
    e = .other (.trySchedule tasks t))

theorem dueBy_queueCall {op : HeartbeatOp} {core : HeartbeatQueueCore}
    (hp : core.pendingMap = (w.queue.pendingMap.step op).1) (hop : op ≠ .enable false)
    {n : UInt64} {t : Nat}
    (hd : w.queue.pendingMap.DueBy n t) :
    core.pendingMap.DueBy n t ∨ (w.queue.pendingMap.step op).2 n = true := by
  rw [hp]
  exact (hd.step hop).symm

theorem dueBy_trySchedule (hl : Lockstep w.queue) (he : w.queue.enable = true)
    (tasks : List HeartbeatTask) (t : Nat) {n : UInt64} (hn : n ∈ tasks.map (·.nodeId)) :
    ∃ core out, w.queueOp alloc (.trySchedule tasks t) = some ({ w with queue := core }, out) ∧
      core.pendingMap.DueBy n t := by
  obtain ⟨core, out, hq, -, hp, -⟩ := queueOp_spec alloc hl (.trySchedule tasks t)
  refine ⟨core, out, hq, ?_⟩
  rw [hp]
  exact PendingMap.dueBy_schedule he hn

theorem Inv.schedulesAt_step (hi : w.Inv) {e : ClusterEvent} {n : UInt64} {t : Nat}
    (hs : w.SchedulesAt e n t) (h : w.step alloc e = some w') :
    ∃ snap, w'.leader = .leading snap ∧ w'.queue.pendingMap.DueBy n t := by
  rcases hs with ⟨snap, hl, hn, rfl⟩ | ⟨snap, i, hl, ha, rfl⟩ | ⟨snap, tasks, hl, hn, rfl⟩
  · simp only [ClusterWorld.step, hl] at h
    obtain ⟨core, out, hq, hd⟩ := dueBy_trySchedule alloc hi.lockstep
      (hi.enabled (by rw [hl]; rfl)) (snap.map (⟨·⟩)) t (by simpa using hn)
    rw [hq, Option.map_some'] at h
    cases h
    exact ⟨snap, rfl, hd⟩
  · simp only [ClusterWorld.step, ha, if_true] at h
    obtain ⟨core, out, hq, hd⟩ := dueBy_trySchedule alloc hi.lockstep
      (hi.enabled (by rw [hl]; rfl)) [⟨n⟩] t (List.mem_singleton_self _)
    rw [hq, Option.map_some'] at h
    cases h
    exact ⟨snap, hl, hd⟩
  · simp only [ClusterWorld.step] at h
    obtain ⟨core, out, hq, hd⟩ := dueBy_trySchedule alloc hi.lockstep
      (hi.enabled (by rw [hl]; rfl)) tasks t hn
    rw [hq, Option.map_some'] at h
    cases h
    exact ⟨snap, hl, hd⟩

theorem Inv.leading_step (hi : w.Inv) {snap : List UInt64} (hl : w.leader = .leading snap)
    {e : ClusterEvent} (he : e ≠ .stepDown) (h : w.step alloc e = some w') (t : Nat) :
    w'.leader = .leading snap ∧ w.heartbeated ⊆ w'.heartbeated ∧
      ∀ n, w.queue.pendingMap.DueBy n t → w'.queue.pendingMap.DueBy n t ∨ n ∈ w'.heartbeated := by
  cases e <;> simp only [ClusterWorld.step] at h
  case publish | enable | failStart | listNode | scheduleCluster | clearCore => simp [hl] at h
  case stepDown => exact absurd rfl he
  case joinSchema | joinAddNode =>
    split at h <;> cases h
    all_goals exact ⟨hl, List.Subset.refl _, fun _ hd => .inl hd⟩
  case joinFinish =>
    split at h
    · split at h
      · obtain ⟨core, out, hq, -, hp, -⟩ := queueOp_spec alloc hi.lockstep _
        rw [hq, Option.map_some'] at h
        cases h
        exact ⟨hl, List.Subset.refl _, fun n hd => .inl ((dueBy_queueCall hp nofun hd).resolve_right
          Bool.false_ne_true)⟩
      · cases h
        exact ⟨hl, List.Subset.refl _, fun _ hd => .inl hd⟩
    · cases h
  case poll =>
    simp only [hi.core (by rw [hl]; nofun), if_true] at h
    obtain ⟨core, out, hq, -, hp, hr⟩ := queueOp_spec alloc hi.lockstep _
    rw [hq, Option.map_some'] at h
    cases h
    exact ⟨hl, List.subset_append_left _ _, fun n hd => (dueBy_queueCall hp nofun hd).imp_right
      fun hn => List.mem_append_right _ ((hr.2 n).2 hn)⟩
  case other op =>
    obtain ⟨core, out, hq, -, hp, -⟩ := queueOp_spec alloc hi.lockstep op
    cases op <;> simp only [hq, Option.map_some', Option.some.injEq, reduceCtorEq] at h
    all_goals
      subst h
      exact ⟨hl, List.Subset.refl _, fun n hd => .inl ((dueBy_queueCall hp (by intro h; cases h)
        hd).resolve_right Bool.false_ne_true)⟩

theorem Inv.leading_run (hi : w.Inv) {snap : List UInt64} (hl : w.leader = .leading snap)
    {mid : List ClusterEvent} (hmid : .stepDown ∉ mid) (h : ClusterWorld.run alloc w mid = some w')
    (t : Nat) :
    w'.Inv ∧ w'.leader = .leading snap ∧ w.heartbeated ⊆ w'.heartbeated ∧
      ∀ n, w.queue.pendingMap.DueBy n t → w'.queue.pendingMap.DueBy n t ∨ n ∈ w'.heartbeated := by
  induction mid generalizing w with
  | nil => cases h; exact ⟨hi, hl, List.Subset.refl _, fun _ hd => .inl hd⟩
  | cons e mid ih =>
    obtain ⟨w₁, h₁, h⟩ := Option.bind_eq_some.1 h
    have he : e ≠ .stepDown := fun he => hmid (he ▸ List.mem_cons_self _ _)
    obtain ⟨hl₁, hsub₁, hdue₁⟩ := hi.leading_step alloc hl he h₁ t
    obtain ⟨hi', hl', hsub, hdue⟩ :=
      ih (hi.step alloc h₁) hl₁ (fun hm => hmid (List.mem_cons_of_mem _ hm)) h
    exact ⟨hi', hl', hsub₁.trans hsub, fun n hd => (hdue₁ n hd).elim (hdue n) (.inr <| hsub ·)⟩

theorem Inv.leading_poll (hi : w.Inv) {snap : List UInt64} (hl : w.leader = .leading snap)
    {now : Nat} (h : w.step alloc (.poll now) = some w') {n : UInt64} {t : Nat} (hle : t ≤ now)
    (hd : w.queue.pendingMap.DueBy n t ∨ n ∈ w.heartbeated) : n ∈ w'.heartbeated := by
  simp only [ClusterWorld.step, hi.core (by rw [hl]; nofun), if_true] at h
  obtain ⟨core, out, hq, -, hp, hr⟩ := queueOp_spec alloc hi.lockstep (.tryPoll now)
  rw [hq, Option.map_some'] at h
  cases h
  rcases hd with hd | hb
  · obtain ⟨he, d, hpend, hdle⟩ := hd.mono hle
    refine List.mem_append_right _ ((hr.2 n).2 ?_)
    simp [PendingMap.step, PendingMap.due, he, hpend, hdle]
  · exact List.mem_append_left _ hb

end ClusterWorld

/-- Over every interleaving, once a leadership has scheduled its cluster heartbeat, each node of the
schema is pending or polled since publication, unless its join stopped before `try_schedule`. -/
theorem leading_root_heartbeats_every_node (alloc : KeyAlloc) (nodes : List UInt64)
    (events : List ClusterEvent) (w : ClusterWorld)
    (h : ClusterWorld.run alloc (.init nodes) events = some w) (snap : List UInt64)
    (hl : w.leader = .leading snap) :
    ∀ n ∈ w.nodes, (w.queue.nodeScheduled n).isSome ∨ n ∈ w.heartbeated ∨
      ∃ i, w.joins i = .added n ∨ w.joins i = .abandoned n := by
  intro n hn
  rcases ((ClusterWorld.inv_init nodes).run alloc h).leading snap hl n hn with (hc | hc) | hu
  · exact .inl (by simpa [HeartbeatQueueCore.pendingMap] using hc)
  · exact .inr (.inl hc)
  · exact .inr (.inr hu)

def joinRace : List ClusterEvent :=
  [.publish, .joinSchema 0, .joinAddNode 0 (.ok 2), .joinFinish 0 true 3, .enable, .listNode,
    .scheduleCluster 5, .joinSchema 1, .joinAddNode 1 (.ok 3)]

theorem leading_root_heartbeats_node_joined_before_enable :
    ∃ w, ClusterWorld.run slabAlloc (.init [1]) joinRace = some w ∧ w.leader = .leading [1, 2] ∧
      ∀ n ∈ w.nodes, (w.queue.nodeScheduled n).isSome ∨ n ∈ w.heartbeated ∨
        ∃ i, w.joins i = .added n ∨ w.joins i = .abandoned n :=
  ⟨_, rfl, rfl, leading_root_heartbeats_every_node slabAlloc [1] joinRace _ rfl [1, 2] rfl⟩

/-- A node scheduled at `t` while the root leads is returned by the first `run_heartbeat` pass
whose clock is at or after `t`, unless the leadership steps down first. -/
theorem leading_root_polls_scheduled_node_in_time (alloc : KeyAlloc) (nodes : List UInt64)
    (pre mid : List ClusterEvent) (e : ClusterEvent) (n : UInt64) (t now : Nat)
    (w w₁ w' : ClusterWorld) (h : ClusterWorld.run alloc (.init nodes) pre = some w)
    (hs : w.SchedulesAt e n t) (hmid : .stepDown ∉ mid) (hle : t ≤ now)
    (h₁ : ClusterWorld.run alloc w (e :: mid) = some w₁) (hp : w₁.step alloc (.poll now) = some w') :
    n ∈ w'.heartbeated := by
  have hi := (ClusterWorld.inv_init nodes).run alloc h
  obtain ⟨w₀, h₀, h₁⟩ := Option.bind_eq_some.1 h₁
  obtain ⟨snap, hl₀, hd₀⟩ := hi.schedulesAt_step alloc hs h₀
  obtain ⟨hi₁, hl₁, -, hdue⟩ := (hi.step alloc h₀).leading_run alloc hl₀ hmid h₁ t
  exact hi₁.leading_poll alloc hl₁ hp hle (hdue n hd₀)

theorem leading_root_polls_listed_node_after_early_poll :
    ∃ w w₁ w', ClusterWorld.run slabAlloc (.init [1]) [.publish, .enable, .listNode] = some w ∧
      w.SchedulesAt (.scheduleCluster 5) 1 5 ∧ ClusterEvent.stepDown ∉ [ClusterEvent.poll 3] ∧
      5 ≤ 7 ∧ ClusterWorld.run slabAlloc w [.scheduleCluster 5, .poll 3] = some w₁ ∧
      w₁.step slabAlloc (.poll 7) = some w' ∧ (1 : UInt64) ∈ w'.heartbeated :=
  ⟨_, _, _, rfl, .inl ⟨[1], rfl, List.mem_singleton_self _, rfl⟩, by simp, by decide, rfl, rfl,
    leading_root_polls_scheduled_node_in_time slabAlloc [1] [.publish, .enable, .listNode]
      [.poll 3] (.scheduleCluster 5) 1 5 7 _ _ _ rfl (.inl ⟨[1], rfl, List.mem_singleton_self _, rfl⟩)
      (by simp) (by decide) rfl rfl⟩

end Sekas.Root
