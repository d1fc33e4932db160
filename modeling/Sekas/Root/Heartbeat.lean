import Mathlib.Data.List.Nodup

/-! The heartbeat queue of `root/mod.rs`. `HeartbeatQueueCore` keeps a `tokio_util`
`DelayQueue` of heartbeat tasks and sentinels and, beside it, the key and deadline of the
pending heartbeat of each node. Every operation holds the core's mutex from start to end (the
yields inside `try_schedule` keep the guard), so the queue is a state machine over whole
operations. Over every sequence of operations the map and the delay queue stay in lockstep,
so `reset_at`, which panics on a key the queue does not hold, is only ever called on the key
of the node's own heartbeat, whatever key the slab hands out again.

The delay queue is the library's contract, not its code: one entry per key, a new entry
gets a key no entry holds, `poll_expired` yields every entry whose deadline has passed and
removes it, and `reset_at` moves the deadline of the entry it holds under a key. An
`Instant` is a tick count. -/
namespace Sekas.Root

structure HeartbeatTask where
  nodeId : UInt64
  deriving DecidableEq, Repr

/-- `QueueTask`; the one-shot sender of a sentinel carries nothing the queue reads. -/
inductive QueueTask
  | heartbeat (task : HeartbeatTask)
  | sentinel
  deriving DecidableEq, Repr

structure DelayEntry where
  key : Nat
  value : QueueTask
  deadline : Nat
  deriving DecidableEq, Repr

/-- `DelayQueue<QueueTask>`: its entries, no key twice, and the keys its slab freed since
it was last cleared, the most recent first. -/
structure DelayQueue where
  entries : List DelayEntry
  freed : List Nat
  nodup : (entries.map (·.key)).Nodup

structure KeyAlloc where
  next : (live freed : List Nat) → Nat
  fresh : ∀ live freed, next live freed ∉ live

def pastKeys (l : List Nat) : Nat := l.foldr (fun k m => max (k + 1) m) 0

theorem lt_pastKeys {l : List Nat} {k : Nat} (h : k ∈ l) : k < pastKeys l := by
  induction l with
  | nil => cases h
  | cons a l ih =>
    rcases List.mem_cons.1 h with rfl | h
    · exact Nat.lt_of_lt_of_le (Nat.lt_succ_self k) (Nat.le_max_left _ _)
    · exact Nat.lt_of_lt_of_le (ih h) (Nat.le_max_right _ _)

def slabAlloc : KeyAlloc where
  next live freed := (freed.find? (· ∉ live)).getD (pastKeys (live ++ freed))
  fresh live freed := by
    show (freed.find? (· ∉ live)).getD _ ∉ live
    cases h : freed.find? (· ∉ live) with
    | some k => simpa using List.find?_some h
    | none =>
      rw [Option.getD_none]
      exact fun hk => Nat.lt_irrefl _ (lt_pastKeys (List.mem_append_left freed hk))

namespace DelayQueue

def empty : DelayQueue := ⟨[], [], List.nodup_nil⟩

def keys (q : DelayQueue) : List Nat := q.entries.map (·.key)

theorem eq_of_key_eq {q : DelayQueue} {e e' : DelayEntry} (he : e ∈ q.entries)
    (he' : e' ∈ q.entries) (hk : e.key = e'.key) : e = e' :=
  List.inj_on_of_nodup_map q.nodup he he' hk

/-- `insert_at`, with the key it returns. -/
def insertAt (alloc : KeyAlloc) (q : DelayQueue) (value : QueueTask) (when : Nat) :
    DelayQueue × Nat :=
  let key := alloc.next q.keys q.freed
  (⟨q.entries ++ [⟨key, value, when⟩], q.freed, by
    rw [List.map_append]
    exact q.nodup.append (List.nodup_singleton _)
      (List.disjoint_singleton.2 (alloc.fresh q.keys q.freed))⟩, key)

/-- `reset_at`; `none` where the library panics, on a key it does not hold. -/
def resetAt (q : DelayQueue) (key when : Nat) : Option DelayQueue :=
  if key ∈ q.keys then
    some ⟨q.entries.map fun e => if e.key = key then { e with deadline := when } else e, q.freed, by
      rw [List.map_map]
      convert q.nodup using 1
      exact List.map_congr_left fun e _ => by by_cases h : e.key = key <;> simp [h]⟩
  else none

/-- `poll_expired` until it yields nothing: the values of the entries whose deadline is at or
before `now`, each removed and its key freed. -/
def pollExpired (q : DelayQueue) (now : Nat) : List QueueTask × DelayQueue :=
  let expired := q.entries.filter (·.deadline ≤ now)
  (expired.map (·.value), ⟨q.entries.filter (¬ ·.deadline ≤ now),
    (expired.map (·.key)).reverse ++ q.freed, q.nodup.sublist ((List.filter_sublist _).map _)⟩)

theorem mem_insertAt {alloc : KeyAlloc} {q : DelayQueue} {value : QueueTask} {when : Nat}
    {e : DelayEntry} :
    e ∈ (q.insertAt alloc value when).1.entries ↔
      e ∈ q.entries ∨ e = ⟨(q.insertAt alloc value when).2, value, when⟩ := by
  simp [insertAt]

theorem insertAt_fresh (alloc : KeyAlloc) (q : DelayQueue) (value : QueueTask) (when : Nat)
    {v : QueueTask} {w : Nat} : ⟨(q.insertAt alloc value when).2, v, w⟩ ∉ q.entries :=
  fun h => alloc.fresh q.keys q.freed (List.mem_map_of_mem (·.key) h)

theorem resetAt_of_mem {q : DelayQueue} {k w : Nat} {v : QueueTask} {d : Nat}
    (h0 : ⟨k, v, d⟩ ∈ q.entries) :
    ∃ q', q.resetAt k w = some q' ∧
      ∀ e, e ∈ q'.entries ↔ (e ∈ q.entries ∧ e.key ≠ k) ∨ e = ⟨k, v, w⟩ := by
  unfold resetAt
  rw [if_pos (show k ∈ q.keys from List.mem_map_of_mem _ h0)]
  refine ⟨_, rfl, fun e => ?_⟩
  simp only [List.mem_map]
  constructor
  · rintro ⟨e0, he0, rfl⟩
    by_cases hk : e0.key = k
    · rw [if_pos hk, eq_of_key_eq he0 h0 hk]
      exact .inr rfl
    · rw [if_neg hk]
      exact .inl ⟨he0, hk⟩
  · rintro (⟨he, hk⟩ | rfl)
    · exact ⟨e, he, if_neg hk⟩
    · exact ⟨_, h0, if_pos rfl⟩

theorem pollExpired_fst (q : DelayQueue) (now : Nat) :
    (q.pollExpired now).1 = (q.entries.filter (·.deadline ≤ now)).map (·.value) := rfl

theorem mem_pollExpired {q : DelayQueue} {now : Nat} {e : DelayEntry} :
    e ∈ (q.pollExpired now).2.entries ↔ e ∈ q.entries ∧ ¬ e.deadline ≤ now := by
  simp [pollExpired]

end DelayQueue

/-- `HeartbeatQueueCore`; `node_scheduled` is read through `get`, `insert`, `remove` and
`clear` only. -/
structure HeartbeatQueueCore where
  enable : Bool
  delay : DelayQueue
  nodeScheduled : UInt64 → Option (Nat × Nat)

namespace HeartbeatQueueCore

def default : HeartbeatQueueCore := ⟨false, .empty, fun _ => none⟩

end HeartbeatQueueCore

namespace HeartbeatQueue

variable (alloc : KeyAlloc)

def scheduleOne (when : Nat) (core : HeartbeatQueueCore) (task : HeartbeatTask) :
    Option HeartbeatQueueCore :=
  let node := task.nodeId
  match core.nodeScheduled node with
  | some (scheduledKey, oldWhen) =>
    if when < oldWhen then do
      let delay ← core.delay.resetAt scheduledKey when
      pure { core with
        delay, nodeScheduled := Function.update core.nodeScheduled node (some (scheduledKey, when)) }
    else pure core
  | none =>
    let r := core.delay.insertAt alloc (.heartbeat task) when
    pure { core with
      delay := r.1, nodeScheduled := Function.update core.nodeScheduled node (some (r.2, when)) }

/-- `try_schedule`; `none` where `reset_at` would panic. -/
def trySchedule (core : HeartbeatQueueCore) (tasks : List HeartbeatTask) (when : Nat) :
    Option HeartbeatQueueCore :=
  if !core.enable then some core else tasks.foldlM (scheduleOne alloc when) core

def waitOneHeartbeatTick (core : HeartbeatQueueCore) (now : Nat) : HeartbeatQueueCore :=
  if !core.enable then core else { core with delay := (core.delay.insertAt alloc .sentinel now).1 }

def collectExpired (acc : HeartbeatQueueCore × List HeartbeatTask) :
    QueueTask → HeartbeatQueueCore × List HeartbeatTask
  | .heartbeat task =>
    ({ acc.1 with nodeScheduled := Function.update acc.1.nodeScheduled task.nodeId none },
      acc.2 ++ [task])
  | .sentinel => acc

def tryPoll (core : HeartbeatQueueCore) (now : Nat) : HeartbeatQueueCore × List HeartbeatTask :=
  if !core.enable then (core, [])
  else
    let r := core.delay.pollExpired now
    r.1.foldl collectExpired ({ core with delay := r.2 }, [])

def enable (core : HeartbeatQueueCore) (enable : Bool) : HeartbeatQueueCore :=
  if core.enable ≠ enable then ⟨enable, .empty, fun _ => none⟩ else core

end HeartbeatQueue

inductive HeartbeatOp
  | trySchedule (tasks : List HeartbeatTask) (when : Nat)
  | tryPoll (now : Nat)
  | waitOneHeartbeatTick (now : Nat)
  | enable (enable : Bool)

def HeartbeatOp.step (alloc : KeyAlloc) (core : HeartbeatQueueCore) :
    HeartbeatOp → Option (HeartbeatQueueCore × List HeartbeatTask)
  | .trySchedule tasks when => (HeartbeatQueue.trySchedule alloc core tasks when).map (·, [])
  | .tryPoll now => some (HeartbeatQueue.tryPoll core now)
  | .waitOneHeartbeatTick now => some (HeartbeatQueue.waitOneHeartbeatTick alloc core now, [])
  | .enable b => some (HeartbeatQueue.enable core b, [])

def HeartbeatQueue.run (alloc : KeyAlloc) (core : HeartbeatQueueCore) (ops : List HeartbeatOp) :
    Option HeartbeatQueueCore :=
  ops.foldlM (fun core op => (op.step alloc core).map (·.1)) core

/-- `node_scheduled` and the delay queue in lockstep; a disabled queue holds nothing. -/
structure Lockstep (core : HeartbeatQueueCore) : Prop where
  scheduled : ∀ n k w, core.nodeScheduled n = some (k, w) ↔
    ⟨k, .heartbeat ⟨n⟩, w⟩ ∈ core.delay.entries
  disabled : core.enable = false → core.delay.entries = []

section Lockstep

variable {core : HeartbeatQueueCore}

theorem Lockstep.unique (h : Lockstep core) {n : UInt64} {k k' w w' : Nat}
    (h1 : ⟨k, .heartbeat ⟨n⟩, w⟩ ∈ core.delay.entries)
    (h2 : ⟨k', .heartbeat ⟨n⟩, w'⟩ ∈ core.delay.entries) : k = k' ∧ w = w' := by
  simpa using ((h.scheduled n k w).2 h1).symm.trans ((h.scheduled n k' w').2 h2)

theorem Lockstep.not_sentinel (h : Lockstep core) {n : UInt64} {k w w' : Nat}
    (hs : core.nodeScheduled n = some (k, w)) : ⟨k, .sentinel, w'⟩ ∉ core.delay.entries :=
  fun hm => by cases DelayQueue.eq_of_key_eq ((h.scheduled n k w).1 hs) hm rfl

theorem Lockstep.nodeScheduled_of_disabled (h : Lockstep core) (he : core.enable = false)
    (n : UInt64) : core.nodeScheduled n = none := by
  cases hs : core.nodeScheduled n with
  | none => rfl
  | some p =>
    have := (h.scheduled n p.1 p.2).1 hs
    rw [h.disabled he] at this
    cases this

theorem Lockstep.put (h : Lockstep core) (he : core.enable = true) {node : UInt64} {k w : Nat}
    {q : DelayQueue} (hq : ∀ e, e ∈ q.entries ↔
      (e ∈ core.delay.entries ∧ e.value ≠ .heartbeat ⟨node⟩) ∨ e = ⟨k, .heartbeat ⟨node⟩, w⟩) :
    Lockstep { core with
      delay := q, nodeScheduled := Function.update core.nodeScheduled node (some (k, w)) } := by
  refine ⟨fun n k' w' => ?_, fun hd => Bool.noConfusion (he.symm.trans hd)⟩
  dsimp only
  rw [hq, Function.update_apply]
  by_cases hn : n = node
  · subst hn
    simp only [if_true, Option.some.injEq, Prod.mk.injEq, ne_eq, not_true_eq_false, and_false,
      false_or, DelayEntry.mk.injEq, true_and]
    exact and_congr eq_comm eq_comm
  · rw [if_neg hn, h.scheduled]
    simp only [ne_eq, QueueTask.heartbeat.injEq, HeartbeatTask.mk.injEq, hn, not_false_eq_true,
      and_true, DelayEntry.mk.injEq, false_and, and_false, or_false]

theorem lockstep_default : Lockstep .default :=
  ⟨fun _ _ _ => by simp [HeartbeatQueueCore.default, DelayQueue.empty], fun _ => rfl⟩

end Lockstep

def scheduledWhen (when : Nat) : Option (Nat × Nat) → Nat
  | some (_, oldWhen) => min when oldWhen
  | none => when

theorem scheduledWhen_scheduledWhen {when k : Nat} {old : Option (Nat × Nat)} :
    scheduledWhen when (some (k, scheduledWhen when old)) = scheduledWhen when old := by
  rcases old with _ | ⟨_, o⟩ <;> simp only [scheduledWhen, Nat.min_self, ← Nat.min_assoc]

namespace HeartbeatQueue

variable (alloc : KeyAlloc) {core : HeartbeatQueueCore}

theorem scheduleOne_spec (h : Lockstep core) (he : core.enable = true) (when : Nat)
    (task : HeartbeatTask) :
    ∃ core', scheduleOne alloc when core task = some core' ∧ Lockstep core' ∧
      core'.enable = true ∧ ∃ k, core'.nodeScheduled = Function.update core.nodeScheduled
        task.nodeId (some (k, scheduledWhen when (core.nodeScheduled task.nodeId))) := by
  obtain ⟨node⟩ := task
  dsimp only [scheduleOne]
  cases hs : core.nodeScheduled node with
  | none =>
    -- the node has no heartbeat in the queue, so the new one is its only one
    have hfree : ∀ e ∈ core.delay.entries, e.value ≠ .heartbeat ⟨node⟩ := by
      rintro ⟨k', v, w'⟩ hm (rfl : v = _)
      rw [← h.scheduled, hs] at hm
      cases hm
    refine ⟨_, rfl, h.put he fun e => ?_, he, _, rfl⟩
    rw [DelayQueue.mem_insertAt]
    exact or_congr_left ⟨fun hm => ⟨hm, hfree e hm⟩, And.left⟩
  | some p =>
    obtain ⟨k0, old⟩ := p
    have hk0 := (h.scheduled _ _ _).1 hs
    by_cases hlt : when < old
    · obtain ⟨q', hq', hmem⟩ := DelayQueue.resetAt_of_mem hk0 (w := when)
      simp only [hlt, if_true, hq', Option.bind_eq_bind, Option.some_bind]
      -- the entry under the node's key is the node's heartbeat, and no other entry is
      have hkey : ∀ e ∈ core.delay.entries, e.key = k0 ↔ e.value = .heartbeat ⟨node⟩ := by
        rintro ⟨k', v, w'⟩ hm
        refine ⟨fun hk => by rw [DelayQueue.eq_of_key_eq hm hk0 hk], fun hv => ?_⟩
        obtain rfl : v = _ := hv
        exact (h.unique hm hk0).1
      refine ⟨_, rfl, h.put he fun e => ?_, he, k0,
        by rw [scheduledWhen, Nat.min_eq_left (Nat.le_of_lt hlt)]⟩
      rw [hmem]
      exact or_congr_left (and_congr_right fun hm => not_congr (hkey e hm))
    · refine ⟨core, by simp [hlt], h, he, k0, ?_⟩
      rw [scheduledWhen, Nat.min_eq_right (Nat.le_of_not_lt hlt), ← hs, Function.update_eq_self]

theorem trySchedule_spec (h : Lockstep core) (he : core.enable = true)
    (tasks : List HeartbeatTask) (when : Nat) :
    ∃ core', trySchedule alloc core tasks when = some core' ∧ Lockstep core' ∧
      core'.enable = true ∧ ∀ n,
        (n ∈ tasks.map (·.nodeId) →
          ∃ k, core'.nodeScheduled n = some (k, scheduledWhen when (core.nodeScheduled n))) ∧
        (n ∉ tasks.map (·.nodeId) → core'.nodeScheduled n = core.nodeScheduled n) := by
  rw [trySchedule, he, Bool.not_true, if_neg Bool.false_ne_true]
  induction tasks generalizing core with
  | nil => exact ⟨core, rfl, h, he, fun n => ⟨fun hn => (by cases hn), fun _ => rfl⟩⟩
  | cons t ts ih =>
    obtain ⟨core1, h1, hl1, he1, k1, hs1⟩ := scheduleOne_spec alloc h he when t
    obtain ⟨core', h', hl', he', hn'⟩ := ih hl1 he1
    refine ⟨core', by rw [List.foldlM_cons, h1]; exact h', hl', he', fun n => ⟨fun hn => ?_, fun hn => ?_⟩⟩
    · by_cases hts : n ∈ ts.map (·.nodeId)
      · obtain ⟨k, hk⟩ := (hn' n).1 hts
        rw [hs1, Function.update_apply] at hk
        split_ifs at hk with hnt
        · subst hnt
          exact ⟨k, by rw [hk, scheduledWhen_scheduledWhen]⟩
        · exact ⟨k, hk⟩
      · have hnt : n = t.nodeId := by simpa [hts] using hn
        subst hnt
        exact ⟨k1, by rw [(hn' _).2 hts, hs1, Function.update_same]⟩
    · simp only [List.map_cons, List.mem_cons, not_or] at hn
      rw [(hn' n).2 hn.2, hs1, Function.update_noteq hn.1]

def QueueTask.heartbeat? : QueueTask → Option HeartbeatTask
  | .heartbeat task => some task
  | .sentinel => none

theorem mem_heartbeatNodes {tasks : List QueueTask} {n : UInt64} :
    n ∈ (tasks.filterMap QueueTask.heartbeat?).map (·.nodeId) ↔ .heartbeat ⟨n⟩ ∈ tasks := by
  induction tasks with
  | nil => simp
  | cons t ts ih =>
    cases t with
    | heartbeat task =>
      obtain ⟨node⟩ := task
      simp [QueueTask.heartbeat?, ih, eq_comm]
    | sentinel => simp [QueueTask.heartbeat?, ih]

theorem nodup_heartbeatNodes {l : List DelayEntry} (hk : (l.map (·.key)).Nodup)
    (hu : ∀ e ∈ l, ∀ e' ∈ l, ∀ t, e.value = .heartbeat t → e'.value = .heartbeat t →
      e.key = e'.key) :
    (((l.map (·.value)).filterMap QueueTask.heartbeat?).map (·.nodeId)).Nodup := by
  induction l with
  | nil => exact List.nodup_nil
  | cons e l ih =>
    rw [List.map_cons, List.nodup_cons] at hk
    have ih' := ih hk.2 fun a ha b hb => hu a (.tail _ ha) b (.tail _ hb)
    rw [List.map_cons]
    cases hv : e.value with
    | sentinel => simpa [QueueTask.heartbeat?] using ih'
    | heartbeat t =>
      simp only [List.filterMap_cons, QueueTask.heartbeat?, List.map_cons, List.nodup_cons]
      refine ⟨fun ht => hk.1 ?_, ih'⟩
      obtain ⟨e', he', hv'⟩ := List.mem_map.1 (mem_heartbeatNodes.1 ht)
      rw [hu e (.head _) e' (.tail _ he') t hv hv']
      exact List.mem_map_of_mem _ he'

theorem foldl_collectExpired (tasks : List QueueTask) (acc : HeartbeatQueueCore × List HeartbeatTask) :
    (tasks.foldl collectExpired acc).1.enable = acc.1.enable ∧
      (tasks.foldl collectExpired acc).1.delay = acc.1.delay ∧
      (∀ n, (tasks.foldl collectExpired acc).1.nodeScheduled n =
        if .heartbeat ⟨n⟩ ∈ tasks then none else acc.1.nodeScheduled n) ∧
      (tasks.foldl collectExpired acc).2 = acc.2 ++ tasks.filterMap QueueTask.heartbeat? := by
  induction tasks generalizing acc with
  | nil => exact ⟨rfl, rfl, fun _ => (if_neg (List.not_mem_nil _)).symm, (List.append_nil _).symm⟩
  | cons t ts ih =>
    rw [List.foldl_cons]
    cases t with
    | sentinel =>
      rw [show collectExpired acc .sentinel = acc from rfl]
      obtain ⟨he, hd, hn, hr⟩ := ih acc
      refine ⟨he, hd, fun n => ?_, by rw [hr]; rfl⟩
      rw [hn]
      simp only [List.mem_cons, reduceCtorEq, false_or]
    | heartbeat task =>
      obtain ⟨node⟩ := task
      obtain ⟨he, hd, hn, hr⟩ := ih (collectExpired acc (.heartbeat ⟨node⟩))
      refine ⟨he, hd, fun n => ?_, by rw [hr]; exact List.append_assoc _ _ _⟩
      rw [hn]
      show (if _ then none else Function.update acc.1.nodeScheduled node none n) = _
      by_cases h : n = node
      · subst h
        rw [Function.update_same, if_pos (List.mem_cons_self _ _), ite_self]
      · rw [Function.update_noteq h]
        simp only [List.mem_cons, QueueTask.heartbeat.injEq, HeartbeatTask.mk.injEq, h, false_or]

theorem mem_expired_iff (h : Lockstep core) {now : Nat} {n : UInt64} :
    .heartbeat ⟨n⟩ ∈ (core.delay.pollExpired now).1 ↔
      ∃ k w, core.nodeScheduled n = some (k, w) ∧ w ≤ now := by
  rw [DelayQueue.pollExpired_fst]
  simp only [List.mem_map, List.mem_filter, decide_eq_true_eq, h.scheduled]
  constructor
  · rintro ⟨⟨k, v, w⟩, ⟨hm, hw⟩, rfl⟩
    exact ⟨k, w, hm, hw⟩
  · rintro ⟨k, w, hm, hw⟩
    exact ⟨_, ⟨hm, hw⟩, rfl⟩

theorem tryPoll_spec (h : Lockstep core) (he : core.enable = true) (now : Nat) :
    Lockstep (tryPoll core now).1 ∧ (tryPoll core now).1.enable = true ∧
      (∀ e ∈ (tryPoll core now).1.delay.entries, ¬ e.deadline ≤ now) ∧
      ((tryPoll core now).2.map (·.nodeId)).Nodup ∧
      (∀ n, n ∈ (tryPoll core now).2.map (·.nodeId) ↔
        ∃ k w, core.nodeScheduled n = some (k, w) ∧ w ≤ now) ∧
      ∀ n, (tryPoll core now).1.nodeScheduled n =
        if n ∈ (tryPoll core now).2.map (·.nodeId) then none else core.nodeScheduled n := by
  have hr : tryPoll core now = (core.delay.pollExpired now).1.foldl collectExpired
      ({ core with delay := (core.delay.pollExpired now).2 }, []) := by
    simp [tryPoll, he]
  obtain ⟨hen, hd, hn, hl⟩ := foldl_collectExpired (core.delay.pollExpired now).1
    ({ core with delay := (core.delay.pollExpired now).2 }, [])
  rw [← hr] at hen hd hn hl
  simp only [List.nil_append] at hl
  have hnodes : ∀ n, n ∈ (tryPoll core now).2.map (·.nodeId) ↔
      ∃ k w, core.nodeScheduled n = some (k, w) ∧ w ≤ now := fun n => by
    rw [hl, mem_heartbeatNodes, mem_expired_iff h]
  have hns : ∀ n, (tryPoll core now).1.nodeScheduled n =
      if n ∈ (tryPoll core now).2.map (·.nodeId) then none else core.nodeScheduled n := fun n => by
    rw [hn, hl]
    simp only [mem_heartbeatNodes]
  refine ⟨⟨fun n k w => ?_, fun hd' => by simp [hen, he] at hd'⟩, by rw [hen, he],
    fun e he' => (DelayQueue.mem_pollExpired.1 (hd ▸ he')).2, ?_, hnodes, hns⟩
  · rw [hns, hd, DelayQueue.mem_pollExpired, ← h.scheduled]
    by_cases hx : n ∈ (tryPoll core now).2.map (·.nodeId)
    · obtain ⟨k', w', hs', hw'⟩ := (hnodes n).1 hx
      rw [if_pos hx]
      simp only [reduceCtorEq, false_iff, not_and, not_not]
      intro hs
      rw [hs] at hs'
      cases hs'
      exact hw'
    · rw [if_neg hx]
      exact ⟨fun hs => ⟨hs, fun hw => hx ((hnodes n).2 ⟨k, w, hs, hw⟩)⟩, And.left⟩
  · rw [hl, DelayQueue.pollExpired_fst]
    refine nodup_heartbeatNodes ?_ fun e he' e' he'' t hv hv' => ?_
    · exact core.delay.nodup.sublist ((List.filter_sublist _).map _)
    · obtain ⟨node⟩ := t
      have h1 : ⟨e.key, .heartbeat ⟨node⟩, e.deadline⟩ ∈ core.delay.entries := by
        rw [← hv]; exact (List.mem_filter.1 he').1
      have h2 : ⟨e'.key, .heartbeat ⟨node⟩, e'.deadline⟩ ∈ core.delay.entries := by
        rw [← hv']; exact (List.mem_filter.1 he'').1
      exact (h.unique h1 h2).1

theorem tryPoll_returns (h : Lockstep core) (now : Nat) :
    ((tryPoll core now).2.map (·.nodeId)).Nodup ∧
      (∀ n, n ∈ (tryPoll core now).2.map (·.nodeId) ↔
        ∃ k w, core.nodeScheduled n = some (k, w) ∧ w ≤ now) ∧
      (∀ n, (tryPoll core now).1.nodeScheduled n =
        if n ∈ (tryPoll core now).2.map (·.nodeId) then none else core.nodeScheduled n) ∧
      ∀ e ∈ (tryPoll core now).1.delay.entries, ¬ e.deadline ≤ now := by
  cases he : core.enable
  · have hr : tryPoll core now = (core, []) := by simp [tryPoll, he]
    rw [hr]
    refine ⟨List.nodup_nil, fun n => ?_, fun n => rfl, fun e hm => ?_⟩
    · simp [h.nodeScheduled_of_disabled he]
    · simp [h.disabled he] at hm
  · obtain ⟨-, -, hd, hnd, hn, hs⟩ := tryPoll_spec h he now
    exact ⟨hnd, hn, hs, hd⟩

theorem waitOneHeartbeatTick_lockstep (h : Lockstep core) (now : Nat) :
    Lockstep (waitOneHeartbeatTick alloc core now) := by
  unfold waitOneHeartbeatTick
  cases he : core.enable
  · simpa using h
  · refine ⟨fun n k w => ?_, fun hd => by simp [he] at hd⟩
    simp [DelayQueue.mem_insertAt, h.scheduled]

theorem enable_lockstep (h : Lockstep core) (b : Bool) : Lockstep (enable core b) := by
  unfold enable
  split
  · exact ⟨fun _ _ _ => by simp [DelayQueue.empty], fun _ => rfl⟩
  · exact h

end HeartbeatQueue

theorem HeartbeatOp.step_lockstep (alloc : KeyAlloc) {core : HeartbeatQueueCore}
    (h : Lockstep core) : ∀ op : HeartbeatOp, ∃ r, op.step alloc core = some r ∧ Lockstep r.1
  | .trySchedule tasks when => by
    cases he : core.enable
    · exact ⟨(core, []), by simp [HeartbeatOp.step, HeartbeatQueue.trySchedule, he], h⟩
    · obtain ⟨core', hc, hl, -⟩ := HeartbeatQueue.trySchedule_spec alloc h he tasks when
      exact ⟨(core', []), by simp [HeartbeatOp.step, hc], hl⟩
  | .tryPoll now => by
    cases he : core.enable
    · exact ⟨_, rfl, by simpa [HeartbeatQueue.tryPoll, he] using h⟩
    · exact ⟨_, rfl, (HeartbeatQueue.tryPoll_spec h he now).1⟩
  | .waitOneHeartbeatTick now => ⟨_, rfl, HeartbeatQueue.waitOneHeartbeatTick_lockstep alloc h now⟩
  | .enable b => ⟨_, rfl, HeartbeatQueue.enable_lockstep h b⟩

theorem HeartbeatQueue.run_lockstep (alloc : KeyAlloc) {core : HeartbeatQueueCore}
    (h : Lockstep core) : ∀ ops, ∃ core', run alloc core ops = some core' ∧ Lockstep core'
  | [] => ⟨core, rfl, h⟩
  | op :: ops => by
    obtain ⟨r, hr, hl⟩ := HeartbeatOp.step_lockstep alloc h op
    obtain ⟨core', hc, hl'⟩ := run_lockstep alloc hl ops
    refine ⟨core', ?_, hl'⟩
    rw [run, List.foldlM_cons, hr]
    exact hc

/-- Over every sequence of queue calls, the map and the delay queue stay in lockstep with one
heartbeat per node, and `try_poll` returns exactly the nodes due, once each. -/
theorem heartbeat_queue_keeps_one_pending_per_node (alloc : KeyAlloc) (ops : List HeartbeatOp) :
    ∃ core, HeartbeatQueue.run alloc .default ops = some core ∧
      (∀ n k w, core.nodeScheduled n = some (k, w) ↔
        ⟨k, .heartbeat ⟨n⟩, w⟩ ∈ core.delay.entries) ∧
      (∀ n k k' w w', ⟨k, .heartbeat ⟨n⟩, w⟩ ∈ core.delay.entries →
        ⟨k', .heartbeat ⟨n⟩, w'⟩ ∈ core.delay.entries → k = k' ∧ w = w') ∧
      (∀ n k w w', core.nodeScheduled n = some (k, w) →
        ⟨k, .sentinel, w'⟩ ∉ core.delay.entries) ∧
      (core.enable = true → ∀ tasks when, ∃ core',
        HeartbeatQueue.trySchedule alloc core tasks when = some core' ∧
        ∀ n ∈ tasks.map (·.nodeId),
          ∃ k, core'.nodeScheduled n = some (k, scheduledWhen when (core.nodeScheduled n))) ∧
      (∀ now, ((HeartbeatQueue.tryPoll core now).2.map (·.nodeId)).Nodup ∧
        (∀ n, n ∈ (HeartbeatQueue.tryPoll core now).2.map (·.nodeId) ↔
          ∃ k w, core.nodeScheduled n = some (k, w) ∧ w ≤ now) ∧
        (∀ n, (HeartbeatQueue.tryPoll core now).1.nodeScheduled n =
          if n ∈ (HeartbeatQueue.tryPoll core now).2.map (·.nodeId) then none
          else core.nodeScheduled n) ∧
        ∀ e ∈ (HeartbeatQueue.tryPoll core now).1.delay.entries, ¬ e.deadline ≤ now) ∧
      (core.enable = false → core.delay.entries = [] ∧
        ∀ tasks when, HeartbeatQueue.trySchedule alloc core tasks when = some core) := by
  obtain ⟨core, hrun, h⟩ := HeartbeatQueue.run_lockstep alloc lockstep_default ops
  refine ⟨core, hrun, h.scheduled, fun _ _ _ _ _ => h.unique, fun _ _ _ _ => h.not_sentinel,
    fun he tasks when => ?_, HeartbeatQueue.tryPoll_returns h,
    fun he => ⟨h.disabled he, fun _ _ => by simp [HeartbeatQueue.trySchedule, he]⟩⟩
  obtain ⟨core', hc, -, -, hn⟩ := HeartbeatQueue.trySchedule_spec alloc h he tasks when
  exact ⟨core', hc, fun n hn' => (hn n).1 hn'⟩

/-- Same-deadline keys are freed in insertion order here (`tokio-util` reverses them, giving
node `3` key 0): the key of node `2`'s polled heartbeat goes to node `3`'s. -/
example :
    (HeartbeatQueue.run slabAlloc .default
        [.enable true, .trySchedule [⟨1⟩, ⟨2⟩] 10, .tryPoll 10, .trySchedule [⟨3⟩] 20]).map
      (·.nodeScheduled 3) = some (some (1, 20)) := by
  decide

end Sekas.Root
