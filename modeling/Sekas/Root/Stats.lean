import Mathlib.Data.BitVec
import Mathlib.Algebra.BigOperators.Group.List

/-! `OngoingStats` of `root/mod.rs`: the replica moves the root expects, from the schedule
states groups report and from the job map the allocator hands over. After any sequence of
`handle_update` and `reset` calls, the raw delta of every group is its first update of
largest epoch since the last reset, the node view is what `rebuild_view` derives from the
raw deltas, and the delta of a node is the net count of replicas moving onto it plus its
count in the job map of the last call since the reset that carried one. `replica_count` is
an `i64` whose `+=` and `-=` wrap (a release build), so it is a `BitVec 64`. -/
namespace Sekas.Root

/-- The field of `ReplicaDesc` that the stats read; `id` and `role` are left out. -/
structure ReplicaDesc where
  nodeId : UInt64
  deriving DecidableEq, Repr

/-- The fields of `ScheduleState` that the stats read. -/
structure ScheduleState where
  groupId : UInt64
  epoch : UInt64
  incomingReplicas : List ReplicaDesc
  outgoingReplicas : List ReplicaDesc
  deriving DecidableEq, Repr

structure GroupDelta where
  epoch : UInt64
  incoming : List ReplicaDesc
  outgoing : List ReplicaDesc
  deriving DecidableEq, Repr

def GroupDelta.ofState (state : ScheduleState) : GroupDelta :=
  ⟨state.epoch, state.incomingReplicas, state.outgoingReplicas⟩

structure NodeDelta where
  replicaCount : BitVec 64
  deriving DecidableEq, Repr

/-- `raw_group_delta`: the entries of the `HashMap`, in the order its iteration visits
them, no group twice. -/
structure RawGroupDelta where
  entries : List (UInt64 × GroupDelta)
  nodup : (entries.map Prod.fst).Nodup

def lookupEntry (g : UInt64) : List (UInt64 × GroupDelta) → Option GroupDelta
  | [] => none
  | (g', d) :: rest => if g' = g then some d else lookupEntry g rest

/-- `entry(g)` followed by a write: an occupied entry is overwritten in place, a vacant one
is inserted (last, in this model of the iteration order). -/
def upsertEntry (g : UInt64) (d : GroupDelta) :
    List (UInt64 × GroupDelta) → List (UInt64 × GroupDelta)
  | [] => [(g, d)]
  | (g', d') :: rest => if g' = g then (g, d) :: rest else (g', d') :: upsertEntry g d rest

@[simp] theorem lookupEntry_upsertEntry {g k : UInt64} {d : GroupDelta}
    {l : List (UInt64 × GroupDelta)} :
    lookupEntry k (upsertEntry g d l) = if g = k then some d else lookupEntry k l := by
  induction l with
  | nil => simp [upsertEntry, lookupEntry]
  | cons e rest ih =>
    obtain ⟨g', d'⟩ := e
    by_cases hg : g' = g
    · subst hg
      by_cases hk : g' = k <;> simp [upsertEntry, lookupEntry, hk]
    · by_cases hk : g' = k
      · subst hk
        simp [upsertEntry, lookupEntry, hg, Ne.symm hg]
      · simp [upsertEntry, lookupEntry, hg, hk, ih]

theorem keys_upsertEntry {g : UInt64} {d : GroupDelta} {l : List (UInt64 × GroupDelta)} :
    (upsertEntry g d l).map Prod.fst =
      if g ∈ l.map Prod.fst then l.map Prod.fst else l.map Prod.fst ++ [g] := by
  induction l with
  | nil => rfl
  | cons e rest ih =>
    obtain ⟨g', d'⟩ := e
    by_cases hg : g' = g
    · subst hg
      simp only [upsertEntry, if_pos rfl, List.map_cons, List.mem_cons_self, if_true]
    · simp only [upsertEntry, if_neg hg, List.map_cons, ih, List.mem_cons, Ne.symm hg, false_or]
      split_ifs <;> rfl

theorem nodup_upsertEntry {g : UInt64} {d : GroupDelta} {l : List (UInt64 × GroupDelta)}
    (h : (l.map Prod.fst).Nodup) : ((upsertEntry g d l).map Prod.fst).Nodup := by
  rw [keys_upsertEntry]
  split_ifs with hm
  · exact h
  · exact h.append (List.nodup_singleton g) (List.disjoint_singleton.2 hm)

namespace RawGroupDelta

def empty : RawGroupDelta := ⟨[], List.nodup_nil⟩

/-- `raw_group_delta.get(g)`. -/
def get? (raw : RawGroupDelta) (g : UInt64) : Option GroupDelta := lookupEntry g raw.entries

def upsert (raw : RawGroupDelta) (g : UInt64) (d : GroupDelta) : RawGroupDelta :=
  ⟨upsertEntry g d raw.entries, nodup_upsertEntry raw.nodup⟩

def groups (raw : RawGroupDelta) : List UInt64 := raw.entries.map Prod.fst

@[simp] theorem get?_empty (g : UInt64) : empty.get? g = none := rfl

@[simp] theorem get?_upsert {raw : RawGroupDelta} {g k : UInt64} {d : GroupDelta} :
    (raw.upsert g d).get? k = if g = k then some d else raw.get? k :=
  lookupEntry_upsertEntry

end RawGroupDelta

/-- `node_view` and `node_delta`: a `HashMap` from node, read only through `get`. -/
abbrev NodeView := UInt64 → Option NodeDelta

structure SchedStats where
  rawGroupDelta : RawGroupDelta
  nodeView : NodeView

structure JobStats where
  nodeDelta : NodeView

structure OngoingStats where
  schedStats : SchedStats
  jobStats : JobStats

def replaceOne (raw : RawGroupDelta) (updated : Bool) (state : ScheduleState) :
    RawGroupDelta × Bool :=
  match raw.get? state.groupId with
  | some delta =>
    if delta.epoch < state.epoch then (raw.upsert state.groupId (.ofState state), true)
    else (raw, updated)
  | none => (raw.upsert state.groupId (.ofState state), true)

/-- `replace_state`: whether any entry was written. -/
def SchedStats.replaceState (self : SchedStats) (updates : List ScheduleState) :
    SchedStats × Bool :=
  let r := updates.foldl (fun acc state => replaceOne acc.1 acc.2 state) (self.rawGroupDelta, false)
  ({ self with rawGroupDelta := r.1 }, r.2)

def bumpReplica (delta : BitVec 64) (view : NodeView) (nodeId : UInt64) : NodeView :=
  Function.update view nodeId
    (some ⟨match view nodeId with
      | some nd => nd.replicaCount + delta
      | none => delta⟩)

def addGroupDelta (view : NodeView) (r : GroupDelta) : NodeView :=
  let view := r.incoming.foldl (fun v incoming => bumpReplica 1 v incoming.nodeId) view
  r.outgoing.foldl (fun v outgoing => bumpReplica (-1) v outgoing.nodeId) view

def SchedStats.rebuildView (self : SchedStats) : SchedStats :=
  { self with
    nodeView := self.rawGroupDelta.entries.foldl (fun v e => addGroupDelta v e.2) (fun _ => none) }

def SchedStats.handleUpdate (self : SchedStats) (stateUpdates : List ScheduleState) :
    SchedStats :=
  if stateUpdates.isEmpty then self
  else
    let r := self.replaceState stateUpdates
    if r.2 then r.1.rebuildView else r.1

namespace OngoingStats

def empty : OngoingStats := ⟨⟨.empty, fun _ => none⟩, ⟨fun _ => none⟩⟩

/-- `handle_update`: the section under the `sched_stats` lock, then the one under the
`job_stats` lock. -/
def handleUpdate (self : OngoingStats) (stateUpdates : List ScheduleState)
    (jobUpdates : Option NodeView) : OngoingStats :=
  let jobStats := match jobUpdates with
    | some nodeDelta => ⟨nodeDelta⟩
    | none => self.jobStats
  ⟨self.schedStats.handleUpdate stateUpdates, jobStats⟩

def getNodeDelta (self : OngoingStats) (node : UInt64) : NodeDelta :=
  let rs : NodeDelta := ⟨0⟩
  let rs := match self.schedStats.nodeView node with
    | some sched => ⟨rs.replicaCount + sched.replicaCount⟩
    | none => rs
  match self.jobStats.nodeDelta node with
  | some job => ⟨rs.replicaCount + job.replicaCount⟩
  | none => rs

def reset (_self : OngoingStats) : OngoingStats := empty

end OngoingStats

/-- The calls that change `OngoingStats`. -/
inductive StatsCall
  | handleUpdate (stateUpdates : List ScheduleState) (jobUpdates : Option NodeView)
  | reset

def StatsCall.apply (st : OngoingStats) : StatsCall → OngoingStats
  | .handleUpdate stateUpdates jobUpdates => st.handleUpdate stateUpdates jobUpdates
  | .reset => st.reset

def OngoingStats.run (st : OngoingStats) (calls : List StatsCall) : OngoingStats :=
  calls.foldl StatsCall.apply st

def updatesSinceReset (calls : List StatsCall) : List ScheduleState :=
  calls.foldl (fun us c => match c with
    | .handleUpdate stateUpdates _ => us ++ stateUpdates
    | .reset => []) []

def jobsSinceReset (calls : List StatsCall) : Option NodeView :=
  calls.foldl (fun jobs c => match c with
    | .handleUpdate _ jobUpdates => jobUpdates.or jobs
    | .reset => none) none

def largestEpoch (us : List ScheduleState) (g : UInt64) : Option Nat :=
  ((us.filter (·.groupId = g)).map (·.epoch.toNat)).max?

def firstOfLargestEpoch (us : List ScheduleState) (g : UInt64) : Option ScheduleState :=
  (largestEpoch us g).bind fun m => us.find? fun u => u.groupId = g ∧ u.epoch.toNat = m

def GroupDelta.netOn (d : GroupDelta) (n : UInt64) : BitVec 64 :=
  (d.incoming.countP (·.nodeId = n) : BitVec 64) - (d.outgoing.countP (·.nodeId = n) : BitVec 64)

def RawGroupDelta.netOn (raw : RawGroupDelta) (n : UInt64) : BitVec 64 :=
  (raw.groups.map fun g => ((raw.get? g).map (·.netOn n)).getD 0).sum

def replicaCountOf (view : NodeView) (n : UInt64) : BitVec 64 :=
  ((view n).map (·.replicaCount)).getD 0

theorem max?_append_singleton {l : List Nat} {x : Nat} :
    (l ++ [x]).max? = some (l.max?.elim x (max · x)) := by
  cases l with
  | nil => rfl
  | cons a l => simp only [List.cons_append, List.max?_cons', List.foldl_append, List.foldl_cons,
      List.foldl_nil, Option.elim]

section Epochs

variable {us : List ScheduleState} {s : ScheduleState} {g : UInt64}

theorem largestEpoch_eq_none : largestEpoch us g = none ↔ ∀ u ∈ us, u.groupId ≠ g := by
  simp [largestEpoch, List.filter_eq_nil_iff]

theorem largestEpoch_eq_some {m : Nat} :
    largestEpoch us g = some m ↔
      (∃ u ∈ us, u.groupId = g ∧ u.epoch.toNat = m) ∧ ∀ u ∈ us, u.groupId = g → u.epoch.toNat ≤ m := by
  simp only [largestEpoch, List.max?_eq_some_iff', List.mem_map, List.mem_filter, decide_eq_true_eq]
  constructor
  · rintro ⟨⟨u, ⟨hu, hg⟩, he⟩, hle⟩
    exact ⟨⟨u, hu, hg, he⟩, fun u hu hg => hle _ ⟨u, ⟨hu, hg⟩, rfl⟩⟩
  · rintro ⟨⟨u, hu, hg, he⟩, hle⟩
    exact ⟨⟨u, ⟨hu, hg⟩, he⟩, by rintro _ ⟨u, ⟨hu, hg⟩, rfl⟩; exact hle u hu hg⟩

theorem largestEpoch_append_of_ne (h : s.groupId ≠ g) :
    largestEpoch (us ++ [s]) g = largestEpoch us g := by
  simp [largestEpoch, List.filter_append, h]

theorem largestEpoch_append_self :
    largestEpoch (us ++ [s]) s.groupId =
      some ((largestEpoch us s.groupId).elim s.epoch.toNat (max · s.epoch.toNat)) := by
  simp only [largestEpoch, List.filter_append, List.filter_singleton, decide_True, cond_true,
    List.map_append, List.map_singleton, max?_append_singleton]

theorem firstOfLargestEpoch_append_of_ne (h : s.groupId ≠ g) :
    firstOfLargestEpoch (us ++ [s]) g = firstOfLargestEpoch us g := by
  simp [firstOfLargestEpoch, largestEpoch_append_of_ne h, h]

theorem firstOfLargestEpoch_append_self :
    firstOfLargestEpoch (us ++ [s]) s.groupId =
      match firstOfLargestEpoch us s.groupId with
      | some u => if u.epoch < s.epoch then some s else some u
      | none => some s := by
  unfold firstOfLargestEpoch
  rw [largestEpoch_append_self]
  cases hm : largestEpoch us s.groupId with
  | none =>
    have hn := largestEpoch_eq_none.1 hm
    have hnone : us.find? (fun u => u.groupId = s.groupId ∧ u.epoch.toNat = s.epoch.toNat) = none :=
      List.find?_eq_none.2 fun u hu => by simp [hn u hu]
    simp only [Option.elim, Option.some_bind, Option.none_bind, List.find?_append, hnone,
      Option.none_or]
    simp
  | some m =>
    obtain ⟨⟨u, hu, hg, he⟩, hle⟩ := largestEpoch_eq_some.1 hm
    obtain ⟨u₀, hf⟩ : ∃ u₀, us.find? (fun u => u.groupId = s.groupId ∧ u.epoch.toNat = m) = some u₀ :=
      Option.isSome_iff_exists.1 (List.find?_isSome.2 ⟨u, hu, by simp [hg, he]⟩)
    have hp := List.find?_some hf
    simp only [decide_eq_true_eq] at hp
    simp only [Option.elim, Option.some_bind, hf]
    by_cases hlt : m < s.epoch.toNat
    · have hnone : us.find? (fun u => u.groupId = s.groupId ∧ u.epoch.toNat = s.epoch.toNat) = none :=
        List.find?_eq_none.2 fun u hu => by
          simp only [decide_eq_true_eq, not_and]
          intro hg'
          have := hle u hu hg'
          omega
      have hlt' : u₀.epoch < s.epoch := by show u₀.epoch.toNat < _; rw [hp.2]; exact hlt
      rw [Nat.max_eq_right (Nat.le_of_lt hlt)]
      simp only [List.find?_append, hnone, Option.none_or, hlt', if_true]
      simp
    · have hlt' : ¬ u₀.epoch < s.epoch := by show ¬ u₀.epoch.toNat < _; rw [hp.2]; exact hlt
      rw [Nat.max_eq_left (Nat.le_of_not_lt hlt)]
      simp only [List.find?_append, hf, Option.or_some, hlt', if_false]

end Epochs

def RawGroupDelta.Follows (raw : RawGroupDelta) (us : List ScheduleState) : Prop :=
  ∀ g, raw.get? g = (firstOfLargestEpoch us g).map .ofState

theorem RawGroupDelta.Follows.step {raw : RawGroupDelta} {us : List ScheduleState}
    (h : raw.Follows us) (updated : Bool) (s : ScheduleState) :
    (replaceOne raw updated s).1.Follows (us ++ [s]) := by
  intro g
  by_cases hg : s.groupId = g
  · subst hg
    have hr := h s.groupId
    rw [firstOfLargestEpoch_append_self]
    unfold replaceOne
    cases hf : firstOfLargestEpoch us s.groupId with
    | none => simp [hr, hf]
    | some u => by_cases hlt : u.epoch < s.epoch <;> simp [hr, hf, hlt, GroupDelta.ofState]
  · rw [firstOfLargestEpoch_append_of_ne hg, ← h]
    unfold replaceOne
    split
    · split <;> simp [hg]
    · simp [hg]

theorem RawGroupDelta.Follows.loop {raw : RawGroupDelta} {us : List ScheduleState}
    (h : raw.Follows us) (updated : Bool) (ss : List ScheduleState) :
    (ss.foldl (fun acc state => replaceOne acc.1 acc.2 state) (raw, updated)).1.Follows (us ++ ss) := by
  induction ss generalizing raw us updated with
  | nil => simpa using h
  | cons s ss ih =>
    rw [List.foldl_cons, ← List.singleton_append, ← List.append_assoc]
    exact ih (h.step updated s) _

theorem replaceOne_eq_or (raw : RawGroupDelta) (updated : Bool) (s : ScheduleState) :
    replaceOne raw updated s = (raw, updated) ∨ (replaceOne raw updated s).2 = true := by
  unfold replaceOne
  split
  · split
    · exact .inr rfl
    · exact .inl rfl
  · exact .inr rfl

theorem foldl_replaceOne_flag (raw : RawGroupDelta) (ss : List ScheduleState) :
    (ss.foldl (fun acc state => replaceOne acc.1 acc.2 state) (raw, true)).2 = true := by
  induction ss generalizing raw with
  | nil => rfl
  | cons s ss ih =>
    rw [List.foldl_cons]
    rcases replaceOne_eq_or raw true s with h | h
    · rw [h]; exact ih raw
    · rw [← Prod.mk.eta (p := replaceOne raw true s), h]; exact ih _

theorem foldl_replaceOne_of_flag {raw : RawGroupDelta} {updated : Bool} {ss : List ScheduleState}
    (h : (ss.foldl (fun acc state => replaceOne acc.1 acc.2 state) (raw, updated)).2 = false) :
    (ss.foldl (fun acc state => replaceOne acc.1 acc.2 state) (raw, updated)).1 = raw := by
  induction ss generalizing raw updated with
  | nil => rfl
  | cons s ss ih =>
    rw [List.foldl_cons] at h ⊢
    rcases replaceOne_eq_or raw updated s with he | he
    · rw [he] at h ⊢; exact ih h
    · rw [← Prod.mk.eta (p := replaceOne raw updated s), he, foldl_replaceOne_flag] at h
      cases h

section View

variable {n : UInt64}

theorem replicaCountOf_bumpReplica {delta : BitVec 64} {view : NodeView} {m : UInt64} :
    replicaCountOf (bumpReplica delta view m) n = replicaCountOf view n + if m = n then delta else 0 := by
  unfold replicaCountOf bumpReplica
  by_cases h : m = n
  · subst h
    cases view m <;> simp
  · simp [h, Function.update_noteq (Ne.symm h)]

theorem replicaCountOf_foldl_bumpReplica {delta : BitVec 64} {view : NodeView}
    {l : List ReplicaDesc} :
    replicaCountOf (l.foldl (fun v r => bumpReplica delta v r.nodeId) view) n =
      replicaCountOf view n + (l.countP (·.nodeId = n) : BitVec 64) * delta := by
  induction l generalizing view with
  | nil => rw [List.foldl_nil, List.countP_nil, Nat.cast_zero, zero_mul, add_zero]
  | cons r l ih =>
    rw [List.foldl_cons, ih, replicaCountOf_bumpReplica, List.countP_cons]
    by_cases h : r.nodeId = n
    · rw [if_pos h, if_pos (decide_eq_true h), Nat.cast_add, Nat.cast_one, add_one_mul, add_assoc,
        add_comm delta]
    · rw [if_neg h, if_neg (fun h' => h (of_decide_eq_true h')), Nat.add_zero, add_zero]

theorem replicaCountOf_addGroupDelta {view : NodeView} {r : GroupDelta} :
    replicaCountOf (addGroupDelta view r) n = replicaCountOf view n + r.netOn n := by
  rw [addGroupDelta, replicaCountOf_foldl_bumpReplica, replicaCountOf_foldl_bumpReplica,
    GroupDelta.netOn, mul_one, mul_neg_one, add_assoc, ← sub_eq_add_neg]

theorem replicaCountOf_foldl_addGroupDelta {view : NodeView} {l : List (UInt64 × GroupDelta)} :
    replicaCountOf (l.foldl (fun v e => addGroupDelta v e.2) view) n =
      replicaCountOf view n + (l.map (·.2.netOn n)).sum := by
  induction l generalizing view with
  | nil => rw [List.foldl_nil, List.map_nil, List.sum_nil, add_zero]
  | cons e l ih =>
    rw [List.foldl_cons, ih, replicaCountOf_addGroupDelta, List.map_cons, List.sum_cons, add_assoc]

theorem sum_lookupEntry {l : List (UInt64 × GroupDelta)} (h : (l.map Prod.fst).Nodup) :
    ((l.map Prod.fst).map fun g => ((lookupEntry g l).map (·.netOn n)).getD 0).sum =
      (l.map (·.2.netOn n)).sum := by
  induction l with
  | nil => rfl
  | cons e l ih =>
    obtain ⟨g, d⟩ := e
    rw [List.map_cons, List.nodup_cons] at h
    have hrest : (l.map Prod.fst).map (fun g' => ((lookupEntry g' ((g, d) :: l)).map (·.netOn n)).getD 0) =
        (l.map Prod.fst).map fun g' => ((lookupEntry g' l).map (·.netOn n)).getD 0 :=
      List.map_congr_left fun g' hg' => by
        rw [lookupEntry, if_neg fun (he : g = g') => h.1 (he ▸ hg')]
    simp only [List.map_cons, List.sum_cons]
    rw [hrest, ih h.2]
    simp [lookupEntry]

theorem RawGroupDelta.netOn_eq_sum (raw : RawGroupDelta) :
    raw.netOn n = (raw.entries.map (·.2.netOn n)).sum :=
  sum_lookupEntry raw.nodup

theorem replicaCountOf_rebuildView (st : SchedStats) :
    replicaCountOf st.rebuildView.nodeView n = st.rawGroupDelta.netOn n := by
  rw [SchedStats.rebuildView, replicaCountOf_foldl_addGroupDelta, RawGroupDelta.netOn_eq_sum]
  simp [replicaCountOf]

end View

@[simp] theorem updatesSinceReset_append_handleUpdate {calls : List StatsCall}
    {stateUpdates : List ScheduleState} {jobUpdates : Option NodeView} :
    updatesSinceReset (calls ++ [.handleUpdate stateUpdates jobUpdates]) =
      updatesSinceReset calls ++ stateUpdates := by
  simp [updatesSinceReset]

@[simp] theorem updatesSinceReset_append_reset {calls : List StatsCall} :
    updatesSinceReset (calls ++ [.reset]) = [] := by
  simp [updatesSinceReset]

@[simp] theorem jobsSinceReset_append_handleUpdate {calls : List StatsCall}
    {stateUpdates : List ScheduleState} {jobUpdates : Option NodeView} :
    jobsSinceReset (calls ++ [.handleUpdate stateUpdates jobUpdates]) =
      jobUpdates.or (jobsSinceReset calls) := by
  simp [jobsSinceReset]

@[simp] theorem jobsSinceReset_append_reset {calls : List StatsCall} :
    jobsSinceReset (calls ++ [.reset]) = none := by
  simp [jobsSinceReset]

theorem RawGroupDelta.follows_empty : RawGroupDelta.empty.Follows [] := fun _ => rfl

theorem SchedStats.handle_inv {st : SchedStats} {us : List ScheduleState}
    (hr : st.rawGroupDelta.Follows us) (hv : st.rebuildView = st) (stateUpdates : List ScheduleState) :
    (st.handleUpdate stateUpdates).rawGroupDelta.Follows (us ++ stateUpdates) ∧
      (st.handleUpdate stateUpdates).rebuildView = st.handleUpdate stateUpdates := by
  unfold SchedStats.handleUpdate
  by_cases he : stateUpdates = []
  · subst he
    simpa using ⟨hr, hv⟩
  · rw [if_neg (by simpa using he)]
    have hloop := hr.loop false stateUpdates
    by_cases hu : (st.replaceState stateUpdates).2 = true
    · rw [if_pos hu]
      exact ⟨hloop, rfl⟩
    · have hu' : (stateUpdates.foldl (fun acc state => replaceOne acc.1 acc.2 state)
          (st.rawGroupDelta, false)).2 = false := by simpa [SchedStats.replaceState] using hu
      have hst : st.replaceState stateUpdates = (st, false) := by
        simp only [SchedStats.replaceState, foldl_replaceOne_of_flag hu', hu']
      rw [if_neg hu, hst]
      rw [foldl_replaceOne_of_flag hu'] at hloop
      exact ⟨hloop, hv⟩

/-- What every reachable `OngoingStats` holds against the calls that built it. -/
structure OngoingStats.Inv (st : OngoingStats) (calls : List StatsCall) : Prop where
  raw : st.schedStats.rawGroupDelta.Follows (updatesSinceReset calls)
  view : st.schedStats.rebuildView = st.schedStats
  jobs : st.jobStats.nodeDelta = (jobsSinceReset calls).getD fun _ => none

namespace OngoingStats

theorem inv_empty : empty.Inv [] := ⟨RawGroupDelta.follows_empty, rfl, rfl⟩

theorem Inv.apply {st : OngoingStats} {calls : List StatsCall} (h : st.Inv calls) :
    ∀ c : StatsCall, (c.apply st).Inv (calls ++ [c])
  | .handleUpdate stateUpdates jobUpdates => by
    obtain ⟨hr, hv⟩ := SchedStats.handle_inv h.raw h.view stateUpdates
    refine ⟨?_, hv, ?_⟩
    · rw [updatesSinceReset_append_handleUpdate]
      exact hr
    cases jobUpdates with
    | none => simpa [StatsCall.apply, handleUpdate] using h.jobs
    | some nodeDelta => simp [StatsCall.apply, handleUpdate]
  | .reset => ⟨by rw [updatesSinceReset_append_reset]; exact RawGroupDelta.follows_empty, rfl,
      by rw [jobsSinceReset_append_reset]; rfl⟩

theorem Inv.run {st : OngoingStats} {calls : List StatsCall} (h : st.Inv calls) :
    ∀ cs, (st.run cs).Inv (calls ++ cs)
  | [] => by simpa [OngoingStats.run] using h
  | c :: cs => by
    have := (h.apply c).run cs
    rwa [List.append_assoc, List.singleton_append] at this

theorem getNodeDelta_replicaCount (st : OngoingStats) (n : UInt64) :
    (st.getNodeDelta n).replicaCount =
      replicaCountOf st.schedStats.nodeView n + replicaCountOf st.jobStats.nodeDelta n := by
  unfold getNodeDelta replicaCountOf
  cases st.schedStats.nodeView n <;> cases st.jobStats.nodeDelta n <;> simp

end OngoingStats

/-- After any sequence of `handle_update` and `reset`, each group's raw delta is its first update of
largest epoch since the reset, and the node view is what `rebuild_view` derives. -/
theorem ongoing_stats_follow_history (calls : List StatsCall) (g n : UInt64) :
    let st := OngoingStats.empty.run calls
    st.schedStats.rawGroupDelta.get? g =
        (firstOfLargestEpoch (updatesSinceReset calls) g).map .ofState ∧
      st.schedStats.rebuildView = st.schedStats ∧
      (st.getNodeDelta n).replicaCount =
        st.schedStats.rawGroupDelta.netOn n +
          replicaCountOf ((jobsSinceReset calls).getD fun _ => none) n := by
  intro st
  have h : st.Inv calls := by simpa using OngoingStats.inv_empty.run calls
  refine ⟨h.raw g, h.view, ?_⟩
  rw [OngoingStats.getNodeDelta_replicaCount, ← h.view, replicaCountOf_rebuildView, h.jobs]
  rfl

/-- Of two updates of group `1` at epoch `2` the first is kept, and an older one after them
is ignored: node `3` expects the one replica the first update brings. -/
example :
    (OngoingStats.empty.handleUpdate
      [⟨1, 2, [⟨3⟩], []⟩, ⟨1, 2, [], []⟩, ⟨1, 1, [], [⟨3⟩]⟩] none).getNodeDelta 3 = ⟨1⟩ := by
  decide

def fiveOnNodeOne : NodeView := fun n => if n = 1 then some ⟨5⟩ else none

theorem reset_clears_job_map :
    let st := OngoingStats.empty.run [.handleUpdate [] (some fiveOnNodeOne), .reset]
    replicaCountOf fiveOnNodeOne 1 = 5 ∧ st.schedStats.rawGroupDelta.netOn 1 = 0 ∧
      (st.getNodeDelta 1).replicaCount = 0 := by
  decide

end Sekas.Root
