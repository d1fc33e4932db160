import Sekas.Engine

/-! The node lifecycle calls of the root (`Root::cordon_node`, `Root::uncordon_node`,
`Root::begin_drain`). Each reads the node's descriptor, checks its status, and writes the
descriptor back with the new status after an await; nothing compares the stored status
again before the write (the source marks each write `TODO: cas`). Calls interleave at
their awaits. -/
namespace Sekas.Root
open Sekas.Engine

/-- `NodeStatus`. -/
inductive NodeStatus where
  | active
  | cordoned
  | draining
  | drained
  | decommissioned
  deriving DecidableEq, Repr

def NodeStatus.permits : NodeStatus → NodeStatus → Bool
  | .active, .cordoned => true
  | .cordoned, .draining => true
  | .cordoned, .active => true
  | .drained, .active => true
  | .decommissioned, .active => true
  | _, _ => false

def transitionNode (allowed : NodeStatus → Bool) (target : NodeStatus) (msg : String) :
    Option NodeStatus → Except Error NodeStatus
  | none => .error (.invalidArgument "node not found")
  | some status => if allowed status then .ok target else .error (.invalidArgument msg)

def cordonNode : Option NodeStatus → Except Error NodeStatus :=
  transitionNode (· == .active) .cordoned "node already cordoned"

def uncordonNode : Option NodeStatus → Except Error NodeStatus :=
  transitionNode (fun s => s == .cordoned || s == .drained || s == .decommissioned) .active
    "node status unsupport uncordon"

def beginDrain (currentNodeId nodeId : UInt64) (status : Option NodeStatus) :
    Except Error NodeStatus :=
  if currentNodeId = nodeId then .error (.invalidArgument "node is root leader, try again later")
  else transitionNode (· == .cordoned) .draining "only in cordoned status node can be drain" status

inductive NodeOp where
  | cordon
  | uncordon
  | drain
  deriving DecidableEq, Repr

def NodeOp.check (op : NodeOp) (currentNodeId nodeId : UInt64) :
    Option NodeStatus → Except Error NodeStatus :=
  match op with
  | .cordon => cordonNode
  | .uncordon => uncordonNode
  | .drain => beginDrain currentNodeId nodeId

theorem NodeOp.check_permits {op : NodeOp} {currentNodeId nodeId : UInt64}
    {status : Option NodeStatus} {target : NodeStatus}
    (h : op.check currentNodeId nodeId status = .ok target) :
    ∃ s, status = some s ∧ s.permits target = true := by
  rcases status with _ | s
  · cases op <;> simp [NodeOp.check, cordonNode, uncordonNode, beginDrain, transitionNode] at h
    split_ifs at h
  · refine ⟨s, rfl, ?_⟩
    cases op <;> cases s <;>
      simp [NodeOp.check, cordonNode, uncordonNode, beginDrain, transitionNode] at h <;>
      (try split_ifs at h) <;> cases h <;> rfl

inductive NodePc where
  | read
  | write (read : Option NodeStatus) (target : NodeStatus)
  | returned (result : Except Error Unit)
  deriving DecidableEq, Repr

/-- A call on node `nodeId`. -/
structure NodeCall where
  op : NodeOp
  nodeId : UInt64
  pc : NodePc
  deriving DecidableEq, Repr

def NodeCall.afterRead (c : NodeCall) (currentNodeId : UInt64) (status : Option NodeStatus) :
    NodePc :=
  match c.op.check currentNodeId c.nodeId status with
  | .ok target => .write status target
  | .error err => .returned (.error err)

structure NodeWorld where
  currentNodeId : UInt64
  nodes : UInt64 → Option NodeStatus
  calls : List NodeCall
  changes : List (Option NodeStatus × NodeStatus)

def NodeWorld.init (currentNodeId : UInt64) (nodes : UInt64 → Option NodeStatus) : NodeWorld :=
  ⟨currentNodeId, nodes, [], []⟩

inductive NodeEvent where
  | call (op : NodeOp) (nodeId : UInt64)
  | read (i : Nat)
  | write (i : Nat)
  | fail (i : Nat) (err : Error)

def NodeWorld.step (w : NodeWorld) : NodeEvent → Option NodeWorld
  | .call op n => some { w with calls := w.calls ++ [⟨op, n, .read⟩] }
  | .read i =>
    match w.calls[i]? with
    | some c =>
      match c.pc with
      | .read => some { w with
          calls := w.calls.set i { c with pc := c.afterRead w.currentNodeId (w.nodes c.nodeId) } }
      | _ => none
    | none => none
  | .write i =>
    match w.calls[i]? with
    | some c =>
      match c.pc with
      | .write _ target => some { w with
          nodes := Function.update w.nodes c.nodeId (some target)
          calls := w.calls.set i { c with pc := .returned (.ok ()) }
          changes := w.changes ++ [(w.nodes c.nodeId, target)] }
      | _ => none
    | none => none
  | .fail i err =>
    match w.calls[i]? with
    | some c =>
      match c.pc with
      | .returned _ => none
      | _ => some { w with calls := w.calls.set i { c with pc := .returned (.error err) } }
    | none => none

def NodeWorld.run (w : NodeWorld) : List NodeEvent → Option NodeWorld
  | [] => some w
  | ev :: evs => (w.step ev).bind (·.run evs)

def NodeWorld.casHolds (w : NodeWorld) : NodeEvent → Bool
  | .write i =>
    match w.calls[i]? with
    | some c =>
      match c.pc with
      | .write r _ => w.nodes c.nodeId == r
      | _ => true
    | none => true
  | _ => true

def NodeWorld.casRun (w : NodeWorld) : List NodeEvent → Bool
  | [] => true
  | ev :: evs => w.casHolds ev && match w.step ev with
    | some w' => w'.casRun evs
    | none => true

def NodeWorld.changesFollowLifecycle (w : NodeWorld) : Bool :=
  w.changes.all fun p => p.1.any (·.permits p.2)

theorem NodeWorld.changesFollowLifecycle_iff {w : NodeWorld} :
    w.changesFollowLifecycle = true ↔
      ∀ p ∈ w.changes, ∃ s, p.1 = some s ∧ s.permits p.2 = true := by
  simp only [NodeWorld.changesFollowLifecycle, List.all_eq_true]
  refine forall₂_congr fun p _ => ?_
  rcases p with ⟨_ | s, t⟩ <;> simp

structure NodeWorld.Inv (w : NodeWorld) : Prop where
  changes_permitted : ∀ p ∈ w.changes, ∃ s, p.1 = some s ∧ s.permits p.2 = true
  pending_permitted : ∀ c ∈ w.calls, ∀ r t, c.pc = .write r t →
    ∃ s, r = some s ∧ s.permits t = true

namespace NodeWorld
variable {w w' : NodeWorld}

theorem Inv.init (currentNodeId : UInt64) (nodes : UInt64 → Option NodeStatus) :
    (NodeWorld.init currentNodeId nodes).Inv :=
  ⟨fun _ h => (nomatch h), fun _ h => (nomatch h)⟩

theorem Inv.set (hw : w.Inv) {i : Nat} {c : NodeCall}
    (hc : ∀ r t, c.pc = .write r t → ∃ s, r = some s ∧ s.permits t = true) :
    ∀ c' ∈ w.calls.set i c, ∀ r t, c'.pc = .write r t → ∃ s, r = some s ∧ s.permits t = true :=
  fun c' hc' => (List.mem_or_eq_of_mem_set hc').elim (hw.pending_permitted c') (· ▸ hc)

theorem Inv.step (hw : w.Inv) {ev : NodeEvent} (hcas : w.casHolds ev = true)
    (h : w.step ev = some w') : w'.Inv := by
  cases ev with
  | call op n =>
    cases h
    refine ⟨hw.changes_permitted, fun c hc => ?_⟩
    rcases List.mem_append.1 hc with hc | hc
    · exact hw.pending_permitted c hc
    · rw [List.mem_singleton.1 hc]
      exact fun _ _ h => nomatch h
  | read i =>
    simp only [NodeWorld.step] at h
    split at h <;> try split at h
    all_goals cases h
    refine ⟨hw.changes_permitted, hw.set fun r t hrt => ?_⟩
    simp only [NodeCall.afterRead] at hrt
    split at hrt
    · cases hrt
      exact NodeOp.check_permits ‹_›
    · cases hrt
  | write i =>
    simp only [NodeWorld.step] at h
    split at h <;> try split at h
    all_goals cases h
    rename_i c hci _ r t hpc
    simp only [NodeWorld.casHolds, hci, hpc, beq_iff_eq] at hcas
    refine ⟨fun p hp => ?_, hw.set fun _ _ h => nomatch h⟩
    rcases List.mem_append.1 hp with hp | hp
    · exact hw.changes_permitted p hp
    · rw [List.mem_singleton.1 hp, hcas]
      exact hw.pending_permitted c (List.getElem?_mem hci) r t hpc
  | fail i err =>
    simp only [NodeWorld.step] at h
    split at h <;> try split at h
    all_goals cases h
    exact ⟨hw.changes_permitted, hw.set fun _ _ h => nomatch h⟩

theorem Inv.run (hw : w.Inv) {evs : List NodeEvent} (hcas : w.casRun evs = true)
    (h : w.run evs = some w') : w'.Inv := by
  induction evs generalizing w with
  | nil =>
    cases h
    exact hw
  | cons ev evs ih =>
    cases hs : w.step ev with
    | none => simp [NodeWorld.run, hs] at h
    | some w₁ =>
      simp only [NodeWorld.casRun, hs, Bool.and_eq_true] at hcas
      simp only [NodeWorld.run, hs, Option.some_bind] at h
      exact ih (hw.step hcas.1 hs) hcas.2 h

end NodeWorld

/-- Were every write a compare-and-set on the status its call read, every change of a stored
status would follow the lifecycle, over every interleaving. -/
theorem node_changes_follow_lifecycle_with_cas (currentNodeId : UInt64)
    (nodes : UInt64 → Option NodeStatus) (evs : List NodeEvent) (w : NodeWorld)
    (hcas : (NodeWorld.init currentNodeId nodes).casRun evs = true)
    (h : (NodeWorld.init currentNodeId nodes).run evs = some w) :
    w.changesFollowLifecycle = true :=
  NodeWorld.changesFollowLifecycle_iff.2
    ((NodeWorld.Inv.init currentNodeId nodes).run hcas h).changes_permitted

def cordonedNodeOne : UInt64 → Option NodeStatus :=
  fun n => if n = 1 then some .cordoned else none

/-- `cordon_node` after `uncordon_node`, one after the other, then `begin_drain`. -/
def serialNodeCalls : List NodeEvent :=
  [.call .uncordon 1, .read 0, .write 0, .call .cordon 1, .read 1, .write 1,
   .call .drain 1, .read 2, .write 2]

theorem node_changes_follow_lifecycle_of_serial :
    (((NodeWorld.init 0 cordonedNodeOne).run serialNodeCalls).get
      (by decide)).changesFollowLifecycle = true :=
  node_changes_follow_lifecycle_with_cas 0 cordonedNodeOne serialNodeCalls _ (by decide)
    (Option.some_get _).symm

/-- `uncordon_node` and `begin_drain` on the same cordoned node both read Cordoned and pass
their checks; the drain writes Draining, then the uncordon writes Active over it. -/
def uncordonDuringDrain : List NodeEvent :=
  [.call .uncordon 1, .call .drain 1, .read 0, .read 1, .write 1, .write 0]

/-- The stale write moves the node from Draining back to Active, which the lifecycle does
not permit, and the node the drain started on ends Active. -/
theorem uncordon_overwrites_draining :
    ((NodeWorld.init 0 cordonedNodeOne).run uncordonDuringDrain).map (·.changes) =
        some [(some .cordoned, .draining), (some .draining, .active)] ∧
      NodeStatus.draining.permits .active = false ∧
      ((NodeWorld.init 0 cordonedNodeOne).run uncordonDuringDrain).map (·.nodes 1) =
        some (some .active) := by
  decide

end Sekas.Root
