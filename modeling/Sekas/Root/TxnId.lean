import Sekas.Engine

/-! The transaction-id allocator of the root (`root/mod.rs`). The `RootCore` of a
leadership hands out ids from `[next_txn_id, max_txn_id)` with a compare-and-exchange
loop, and `bump_txn_id` raises `max_txn_id` after persisting the new maximum. Every atomic
load, store and compare-exchange, and every write of the persisted maximum, is one step,
so the calls of all leaderships interleave freely. -/
namespace Sekas.Root
open Sekas.Engine

/-- The two atomics of `RootCore`; the schema handle is left out. -/
structure RootCore where
  nextTxnId : UInt64
  maxTxnId : UInt64
  deriving DecidableEq, Repr

/-- Where a call of `alloc_txn_id` stands in its loop. -/
inductive AllocPc where
  | loadNext
  | loadMax (nextTxnId : UInt64)
  | compareExchange (nextTxnId : UInt64)
  | returned (result : Except Error UInt64)
  deriving DecidableEq, Repr

def allocStep (numRequired : UInt64) (core : RootCore) : AllocPc → RootCore × AllocPc
  | .loadNext => (core, .loadMax core.nextTxnId)
  | .loadMax next =>
    if core.maxTxnId = 0 then (core, .returned (.error (.notLeader 0 0)))
    else if next + numRequired > core.maxTxnId then (core, .loadNext)
    else (core, .compareExchange next)
  | .compareExchange next =>
    if core.nextTxnId = next then
      ({ core with nextTxnId := next + numRequired }, .returned (.ok next))
    else (core, .loadNext)
  | .returned r => (core, .returned r)

theorem allocStep_compareExchange {n v : UInt64} {core : RootCore} (h : core.nextTxnId = v) :
    allocStep n core (.compareExchange v) = ({ core with nextTxnId := v + n }, .returned (.ok v)) := by
  simp [allocStep, h]

/-- Asking for `u64::MAX` ids from `next_txn_id = 1` passes the check, as `1 + u64::MAX` wraps to 0,
and moves `next_txn_id` back to 0. -/
theorem alloc_txn_id_moves_next_back :
    let core : RootCore := ⟨1, 5000000000⟩
    let n : UInt64 := 18446744073709551615
    let s₁ := allocStep n core .loadNext
    let s₂ := allocStep n s₁.1 s₁.2
    allocStep n s₂.1 s₂.2 = (⟨0, 5000000000⟩, .returned (.ok 1)) := by
  decide

def reservation : UInt64 := 5000000000

def bumpTarget (maxTxnId now : UInt64) : UInt64 :=
  (if maxTxnId ≤ now then now else maxTxnId) + reservation

inductive BumpPc where
  | idle
  | setTxnId (next : UInt64)
  | store (next : UInt64)
  | stopped
  deriving DecidableEq, Repr

structure Issued where
  epoch : Nat
  start : UInt64
  numRequired : UInt64
  deriving DecidableEq, Repr

def Issued.stop (r : Issued) : Nat := r.start.toNat + r.numRequired.toNat

/-- A call of `alloc_txn_id` holding a clone of the core of leadership `epoch`. -/
structure Call where
  epoch : Nat
  numRequired : UInt64
  pc : AllocPc
  deriving DecidableEq, Repr

def Call.issues (c : Call) : AllocPc → List Issued
  | .returned (.ok start) => [⟨c.epoch, start, c.numRequired⟩]
  | _ => []

structure World where
  epochs : Nat
  leader : Option Nat
  persisted : UInt64
  cores : Nat → RootCore
  bumps : Nat → BumpPc
  calls : Nat → Option Call
  loaded : Nat → UInt64
  issued : List Issued

def World.init (persisted : UInt64) : World :=
  ⟨0, none, persisted, fun _ => ⟨0, 0⟩, fun _ => .idle, fun _ => none, fun _ => 0, []⟩

inductive Event where
  | gain
  | lose
  | stepDown (epoch : Nat)
  | bump (epoch : Nat) (now : UInt64)
  | setTxnId (epoch : Nat)
  | storeMax (epoch : Nat)
  | call (id epoch : Nat) (numRequired : UInt64)
  | alloc (id : Nat)
  deriving DecidableEq, Repr

def AllocPc.done : AllocPc → Bool
  | .returned _ => true
  | _ => false

def World.gain (w : World) : World :=
  { w with
    epochs := w.epochs + 1, leader := some w.epochs
    cores := Function.update w.cores w.epochs ⟨w.persisted, w.persisted⟩
    bumps := Function.update w.bumps w.epochs .idle
    loaded := Function.update w.loaded w.epochs w.persisted }

def World.step (w : World) : Event → Option World
  | .gain => if w.leader = none then some w.gain else none
  | .lose => if w.leader.isSome then some { w with leader := none } else none
  | .stepDown e =>
    if e < w.epochs ∧ w.leader ≠ some e then
      some { w with cores := Function.update w.cores e { (w.cores e) with maxTxnId := 0 } }
    else none
  | .bump e now =>
    if e < w.epochs ∧ w.bumps e = .idle then
      some { w with
        bumps := Function.update w.bumps e (.setTxnId (bumpTarget (w.cores e).maxTxnId now)) }
    else none
  | .setTxnId e =>
    match w.bumps e with
    | .setTxnId x =>
      if w.leader = some e then
        some { w with persisted := x, bumps := Function.update w.bumps e (.store x) }
      else some { w with bumps := Function.update w.bumps e .stopped }
    | _ => none
  | .storeMax e =>
    match w.bumps e with
    | .store x =>
      some { w with
        cores := Function.update w.cores e { (w.cores e) with maxTxnId := x }
        bumps := Function.update w.bumps e .idle }
    | _ => none
  | .call id e n =>
    if w.calls id = none ∧ e < w.epochs then
      some { w with calls := Function.update w.calls id (some ⟨e, n, .loadNext⟩) }
    else none
  | .alloc id =>
    match w.calls id with
    | some c =>
      if c.pc.done then none
      else
        let s := allocStep c.numRequired (w.cores c.epoch) c.pc
        some { w with
          cores := Function.update w.cores c.epoch s.1
          calls := Function.update w.calls id (some { c with pc := s.2 })
          issued := w.issued ++ c.issues s.2 }
    | none => none

def World.run (w : World) : List Event → Option World
  | [] => some w
  | ev :: evs => (w.step ev).bind (·.run evs)

def World.noWrap (w : World) : Event → Bool
  | .bump e now =>
    decide ((if (w.cores e).maxTxnId ≤ now then now else (w.cores e).maxTxnId).toNat +
      reservation.toNat < UInt64.size)
  | .alloc id =>
    match w.calls id with
    | some ⟨_, n, .loadMax v⟩ => decide (v.toNat + n.toNat < UInt64.size)
    | _ => true
  | _ => true

def World.noWrapRun (w : World) : List Event → Bool
  | [] => true
  | ev :: evs => w.noWrap ev && match w.step ev with
    | some w' => w'.noWrapRun evs
    | none => true

end Sekas.Root
