import Sekas.Root.Report
import Sekas.Root.Stats
import Sekas.Root.Heartbeat

/-! The whole of one `Root::report` call, one update after another: beside the store writes
of `Root.Report`, each update hands its schedule state to the ongoing stats, a newer root
group descriptor asks the heartbeat queue for a heartbeat of the current node, and the call
collects the events the watchers are told of at its very end, after `list_group_state`. The
schema's answers are outcomes the call is given; its store writes are those of one call of the
interleaving model of `Root.Report` run alone. -/
namespace Sekas.Root
open Sekas.Engine

/-- The field of `GroupState` that `report` reads; the others are carried along unread. -/
structure GroupState where
  groupId : UInt64
  deriving DecidableEq, Repr

/-- The `UpdateEvent`s `report` hands to the watcher hub. -/
inductive GroupEvent where
  | group (desc : GroupDesc)
  | groupState (state : GroupState)
  deriving DecidableEq, Repr

structure Reported where
  store : ReportStore
  statsCalls : List StatsCall
  heartbeatOps : List HeartbeatOp
  notified : List (List GroupEvent)

def Reported.lift (r : Reported) (x : Except Error α) : Except Error α × Reported := (x, r)

end Sekas.Root
