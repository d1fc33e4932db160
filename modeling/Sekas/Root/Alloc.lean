import Mathlib.Data.List.Dedup
import Sekas.Engine
import Sekas.Root.Stats

/-! `Root::alloc_replica`: the replicas the root advises a group's leader to add. The call
checks the request against the group's stored epoch, tells the allocator every node that
already holds a replica of the group, by the descriptor or by a replica state, and then
takes a replica id from the schema for each node the allocator chose. The schema's answers
and the allocator's choice are outcomes the call is given. -/
namespace Sekas.Root
open Sekas.Engine

/-- `ReplicaRole`, of which `alloc_replica` gives only `Voter`. -/
inductive ReplicaRole where
  | voter
  | learner
  deriving DecidableEq, Repr

/-- `ReplicaDesc` with all its fields. -/
structure FullReplicaDesc extends ReplicaDesc where
  id : UInt64
  role : ReplicaRole
  deriving DecidableEq, Repr

end Sekas.Root
