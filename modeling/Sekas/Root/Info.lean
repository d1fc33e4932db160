import Sekas.Bootstrap
import Sekas.Root.Report
import Sekas.Root.Catalog
import Sekas.Root.Alloc

/-! `Root::info`, the cluster view of the admin service (`diagnosis::Metadata`). Each node is
shown with the replicas it holds of every group but the root group, each with the raft role
of the first replica state of its id; each group with all its replicas and its shards. A
node's entries are taken by filtering the replicas of all groups on the node's id, so over
the nodes of a schema whose node ids differ, every replica of a user group on a listed node
appears exactly once. The schema's answers are outcomes the call is given. -/
namespace Sekas.Root
open Sekas.Engine Sekas.Bootstrap

/-- `NodeDesc` with the `status` that `info` shows (the `i32` of `NodeStatus`). -/
structure FullNodeDesc extends NodeDesc where
  status : Int
  deriving DecidableEq, Repr

/-- `ShardDesc` with its range; `info` unwraps it. -/
structure FullShardDesc extends ShardDesc where
  range : Option (Bytes × Bytes)
  deriving DecidableEq, Repr

/-- `GroupDesc` with its replicas and shards. -/
structure FullGroupDesc extends GroupDesc where
  replicas : List FullReplicaDesc
  shards : List FullShardDesc
  deriving DecidableEq, Repr

namespace Diagnosis

structure Collection where
  id : UInt64
  name : String
  deriving DecidableEq, Repr

structure Database where
  id : UInt64
  name : String
  collections : List Collection
  deriving DecidableEq, Repr

structure NodeReplica where
  group : UInt64
  id : UInt64
  raftRole : Int
  replicaRole : ReplicaRole
  deriving DecidableEq, Repr

structure Node where
  addr : String
  id : UInt64
  replicas : List NodeReplica
  leaders : List NodeReplica
  status : Int
  deriving DecidableEq, Repr

structure GroupReplica where
  id : UInt64
  node : UInt64
  raftRole : Int
  replicaRole : ReplicaRole
  term : UInt64
  deriving DecidableEq, Repr

structure GroupShard where
  collection : UInt64
  id : UInt64
  range : String
  deriving DecidableEq, Repr

structure Group where
  epoch : UInt64
  id : UInt64
  replicas : List GroupReplica
  shards : List GroupShard
  deriving DecidableEq, Repr

structure Metadata where
  databases : List Database
  nodes : List Node
  groups : List Group
  balanced : Bool
  deriving DecidableEq, Repr

end Diagnosis

structure InfoAwaits where
  schema : Except Error Unit
  listNode : Except Error (List FullNodeDesc)
  listGroup : Except Error (List FullGroupDesc)
  listReplicaState : Except Error (List ReplicaState)
  listDatabase : Except Error (List DatabaseDesc)
  listCollection : Except Error (List CollectionDesc)
  needReconcile : Except Error Bool

def userReplicas (rootGroupId : UInt64) (groups : List FullGroupDesc) :
    List (FullReplicaDesc × UInt64) :=
  (groups.filter (·.id != rootGroupId)).flatMap fun g => g.replicas.map (·, g.id)

def stateOf (states : List ReplicaState) (replicaId : UInt64) : Option ReplicaState :=
  states.find? (·.replicaId == replicaId)

def nodeReplica (states : List ReplicaState) (rg : FullReplicaDesc × UInt64) :
    Diagnosis.NodeReplica :=
  ⟨rg.2, rg.1.id, ((stateOf states rg.1.id).map (·.role)).getD (-1), rg.1.role⟩

def nodeView (leaderRole : Int) (replicas : List (FullReplicaDesc × UInt64))
    (states : List ReplicaState) (n : FullNodeDesc) : Diagnosis.Node :=
  let nodeReplicas := (replicas.filter (·.1.nodeId == n.id)).map (nodeReplica states)
  ⟨n.addr, n.id, nodeReplicas, nodeReplicas.filter (·.raftRole == leaderRole), n.status⟩

def databaseView (collections : List CollectionDesc) (d : DatabaseDesc) : Diagnosis.Database :=
  ⟨d.id, d.name, (collections.filter (·.db == d.id)).map fun c => ⟨c.id, c.name⟩⟩

/-- `{:?}` of a `Vec<u8>`. -/
def debugBytes (bytes : Bytes) : String :=
  "[" ++ ", ".intercalate (bytes.map fun b => toString b.toNat) ++ "]"

def shardView (s : FullShardDesc) : Option Diagnosis.GroupShard :=
  s.range.map fun (start, stop) =>
    ⟨s.collectionId, s.id, "range: " ++ debugBytes start ++ " to " ++ debugBytes stop⟩

def groupReplica (states : List ReplicaState) (r : FullReplicaDesc) : Diagnosis.GroupReplica :=
  let s := stateOf states r.id
  ⟨r.id, r.nodeId, (s.map (·.role)).getD (-1), r.role, (s.map (·.term)).getD 0⟩

def groupView (states : List ReplicaState) (g : FullGroupDesc) : Option Diagnosis.Group :=
  (g.shards.mapM shardView).map fun shards => ⟨g.epoch, g.id, g.replicas.map (groupReplica states), shards⟩

/-- `Root::info`; `none` where it panics. -/
def info (rootGroupId : UInt64) (leaderRole : Int) (o : InfoAwaits) :
    Option (Except Error Diagnosis.Metadata) :=
  let listed := do
    o.schema
    let nodes ← o.listNode
    let groups ← o.listGroup
    let states ← o.listReplicaState
    let dbs ← o.listDatabase
    let collections ← o.listCollection
    let needReconcile ← o.needReconcile
    pure (nodes, groups, states, dbs, collections, needReconcile)
  match listed with
  | .error err => some (.error err)
  | .ok (nodes, groups, states, dbs, collections, needReconcile) =>
    (groups.mapM (groupView states)).map fun groupViews =>
      .ok ⟨dbs.map (databaseView collections),
        nodes.map (nodeView leaderRole (userReplicas rootGroupId groups) states), groupViews,
        !needReconcile⟩

theorem info_of_listed (rootGroupId : UInt64) (leaderRole : Int) (nodes : List FullNodeDesc)
    (groups : List FullGroupDesc) (states : List ReplicaState) (dbs : List DatabaseDesc)
    (collections : List CollectionDesc) (needReconcile : Bool) :
    info rootGroupId leaderRole
        ⟨.ok (), .ok nodes, .ok groups, .ok states, .ok dbs, .ok collections, .ok needReconcile⟩ =
      (groups.mapM (groupView states)).map fun groupViews =>
        .ok ⟨dbs.map (databaseView collections),
          nodes.map (nodeView leaderRole (userReplicas rootGroupId groups) states), groupViews,
          !needReconcile⟩ := rfl

theorem isSome_mapM {f : α → Option β} :
    ∀ {l : List α}, (l.mapM f).isSome ↔ ∀ a ∈ l, (f a).isSome
  | [] => iff_of_true rfl nofun
  | a :: l => by
    rw [List.mapM_cons, List.forall_mem_cons, ← isSome_mapM]
    cases f a <;> cases l.mapM f <;> simp

theorem map_of_mapM_eq_some {f : α → Option β} {k : β → γ} {k' : α → γ}
    (hk : ∀ a b, f a = some b → k b = k' a) :
    ∀ {l : List α} {l' : List β}, l.mapM f = some l' → l'.map k = l.map k'
  | [], _, h => by cases h; rfl
  | a :: l, l', h => by
    rw [List.mapM_cons] at h
    obtain ⟨b, hb, h⟩ := Option.bind_eq_some.1 h
    obtain ⟨bs, hbs, h⟩ := Option.bind_eq_some.1 h
    cases h
    rw [List.map_cons, List.map_cons, hk a b hb, map_of_mapM_eq_some hk hbs]

theorem isSome_groupView {states : List ReplicaState} {g : FullGroupDesc} :
    (groupView states g).isSome ↔ ∀ s ∈ g.shards, s.range.isSome := by
  simp only [groupView, Option.isSome_map', isSome_mapM, shardView]

theorem id_of_groupView {states : List ReplicaState} {g : FullGroupDesc} {v : Diagnosis.Group}
    (h : groupView states g = some v) : v.id = g.id := by
  obtain ⟨_, -, rfl⟩ := Option.map_eq_some.1 h
  rfl

theorem perm_flatMap_filter_key {α β : Type} [DecidableEq β] (key : α → β) (l : List α) :
    ∀ {ks : List β}, ks.Nodup →
      (ks.flatMap fun k => l.filter (key · == k)).Perm (l.filter fun x => key x ∈ ks)
  | [], _ => by simp
  | k :: ks, hnd => by
    rw [List.nodup_cons] at hnd
    have h₁ : (l.filter fun x => key x ∈ k :: ks).filter (key · == k) = l.filter (key · == k) := by
      rw [List.filter_filter]
      exact List.filter_congr fun x _ => by by_cases hx : key x = k <;> simp [hx]
    have h₂ : (l.filter fun x => key x ∈ k :: ks).filter (fun x => !(key x == k)) =
        l.filter fun x => key x ∈ ks := by
      rw [List.filter_filter]
      refine List.filter_congr fun x _ => ?_
      by_cases hx : key x = k <;> simp [hx, hnd.1]
    have hsplit := List.filter_append_perm (key · == k) (l.filter fun x => key x ∈ k :: ks)
    rw [h₁, h₂] at hsplit
    rw [List.flatMap_cons]
    exact ((perm_flatMap_filter_key key l hnd.2).append_left _).trans hsplit

theorem nodeView_replicas_perm (leaderRole : Int) (replicas : List (FullReplicaDesc × UInt64))
    (states : List ReplicaState) {nodes : List FullNodeDesc} (hnd : (nodes.map (·.id)).Nodup) :
    ((nodes.map (nodeView leaderRole replicas states)).flatMap (·.replicas)).Perm
      ((replicas.filter fun rg => rg.1.nodeId ∈ nodes.map (·.id)).map (nodeReplica states)) := by
  have hkeys := (perm_flatMap_filter_key (·.1.nodeId) replicas hnd).map (nodeReplica states)
  rw [List.map_flatMap, List.flatMap_map] at hkeys
  rw [List.flatMap_map]
  exact hkeys

theorem userReplicas_on_listed (rootGroupId : UInt64) (groups : List FullGroupDesc)
    (states : List ReplicaState) (ids : List UInt64) :
    ((userReplicas rootGroupId groups).filter fun rg => rg.1.nodeId ∈ ids).map (nodeReplica states) =
      (groups.filter (·.id != rootGroupId)).flatMap fun g =>
        (g.replicas.filter (·.nodeId ∈ ids)).map fun r => nodeReplica states (r, g.id) := by
  simp only [userReplicas, List.filter_flatMap, List.filter_map, List.map_flatMap, List.map_map,
    Function.comp_def]

/-- `info` panics exactly when a shard has no range; otherwise, with distinct node ids, the node
entries list every user replica on a listed node exactly once. -/
theorem info_lists_each_user_replica_once (rootGroupId : UInt64) (leaderRole : Int)
    (nodes : List FullNodeDesc) (groups : List FullGroupDesc) (states : List ReplicaState)
    (dbs : List DatabaseDesc) (collections : List CollectionDesc) (needReconcile : Bool)
    (hnd : (nodes.map (·.id)).Nodup) :
    let o : InfoAwaits := ⟨.ok (), .ok nodes, .ok groups, .ok states, .ok dbs, .ok collections,
      .ok needReconcile⟩
    (info rootGroupId leaderRole o = none ↔ ∃ g ∈ groups, ∃ s ∈ g.shards, s.range = none) ∧
    ∀ meta, info rootGroupId leaderRole o = some (.ok meta) →
      meta.groups.map (·.id) = groups.map (·.id) ∧ meta.balanced = !needReconcile ∧
      (meta.nodes.flatMap (·.replicas)).Perm
        ((groups.filter (·.id != rootGroupId)).flatMap fun g =>
          (g.replicas.filter (·.nodeId ∈ nodes.map (·.id))).map fun r => nodeReplica states (r, g.id)) := by
  intro o
  rw [info_of_listed]
  refine ⟨?_, fun meta h => ?_⟩
  · rw [Option.map_eq_none', ← Option.not_isSome_iff_eq_none, isSome_mapM]
    simp only [isSome_groupView, not_forall, Option.not_isSome_iff_eq_none, exists_prop]
  · obtain ⟨groupViews, hv, hmeta⟩ := Option.map_eq_some.1 h
    cases hmeta
    refine ⟨map_of_mapM_eq_some (fun _ _ => id_of_groupView) hv, rfl, ?_⟩
    rw [← userReplicas_on_listed]
    exact nodeView_replicas_perm leaderRole _ states hnd

def twoNodes : List FullNodeDesc := [⟨⟨1, "node-1"⟩, 0⟩, ⟨⟨2, "node-2"⟩, 0⟩]

def twoGroups : List FullGroupDesc :=
  [⟨⟨0, 1⟩, [⟨⟨1⟩, 10, .voter⟩], [⟨⟨1, 0⟩, some ([], [])⟩]⟩,
   ⟨⟨1, 1⟩, [⟨⟨1⟩, 11, .voter⟩, ⟨⟨2⟩, 12, .voter⟩, ⟨⟨3⟩, 13, .learner⟩], [⟨⟨2, 5⟩, some ([], [255])⟩]⟩]

theorem info_lists_replicas_of_two_nodes :
    (twoNodes.map (·.id)).Nodup ∧
      let o : InfoAwaits := ⟨.ok (), .ok twoNodes, .ok twoGroups, .ok [], .ok [], .ok [], .ok false⟩
      (info 0 2 o = none ↔ ∃ g ∈ twoGroups, ∃ s ∈ g.shards, s.range = none) ∧
      ∀ meta, info 0 2 o = some (.ok meta) →
        meta.groups.map (·.id) = twoGroups.map (·.id) ∧ meta.balanced = !false ∧
        (meta.nodes.flatMap (·.replicas)).Perm
          ((twoGroups.filter (·.id != 0)).flatMap fun g =>
            (g.replicas.filter (·.nodeId ∈ twoNodes.map (·.id))).map fun r => nodeReplica [] (r, g.id)) :=
  ⟨by decide, info_lists_each_user_replica_once 0 2 twoNodes twoGroups [] [] [] false (by decide)⟩

/-- Node 1 lists replica 11 and not the root group's 10; replica 13, on node 3, is under no
node. -/
example : (info 0 2 ⟨.ok (), .ok twoNodes, .ok twoGroups, .ok [], .ok [], .ok [], .ok false⟩).map
    (·.map fun meta => meta.nodes.map fun n => n.replicas.map (·.id)) = some (.ok [[11], [12]]) :=
  rfl

end Sekas.Root
