import Sekas.Bootstrap
import Sekas.Root.Heartbeat

/-! `Root::join`, and a joining node's requests reaching it. The root adds the node to the
schema and tells the watchers before the awaits that can still fail (`cluster_id`, its
`unwrap`, `get_root_desc`); the node, in `try_join_cluster`, retries every request whose reply
does not reach it. So the root holds one node record per request that got past `add_node`,
and the node serves under the id of the last one only, also across restarts whose ident save
failed. -/
namespace Sekas.Root
open Sekas.Engine Sekas.Bootstrap

structure JoinAwaits where
  schema : Except Error Unit
  addNode : Except Error UInt64
  clusterId : Except Error (Option (List UInt8))
  getRootDesc : Except Error RootDesc
  now : Nat

structure JoinedRoot where
  nodes : List NodeDesc
  notified : List NodeDesc
  heartbeatOps : List HeartbeatOp

def JoinAwaits.added (o : JoinAwaits) (addr : String) : List NodeDesc :=
  match o.schema, o.addNode with
  | .ok (), .ok id => [⟨id, addr⟩]
  | _, _ => []

theorem addr_of_mem_added {o : JoinAwaits} {addr : String} {node : NodeDesc}
    (h : node ∈ o.added addr) : node.addr = addr := by
  unfold JoinAwaits.added at h
  split at h
  · rw [List.mem_singleton.mp h]
  · cases h

/-- `Root::join`, with `ReplicaNodes::move_first` (not under src/) as `moveFirst`; `none`
where `unwrap` panics on a schema without a cluster id. The node's capacity is left out. -/
def join (moveFirst : List NodeDesc → UInt64 → List NodeDesc) (o : JoinAwaits) (addr : String)
    (st : JoinedRoot) : Option (Except Error (List UInt8 × NodeDesc × RootDesc)) × JoinedRoot :=
  match o.schema with
  | .error err => (some (.error err), st)
  | .ok () =>
    match o.addNode with
    | .error err => (some (.error err), st)
    | .ok id =>
      let node : NodeDesc := ⟨id, addr⟩
      let st := { st with nodes := st.nodes ++ [node], notified := st.notified ++ [node] }
      match o.clusterId with
      | .error err => (some (.error err), st)
      | .ok none => (none, st)
      | .ok (some clusterId) =>
        match o.getRootDesc with
        | .error err => (some (.error err), st)
        | .ok root =>
          let root := { root with rootNodes := moveFirst root.rootNodes node.id }
          (some (.ok (clusterId, node, root)),
            { st with heartbeatOps := st.heartbeatOps ++ [.trySchedule [⟨node.id⟩] o.now] })

structure JoinAttempt where
  awaits : JoinAwaits
  delivered : Bool
  transportError : Error

def JoinAttempt.answer (a : JoinAttempt) :
    Option (Except Error (List UInt8 × NodeDesc × RootDesc)) → Except Error JoinNodeResponse
  | some (.ok (clusterId, node, root)) =>
    if a.delivered then .ok ⟨clusterId, node.id, some root⟩ else .error a.transportError
  | some (.error err) => .error err
  | none => .error a.transportError

def joinSession (moveFirst : List NodeDesc → UInt64 → List NodeDesc) (addr : String)
    (st : JoinedRoot) : List JoinAttempt → JoinedRoot × List (Except Error JoinNodeResponse)
  | [] => (st, [])
  | a :: attempts =>
    let r := join moveFirst a.awaits addr st
    match a.answer r.1 with
    | .ok res => (r.2, [.ok res])
    | .error err =>
      let s := joinSession moveFirst addr r.2 attempts
      (s.1, .error err :: s.2)

theorem join_nodes (moveFirst : List NodeDesc → UInt64 → List NodeDesc) (o : JoinAwaits)
    (addr : String) (st : JoinedRoot) :
    (join moveFirst o addr st).2.nodes = st.nodes ++ o.added addr ∧
      (join moveFirst o addr st).2.notified = st.notified ++ o.added addr := by
  rcases o with ⟨_ | ⟨⟩, _ | id, cid, root, now⟩
  · exact ⟨(List.append_nil _).symm, (List.append_nil _).symm⟩
  · exact ⟨(List.append_nil _).symm, (List.append_nil _).symm⟩
  · exact ⟨(List.append_nil _).symm, (List.append_nil _).symm⟩
  · unfold join
    rcases cid with _ | _ | _
    · exact ⟨rfl, rfl⟩
    · exact ⟨rfl, rfl⟩
    · rcases root with _ | _ <;> exact ⟨rfl, rfl⟩

theorem added_of_join_ok {moveFirst : List NodeDesc → UInt64 → List NodeDesc} {o : JoinAwaits}
    {addr : String} {st : JoinedRoot} {clusterId : List UInt8} {node : NodeDesc}
    {root : RootDesc} (h : (join moveFirst o addr st).1 = some (.ok (clusterId, node, root))) :
    o.added addr = [node] := by
  rcases o with ⟨_ | ⟨⟩, _ | id, _ | _ | _, _ | _, now⟩ <;> cases h
  rfl

theorem node_of_answer_ok {a : JoinAttempt}
    {r : Option (Except Error (List UInt8 × NodeDesc × RootDesc))} {res : JoinNodeResponse}
    (h : a.answer r = .ok res) :
    ∃ clusterId node root, r = some (.ok (clusterId, node, root)) ∧ res.nodeId = node.id := by
  rcases r with _ | _ | ⟨clusterId, node, root⟩
  · cases h
  · cases h
  · dsimp only [JoinAttempt.answer] at h
    split at h
    · cases h
      exact ⟨clusterId, node, root, rfl, rfl⟩
    · cases h

theorem joinSession_added (moveFirst : List NodeDesc → UInt64 → List NodeDesc) (addr : String) :
    ∀ (st : JoinedRoot) (attempts : List JoinAttempt),
      let s := joinSession moveFirst addr st attempts
      let added := (attempts.take s.2.length).flatMap (·.awaits.added addr)
      s.1.nodes = st.nodes ++ added ∧ s.1.notified = st.notified ++ added ∧
        ∀ req backoff res, (joinLoop req backoff s.2).1 = some res →
          some res.nodeId = added.getLast?.map (·.id)
  | st, [] => ⟨(List.append_nil _).symm, (List.append_nil _).symm, fun _ _ _ h => nomatch h⟩
  | st, a :: attempts => by
    obtain ⟨hn, hnt⟩ := join_nodes moveFirst a.awaits addr st
    dsimp only [joinSession]
    split
    · next res hans =>
      obtain ⟨_, node, _, hr, hid⟩ := node_of_answer_ok hans
      have hadded : a.awaits.added addr = [node] := added_of_join_ok hr
      refine ⟨by simpa using hn, by simpa using hnt, fun req backoff res' h => ?_⟩
      cases h
      simp [hadded, hid]
    · obtain ⟨ih₁, ih₂, ih₃⟩ := joinSession_added moveFirst addr
        (join moveFirst a.awaits addr st).2 attempts
      refine ⟨by simp [ih₁, hn], by simp [ih₂, hnt], fun req backoff res h => ?_⟩
      have hl := ih₃ req _ res h
      obtain ⟨x, hx, -⟩ := Option.map_eq_some'.mp hl.symm
      simp only [List.length_cons, List.take_succ_cons, List.flatMap_cons, List.getLast?_append, hx,
        Option.or_some]
      rw [hx] at hl
      exact hl

/-- A node that keeps asking to join gains one record per request past `add_node`; with fresh ids,
its ident names the last of them and no other record. -/
theorem join_retries_register_node_again (moveFirst : List NodeDesc → UInt64 → List NodeDesc)
    (addr : String) (st : JoinedRoot) (attempts : List JoinAttempt)
    (hfresh : ((st.nodes ++ attempts.flatMap (·.awaits.added addr)).map (·.id)).Nodup) :
    let s := joinSession moveFirst addr st attempts
    let added := (attempts.take s.2.length).flatMap (·.awaits.added addr)
    s.1.nodes = st.nodes ++ added ∧ s.1.notified = st.notified ++ added ∧
      (∀ node ∈ added, node.addr = addr) ∧
      ∀ (o : Outcomes) joinList cpuNums disk nodeIdent,
        (tryJoinCluster { o with joins := s.2 } addr joinList cpuNums disk).result =
          some (.ok nodeIdent) →
        some nodeIdent.nodeId = added.getLast?.map (·.id) ∧
        ∀ node ∈ s.1.nodes, node.id = nodeIdent.nodeId → some node = added.getLast? := by
  intro s added
  obtain ⟨hn, hnt, hlast⟩ := joinSession_added moveFirst addr st attempts
  have hsub : (st.nodes ++ added).Sublist (st.nodes ++ attempts.flatMap (·.awaits.added addr)) := by
    refine List.Sublist.append_left ?_ _
    conv_rhs => rw [← List.take_append_drop s.2.length attempts, List.flatMap_append]
    exact List.sublist_append_left _ _
  refine ⟨hn, hnt, fun node h => ?_, fun o joinList cpuNums disk nodeIdent h => ?_⟩
  · obtain ⟨a, -, ha⟩ := List.mem_flatMap.mp h
    exact addr_of_mem_added ha
  · obtain ⟨res, hres, rfl⟩ := tryJoinCluster_ok h
    have hid := hlast _ _ _ hres
    obtain ⟨x, hx, hxid⟩ := Option.map_eq_some'.mp hid.symm
    refine ⟨hid, fun node hnode he => ?_⟩
    rw [hn] at hnode
    rw [hx, List.inj_on_of_nodup_map (hfresh.sublist (hsub.map _)) hnode
      (List.mem_append_right _ (List.mem_of_getLast?_eq_some hx)) (he.trans hxid.symm)]

structure JoinStart where
  config : Config
  outcomes : Outcomes
  attempts : List JoinAttempt

def JoinStart.records (j : JoinStart) : List NodeDesc :=
  j.attempts.flatMap (·.awaits.added j.config.addr)

def rejoins (moveFirst : List NodeDesc → UInt64 → List NodeDesc) (c : Constants) :
    Disk → JoinedRoot → List JoinStart → List Start × JoinedRoot
  | _, st, [] => ([], st)
  | disk, st, j :: js =>
    let answers := (joinSession moveFirst j.config.addr st j.attempts).2
    let start := bootstrapOrJoinCluster c j.config { j.outcomes with joins := answers } disk
    let st := (joinSession moveFirst j.config.addr st (j.attempts.take start.sent.length)).1
    let rest := rejoins moveFirst c start.disk st js
    (start :: rest.1, rest.2)

theorem flatMap_take_isPrefix_flatMap {α β : Type} (f : α → List β) (n : Nat) (l : List α) :
    (l.take n).flatMap f <+: l.flatMap f :=
  ⟨(l.drop n).flatMap f, by rw [← List.flatMap_append, List.take_append_drop]⟩

theorem joinLoop_joinSession (moveFirst : List NodeDesc → UInt64 → List NodeDesc)
    (addr : String) (req : JoinNodeRequest) :
    ∀ (st : JoinedRoot) (attempts : List JoinAttempt) (backoff : UInt64),
      (joinLoop req backoff (joinSession moveFirst addr st attempts).2).2.1.length =
        (joinSession moveFirst addr st attempts).2.length
  | _, [], _ => rfl
  | st, a :: attempts, backoff => by
    dsimp only [joinSession]
    split
    · rfl
    · exact congrArg (· + 1) (joinLoop_joinSession moveFirst addr req _ attempts _)

theorem joinSession_take (moveFirst : List NodeDesc → UInt64 → List NodeDesc) (addr : String) :
    ∀ (st : JoinedRoot) (attempts : List JoinAttempt),
      joinSession moveFirst addr st
          (attempts.take (joinSession moveFirst addr st attempts).2.length) =
        joinSession moveFirst addr st attempts
  | _, [] => rfl
  | st, a :: attempts => by
    dsimp only [joinSession]
    split
    · next hans => simp only [List.length_singleton, List.take_succ_cons, List.take_zero,
        joinSession, hans]
    · next err hans =>
      rw [List.length_cons, List.take_succ_cons]
      simp only [joinSession, hans, joinSession_take moveFirst addr _ attempts]

def Serves (st : JoinedRoot) (disk : Disk) : Prop :=
  ∀ nodeIdent, disk.ident = some nodeIdent → st.nodes.getLast?.map (·.id) = some nodeIdent.nodeId

theorem rejoin_step (moveFirst : List NodeDesc → UInt64 → List NodeDesc) (c : Constants)
    (j : JoinStart) (hinit : j.config.init = false) (disk : Disk) (st : JoinedRoot) :
    let start := bootstrapOrJoinCluster c j.config
      { j.outcomes with joins := (joinSession moveFirst j.config.addr st j.attempts).2 } disk
    let st' := (joinSession moveFirst j.config.addr st (j.attempts.take start.sent.length)).1
    (disk.ident.isSome → start.disk = disk ∧ st' = st) ∧
    (Serves st disk → Serves st' start.disk) ∧
    ∃ added, st'.nodes = st.nodes ++ added ∧ added.Sublist j.records := by
  intro start st'
  have hgrow : ∃ added, st'.nodes = st.nodes ++ added ∧ added.Sublist j.records := by
    refine ⟨_, (joinSession_added moveFirst j.config.addr st _).1, ?_⟩
    exact (flatMap_take_isPrefix_flatMap _ _ _).sublist.trans (flatMap_take_isPrefix_flatMap _ _ _).sublist
  have hreload : disk.ident.isSome → start.disk = disk ∧ st' = st := fun hd => by
    obtain ⟨ident, hid⟩ := Option.isSome_iff_exists.1 hd
    have hr := bootstrapOrJoinCluster_reloads hid c j.config
      { j.outcomes with joins := (joinSession moveFirst j.config.addr st j.attempts).2 }
    exact ⟨hr.disk_eq, by simp only [st', start, hr.sent_eq, List.length_nil, List.take_zero]; rfl⟩
  refine ⟨hreload, fun hserves => ?_, hgrow⟩
  cases hd : disk.ident
  case some =>
    obtain ⟨hdisk, hst⟩ := hreload (by rw [hd]; rfl)
    rw [hdisk, hst]
    exact hserves
  intro nodeIdent h
  rcases bootstrapOrJoinCluster_cases c j.config
      { j.outcomes with joins := (joinSession moveFirst j.config.addr st j.attempts).2 } disk with
    ⟨_, he⟩ | ⟨_, hd', -⟩ | ⟨-, hi, -⟩ | ⟨-, -, he⟩
  · rw [show start = _ from he, hd] at h; cases h
  · rw [hd] at hd'; cases hd'
  · rw [hinit] at hi; cases hi
  rw [show start = _ from he] at h
  obtain ⟨res, hres, rfl⟩ := tryJoinCluster_saved hd h
  have hlist : j.config.joinList.filter (· != j.config.addr) ≠ [] := fun hl => by
    rw [tryJoinCluster_of_filter_eq_nil hl, hd] at h; cases h
  have hsent : start.sent.length = (joinSession moveFirst j.config.addr st j.attempts).2.length := by
    rw [show start = _ from he, (tryJoinCluster_sent_sleeps _ _ _ hlist).1, joinLoop_joinSession]
  obtain ⟨hn, -, hlast⟩ := joinSession_added moveFirst j.config.addr st j.attempts
  have hid := hlast _ _ _ hres
  obtain ⟨x, hx, hxid⟩ := Option.map_eq_some'.mp hid.symm
  simp only [st', hsent, joinSession_take, hn, List.getLast?_append, hx, Option.or_some,
    Option.map_some', hxid]

section Rejoins
variable (moveFirst : List NodeDesc → UInt64 → List NodeDesc) (c : Constants)

theorem rejoins_of_ident {disk : Disk} (hd : disk.ident.isSome) :
    ∀ (st : JoinedRoot) (js : List JoinStart), (∀ j ∈ js, j.config.init = false) →
      (rejoins moveFirst c disk st js).2 = st ∧ ∀ s ∈ (rejoins moveFirst c disk st js).1, s.disk = disk
  | _, [], _ => ⟨rfl, fun _ h => (List.not_mem_nil _ h).elim⟩
  | st, j :: js, hinit => by
    obtain ⟨hdisk, hst⟩ := (rejoin_step moveFirst c j (hinit j (List.mem_cons_self _ _)) disk st).1 hd
    dsimp only [rejoins]
    rw [hdisk, hst]
    obtain ⟨ih₁, ih₂⟩ := rejoins_of_ident hd st js fun j hj => hinit j (List.mem_cons_of_mem _ hj)
    exact ⟨ih₁, fun s hs => (List.mem_cons.1 hs).elim (fun h => h ▸ hdisk) (ih₂ s)⟩

theorem rejoins_serves :
    ∀ (disk : Disk) (st : JoinedRoot) (js : List JoinStart), (∀ j ∈ js, j.config.init = false) →
      Serves st disk → ∀ s ∈ (rejoins moveFirst c disk st js).1, Serves (rejoins moveFirst c disk st js).2 s.disk
  | _, _, [], _, _ => fun _ h => (List.not_mem_nil _ h).elim
  | disk, st, j :: js, hinit, hserves => by
    have htail : ∀ j ∈ js, j.config.init = false := fun j h => hinit j (List.mem_cons_of_mem _ h)
    have hstep := (rejoin_step moveFirst c j (hinit j (List.mem_cons_self _ _)) disk st).2.1 hserves
    dsimp only [rejoins]
    rintro s (_ | ⟨_, hs⟩)
    · intro nodeIdent h
      rw [(rejoins_of_ident moveFirst c (by rw [h]; rfl) _ js htail).1]
      exact hstep nodeIdent h
    · exact rejoins_serves _ _ js htail hstep s hs

theorem rejoins_nodes :
    ∀ (disk : Disk) (st : JoinedRoot) (js : List JoinStart), (∀ j ∈ js, j.config.init = false) →
      ∃ added, (rejoins moveFirst c disk st js).2.nodes = st.nodes ++ added ∧
        added.Sublist (js.flatMap JoinStart.records)
  | _, st, [], _ => ⟨[], (List.append_nil _).symm, List.Sublist.slnil⟩
  | disk, st, j :: js, hinit => by
    obtain ⟨-, -, added, hn, hsub⟩ :=
      rejoin_step moveFirst c j (hinit j (List.mem_cons_self _ _)) disk st
    obtain ⟨rest, hrest, hsub'⟩ := rejoins_nodes _ _ js fun j h => hinit j (List.mem_cons_of_mem _ h)
    dsimp only [rejoins]
    rw [hrest, hn, List.append_assoc, List.flatMap_cons]
    exact ⟨_, rfl, hsub.append hsub'⟩

/-- Over every run of restarts from a disk without an ident, with fresh ids, a saved ident names
the last node record the root holds and no other. -/
theorem restarts_serve_last_registered_node (disk : Disk) (st : JoinedRoot) (js : List JoinStart)
    (hdisk : disk.ident = none) (hinit : ∀ j ∈ js, j.config.init = false)
    (hfresh : ((st.nodes ++ js.flatMap JoinStart.records).map (·.id)).Nodup) :
    let r := rejoins moveFirst c disk st js
    ∀ s ∈ r.1, ∀ nodeIdent, s.disk.ident = some nodeIdent →
      r.2.nodes.getLast?.map (·.id) = some nodeIdent.nodeId ∧
      ∀ node ∈ r.2.nodes, node.id = nodeIdent.nodeId → some node = r.2.nodes.getLast? := by
  intro r s hs nodeIdent h
  have hlast := rejoins_serves moveFirst c disk st js hinit (fun _ h => by rw [hdisk] at h; cases h)
    s hs nodeIdent h
  obtain ⟨added, hn, hsub⟩ := rejoins_nodes moveFirst c disk st js hinit
  have hnd : (r.2.nodes.map (·.id)).Nodup := by
    rw [hn]
    exact hfresh.sublist ((hsub.append_left _).map _)
  refine ⟨hlast, fun node hnode he => ?_⟩
  obtain ⟨x, hx, hxid⟩ := Option.map_eq_some'.mp hlast
  rw [hx, List.inj_on_of_nodup_map hnd hnode (List.mem_of_getLast?_eq_some hx) (he.trans hxid.symm)]

end Rejoins

def retriedJoin : List JoinAttempt :=
  [⟨⟨.ok (), .ok 7, .ok (some [1]), .error .notRootLeader, 0⟩, true, .notRootLeader⟩,
   ⟨⟨.ok (), .ok 8, .ok (some [1]), .ok ⟨1, []⟩, 3⟩, true, .notRootLeader⟩]

def emptyRoot : JoinedRoot := ⟨[], [], []⟩

theorem join_retries_register_node_twice :
    (joinSession (fun nodes _ => nodes) "node-2" emptyRoot retriedJoin).1.nodes =
      [⟨7, "node-2"⟩, ⟨8, "node-2"⟩] ∧
    let s := joinSession (fun nodes _ => nodes) "node-2" emptyRoot retriedJoin
    let added := (retriedJoin.take s.2.length).flatMap (·.awaits.added "node-2")
    s.1.nodes = emptyRoot.nodes ++ added ∧ s.1.notified = emptyRoot.notified ++ added ∧
      (∀ node ∈ added, node.addr = "node-2") ∧
      ∀ (o : Outcomes) joinList cpuNums disk nodeIdent,
        (tryJoinCluster { o with joins := s.2 } "node-2" joinList cpuNums disk).result =
          some (.ok nodeIdent) →
        some nodeIdent.nodeId = added.getLast?.map (·.id) ∧
        ∀ node ∈ s.1.nodes, node.id = nodeIdent.nodeId → some node = added.getLast? :=
  ⟨rfl, join_retries_register_node_again _ "node-2" emptyRoot retriedJoin (by decide)⟩

def saveFailsThenRejoins : List JoinStart :=
  [⟨⟨"node-2", false, ["node-1"], 4⟩,
    ⟨.ok (), .ok (), fun _ => .ok (), .ok (), .error (.other "no space left on device"), []⟩,
    [⟨⟨.ok (), .ok 7, .ok (some [1]), .ok ⟨1, []⟩, 0⟩, true, .notRootLeader⟩]⟩,
   ⟨⟨"node-2", false, ["node-1"], 4⟩, ⟨.ok (), .ok (), fun _ => .ok (), .ok (), .ok (), []⟩,
    [⟨⟨.ok (), .ok 8, .ok (some [1]), .ok ⟨1, []⟩, 5⟩, true, .notRootLeader⟩]⟩]

theorem restarts_serve_node_after_failed_save :
    (rejoins (fun nodes _ => nodes) ⟨1, 1, 2, 1⟩ ⟨none, [], none⟩ emptyRoot
        saveFailsThenRejoins).2.nodes = [⟨7, "node-2"⟩, ⟨8, "node-2"⟩] ∧
    let r := rejoins (fun nodes _ => nodes) ⟨1, 1, 2, 1⟩ ⟨none, [], none⟩ emptyRoot
      saveFailsThenRejoins
    ∀ s ∈ r.1, ∀ nodeIdent, s.disk.ident = some nodeIdent →
      r.2.nodes.getLast?.map (·.id) = some nodeIdent.nodeId ∧
      ∀ node ∈ r.2.nodes, node.id = nodeIdent.nodeId → some node = r.2.nodes.getLast? :=
  ⟨rfl, restarts_serve_last_registered_node _ _ _ _ _ rfl (by decide) (by decide)⟩

end Sekas.Root
