import Sekas.Engine

/-! Starting a server (`bootstrap.rs`). A node that finds its ident in the state engine
reloads its root descriptor and serves under that ident; otherwise `--init` bootstraps a
cluster of one node, and any other start asks the root to join one, retrying with a doubling
backoff. Every call the file makes elsewhere (the state engine, the node, the root client) is
an outcome the start is given; an error at a call also stands for a crash there, so a run of
restarts covers a process killed between any two writes. -/
namespace Sekas.Bootstrap
open Sekas.Engine

/-- `NodeIdent`. -/
structure NodeIdent where
  clusterId : List UInt8
  nodeId : UInt64
  deriving DecidableEq, Repr

/-- The fields of `NodeDesc` that bootstrapping sets; the others keep their defaults. -/
structure NodeDesc where
  id : UInt64
  addr : String
  deriving DecidableEq, Repr

/-- `RootDesc`. -/
structure RootDesc where
  epoch : UInt64
  rootNodes : List NodeDesc
  deriving DecidableEq, Repr

/-- `RootDesc::default()`. -/
def RootDesc.default : RootDesc := ⟨0, []⟩

/-- The fields of `JoinNodeResponse` that `try_join_cluster` reads. -/
structure JoinNodeResponse where
  clusterId : List UInt8
  nodeId : UInt64
  root : Option RootDesc
  deriving DecidableEq, Repr

/-- `JoinNodeRequest`: the node's address and a capacity of `cpu_nums` CPUs. -/
structure JoinNodeRequest where
  addr : String
  cpuNums : UInt32
  deriving DecidableEq, Repr

/-- The fields of `Config` that starting reads. -/
structure Config where
  addr : String
  init : Bool
  joinList : List String
  cpuNums : UInt32
  deriving DecidableEq, Repr

/-- `FIRST_NODE_ID`, `FIRST_REPLICA_ID`, `INIT_USER_REPLICA_ID` and `INITIAL_EPOCH` of
`crate::constants`, whose values are not under src/. -/
structure Constants where
  firstNodeId : UInt64
  firstReplicaId : UInt64
  initUserReplicaId : UInt64
  initialEpoch : UInt64

structure Disk where
  ident : Option NodeIdent
  replicas : List UInt64
  root : Option RootDesc
  deriving DecidableEq, Repr

structure Outcomes where
  readIdent : Except Error Unit
  reloadRootFromEngine : Except Error Unit
  createReplica : UInt64 → Except Error Unit
  updateRoot : Except Error Unit
  saveIdent : Except Error Unit
  joins : List (Except Error JoinNodeResponse)

structure Start where
  result : Option (Except Error NodeIdent)
  sent : List JoinNodeRequest
  sleeps : List UInt64
  disk : Disk

/-- `Node::create_replica`, as this file sees it: the replica exists afterwards. -/
def createReplica (o : Outcomes) (disk : Disk) (replicaId : UInt64) : Except Error Unit × Disk :=
  match o.createReplica replicaId with
  | .error err => (.error err, disk)
  | .ok () => (.ok (), { disk with replicas := disk.replicas ++ [replicaId] })

/-- `Node::update_root`. -/
def updateRoot (o : Outcomes) (disk : Disk) (rootDesc : RootDesc) : Except Error Unit × Disk :=
  match o.updateRoot with
  | .error err => (.error err, disk)
  | .ok () => (.ok (), { disk with root := some rootDesc })

/-- `save_node_ident`. -/
def saveNodeIdent (o : Outcomes) (disk : Disk) (clusterId : List UInt8) (nodeId : UInt64) :
    Except Error NodeIdent × Disk :=
  let nodeIdent : NodeIdent := ⟨clusterId, nodeId⟩
  match o.saveIdent with
  | .error err => (.error err, disk)
  | .ok () => (.ok nodeIdent, { disk with ident := some nodeIdent })

@[simp] theorem createReplica_ident (o : Outcomes) (disk : Disk) (replicaId : UInt64) :
    (createReplica o disk replicaId).2.ident = disk.ident := by
  unfold createReplica; split <;> rfl

@[simp] theorem updateRoot_ident (o : Outcomes) (disk : Disk) (rootDesc : RootDesc) :
    (updateRoot o disk rootDesc).2.ident = disk.ident := by
  unfold updateRoot; split <;> rfl

theorem saveNodeIdent_ident {o : Outcomes} {disk : Disk} {clusterId : List UInt8}
    {nodeId : UInt64} {nodeIdent : NodeIdent}
    (h : (saveNodeIdent o disk clusterId nodeId).1 = .ok nodeIdent) :
    (saveNodeIdent o disk clusterId nodeId).2.ident = some nodeIdent := by
  unfold saveNodeIdent at h ⊢; split at h
  · cases h
  · cases h; rfl

/-- `write_initial_cluster_data`: the root group's replica, the first user group's replica,
then a root descriptor naming this node as the only root node. -/
def writeInitialClusterData (c : Constants) (o : Outcomes) (addr : String) (disk : Disk) :
    Except Error Unit × Disk :=
  andThen (createReplica o disk c.firstReplicaId) fun () disk =>
  andThen (createReplica o disk c.initUserReplicaId) fun () disk =>
  updateRoot o disk ⟨c.initialEpoch, [⟨c.firstNodeId, addr⟩]⟩

/-- `bootstrap_cluster`. -/
def bootstrapCluster (c : Constants) (o : Outcomes) (addr : String) (disk : Disk) :
    Except Error NodeIdent × Disk :=
  andThen (writeInitialClusterData c o addr disk) fun () disk =>
  saveNodeIdent o disk [] c.firstNodeId

theorem bootstrapCluster_ident {c : Constants} {o : Outcomes} {addr : String} {disk : Disk}
    {nodeIdent : NodeIdent} (h : (bootstrapCluster c o addr disk).1 = .ok nodeIdent) :
    (bootstrapCluster c o addr disk).2.ident = some nodeIdent := by
  obtain ⟨_, -, he⟩ := eq_of_andThen_ok h
  rw [bootstrapCluster, he] at h ⊢
  exact saveNodeIdent_ident h

theorem saveNodeIdent_ok {o : Outcomes} {disk : Disk} {clusterId : List UInt8}
    {nodeId : UInt64} {nodeIdent : NodeIdent}
    (h : (saveNodeIdent o disk clusterId nodeId).1 = .ok nodeIdent) :
    nodeIdent = ⟨clusterId, nodeId⟩ := by
  unfold saveNodeIdent at h; split at h
  · cases h
  · cases h; rfl

def joined (o : Outcomes) (disk : Disk) (res : JoinNodeResponse) : Except Error NodeIdent × Disk :=
  let saved := saveNodeIdent o disk res.clusterId res.nodeId
  andThen (updateRoot o saved.2 (res.root.getD .default)) fun () disk => (saved.1, disk)

theorem joined_ident {o : Outcomes} {disk : Disk} {res : JoinNodeResponse}
    {nodeIdent : NodeIdent} (h : (joined o disk res).1 = .ok nodeIdent) :
    (joined o disk res).2.ident = some nodeIdent := by
  obtain ⟨_, -, he⟩ := eq_of_andThen_ok h
  rw [joined, he] at h ⊢
  exact (updateRoot_ident _ _ _).trans (saveNodeIdent_ident h)

theorem joined_ok {o : Outcomes} {disk : Disk} {res : JoinNodeResponse}
    {nodeIdent : NodeIdent} (h : (joined o disk res).1 = .ok nodeIdent) :
    nodeIdent = ⟨res.clusterId, res.nodeId⟩ := by
  obtain ⟨_, -, he⟩ := eq_of_andThen_ok h
  rw [joined, he] at h
  exact saveNodeIdent_ok h

def joinLoop (req : JoinNodeRequest) (backoff : UInt64) :
    List (Except Error JoinNodeResponse) →
      Option JoinNodeResponse × List JoinNodeRequest × List UInt64
  | [] => (none, [], [])
  | .ok res :: _ => (some res, [req], [])
  | .error _ :: joins =>
    let r := joinLoop req (min (backoff * 2) 120) joins
    (r.1, req :: r.2.1, backoff :: r.2.2)

/-- `try_join_cluster`. -/
def tryJoinCluster (o : Outcomes) (localAddr : String) (joinList : List String)
    (cpuNums : UInt32) (disk : Disk) : Start :=
  let joinList := joinList.filter (· != localAddr)
  if joinList.isEmpty then
    ⟨some (.error (.invalidArgument "the filtered join list is empty")), [], [], disk⟩
  else
    match joinLoop ⟨localAddr, cpuNums⟩ 1 o.joins with
    | (none, sent, sleeps) => ⟨none, sent, sleeps, disk⟩
    | (some res, sent, sleeps) =>
      let r := joined o disk res
      ⟨some r.1, sent, sleeps, r.2⟩

/-- `bootstrap_or_join_cluster`. -/
def bootstrapOrJoinCluster (c : Constants) (config : Config) (o : Outcomes) (disk : Disk) :
    Start :=
  match o.readIdent with
  | .error err => ⟨some (.error err), [], [], disk⟩
  | .ok () =>
    match disk.ident with
    | some nodeIdent =>
      match o.reloadRootFromEngine with
      | .error err => ⟨some (.error err), [], [], disk⟩
      | .ok () => ⟨some (.ok nodeIdent), [], [], disk⟩
    | none =>
      if config.init then
        let r := bootstrapCluster c o config.addr disk
        ⟨some r.1, [], [], r.2⟩
      else tryJoinCluster o config.addr config.joinList config.cpuNums disk

def restarts (c : Constants) (disk : Disk) : List (Config × Outcomes) → List Start
  | [] => []
  | (config, o) :: runs =>
    let s := bootstrapOrJoinCluster c config o disk
    s :: restarts c s.disk runs

theorem tryJoinCluster_of_filter_eq_nil {o : Outcomes} {localAddr : String}
    {joinList : List String} {cpuNums : UInt32} {disk : Disk}
    (h : joinList.filter (· != localAddr) = []) :
    tryJoinCluster o localAddr joinList cpuNums disk =
      ⟨some (.error (.invalidArgument "the filtered join list is empty")), [], [], disk⟩ := by
  simp only [tryJoinCluster, h, List.isEmpty_nil, if_true]

theorem tryJoinCluster_of_filter_ne_nil {o : Outcomes} {localAddr : String}
    {joinList : List String} {cpuNums : UInt32} {disk : Disk}
    (h : joinList.filter (· != localAddr) ≠ []) :
    tryJoinCluster o localAddr joinList cpuNums disk =
      let r := joinLoop ⟨localAddr, cpuNums⟩ 1 o.joins
      match r.1 with
      | none => ⟨none, r.2.1, r.2.2, disk⟩
      | some res => ⟨some (joined o disk res).1, r.2.1, r.2.2, (joined o disk res).2⟩ := by
  simp only [tryJoinCluster]
  rw [if_neg (by simpa only [List.isEmpty_iff] using h)]
  rcases joinLoop ⟨localAddr, cpuNums⟩ 1 o.joins with ⟨_ | res, sent, sleeps⟩ <;> rfl

theorem tryJoinCluster_sent_sleeps (o : Outcomes) {localAddr : String}
    {joinList : List String} (cpuNums : UInt32) (disk : Disk)
    (h : joinList.filter (· != localAddr) ≠ []) :
    (tryJoinCluster o localAddr joinList cpuNums disk).sent =
        (joinLoop ⟨localAddr, cpuNums⟩ 1 o.joins).2.1 ∧
      (tryJoinCluster o localAddr joinList cpuNums disk).sleeps =
        (joinLoop ⟨localAddr, cpuNums⟩ 1 o.joins).2.2 := by
  rw [tryJoinCluster_of_filter_ne_nil h]
  dsimp only
  split <;> exact ⟨rfl, rfl⟩

theorem tryJoinCluster_ident {o : Outcomes} {localAddr : String} {joinList : List String}
    {cpuNums : UInt32} {disk : Disk} {nodeIdent : NodeIdent}
    (h : (tryJoinCluster o localAddr joinList cpuNums disk).result = some (.ok nodeIdent)) :
    (tryJoinCluster o localAddr joinList cpuNums disk).disk.ident = some nodeIdent := by
  by_cases hl : joinList.filter (· != localAddr) = []
  · rw [tryJoinCluster_of_filter_eq_nil hl] at h; cases h
  · rw [tryJoinCluster_of_filter_ne_nil hl] at h ⊢
    generalize (joinLoop ⟨localAddr, cpuNums⟩ 1 o.joins) = r at h ⊢
    rcases r with ⟨_ | res, _⟩
    · cases h
    · exact joined_ident (Option.some.inj h)

theorem tryJoinCluster_ok {o : Outcomes} {localAddr : String} {joinList : List String}
    {cpuNums : UInt32} {disk : Disk} {nodeIdent : NodeIdent}
    (h : (tryJoinCluster o localAddr joinList cpuNums disk).result = some (.ok nodeIdent)) :
    ∃ res, (joinLoop ⟨localAddr, cpuNums⟩ 1 o.joins).1 = some res ∧
      nodeIdent = ⟨res.clusterId, res.nodeId⟩ := by
  by_cases hl : joinList.filter (· != localAddr) = []
  · rw [tryJoinCluster_of_filter_eq_nil hl] at h; cases h
  · rw [tryJoinCluster_of_filter_ne_nil hl] at h
    generalize (joinLoop ⟨localAddr, cpuNums⟩ 1 o.joins) = r at h ⊢
    rcases r with ⟨_ | res, _⟩
    · cases h
    · exact ⟨res, rfl, joined_ok (Option.some.inj h)⟩

theorem tryJoinCluster_saved {o : Outcomes} {localAddr : String} {joinList : List String}
    {cpuNums : UInt32} {disk : Disk} {nodeIdent : NodeIdent} (hd : disk.ident = none)
    (h : (tryJoinCluster o localAddr joinList cpuNums disk).disk.ident = some nodeIdent) :
    ∃ res, (joinLoop ⟨localAddr, cpuNums⟩ 1 o.joins).1 = some res ∧
      nodeIdent = ⟨res.clusterId, res.nodeId⟩ := by
  by_cases hl : joinList.filter (· != localAddr) = []
  · rw [tryJoinCluster_of_filter_eq_nil hl, hd] at h; cases h
  · rw [tryJoinCluster_of_filter_ne_nil hl] at h
    generalize (joinLoop ⟨localAddr, cpuNums⟩ 1 o.joins) = r at h ⊢
    rcases r with ⟨_ | res, _⟩
    · rw [hd] at h; cases h
    refine ⟨res, rfl, ?_⟩
    have hsaved : (joined o disk res).2.ident = (saveNodeIdent o disk res.clusterId res.nodeId).2.ident := by
      have hu := updateRoot_ident o (saveNodeIdent o disk res.clusterId res.nodeId).2 (res.root.getD .default)
      simp only [joined, andThen]
      revert hu
      generalize updateRoot o _ _ = u
      rcases u with ⟨_ | _, d⟩ <;> exact id
    rw [show (joined o disk res).2.ident = some nodeIdent from h] at hsaved
    unfold saveNodeIdent at hsaved
    split at hsaved
    · rw [hd] at hsaved; cases hsaved
    · cases hsaved; rfl

theorem bootstrapOrJoinCluster_cases (c : Constants) (config : Config) (o : Outcomes)
    (disk : Disk) :
    (∃ err, bootstrapOrJoinCluster c config o disk = ⟨some (.error err), [], [], disk⟩) ∨
    (∃ nodeIdent, disk.ident = some nodeIdent ∧
      bootstrapOrJoinCluster c config o disk = ⟨some (.ok nodeIdent), [], [], disk⟩) ∨
    (disk.ident = none ∧ config.init = true ∧ bootstrapOrJoinCluster c config o disk =
      ⟨some (bootstrapCluster c o config.addr disk).1, [], [],
        (bootstrapCluster c o config.addr disk).2⟩) ∨
    (disk.ident = none ∧ config.init = false ∧ bootstrapOrJoinCluster c config o disk =
      tryJoinCluster o config.addr config.joinList config.cpuNums disk) := by
  unfold bootstrapOrJoinCluster
  cases o.readIdent with
  | error err => exact .inl ⟨err, rfl⟩
  | ok u =>
    cases hd : disk.ident with
    | some nodeIdent =>
      cases o.reloadRootFromEngine with
      | error err => exact .inl ⟨err, rfl⟩
      | ok u => exact .inr (.inl ⟨nodeIdent, rfl, rfl⟩)
    | none =>
      cases hi : config.init
      · exact .inr (.inr (.inr ⟨rfl, rfl, rfl⟩))
      · exact .inr (.inr (.inl ⟨rfl, rfl, rfl⟩))

theorem bootstrapOrJoinCluster_ident {c : Constants} {config : Config} {o : Outcomes}
    {disk : Disk} {nodeIdent : NodeIdent}
    (h : (bootstrapOrJoinCluster c config o disk).result = some (.ok nodeIdent)) :
    (bootstrapOrJoinCluster c config o disk).disk.ident = some nodeIdent := by
  rcases bootstrapOrJoinCluster_cases c config o disk with
    ⟨_, he⟩ | ⟨_, hd, he⟩ | ⟨-, -, he⟩ | ⟨-, -, he⟩ <;> rw [he] at h ⊢
  · cases h
  · cases h; exact hd
  · exact bootstrapCluster_ident (Option.some.inj h)
  · exact tryJoinCluster_ident h

structure Start.Reloads (s : Start) (disk : Disk) (nodeIdent : NodeIdent) : Prop where
  disk_eq : s.disk = disk
  sent_eq : s.sent = []
  sleeps_eq : s.sleeps = []
  result_eq : s.result = some (.ok nodeIdent) ∨ ∃ err, s.result = some (.error err)

theorem bootstrapOrJoinCluster_reloads {disk : Disk} {nodeIdent : NodeIdent}
    (h : disk.ident = some nodeIdent) (c : Constants) (config : Config) (o : Outcomes) :
    (bootstrapOrJoinCluster c config o disk).Reloads disk nodeIdent := by
  rcases bootstrapOrJoinCluster_cases c config o disk with
    ⟨err, he⟩ | ⟨_, hd, he⟩ | ⟨hd, -⟩ | ⟨hd, -⟩
  · rw [he]; exact ⟨rfl, rfl, rfl, .inr ⟨err, rfl⟩⟩
  · rw [he, Option.some.inj (h.symm.trans hd)]; exact ⟨rfl, rfl, rfl, .inl rfl⟩
  all_goals cases h.symm.trans hd

theorem restarts_reload {disk : Disk} {nodeIdent : NodeIdent} (h : disk.ident = some nodeIdent)
    (c : Constants) (runs : List (Config × Outcomes)) :
    ∀ s ∈ restarts c disk runs, s.Reloads disk nodeIdent := by
  induction runs with
  | nil => intro _ hs; cases hs
  | cons run runs ih =>
    obtain ⟨config, o⟩ := run
    have hs := bootstrapOrJoinCluster_reloads h c config o
    intro s hmem
    rcases List.mem_cons.mp hmem with rfl | hmem
    · exact hs
    · rw [hs.disk_eq] at hmem
      exact ih s hmem

/-- Over every run of restarts, once the state engine holds an ident every later start reloads it:
no join request, the disk left as it is, and that ident or an error returned. -/
theorem restarts_keep_one_node_ident (c : Constants) (disk : Disk)
    (runs : List (Config × Outcomes)) :
    (∀ s ∈ restarts c disk runs, ∀ nodeIdent, s.result = some (.ok nodeIdent) →
      s.disk.ident = some nodeIdent) ∧
    ∀ s s', [s, s'].Sublist (restarts c disk runs) →
      ∀ nodeIdent, s.disk.ident = some nodeIdent → s'.Reloads s.disk nodeIdent := by
  induction runs generalizing disk with
  | nil => exact ⟨fun _ hs => (nomatch hs), fun _ _ h => (nomatch h)⟩
  | cons run runs ih =>
    obtain ⟨config, o⟩ := run
    obtain ⟨ih₁, ih₂⟩ := ih (bootstrapOrJoinCluster c config o disk).disk
    refine ⟨fun s hs => ?_, fun s s' h => ?_⟩
    · rcases List.mem_cons.mp hs with rfl | hs
      · exact fun _ => bootstrapOrJoinCluster_ident
      · exact ih₁ s hs
    · cases h with
      | cons _ h => exact ih₂ s s' h
      | cons₂ _ h => exact fun _ hd => restarts_reload hd c runs s' (List.singleton_sublist.mp h)

theorem backoff_double {b : UInt64} {k : Nat} (hb : b.toNat = min (2 ^ k) 120) :
    (min (b * 2) 120).toNat = min (2 ^ (k + 1)) 120 := by
  have hmul : (b * 2).toNat = b.toNat * 2 :=
    show b.toNat * 2 % UInt64.size = _ from Nat.mod_eq_of_lt (by unfold UInt64.size; omega)
  have h120 : (120 : UInt64).toNat = 120 := rfl
  rw [Nat.pow_succ]
  generalize 2 ^ k = p at hb
  show (if b * 2 ≤ 120 then b * 2 else 120).toNat = _
  split <;> rename_i h <;> rw [u64_le_iff, hmul, h120] at h
  · rw [hmul]; omega
  · rw [h120]; omega

theorem joinLoop_sent (req : JoinNodeRequest) (backoff : UInt64)
    (joins : List (Except Error JoinNodeResponse)) :
    (joinLoop req backoff joins).2.1 =
      List.replicate (joinLoop req backoff joins).2.1.length req := by
  induction joins generalizing backoff with
  | nil => rfl
  | cons j joins ih =>
    rcases j with _ | _
    · exact congrArg (req :: ·) (ih _)
    · rfl

theorem joinLoop_sleeps (req : JoinNodeRequest) (joins : List (Except Error JoinNodeResponse)) :
    ∀ (backoff : UInt64) (k : Nat), backoff.toNat = min (2 ^ k) 120 →
      (joinLoop req backoff joins).2.2.map UInt64.toNat =
        (List.range' k (joinLoop req backoff joins).2.2.length).map fun i => min (2 ^ i) 120 := by
  induction joins with
  | nil => intros; rfl
  | cons j joins ih =>
    intro backoff k hb
    rcases j with _ | _
    · simp only [joinLoop, List.map_cons, List.length_cons, List.range'_succ, hb,
        ih _ (k + 1) (backoff_double hb)]
    · rfl

theorem joinLoop_answers (req : JoinNodeRequest) (backoff : UInt64)
    (joins : List (Except Error JoinNodeResponse)) :
    let r := joinLoop req backoff joins
    r.2.2.length = (joins.take r.2.1.length).countP (!·.isOk) ∧
      (∀ j ∈ joins.take r.2.2.length, j.isOk = false) ∧
      r.2.2.length ≤ r.2.1.length ∧ r.2.1.length ≤ r.2.2.length + 1 ∧
      (r.1 = none → r.2.1.length = joins.length) := by
  induction joins generalizing backoff with
  | nil => exact ⟨rfl, fun _ h => (List.not_mem_nil _ h).elim, le_refl _, Nat.zero_le _,
    fun _ => rfl⟩
  | cons j joins ih =>
    rcases j with err | res
    · obtain ⟨hc, hf, h₁, h₂, hn⟩ := ih (min (backoff * 2) 120)
      have hfail : (Except.error err : Except Error JoinNodeResponse).isOk = false := rfl
      simp only [joinLoop, List.length_cons, List.take_succ_cons, List.countP_cons, hfail,
        Bool.not_false, if_true, List.mem_cons]
      exact ⟨congrArg (· + 1) hc, by rintro _ (rfl | hj); exacts [rfl, hf _ hj], by omega,
        by omega, fun h => congrArg (· + 1) (hn h)⟩
    · exact ⟨rfl, fun _ h => (List.not_mem_nil _ h).elim, Nat.zero_le _, le_refl _,
        fun h => Option.noConfusion h⟩

/-- For every sequence of answers, each join request carries the node's address and CPUs, and the
loop sleeps `min (2 ^ k) 120` seconds after the `k`-th failed request and at no other time. -/
theorem join_requests_back_off (o : Outcomes) (localAddr : String) (joinList : List String)
    (cpuNums : UInt32) (disk : Disk) (n : Nat) :
    tryJoinCluster o localAddr (List.replicate n localAddr) cpuNums disk =
      ⟨some (.error (.invalidArgument "the filtered join list is empty")), [], [], disk⟩ ∧
    let s := tryJoinCluster o localAddr joinList cpuNums disk
    s.sent = List.replicate s.sent.length ⟨localAddr, cpuNums⟩ ∧
    s.sleeps.map UInt64.toNat = (List.range s.sleeps.length).map (fun k => min (2 ^ k) 120) ∧
    s.sleeps.length = (o.joins.take s.sent.length).countP (!·.isOk) ∧
    (∀ j ∈ o.joins.take s.sleeps.length, j.isOk = false) ∧
    s.sleeps.length ≤ s.sent.length ∧ s.sent.length ≤ s.sleeps.length + 1 ∧
    (s.result = none → s.sent.length = o.joins.length) := by
  refine ⟨tryJoinCluster_of_filter_eq_nil (by simp [List.filter_replicate]), ?_⟩
  by_cases hl : joinList.filter (· != localAddr) = []
  · rw [tryJoinCluster_of_filter_eq_nil hl]
    exact ⟨rfl, rfl, rfl, fun _ h => (List.not_mem_nil _ h).elim, le_refl _, Nat.zero_le _,
      fun h => Option.noConfusion h⟩
  · obtain ⟨hsent, hsleeps⟩ := tryJoinCluster_sent_sleeps o cpuNums disk hl
    obtain ⟨hc, hf, h₁, h₂, hn⟩ := joinLoop_answers ⟨localAddr, cpuNums⟩ 1 o.joins
    have hres : (tryJoinCluster o localAddr joinList cpuNums disk).result = none →
        (joinLoop ⟨localAddr, cpuNums⟩ 1 o.joins).1 = none := by
      rw [tryJoinCluster_of_filter_ne_nil hl]
      dsimp only
      split
      · next hnone => exact fun _ => hnone
      · exact fun h => Option.noConfusion h
    dsimp only
    rw [hsent, hsleeps, List.range_eq_range']
    exact ⟨joinLoop_sent _ _ _, joinLoop_sleeps _ _ 1 0 rfl, hc, hf, h₁, h₂, fun h => hn (hres h)⟩

end Sekas.Bootstrap
