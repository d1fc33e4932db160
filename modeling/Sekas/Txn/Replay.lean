import Sekas.Txn.Shard

/-! Replaying `write_intent`. After its batch is applied every key it names carries the
transaction's own intent on top of the record the first call saw, so a second call skips
every write, stages nothing and answers with the same previous values. -/
namespace Sekas.Txn
open Sekas.Engine

variable {Cond : Type} (codec : IntentCodec)
  (evalConditions : Option Value → List Cond → Except Error (Option Nat))

def OwnTop (s : UInt64) (rest : List Value) (h : History) : Prop :=
  ∃ c i, h.records = ⟨txnIntentVersion, some c⟩ :: rest ∧ codec.decode c = .ok i ∧
    i.startVersion = s

def NoForeignIntent (e : GroupEngine) (req : WriteIntentRequest Cond) : Prop :=
  ∀ write ∈ req.write, ∀ w ∈ write.deletes.map Write.delete ++ write.puts.map Write.put,
    ∀ i pv, readIntentAndNextKey codec e req.startVersion write.shardId w.key = .ok (some i, pv) →
      i.startVersion = req.startVersion

variable {e : GroupEngine} {latch : LatchGuard} {s sh : UInt64}

theorem readIntentAndNextKey_congr {e' : GroupEngine} {k : Bytes} (h : e' sh k = e sh k) :
    readIntentAndNextKey codec e' s sh k = readIntentAndNextKey codec e s sh k := by
  unfold readIntentAndNextKey GroupEngine.snapshot
  rw [h]

theorem readIntentAndNextKey_eq_none {k : Bytes} {pv : Option Value}
    (h : readIntentAndNextKey codec e s sh k = .ok (none, pv)) :
    (e sh k).NoIntent ∧ pv = (e sh k).latest := by
  unfold readIntentAndNextKey GroupEngine.snapshot at h
  rcases hrec : (e sh k).records with _ | ⟨a, rs⟩ <;> rw [hrec] at h
  · cases h
    exact ⟨fun r hr => by simp [hrec] at hr, by simp [History.latest, hrec]⟩
  · obtain ⟨v, x⟩ := a
    by_cases hv : v = txnIntentVersion
    · rcases x with _ | c
      · simp [hv] at h
      · cases hd : codec.decode c <;> simp [hv, hd] at h
    · simp only [hv, ↓reduceIte, Except.ok.injEq, Prod.mk.injEq, true_and] at h
      exact ⟨History.noIntent_of_latest (by simpa [History.latest, hrec] using hv),
        by simp [History.latest, hrec, h]⟩

theorem evalWrite_staged_not_own {j : Nat} {w : Write Cond} {i : TxnIntent} {r : WriteResponse}
    (h : evalWrite codec evalConditions e latch s sh j w = .ok (some i, r)) {i' : TxnIntent}
    {pv : Option Value} (hr : readIntentAndNextKey codec e s sh w.key = .ok (some i', pv)) :
    i'.startVersion ≠ s := fun hs => by
  rw [evalWrite_of_own codec evalConditions hr hs] at h
  cases h

theorem commit_stagedOps_of_own {ws ws' : List (Write Cond)}
    {outs outs' : List (Option TxnIntent × WriteResponse)}
    (hf : List.Forall₂ (fun w o => ∃ j, evalWrite codec evalConditions e latch s sh j w = .ok o)
      ws outs)
    (hf' : List.Forall₂ (fun w o => ∃ j, evalWrite codec evalConditions e latch s sh j w = .ok o)
      ws' outs')
    {k : Bytes} {i : TxnIntent} {pv : Option Value}
    (hr : readIntentAndNextKey codec e s sh k = .ok (some i, pv)) (hs : i.startVersion = s) :
    e.commit ⟨stagedOps codec sh ws outs ++ stagedOps codec sh ws' outs'⟩ sh k = e sh k :=
  GroupEngine.commit_of_untouched fun op hop _ hk => by
    obtain ⟨w, -, j, i', r', hj, rfl⟩ := mem_stagedOps_append codec evalConditions hf hf' hop
    exact evalWrite_staged_not_own codec evalConditions hj (hk ▸ hr) hs

theorem foldl_intentPuts {Q : TxnIntent → Prop} {L : List WriteOp} (hL : L ≠ [])
    (hops : ∀ op ∈ L, ∃ sh k i, op = .put sh k ⟨txnIntentVersion, some (codec.encode i)⟩ ∧ Q i)
    (h : History) :
    ∃ i, Q i ∧ (L.foldl WriteOp.applyHistory h).records =
      ⟨txnIntentVersion, some (codec.encode i)⟩ :: (h.delete txnIntentVersion).records := by
  induction L generalizing h with
  | nil => exact absurd rfl hL
  | cons op L ih =>
    obtain ⟨sh, k, i, rfl, hi⟩ := hops op (List.mem_cons_self _ _)
    by_cases hL' : L = []
    · subst hL'
      exact ⟨i, hi, h.put_intentVersion_records _⟩
    · have := ih hL' (fun o ho => hops o (List.mem_cons_of_mem _ ho))
        (h.put ⟨txnIntentVersion, some (codec.encode i)⟩)
      rwa [History.delete_put_intentVersion] at this

theorem commit_intentPuts {Q : TxnIntent → Prop} {ops : List WriteOp} {k : Bytes} {i : TxnIntent}
    (hops : ∀ op ∈ ops, op.shard = sh → op.key = k → ∃ sh k i,
      op = .put sh k ⟨txnIntentVersion, some (codec.encode i)⟩ ∧ Q i)
    (hk : .put sh k ⟨txnIntentVersion, some (codec.encode i)⟩ ∈ ops) :
    ∃ i, Q i ∧ (e.commit ⟨ops⟩ sh k).records =
      ⟨txnIntentVersion, some (codec.encode i)⟩ :: ((e sh k).delete txnIntentVersion).records := by
  rw [GroupEngine.commit_apply]
  refine foldl_intentPuts codec
    (List.ne_nil_of_mem (List.mem_filter.2 ⟨hk, by simp [WriteOp.shard, WriteOp.key]⟩))
    (fun op hop => ?_) _
  obtain ⟨hop, hk⟩ := List.mem_filter.1 hop
  simp only [decide_eq_true_eq] at hk
  exact hops op hop hk.1 hk.2

theorem commit_ownTop {ops : List WriteOp}
    (hops : ∀ op ∈ ops, ∃ sh k i, op = .put sh k ⟨txnIntentVersion, some (codec.encode i)⟩ ∧
      i.startVersion = s) {k : Bytes} {i : TxnIntent}
    (hk : .put sh k ⟨txnIntentVersion, some (codec.encode i)⟩ ∈ ops) :
    OwnTop codec s ((e sh k).delete txnIntentVersion).records (e.commit ⟨ops⟩ sh k) := by
  obtain ⟨i, hi, hrec⟩ := commit_intentPuts codec (e := e) (fun op hop _ _ => hops op hop) hk
  exact ⟨_, i, hrec, codec.decode_encode i, hi⟩

variable (evalConditions' : Option Value → List Cond → Except Error (Option Nat))

theorem evalWrite_replay {e' : GroupEngine} {latch' : LatchGuard} {j : Nat} {w : Write Cond}
    {o : Option TxnIntent × WriteResponse}
    (hw : evalWrite codec evalConditions e latch s sh j w = .ok o)
    (hno : ∀ i pv, readIntentAndNextKey codec e s sh w.key = .ok (some i, pv) →
      i.startVersion = s)
    (hown : ∀ i pv, readIntentAndNextKey codec e s sh w.key = .ok (some i, pv) →
      e' sh w.key = e sh w.key)
    (hfresh : ∀ pv, readIntentAndNextKey codec e s sh w.key = .ok (none, pv) →
      OwnTop codec s (e sh w.key).records (e' sh w.key)) (j' : Nat) :
    evalWrite codec evalConditions' e' latch' s sh j' w = .ok (none, o.2) := by
  obtain ⟨o1, o2⟩ := o
  rcases hr : readIntentAndNextKey codec e s sh w.key with _ | ⟨_ | i, pv⟩
  · simp [evalWrite, hr] at hw
  · obtain ⟨-, rfl⟩ := readIntentAndNextKey_eq_none codec hr
    rw [evalWrite_of_fresh codec evalConditions hr] at hw
    obtain ⟨c, i, hrec, hc, hi⟩ := hfresh _ hr
    have hr' : readIntentAndNextKey codec e' s sh w.key = .ok (some i, (e sh w.key).latest) := by
      rw [readIntentAndNextKey_of_intent codec hrec, hc]
      rfl
    rw [evalWrite_of_own codec evalConditions' hr' hi, (stageWrite_ok evalConditions hw).1]
  · have hs := hno i pv hr
    rw [evalWrite_of_own codec evalConditions hr hs] at hw
    cases hw
    rw [evalWrite_of_own codec evalConditions'
      ((readIntentAndNextKey_congr codec (hown i pv hr)).trans hr) hs]

theorem forall₂_replay {ws : List (Write Cond)} {outs : List (Option TxnIntent × WriteResponse)}
    {ops : List WriteOp} {latch' : LatchGuard}
    (hf : List.Forall₂ (fun w o => ∃ j, evalWrite codec evalConditions e latch s sh j w = .ok o)
      ws outs)
    (hsub : stagedOps codec sh ws outs ⊆ ops)
    (hno : ∀ w ∈ ws, ∀ i pv, readIntentAndNextKey codec e s sh w.key = .ok (some i, pv) →
      i.startVersion = s)
    (hown : ∀ k i pv, readIntentAndNextKey codec e s sh k = .ok (some i, pv) →
      i.startVersion = s → e.commit ⟨ops⟩ sh k = e sh k)
    (hput : ∀ op ∈ ops, ∃ sh k i, op = .put sh k ⟨txnIntentVersion, some (codec.encode i)⟩ ∧
      i.startVersion = s) :
    List.Forall₂ (fun w o => ∀ j, evalWrite codec evalConditions' (e.commit ⟨ops⟩) latch' s sh j w =
      .ok o) ws (outs.map fun o => (none, o.2)) := by
  induction hf with
  | nil => exact .nil
  | @cons w o ws outs hw _ ih =>
    obtain ⟨j, hj⟩ := hw
    obtain ⟨o1, r⟩ := o
    have htail : stagedOps codec sh ws outs ⊆ ops := by
      cases o1
      · exact hsub
      · exact (List.subset_cons_self _ _).trans hsub
    have hno_w := hno w (List.mem_cons_self _ _)
    refine .cons (evalWrite_replay codec evalConditions evalConditions' hj hno_w
      (fun i pv hr => hown w.key i pv hr (hno_w i pv hr)) (fun pv hr => ?_))
      (ih htail fun w' hw' => hno w' (List.mem_cons_of_mem _ hw'))
    obtain ⟨hn, -⟩ := readIntentAndNextKey_eq_none codec hr
    rw [evalWrite_of_fresh codec evalConditions hr] at hj
    obtain ⟨-, -, i, -, rfl⟩ := stageWrite_ok evalConditions hj
    have := commit_ownTop codec (e := e) hput (hsub (List.mem_cons_self _ _))
    rwa [History.delete_of_not_mem hn] at this

theorem noForeignIntent_of_fresh {req : WriteIntentRequest Cond}
    (h : ∀ write ∈ req.write, ∀ w ∈ write.deletes.map Write.delete ++ write.puts.map Write.put,
      ∀ r ∈ (e write.shardId w.key).latest, r.version ≠ txnIntentVersion) :
    NoForeignIntent codec e req := fun write hw w hw' i pv hr => by
  rw [readIntentAndNextKey_of_fresh codec (h write hw w hw')] at hr
  cases hr

theorem stagedOps_skipped (ws : List (Write Cond)) (outs : List (Option TxnIntent × WriteResponse)) :
    stagedOps codec sh ws (outs.map fun o => (none, o.2)) = [] := by
  induction outs generalizing ws with
  | nil => cases ws <;> rfl
  | cons o outs ih => cases ws <;> simp [ih]

/-- A `write_intent` that resolved no other transaction's intent, replayed on the engine its batch
produced, succeeds with no batch and the same response. -/
theorem write_intent_replay_is_noop (e : GroupEngine) (latch latch' : LatchGuard)
    (req : WriteIntentRequest Cond) (r : Option WriteBatch) (resp : WriteIntentResponse)
    (h : writeIntent codec evalConditions e latch req = .ok (r, resp))
    (hno : NoForeignIntent codec e req) :
    writeIntent codec evalConditions' (e.applyEval r) latch' req = .ok (none, resp) := by
  obtain ⟨write, outsD, outsP, hw, hD, hP, rfl, rfl⟩ := writeIntent_ok codec evalConditions h
  have hno' := hno write hw
  set ops := stagedOps codec write.shardId (write.deletes.map .delete) outsD ++
    stagedOps codec write.shardId (write.puts.map .put) outsP
  have hput : ∀ op ∈ ops, ∃ sh k i, op = .put sh k ⟨txnIntentVersion, some (codec.encode i)⟩ ∧
      i.startVersion = req.startVersion := fun op hop =>
    (List.mem_append.1 hop).elim (stagedOps_own codec evalConditions hD)
      (stagedOps_own codec evalConditions hP)
  have hown : ∀ k i pv, readIntentAndNextKey codec e req.startVersion write.shardId k =
      .ok (some i, pv) → i.startVersion = req.startVersion →
        e.commit ⟨ops⟩ write.shardId k = e write.shardId k := fun _ _ _ hr hs =>
    commit_stagedOps_of_own codec evalConditions hD hP hr hs
  rw [applyEval_batchOf, writeIntent_of_forall₂ codec evalConditions' hw
    (forall₂_replay codec evalConditions evalConditions' hD (List.subset_append_left _ _)
      (fun w hw' => hno' w (List.mem_append_left _ hw')) hown hput)
    (forall₂_replay codec evalConditions evalConditions' hP (List.subset_append_right _ _)
      (fun w hw' => hno' w (List.mem_append_right _ hw')) hown hput)]
  simp [stagedOps_skipped, batchOf]

def committedFive : GroupEngine :=
  TxnCmd.run fixedIntentCodec noConditions GroupEngine.empty
    [.write nopLatchGuard ⟨1, some ⟨0, [], [⟨.none, [1], i64ToBeBytes 5, [], false⟩]⟩⟩,
     .commit ⟨0, 1, 2, [[1]]⟩]

def deleteAndIncrement : WriteIntentRequest Empty :=
  ⟨3, some ⟨0, [⟨[2], [], true⟩], [⟨.addI64, [1], i64ToBeBytes 1, [], true⟩]⟩⟩

theorem write_intent_replay_of_increment :
    let latch := nopLatchGuard
    let r := some ⟨[.put 0 [2] ⟨txnIntentVersion, some (fixedIntentCodec.encode (.tombstone 3))⟩,
      .put 0 [1] ⟨txnIntentVersion,
        some (fixedIntentCodec.encode (.withPut 3 (some (i64ToBeBytes 6))))⟩]⟩
    let resp : WriteIntentResponse := ⟨some ⟨[⟨none⟩], [⟨some ⟨2, some (i64ToBeBytes 5)⟩⟩]⟩⟩
    writeIntent fixedIntentCodec noConditions committedFive latch deleteAndIncrement =
        .ok (r, resp) ∧
      NoForeignIntent fixedIntentCodec committedFive deleteAndIncrement ∧
      writeIntent fixedIntentCodec noConditions (committedFive.applyEval r) latch
        deleteAndIncrement = .ok (none, resp) := by
  intro latch r resp
  have h : writeIntent fixedIntentCodec noConditions committedFive latch deleteAndIncrement =
      .ok (r, resp) := by decide
  have hno : NoForeignIntent fixedIntentCodec committedFive deleteAndIncrement :=
    noForeignIntent_of_fresh fixedIntentCodec (by decide)
  exact ⟨h, hno, write_intent_replay_is_noop fixedIntentCodec noConditions noConditions
    committedFive latch latch deleteAndIncrement r resp h hno⟩

end Sekas.Txn
