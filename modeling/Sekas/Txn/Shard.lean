import Sekas.Txn.Eval

/-! One shard as a state machine driven by the intent evaluator: a command is evaluated
against the engine and its batch is committed before the next command is evaluated.
The batches of the three commands are characterised once, by the mutations they may
stage; the invariants of the later files are derived from that. -/
namespace Sekas.Txn
open Sekas.Engine

variable {Cond : Type} (codec : IntentCodec)
  (evalConditions : Option Value → List Cond → Except Error (Option Nat))

def batchOps : Option WriteBatch → List WriteOp
  | some wb => wb.ops
  | none => []

theorem applyEval_of_untouched {e : GroupEngine} {r : Option WriteBatch} {sh : UInt64} {k : Bytes}
    (h : ∀ op ∈ batchOps r, op.shard = sh → op.key ≠ k) : e.applyEval r sh k = e sh k := by
  cases r with
  | none => rfl
  | some wb => exact GroupEngine.commit_of_untouched h

@[simp] theorem batchOps_batchOf (ops : List WriteOp) : batchOps (batchOf ops) = ops := by
  cases ops <;> rfl

@[simp] theorem applyEval_batchOf (e : GroupEngine) (ops : List WriteOp) :
    e.applyEval (batchOf ops) = e.commit ⟨ops⟩ := by
  cases ops <;> rfl

def ownIntent (e : GroupEngine) (startVersion shardId : UInt64) (key : Bytes) :
    Option TxnIntent :=
  match (e shardId key).latest with
  | some ⟨v, some content⟩ =>
    if v = txnIntentVersion then
      match codec.decode content with
      | .ok intent => if intent.startVersion = startVersion then some intent else none
      | .error _ => none
    else none
  | _ => none

variable {e : GroupEngine} {latch : LatchGuard} {s sh : UInt64}

theorem readTargetIntent_eq_ownIntent {key : Bytes} {o : Option TxnIntent}
    (h : readTargetIntent codec e s sh key = .ok o) : o = ownIntent codec e s sh key := by
  unfold readTargetIntent GroupEngine.get at h
  unfold ownIntent
  rcases hl : (e sh key).latest with _ | ⟨v, _ | c⟩ <;> rw [hl] at h
  · cases h; rfl
  · by_cases hv : v = txnIntentVersion <;> simp_all
  · by_cases hv : v = txnIntentVersion
    · simp only [hv, ne_eq, not_true_eq_false, ↓reduceIte] at h ⊢
      cases hd : codec.decode c with
      | error => simp [hd] at h
      | ok i =>
        simp only [hd, ok_bind, pure_eq_ok, Except.ok.injEq] at h
        subst h
        by_cases hs : i.startVersion = s <;> simp [hs]
    · simp_all

theorem targetOps_flatten {ops : Bytes → TxnIntent → List WriteOp} {keys : List Bytes}
    {ls : List (List WriteOp)} (h : keys.mapM (targetOps codec e s sh ops) = .ok ls) :
    ls.flatten = keys.flatMap (fun k => (ownIntent codec e s sh k).elim [] (ops k)) ∧
      ∀ k ∈ keys, ∃ o, readTargetIntent codec e s sh k = .ok o := by
  rw [mapM_eq_ok] at h
  induction h with
  | nil => exact ⟨rfl, fun _ h => nomatch h⟩
  | @cons k l keys ls hk _ ih =>
    obtain ⟨o, ho, rfl⟩ := map_eq_ok.1 hk
    have hown := readTargetIntent_eq_ownIntent codec ho
    refine ⟨?_, ?_⟩
    · rw [List.flatten_cons, List.flatMap_cons, ih.1, ← hown]
      cases o <;> rfl
    · exact List.forall_mem_cons.2 ⟨⟨o, ho⟩, ih.2⟩

theorem commitIntent_ok {req : CommitIntentRequest} {r : Option WriteBatch}
    (h : commitIntent codec e req = .ok r) :
    r = batchOf (req.keys.flatMap fun k =>
      (ownIntent codec e req.startVersion req.shardId k).elim [] (commitOps req k)) ∧
    ∀ k ∈ req.keys, ∃ o, readTargetIntent codec e req.startVersion req.shardId k = .ok o := by
  rw [commitIntent_eq] at h
  obtain ⟨ls, hls, rfl⟩ := map_eq_ok.1 h
  obtain ⟨hf, hr⟩ := targetOps_flatten codec hls
  exact ⟨by rw [hf], hr⟩

theorem clearIntent_ok {req : ClearIntentRequest} {r : Option WriteBatch}
    (h : clearIntent codec e req = .ok r) :
    r = batchOf (req.keys.flatMap fun k =>
      (ownIntent codec e req.startVersion req.shardId k).elim [] (clearOps req k)) ∧
    ∀ k ∈ req.keys, ∃ o, readTargetIntent codec e req.startVersion req.shardId k = .ok o := by
  rw [clearIntent_eq] at h
  obtain ⟨ls, hls, rfl⟩ := map_eq_ok.1 h
  obtain ⟨hf, hr⟩ := targetOps_flatten codec hls
  exact ⟨by rw [hf], hr⟩

theorem evalWrite_staged {idx : Nat} {w : Write Cond} {i : TxnIntent} {r : WriteResponse}
    (h : evalWrite codec evalConditions e latch s sh idx w = .ok (some i, r)) :
    ∃ pv, w.intent s pv = .ok i := by
  unfold evalWrite at h
  obtain ⟨⟨ti, pv⟩, -, h⟩ := bind_eq_ok.1 h
  have hstage {pv' : Option Value} (hw : stageWrite evalConditions s idx w pv' false =
      .ok (some i, r)) : ∃ pv, w.intent s pv = .ok i := by
    obtain ⟨-, -, j, hj, hij⟩ := stageWrite_ok evalConditions hw
    cases hij
    exact ⟨pv', hj⟩
  rcases ti with _ | ti
  · exact hstage h
  · by_cases hs : ti.startVersion = s
    · simp [hs, stageWrite_skip] at h
    · simp only [ne_eq, hs, not_false_eq_true, ↓reduceIte] at h
      obtain ⟨resolved, -, h⟩ := bind_eq_ok.1 h
      exact hstage h

theorem mem_stagedOps {ws : List (Write Cond)} {outs : List (Option TxnIntent × WriteResponse)}
    {op : WriteOp}
    (hf : List.Forall₂ (fun w o => ∃ j, evalWrite codec evalConditions e latch s sh j w = .ok o)
      ws outs)
    (hop : op ∈ stagedOps codec sh ws outs) :
    ∃ w ∈ ws, ∃ j i r, evalWrite codec evalConditions e latch s sh j w = .ok (some i, r) ∧
      op = .put sh w.key ⟨txnIntentVersion, some (codec.encode i)⟩ := by
  induction hf with
  | nil => simp at hop
  | @cons w o ws outs hw _ ih =>
    have hmem {w'} (h : w' ∈ ws) : w' ∈ w :: ws := List.mem_cons_of_mem _ h
    obtain ⟨_ | i, r⟩ := o
    · obtain ⟨w', hw', hrest⟩ := ih hop
      exact ⟨w', hmem hw', hrest⟩
    · simp only [stagedOps_cons_some, List.mem_cons] at hop
      rcases hop with rfl | hop
      · obtain ⟨j, hj⟩ := hw
        exact ⟨w, List.mem_cons_self _ _, j, i, r, hj, rfl⟩
      · obtain ⟨w', hw', hrest⟩ := ih hop
        exact ⟨w', hmem hw', hrest⟩

theorem mem_stagedOps_append {ws ws' : List (Write Cond)}
    {outs outs' : List (Option TxnIntent × WriteResponse)} {op : WriteOp}
    (hf : List.Forall₂ (fun w o => ∃ j, evalWrite codec evalConditions e latch s sh j w = .ok o)
      ws outs)
    (hf' : List.Forall₂ (fun w o => ∃ j, evalWrite codec evalConditions e latch s sh j w = .ok o)
      ws' outs')
    (hop : op ∈ stagedOps codec sh ws outs ++ stagedOps codec sh ws' outs') :
    ∃ w ∈ ws ++ ws', ∃ j i r, evalWrite codec evalConditions e latch s sh j w = .ok (some i, r) ∧
      op = .put sh w.key ⟨txnIntentVersion, some (codec.encode i)⟩ := by
  rcases List.mem_append.1 hop with hop | hop
  · obtain ⟨w, hw, h⟩ := mem_stagedOps codec evalConditions hf hop
    exact ⟨w, List.mem_append_left _ hw, h⟩
  · obtain ⟨w, hw, h⟩ := mem_stagedOps codec evalConditions hf' hop
    exact ⟨w, List.mem_append_right _ hw, h⟩

theorem staged_mem_stagedOps {P : TxnIntent → Prop} {ws : List (Write Cond)}
    {outs : List (Option TxnIntent × WriteResponse)}
    (hf : List.Forall₂ (fun w o => ∃ j, evalWrite codec evalConditions e latch s sh j w = .ok o)
      ws outs)
    {w : Write Cond} (hw : w ∈ ws)
    (hs : ∀ j o, evalWrite codec evalConditions e latch s sh j w = .ok o → ∃ i, o.1 = some i ∧ P i) :
    ∃ i, P i ∧ .put sh w.key ⟨txnIntentVersion, some (codec.encode i)⟩ ∈ stagedOps codec sh ws outs := by
  induction hf with
  | nil => cases hw
  | @cons w' o ws outs hw' _ ih =>
    obtain ⟨o1, o2⟩ := o
    rcases List.mem_cons.1 hw with rfl | hw
    · obtain ⟨j, hj⟩ := hw'
      obtain ⟨i, rfl, hi⟩ := hs j _ hj
      exact ⟨i, hi, List.mem_cons_self _ _⟩
    · obtain ⟨i, hi, hmem⟩ := ih hw
      refine ⟨i, hi, ?_⟩
      cases o1
      · exact hmem
      · exact List.mem_cons_of_mem _ hmem

theorem staged_mem_stagedOps_append {P : TxnIntent → Prop} {ws ws' : List (Write Cond)}
    {outs outs' : List (Option TxnIntent × WriteResponse)}
    (hf : List.Forall₂ (fun w o => ∃ j, evalWrite codec evalConditions e latch s sh j w = .ok o)
      ws outs)
    (hf' : List.Forall₂ (fun w o => ∃ j, evalWrite codec evalConditions e latch s sh j w = .ok o)
      ws' outs')
    {w : Write Cond} (hw : w ∈ ws ++ ws')
    (hs : ∀ j o, evalWrite codec evalConditions e latch s sh j w = .ok o → ∃ i, o.1 = some i ∧ P i) :
    ∃ i, P i ∧ .put sh w.key ⟨txnIntentVersion, some (codec.encode i)⟩ ∈
      stagedOps codec sh ws outs ++ stagedOps codec sh ws' outs' := by
  rcases List.mem_append.1 hw with hw | hw
  · obtain ⟨i, hi, hm⟩ := staged_mem_stagedOps codec evalConditions hf hw hs
    exact ⟨i, hi, List.mem_append_left _ hm⟩
  · obtain ⟨i, hi, hm⟩ := staged_mem_stagedOps codec evalConditions hf' hw hs
    exact ⟨i, hi, List.mem_append_right _ hm⟩

theorem stagedOps_own {ws : List (Write Cond)} {outs : List (Option TxnIntent × WriteResponse)}
    {op : WriteOp}
    (hf : List.Forall₂ (fun w o => ∃ j, evalWrite codec evalConditions e latch s sh j w = .ok o)
      ws outs)
    (hop : op ∈ stagedOps codec sh ws outs) :
    ∃ sh k i, op = .put sh k ⟨txnIntentVersion, some (codec.encode i)⟩ ∧ i.startVersion = s := by
  obtain ⟨w, -, j, i, r, hj, rfl⟩ := mem_stagedOps codec evalConditions hf hop
  obtain ⟨pv, hpv⟩ := evalWrite_staged codec evalConditions hj
  exact ⟨sh, w.key, i, rfl, Write.intent_startVersion hpv⟩

theorem writeIntent_op {req : WriteIntentRequest Cond} {r : Option WriteBatch}
    {resp : WriteIntentResponse} (h : writeIntent codec evalConditions e latch req = .ok (r, resp))
    {op : WriteOp} (hop : op ∈ batchOps r) :
    ∃ sh k i, op = .put sh k ⟨txnIntentVersion, some (codec.encode i)⟩ ∧
      i.startVersion = req.startVersion := by
  obtain ⟨write, outsD, outsP, -, hD, hP, rfl, -⟩ := writeIntent_ok codec evalConditions h
  rw [batchOps_batchOf, List.mem_append] at hop
  rcases hop with hop | hop
  · exact stagedOps_own codec evalConditions hD hop
  · exact stagedOps_own codec evalConditions hP hop

inductive TxnCmd (Cond : Type) where
  | write (latchGuard : LatchGuard) (req : WriteIntentRequest Cond)
  | commit (req : CommitIntentRequest)
  | clear (req : ClearIntentRequest)

def TxnCmd.eval (e : GroupEngine) : TxnCmd Cond → Except Error (Option WriteBatch)
  | .write latchGuard req => (writeIntent codec evalConditions e latchGuard req).map (·.1)
  | .commit req => commitIntent codec e req
  | .clear req => clearIntent codec e req

def TxnCmd.step (e : GroupEngine) (cmd : TxnCmd Cond) : GroupEngine :=
  match cmd.eval codec evalConditions e with
  | .ok r => e.applyEval r
  | .error _ => e

theorem TxnCmd.step_of_eval {e : GroupEngine} (cmd : TxnCmd Cond) {r : Option WriteBatch}
    (h : cmd.eval codec evalConditions e = .ok r) :
    cmd.step codec evalConditions e = e.applyEval r := by
  unfold TxnCmd.step
  rw [h]

def TxnCmd.run (e : GroupEngine) (cmds : List (TxnCmd Cond)) : GroupEngine :=
  cmds.foldl (TxnCmd.step codec evalConditions) e

def noConditions : Option Value → List Empty → Except Error (Option Nat) := fun _ _ => .ok none

def TxnCmd.Stages (e : GroupEngine) : TxnCmd Cond → WriteOp → Prop
  | .write _ req, op => ∃ sh k i, op = .put sh k ⟨txnIntentVersion, some (codec.encode i)⟩ ∧
      i.startVersion = req.startVersion
  | .commit req, op => ∃ k ∈ req.keys, ∃ i,
      ownIntent codec e req.startVersion req.shardId k = some i ∧ op ∈ commitOps req k i
  | .clear req, op => ∃ k ∈ req.keys, ∃ i,
      ownIntent codec e req.startVersion req.shardId k = some i ∧ op ∈ clearOps req k i

theorem mem_flatMap_ownIntent {keys : List Bytes} {ops : Bytes → TxnIntent → List WriteOp}
    {op : WriteOp} (h : op ∈ keys.flatMap fun k => (ownIntent codec e s sh k).elim [] (ops k)) :
    ∃ k ∈ keys, ∃ i, ownIntent codec e s sh k = some i ∧ op ∈ ops k i := by
  obtain ⟨k, hk, hop⟩ := List.mem_flatMap.1 h
  cases hi : ownIntent codec e s sh k with
  | none => simp [hi] at hop
  | some i => exact ⟨k, hk, i, hi, by simpa [hi] using hop⟩

theorem TxnCmd.step_eq (e : GroupEngine) (cmd : TxnCmd Cond) :
    ∃ ops, cmd.step codec evalConditions e = e.commit ⟨ops⟩ ∧
      ∀ op ∈ ops, cmd.Stages codec e op := by
  unfold TxnCmd.step
  cases he : cmd.eval codec evalConditions e with
  | error => exact ⟨[], rfl, by simp⟩
  | ok r =>
    refine ⟨batchOps r, by cases r <;> rfl, fun op hop => ?_⟩
    cases cmd with
    | write latchGuard req =>
      obtain ⟨⟨r', resp⟩, hw, rfl⟩ := map_eq_ok.1 he
      exact writeIntent_op codec evalConditions hw hop
    | commit req =>
      rw [(commitIntent_ok codec he).1, batchOps_batchOf] at hop
      exact mem_flatMap_ownIntent codec hop
    | clear req =>
      rw [(clearIntent_ok codec he).1, batchOps_batchOf] at hop
      exact mem_flatMap_ownIntent codec hop

end Sekas.Txn
