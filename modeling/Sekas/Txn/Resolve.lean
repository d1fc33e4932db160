import Sekas.Txn.Shard

/-! `commit_intent` and `clear_intent` act only on the listed keys that hold the
transaction's own intent, and write only at the intent version and the commit version.
Replaying them is a no-op on the keys they resolved, as long as nothing in between writes
an intent of the same transaction or commits at the intent version; keys they did not
list keep the transaction's intents. -/
namespace Sekas.Txn
open Sekas.Engine

variable {Cond : Type} (codec : IntentCodec)
  (evalConditions : Option Value → List Cond → Except Error (Option Nat))

def ResolvedFor (s : UInt64) (h : History) : Prop :=
  ∀ r ∈ h.latest, r.version = txnIntentVersion →
    ∃ content i, r.content = some content ∧ codec.decode content = .ok i ∧ i.startVersion ≠ s

variable {codec} {e : GroupEngine} {s sh : UInt64}

theorem readTargetIntent_eq_none_iff {k : Bytes} :
    readTargetIntent codec e s sh k = .ok none ↔ ResolvedFor codec s (e sh k) := by
  unfold readTargetIntent ResolvedFor GroupEngine.get
  rcases (e sh k).latest with _ | ⟨v, x⟩
  · simp only [Option.mem_def, reduceCtorEq, false_implies, implies_true]
  · simp only [Option.mem_def, Option.some.injEq, forall_eq', ne_eq]
    by_cases hv : v = txnIntentVersion
    · subst hv
      simp only [not_true_eq_false, if_false, true_implies]
      cases x with
      | none => simp only [reduceCtorEq, false_and, exists_false]
      | some c =>
        simp only [Option.some.injEq, exists_and_left, exists_eq_left']
        cases hd : codec.decode c with
        | error => simp only [error_bind, reduceCtorEq, false_and, exists_false]
        | ok i =>
          by_cases hs : i.startVersion = s <;> simp only [hs, ok_bind, pure_eq_ok, Except.ok.injEq,
            if_true, if_false, not_true_eq_false, not_false_eq_true, reduceCtorEq, exists_eq_left',
            true_and]
    · simp only [hv, not_false_eq_true, if_true, false_implies]

theorem ResolvedFor.of_noIntent {h : History} (hn : h.NoIntent) : ResolvedFor codec s h :=
  fun r hr hv => absurd hv (hn.latest r hr)

theorem ResolvedFor.applyHistory {h : History} (hr : ResolvedFor codec s h) {op : WriteOp}
    (hop : op.Resolves ∨ ∃ sh k i, op = .put sh k ⟨txnIntentVersion, some (codec.encode i)⟩ ∧
      i.startVersion ≠ s) :
    ResolvedFor codec s (op.applyHistory h) := by
  rcases hop with hop | ⟨sh, k, i, rfl, hi⟩
  · cases op with
    | put sh k r =>
      intro x hx hv
      rcases h.latest_put r with hl | hl <;> rw [WriteOp.applyHistory, hl] at hx
      · cases hx
        exact absurd hv hop
      · exact hr x hx hv
    | delete sh k v =>
      cases hop
      exact ResolvedFor.of_noIntent h.noIntent_delete
  · intro x hx _
    rw [WriteOp.applyHistory, History.latest_put_intentVersion] at hx
    cases hx
    exact ⟨_, i, rfl, codec.decode_encode i, hi⟩

theorem mem_commitOps {req : CommitIntentRequest} {k : Bytes} {i : TxnIntent} {op : WriteOp}
    (h : op ∈ commitOps req k i) : op.shard = req.shardId ∧ op.key = k ∧
      (op = .delete req.shardId k txnIntentVersion ∨
        ∃ x, op = .put req.shardId k ⟨req.commitVersion, x⟩) := by
  simp only [commitOps, List.mem_cons] at h
  rcases h with rfl | h
  · exact ⟨rfl, rfl, .inl rfl⟩
  · split at h <;> (try split at h) <;>
      simp only [List.mem_singleton, List.not_mem_nil] at h <;> subst h <;>
      exact ⟨rfl, rfl, .inr ⟨_, rfl⟩⟩

theorem mem_clearOps {req : ClearIntentRequest} {k : Bytes} {i : TxnIntent} {op : WriteOp}
    (h : op ∈ clearOps req k i) :
    op.shard = req.shardId ∧ op.key = k ∧ op = .delete req.shardId k txnIntentVersion := by
  simp only [clearOps, List.mem_singleton] at h
  subst h
  exact ⟨rfl, rfl, rfl⟩

def TxnCmd.Names (sh : UInt64) (k : Bytes) : TxnCmd Cond → Prop
  | .write _ req => ∃ write ∈ req.write, write.shardId = sh ∧
      ∃ w ∈ write.deletes.map Write.delete ++ write.puts.map Write.put, w.key = k
  | .commit req => req.shardId = sh ∧ k ∈ req.keys
  | .clear req => req.shardId = sh ∧ k ∈ req.keys

theorem TxnCmd.step_of_not_names {cmd : TxnCmd Cond} {sh' : UInt64} {k : Bytes}
    (h : ¬ cmd.Names sh' k) : cmd.step codec evalConditions e sh' k = e sh' k := by
  unfold TxnCmd.step
  cases he : cmd.eval codec evalConditions e with
  | error => rfl
  | ok r =>
    refine applyEval_of_untouched fun op hop hsh hk => h ?_
    cases cmd with
    | write latchGuard req =>
      obtain ⟨⟨r', resp⟩, hw, rfl⟩ := map_eq_ok.1 he
      obtain ⟨write, outsD, outsP, hwr, hD, hP, rfl, -⟩ := writeIntent_ok codec evalConditions hw
      rw [batchOps_batchOf] at hop
      obtain ⟨w, hw, _, _, _, _, rfl⟩ := mem_stagedOps_append codec evalConditions hD hP hop
      exact ⟨write, hwr, hsh, w, hw, hk⟩
    | commit req =>
      rw [(commitIntent_ok codec he).1, batchOps_batchOf] at hop
      obtain ⟨k', hk', i, -, hop⟩ := mem_flatMap_ownIntent codec hop
      obtain ⟨h1, h2, -⟩ := mem_commitOps hop
      exact ⟨h1.symm.trans hsh, (h2.symm.trans hk) ▸ hk'⟩
    | clear req =>
      rw [(clearIntent_ok codec he).1, batchOps_batchOf] at hop
      obtain ⟨k', hk', i, -, hop⟩ := mem_flatMap_ownIntent codec hop
      obtain ⟨h1, h2, -⟩ := mem_clearOps hop
      exact ⟨h1.symm.trans hsh, (h2.symm.trans hk) ▸ hk'⟩

theorem untouched_of_ownIntent_none (keys : List Bytes) (ops : Bytes → TxnIntent → List WriteOp)
    (hops : ∀ k i, ∀ op ∈ ops k i, op.shard = sh ∧ op.key = k) {sh' : UInt64} {k : Bytes}
    (hk : ownIntent codec e s sh' k = none) :
    ∀ op ∈ (⟨keys.flatMap fun k => (ownIntent codec e s sh k).elim [] (ops k)⟩ : WriteBatch).ops,
      op.shard = sh' → op.key ≠ k := by
  intro op hop hsh hkey
  obtain ⟨k', -, i, hi, hop⟩ := mem_flatMap_ownIntent codec hop
  obtain ⟨h1, h2⟩ := hops k' i op hop
  subst h2
  rw [← hsh, h1] at hk
  rw [hkey, hk] at hi
  cases hi

theorem commitIntent_frame {req : CommitIntentRequest} {r : Option WriteBatch}
    (h : commitIntent codec e req = .ok r) {sh' : UInt64} {k : Bytes} {v : UInt64}
    (hv : v ≠ req.commitVersion)
    (hv' : v ≠ txnIntentVersion ∨ ownIntent codec e req.startVersion sh' k = none) :
    (e.applyEval r sh' k).recordAt v = (e sh' k).recordAt v := by
  rw [(commitIntent_ok codec h).1, applyEval_batchOf]
  rcases hv' with hv' | hk
  · refine GroupEngine.commit_preserves (P := fun x => x.recordAt v = (e sh' k).recordAt v)
      (fun op hop _ _ x hx => ?_) rfl
    obtain ⟨k', -, i, -, hop⟩ := mem_flatMap_ownIntent codec hop
    rcases (mem_commitOps hop).2.2 with rfl | ⟨_, rfl⟩
    · exact (x.recordAt_delete_of_ne (Ne.symm hv')).trans hx
    · exact (x.recordAt_put_of_ne (Ne.symm hv)).trans hx
  · exact congrArg (·.recordAt v) (GroupEngine.commit_of_untouched
      (untouched_of_ownIntent_none req.keys (commitOps req)
        (fun _ _ _ hop => ⟨(mem_commitOps hop).1, (mem_commitOps hop).2.1⟩) hk))

theorem clearIntent_frame {req : ClearIntentRequest} {r : Option WriteBatch}
    (h : clearIntent codec e req = .ok r) {sh' : UInt64} {k : Bytes} {v : UInt64}
    (hv' : v ≠ txnIntentVersion ∨ ownIntent codec e req.startVersion sh' k = none) :
    (e.applyEval r sh' k).recordAt v = (e sh' k).recordAt v := by
  rw [(clearIntent_ok codec h).1, applyEval_batchOf]
  rcases hv' with hv' | hk
  · refine GroupEngine.commit_preserves (P := fun x => x.recordAt v = (e sh' k).recordAt v)
      (fun op hop _ _ x hx => ?_) rfl
    obtain ⟨k', -, i, -, hop⟩ := mem_flatMap_ownIntent codec hop
    rw [(mem_clearOps hop).2.2]
    exact (x.recordAt_delete_of_ne (Ne.symm hv')).trans hx
  · exact congrArg (·.recordAt v) (GroupEngine.commit_of_untouched
      (untouched_of_ownIntent_none req.keys (clearOps req)
        (fun _ _ _ hop => ⟨(mem_clearOps hop).1, (mem_clearOps hop).2.1⟩) hk))

def TxnCmd.KeepsResolved (s : UInt64) : TxnCmd Cond → Prop
  | .write _ req => req.startVersion ≠ s
  | .commit req => req.commitVersion ≠ txnIntentVersion
  | .clear _ => True

def TxnCmd.ResolutionOf (s sh : UInt64) (keys : List Bytes) : TxnCmd Cond → Prop
  | .write _ _ => False
  | .commit req => req.shardId = sh ∧ req.startVersion = s ∧ req.keys = keys ∧
      req.commitVersion ≠ txnIntentVersion
  | .clear req => req.shardId = sh ∧ req.startVersion = s ∧ req.keys = keys

def TxnCmd.ReplayOf (s sh : UInt64) (keys : List Bytes) : TxnCmd Cond → Prop
  | .write _ _ => False
  | .commit req => req.shardId = sh ∧ req.startVersion = s ∧ req.keys ⊆ keys
  | .clear req => req.shardId = sh ∧ req.startVersion = s ∧ req.keys ⊆ keys

theorem TxnCmd.step_resolvedFor {cmd : TxnCmd Cond} (hc : cmd.KeepsResolved s) {k : Bytes}
    (hk : ResolvedFor codec s (e sh k)) :
    ResolvedFor codec s (cmd.step codec evalConditions e sh k) := by
  obtain ⟨ops, heq, hops⟩ := cmd.step_eq codec evalConditions e
  rw [heq]
  refine GroupEngine.commit_preserves (fun op hop _ _ h hh => hh.applyHistory ?_) hk
  have hs := hops op hop
  cases cmd with
  | write latchGuard req =>
    obtain ⟨sh, k, i, rfl, hi⟩ := hs
    exact .inr ⟨sh, k, i, rfl, hi ▸ hc⟩
  | commit req =>
    obtain ⟨k, -, i, -, hop⟩ := hs
    rcases (mem_commitOps hop).2.2 with rfl | ⟨_, rfl⟩
    · exact .inl rfl
    · exact .inl hc
  | clear req =>
    obtain ⟨k, -, i, -, hop⟩ := hs
    rw [(mem_clearOps hop).2.2]
    exact .inl rfl

theorem TxnCmd.run_resolvedFor {cmds : List (TxnCmd Cond)} (hc : ∀ c ∈ cmds, c.KeepsResolved s)
    {k : Bytes} (hk : ResolvedFor codec s (e sh k)) :
    ResolvedFor codec s (TxnCmd.run codec evalConditions e cmds sh k) := by
  induction cmds generalizing e with
  | nil => exact hk
  | cons c cmds ih =>
    exact ih (fun c' hc' => hc c' (List.mem_cons_of_mem _ hc'))
      (TxnCmd.step_resolvedFor evalConditions (hc c (List.mem_cons_self _ _)) hk)

theorem resolved_of_resolution {keys : List Bytes} {ops : Bytes → TxnIntent → List WriteOp}
    (hops : ∀ k i, ∀ op ∈ ops k i, op.shard = sh ∧ op.key = k ∧ op.Resolves)
    (hdel : ∀ k i, WriteOp.delete sh k txnIntentVersion ∈ ops k i)
    (hreads : ∀ k ∈ keys, ∃ o, readTargetIntent codec e s sh k = .ok o) :
    ∀ k ∈ keys, ResolvedFor codec s
      (e.commit ⟨keys.flatMap fun k => (ownIntent codec e s sh k).elim [] (ops k)⟩ sh k) := by
  intro k hk
  obtain ⟨o, ho⟩ := hreads k hk
  have hown := readTargetIntent_eq_ownIntent codec ho
  cases o with
  | none =>
    rw [GroupEngine.commit_of_untouched (untouched_of_ownIntent_none keys ops
      (fun k i op hop => ⟨(hops k i op hop).1, (hops k i op hop).2.1⟩) hown.symm)]
    exact readTargetIntent_eq_none_iff.1 ho
  | some i =>
    refine ResolvedFor.of_noIntent ?_
    rw [GroupEngine.commit_apply]
    refine History.noIntent_foldl (fun op hop => ?_) ⟨sh, k, ?_⟩ _
    · obtain ⟨k', -, i', -, hop⟩ := mem_flatMap_ownIntent codec (List.mem_filter.1 hop).1
      exact (hops k' i' op hop).2.2
    · refine List.mem_filter.2 ⟨List.mem_flatMap.2 ⟨k, hk, ?_⟩, by simp [WriteOp.shard, WriteOp.key]⟩
      rw [← hown]
      exact hdel k i

theorem commitIntent_resolves {req : CommitIntentRequest} {r : Option WriteBatch}
    (h : commitIntent codec e req = .ok r) (hc : req.commitVersion ≠ txnIntentVersion) :
    ∀ k ∈ req.keys, ResolvedFor codec req.startVersion (e.applyEval r req.shardId k) := by
  obtain ⟨hr, hreads⟩ := commitIntent_ok codec h
  rw [hr, applyEval_batchOf]
  refine resolved_of_resolution (fun k i op hop => ⟨(mem_commitOps hop).1,
    (mem_commitOps hop).2.1, ?_⟩) (fun _ _ => List.mem_cons_self _ _) hreads
  rcases (mem_commitOps hop).2.2 with rfl | ⟨_, rfl⟩
  · rfl
  · exact hc

theorem clearIntent_resolves {req : ClearIntentRequest} {r : Option WriteBatch}
    (h : clearIntent codec e req = .ok r) :
    ∀ k ∈ req.keys, ResolvedFor codec req.startVersion (e.applyEval r req.shardId k) := by
  obtain ⟨hr, hreads⟩ := clearIntent_ok codec h
  rw [hr, applyEval_batchOf]
  refine resolved_of_resolution (fun k i op hop => ⟨(mem_clearOps hop).1,
    (mem_clearOps hop).2.1, ?_⟩) (fun _ _ => List.mem_singleton_self _) hreads
  rw [(mem_clearOps hop).2.2]
  rfl

theorem targetOps_resolved {ops : Bytes → TxnIntent → List WriteOp} {keys : List Bytes}
    (hk : ∀ k ∈ keys, ResolvedFor codec s (e sh k)) :
    keys.mapM (targetOps codec e s sh ops) = .ok (keys.map fun _ => []) := by
  rw [mapM_eq_ok, List.forall₂_map_right_iff, List.forall₂_same]
  intro k hk'
  simp [targetOps, readTargetIntent_eq_none_iff.2 (hk k hk'), Except.map]

theorem commitIntent_of_resolved {req : CommitIntentRequest}
    (hk : ∀ k ∈ req.keys, ResolvedFor codec req.startVersion (e req.shardId k)) :
    commitIntent codec e req = .ok none := by
  rw [commitIntent_eq, targetOps_resolved hk]
  simp [Except.map, batchOf]

theorem clearIntent_of_resolved {req : ClearIntentRequest}
    (hk : ∀ k ∈ req.keys, ResolvedFor codec req.startVersion (e req.shardId k)) :
    clearIntent codec e req = .ok none := by
  rw [clearIntent_eq, targetOps_resolved hk]
  simp [Except.map, batchOf]

theorem TxnCmd.ResolutionOf.step_resolvedFor {first : TxnCmd Cond} {keys : List Bytes}
    (hf : first.ResolutionOf s sh keys) {r : Option WriteBatch}
    (hok : first.eval codec evalConditions e = .ok r) :
    ∀ k ∈ keys, ResolvedFor codec s (first.step codec evalConditions e sh k) := by
  unfold TxnCmd.step
  rw [hok]
  cases first with
  | write => exact hf.elim
  | commit req =>
    obtain ⟨rfl, rfl, rfl, hc⟩ := hf
    exact commitIntent_resolves hok hc
  | clear req =>
    obtain ⟨rfl, rfl, rfl⟩ := hf
    exact clearIntent_resolves hok

theorem TxnCmd.ReplayOf.eval_eq_none {later : TxnCmd Cond} {keys : List Bytes}
    (hl : later.ReplayOf s sh keys) (hk : ∀ k ∈ keys, ResolvedFor codec s (e sh k)) :
    later.eval codec evalConditions e = .ok none := by
  cases later with
  | write => exact hl.elim
  | commit req =>
    obtain ⟨rfl, rfl, hsub⟩ := hl
    exact commitIntent_of_resolved fun k hk' => hk k (hsub hk')
  | clear req =>
    obtain ⟨rfl, rfl, hsub⟩ := hl
    exact clearIntent_of_resolved fun k hk' => hk k (hsub hk')

variable (codec)

/-- `commit_intent` and `clear_intent` resolve exactly the listed keys holding the transaction's own
intent and change nothing else; a replay on some of those keys stages nothing. -/
theorem resolutions_touch_own_intents (e : GroupEngine) :
    (∀ req r, commitIntent codec e req = .ok r →
      r = batchOf (req.keys.flatMap fun k =>
        (ownIntent codec e req.startVersion req.shardId k).elim [] (commitOps req k)) ∧
      ∀ sh k v, v ≠ req.commitVersion →
        (v ≠ txnIntentVersion ∨ ownIntent codec e req.startVersion sh k = none) →
        (e.applyEval r sh k).recordAt v = (e sh k).recordAt v) ∧
    (∀ req r, clearIntent codec e req = .ok r →
      r = batchOf (req.keys.flatMap fun k =>
        (ownIntent codec e req.startVersion req.shardId k).elim [] (clearOps req k)) ∧
      ∀ sh k v, (v ≠ txnIntentVersion ∨ ownIntent codec e req.startVersion sh k = none) →
        (e.applyEval r sh k).recordAt v = (e sh k).recordAt v) ∧
    ∀ (first : TxnCmd Cond) s sh keys r (cmds : List (TxnCmd Cond)) (later : TxnCmd Cond),
      first.ResolutionOf s sh keys → first.eval codec evalConditions e = .ok r →
      (∀ c ∈ cmds, c.KeepsResolved s) → later.ReplayOf s sh keys →
      later.eval codec evalConditions (TxnCmd.run codec evalConditions e (first :: cmds)) =
        .ok none :=
  ⟨fun _ _ h => ⟨(commitIntent_ok codec h).1, fun _ _ _ hv hv' => commitIntent_frame h hv hv'⟩,
    fun _ _ h => ⟨(clearIntent_ok codec h).1, fun _ _ _ hv' => clearIntent_frame h hv'⟩,
    fun _ _ _ _ _ _ _ hf hok hc hl => hl.eval_eq_none evalConditions fun k hk =>
      TxnCmd.run_resolvedFor evalConditions hc (hf.step_resolvedFor evalConditions hok k hk)⟩

def twoDeleteIntents : GroupEngine :=
  TxnCmd.run fixedIntentCodec noConditions GroupEngine.empty
    [.write nopLatchGuard ⟨1, some ⟨0, [⟨[1], [], false⟩, ⟨[2], [], false⟩], []⟩⟩]

theorem resolutions_touch_own_intents_of_clear_after_commit :
    (TxnCmd.clear ⟨0, 1, [[1]]⟩ : TxnCmd Empty).eval fixedIntentCodec noConditions
      (TxnCmd.run fixedIntentCodec noConditions twoDeleteIntents
        [.commit ⟨0, 1, 2, [[1], [2]]⟩]) = .ok none :=
  (resolutions_touch_own_intents fixedIntentCodec noConditions twoDeleteIntents).2.2
    (.commit ⟨0, 1, 2, [[1], [2]]⟩) 1 0 [[1], [2]]
    (some ⟨[.delete 0 [1] txnIntentVersion, .put 0 [1] ⟨2, none⟩,
      .delete 0 [2] txnIntentVersion, .put 0 [2] ⟨2, none⟩]⟩) [] (.clear ⟨0, 1, [[1]]⟩)
    ⟨rfl, rfl, rfl, by decide⟩ (by decide) (by simp) ⟨rfl, rfl, by decide⟩

theorem later_commit_on_unlisted_key_stages :
    (TxnCmd.commit ⟨0, 1, 2, [[1]]⟩ : TxnCmd Empty).eval fixedIntentCodec noConditions
        twoDeleteIntents = .ok (some ⟨[.delete 0 [1] txnIntentVersion, .put 0 [1] ⟨2, none⟩]⟩) ∧
      (TxnCmd.commit ⟨0, 1, 3, [[2]]⟩ : TxnCmd Empty).eval fixedIntentCodec noConditions
        (TxnCmd.run fixedIntentCodec noConditions twoDeleteIntents [.commit ⟨0, 1, 2, [[1]]⟩]) =
        .ok (some ⟨[.delete 0 [2] txnIntentVersion, .put 0 [2] ⟨3, none⟩]⟩) := by
  constructor <;> decide

end Sekas.Txn
