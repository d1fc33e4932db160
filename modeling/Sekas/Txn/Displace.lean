import Sekas.Txn.Resolve
import Sekas.Txn.Replay

/-! An intent displaced by another transaction. When `write_intent` finds the intent of
another transaction on a key, it asks the latch for that transaction's outcome, takes a
committed value as the previous value, and puts its own intent over the other one; the
committed value itself is not written. A `commit_intent` of the displaced transaction that
arrives afterwards no longer finds its intent and stages nothing. -/
namespace Sekas.Txn
open Sekas.Engine

variable {Cond : Type} (codec : IntentCodec)
  (evalConditions : Option Value → List Cond → Except Error (Option Nat))

def committedLatchGuard (value : Value) : LatchGuard := ⟨fun _ _ _ => .ok (some value)⟩

variable {codec} {e : GroupEngine} {latch : LatchGuard} {s sh : UInt64}

theorem readIntentAndNextKey_eq_some {k : Bytes} {i : TxnIntent} {pv : Option Value}
    (h : readIntentAndNextKey codec e s sh k = .ok (some i, pv)) :
    ∃ c rest, (e sh k).records = ⟨txnIntentVersion, some c⟩ :: rest ∧ codec.decode c = .ok i := by
  unfold readIntentAndNextKey GroupEngine.snapshot at h
  rcases hrec : (e sh k).records with _ | ⟨⟨v, _ | c⟩, rest⟩ <;> rw [hrec] at h
  · cases h
  · by_cases hv : v = txnIntentVersion <;> simp [hv] at h
  · by_cases hv : v = txnIntentVersion
    · subst hv
      cases hd : codec.decode c with
      | error => simp [hd] at h
      | ok i' =>
        simp only [↓reduceIte, hd, ok_bind, pure_eq_ok, Except.ok.injEq, Prod.mk.injEq,
          Option.some.injEq] at h
        exact ⟨c, rest, rfl, h.1 ▸ hd⟩
    · simp [hv] at h

theorem evalWrite_stages {j : Nat} {w : Write Cond} {o : Option TxnIntent × WriteResponse}
    (hr : ∀ i pv, readIntentAndNextKey codec e s sh w.key = .ok (some i, pv) → i.startVersion ≠ s)
    (h : evalWrite codec evalConditions e latch s sh j w = .ok o) :
    ∃ i, o.1 = some i ∧ i.startVersion = s := by
  unfold evalWrite at h
  obtain ⟨⟨ti, pv⟩, hread, h⟩ := bind_eq_ok.1 h
  have hstage {pv' : Option Value} (hw : stageWrite evalConditions s j w pv' false = .ok o) :
      ∃ i, o.1 = some i ∧ i.startVersion = s := by
    obtain ⟨-, -, i, hi, ho⟩ := stageWrite_ok evalConditions hw
    exact ⟨i, ho, Write.intent_startVersion hi⟩
  rcases ti with _ | ti
  · exact hstage h
  · simp only [ne_eq, hr ti pv hread, not_false_eq_true, ↓reduceIte] at h
    obtain ⟨resolved, -, h⟩ := bind_eq_ok.1 h
    exact hstage h

theorem writeIntent_ownTop {req : WriteIntentRequest Cond} {r : Option WriteBatch}
    {resp : WriteIntentResponse} (h : writeIntent codec evalConditions e latch req = .ok (r, resp))
    {k : Bytes} (hk : (TxnCmd.write latch req).Names sh k) :
    ∃ rest, OwnTop codec req.startVersion rest (e.applyEval r sh k) := by
  obtain ⟨write, hw, rfl, w, hw', rfl⟩ := hk
  obtain ⟨write', outsD, outsP, hw'', hD, hP, rfl, -⟩ := writeIntent_ok codec evalConditions h
  cases hw''.symm.trans (Option.mem_def.1 hw)
  rw [applyEval_batchOf]
  by_cases hown : ∃ i pv, readIntentAndNextKey codec e req.startVersion write.shardId w.key =
      .ok (some i, pv) ∧ i.startVersion = req.startVersion
  · -- the key held an intent of the transaction, which the batch leaves in place
    obtain ⟨i, pv, hr, hs⟩ := hown
    obtain ⟨c, rest, hrec, hd⟩ := readIntentAndNextKey_eq_some hr
    rw [commit_stagedOps_of_own codec evalConditions hD hP hr hs]
    exact ⟨rest, c, i, hrec, hd, hs⟩
  · -- otherwise the write staged one, and the batch holds only the transaction's intents
    push_neg at hown
    obtain ⟨i, -, hmem⟩ := staged_mem_stagedOps_append codec evalConditions hD hP hw'
      fun _ _ hj => evalWrite_stages evalConditions hown hj
    exact ⟨_, commit_ownTop codec (fun op hop => (List.mem_append.1 hop).elim
      (stagedOps_own codec evalConditions hD) (stagedOps_own codec evalConditions hP)) hmem⟩

theorem OwnTop.resolvedFor {rest : List Value} {h : History} (ho : OwnTop codec s rest h)
    {a : UInt64} (ha : a ≠ s) : ResolvedFor codec a h := by
  obtain ⟨c, i, hrec, hd, hi⟩ := ho
  intro r hr _
  rw [History.latest, hrec] at hr
  cases hr
  exact ⟨c, i, rfl, hd, fun h' => ha (h'.symm.trans hi)⟩

variable (codec)

/-- After a `write_intent` succeeds, a `commit_intent` of another transaction on its keys stages
nothing: the value that transaction committed is written by no one. -/
theorem displaced_transaction_commits_nothing (e : GroupEngine) (latch : LatchGuard)
    (req : WriteIntentRequest Cond) (r : Option WriteBatch) (cmds : List (TxnCmd Cond))
    (commit : CommitIntentRequest)
    (hw : (TxnCmd.write latch req).eval codec evalConditions e = .ok r)
    (hk : ∀ k ∈ commit.keys, (TxnCmd.write latch req).Names commit.shardId k)
    (ha : commit.startVersion ≠ req.startVersion)
    (hc : ∀ c ∈ cmds, c.KeepsResolved commit.startVersion) :
    commitIntent codec (TxnCmd.run codec evalConditions e (.write latch req :: cmds)) commit =
      .ok none := by
  obtain ⟨⟨r', resp⟩, hw', rfl⟩ := map_eq_ok.1 hw
  refine commitIntent_of_resolved fun k hk' => TxnCmd.run_resolvedFor evalConditions hc ?_
  rw [TxnCmd.step_of_eval codec evalConditions _ hw]
  obtain ⟨rest, ho⟩ := writeIntent_ownTop evalConditions hw' (hk k hk')
  exact ho.resolvedFor ha

def oneWritesSeven : TxnCmd Empty :=
  .write nopLatchGuard ⟨1, some ⟨0, [], [⟨.none, [1], [7], [], false⟩]⟩⟩

def threeWritesNine : TxnCmd Empty :=
  .write (committedLatchGuard ⟨2, some [7]⟩) ⟨3, some ⟨0, [], [⟨.none, [1], [9], [], false⟩]⟩⟩

theorem displaced_transaction_commits_nothing_after_commit :
    commitIntent fixedIntentCodec (TxnCmd.run fixedIntentCodec noConditions
      (TxnCmd.run fixedIntentCodec noConditions GroupEngine.empty [oneWritesSeven])
      [threeWritesNine, .commit ⟨0, 3, 4, [[1]]⟩]) ⟨0, 1, 2, [[1]]⟩ = .ok none :=
  displaced_transaction_commits_nothing fixedIntentCodec noConditions _ _ _
    (some ⟨[.put 0 [1] ⟨txnIntentVersion, some (fixedIntentCodec.encode (.withPut 3 (some [9])))⟩]⟩)
    [.commit ⟨0, 3, 4, [[1]]⟩] ⟨0, 1, 2, [[1]]⟩ (by decide)
    (fun k hk => ⟨_, rfl, rfl, _, List.mem_singleton_self _, (List.mem_singleton.1 hk).symm⟩)
    (by decide) (by simp only [List.mem_singleton, forall_eq, TxnCmd.KeepsResolved]; decide)

/-- Transaction 1 commits `[7]` at version 2 after transaction 3 displaced its intent on `[1]`:
the key never holds `[7]` at version 2, and after a clear it holds nothing. -/
theorem displaced_committed_write_is_lost :
    (TxnCmd.run fixedIntentCodec noConditions GroupEngine.empty
      [oneWritesSeven, threeWritesNine, .commit ⟨0, 3, 4, [[1]]⟩, .commit ⟨0, 1, 2, [[1]]⟩]
      0 [1]).records = [⟨4, some [9]⟩] ∧
    (TxnCmd.run fixedIntentCodec noConditions GroupEngine.empty
      [oneWritesSeven, threeWritesNine, .clear ⟨0, 3, [[1]]⟩, .commit ⟨0, 1, 2, [[1]]⟩]
      0 [1]).records = [] := by
  constructor <;> decide

end Sekas.Txn
