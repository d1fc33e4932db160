import Sekas.Txn.Shard

/-! Records at the intent version are intents. `write_intent` only puts encoded intents
there and `clear_intent` only deletes them, but `commit_intent` writes the committed value
at whatever commit version the request names, `u64::MAX` included; so the invariant holds
for runs whose commits stay below the intent version, and a commit at `u64::MAX` breaks
it. -/
namespace Sekas.Txn
open Sekas.Engine

variable {Cond : Type} (codec : IntentCodec)
  (evalConditions : Option Value → List Cond → Except Error (Option Nat))

def IntentWellFormed (h : History) : Prop :=
  ∀ r ∈ h.records, r.version = txnIntentVersion →
    ∃ content i, r.content = some content ∧ codec.decode content = .ok i

def IntentsWellFormed (e : GroupEngine) : Prop := ∀ sh k, IntentWellFormed codec (e sh k)

def TxnCmd.CommitsBelowIntent : TxnCmd Cond → Prop
  | .commit req => req.commitVersion ≠ txnIntentVersion
  | _ => True

variable {codec}

theorem IntentWellFormed.of_noIntent {h : History} (hn : h.NoIntent) : IntentWellFormed codec h :=
  fun r hr hv => absurd hv (hn r hr)

theorem IntentWellFormed.put {h : History} (hw : IntentWellFormed codec h) {r : Value}
    (hr : r.version = txnIntentVersion →
      ∃ content i, r.content = some content ∧ codec.decode content = .ok i) :
    IntentWellFormed codec (h.put r) := by
  intro x hx
  rcases mem_insertVersion hx with rfl | hx
  · exact hr
  · exact hw x hx

theorem IntentWellFormed.delete {h : History} (hw : IntentWellFormed codec h) (v : UInt64) :
    IntentWellFormed codec (h.delete v) :=
  fun r hr => hw r (List.mem_filter.1 hr).1

theorem TxnCmd.step_intentsWellFormed {e : GroupEngine} (he : IntentsWellFormed codec e)
    {cmd : TxnCmd Cond} (hc : cmd.CommitsBelowIntent) :
    IntentsWellFormed codec (cmd.step codec evalConditions e) := by
  obtain ⟨ops, heq, hops⟩ := cmd.step_eq codec evalConditions e
  intro sh k
  rw [heq]
  refine GroupEngine.commit_preserves (fun op hop _ _ h hh => ?_) (he sh k)
  have hs := hops op hop
  cases cmd with
  | write latchGuard req =>
    obtain ⟨sh, k, i, rfl, -⟩ := hs
    exact hh.put fun _ => ⟨_, i, rfl, codec.decode_encode i⟩
  | commit req =>
    obtain ⟨k, -, i, -, hop⟩ := hs
    simp only [commitOps, List.mem_cons] at hop
    rcases hop with rfl | hop
    · exact hh.delete _
    · split at hop <;> (try split at hop) <;> simp only [List.mem_singleton,
        List.not_mem_nil] at hop <;> subst hop <;> exact hh.put fun hv => absurd hv hc
  | clear req =>
    obtain ⟨k, -, i, -, hop⟩ := hs
    simp only [clearOps, List.mem_singleton] at hop
    subst hop
    exact hh.delete _

theorem TxnCmd.run_intentsWellFormed {e : GroupEngine} (he : IntentsWellFormed codec e)
    {cmds : List (TxnCmd Cond)} (hc : ∀ cmd ∈ cmds, cmd.CommitsBelowIntent) :
    IntentsWellFormed codec (TxnCmd.run codec evalConditions e cmds) := by
  induction cmds generalizing e with
  | nil => exact he
  | cons cmd cmds ih =>
    exact ih (TxnCmd.step_intentsWellFormed evalConditions he (hc cmd (List.mem_cons_self _ _)))
      fun c hc' => hc c (List.mem_cons_of_mem _ hc')

theorem readers_ok_of_intentWellFormed {e : GroupEngine} {s sh : UInt64} {k : Bytes}
    (hw : IntentWellFormed codec (e sh k)) :
    (∃ p, readIntentAndNextKey codec e s sh k = .ok p) ∧
      ∃ o, readTargetIntent codec e s sh k = .ok o := by
  rcases hr : (e sh k).records with _ | ⟨r, rest⟩
  · have hl : ∀ x ∈ (e sh k).latest, x.version ≠ txnIntentVersion := by
      simp [History.latest, hr]
    exact ⟨⟨_, readIntentAndNextKey_of_fresh codec hl⟩, _, readTargetIntent_of_fresh codec hl⟩
  · by_cases hv : r.version = txnIntentVersion
    · obtain ⟨c, i, hc, hi⟩ := hw r (by simp [hr]) hv
      obtain ⟨v, content⟩ := r
      simp only at hv hc
      subst hv hc
      exact ⟨⟨_, by rw [readIntentAndNextKey_of_intent codec hr, hi]; rfl⟩,
        ⟨_, by rw [readTargetIntent_of_intent codec hr, hi]; rfl⟩⟩
    · have hl : ∀ x ∈ (e sh k).latest, x.version ≠ txnIntentVersion := by
        simpa [History.latest, hr] using hv
      exact ⟨⟨_, readIntentAndNextKey_of_fresh codec hl⟩, _, readTargetIntent_of_fresh codec hl⟩

variable (codec)

/-- Runs whose commits stay below the intent version keep every record there a decodable intent
and both intent readers total. -/
theorem intent_records_well_formed (e : GroupEngine) (cmds : List (TxnCmd Cond))
    (he : ∀ sh k, (e sh k).NoIntent) (hc : ∀ cmd ∈ cmds, cmd.CommitsBelowIntent) :
    let e' := TxnCmd.run codec evalConditions e cmds
    IntentsWellFormed codec e' ∧
      (∀ sh k, ∀ r ∈ (e' sh k).records, r.version ≠ txnIntentVersion →
        r.version < txnIntentVersion) ∧
      ∀ s sh k, (∃ p, readIntentAndNextKey codec e' s sh k = .ok p) ∧
        ∃ o, readTargetIntent codec e' s sh k = .ok o := by
  have hw := TxnCmd.run_intentsWellFormed evalConditions
    (fun sh k => (IntentWellFormed.of_noIntent (he sh k) : IntentWellFormed codec _)) hc
  exact ⟨hw, fun _ _ _ _ => lt_txnIntentVersion,
    fun _ sh k => readers_ok_of_intentWellFormed (hw sh k)⟩

def deleteThenCommit (commitVersion : UInt64) : List (TxnCmd Empty) :=
  [.write nopLatchGuard ⟨1, some ⟨0, [⟨[1], [], false⟩], []⟩⟩,
   .commit ⟨0, 1, commitVersion, [[1]]⟩]

theorem intent_records_well_formed_of_delete :
    (∀ sh k, (GroupEngine.empty sh k).NoIntent) ∧
      (∀ cmd ∈ deleteThenCommit 2, cmd.CommitsBelowIntent) ∧
      let e' := TxnCmd.run fixedIntentCodec noConditions GroupEngine.empty (deleteThenCommit 2)
      IntentsWellFormed fixedIntentCodec e' ∧
        (∀ sh k, ∀ r ∈ (e' sh k).records, r.version ≠ txnIntentVersion →
          r.version < txnIntentVersion) ∧
        ∀ s sh k, (∃ p, readIntentAndNextKey fixedIntentCodec e' s sh k = .ok p) ∧
          ∃ o, readTargetIntent fixedIntentCodec e' s sh k = .ok o := by
  have he : ∀ sh k, (GroupEngine.empty sh k).NoIntent := fun _ _ _ hr => by
    simp [GroupEngine.empty, History.empty] at hr
  have hc : ∀ cmd ∈ deleteThenCommit 2, cmd.CommitsBelowIntent := by
    simp [deleteThenCommit, TxnCmd.CommitsBelowIntent, txnIntentVersion]
  exact ⟨he, hc, intent_records_well_formed fixedIntentCodec noConditions _ _ he hc⟩

def committedAtIntentVersion : GroupEngine :=
  TxnCmd.run fixedIntentCodec noConditions GroupEngine.empty (deleteThenCommit txnIntentVersion)

/-- The commit leaves a tombstone at the intent version, and both readers then fail with
`InvalidData`. -/
theorem commit_at_intent_version_corrupts :
    (committedAtIntentVersion 0 [1]).records = [⟨txnIntentVersion, none⟩] ∧
      ¬ IntentsWellFormed fixedIntentCodec committedAtIntentVersion ∧
      readIntentAndNextKey fixedIntentCodec committedAtIntentVersion 1 0 [1] =
        .error (.invalidData "intent value must exist, shard=0, key=[1], txn=1") ∧
      readTargetIntent fixedIntentCodec committedAtIntentVersion 1 0 [1] =
        .error (.invalidData "txn intent without value, shard 0 key [1]") := by
  have hr : (committedAtIntentVersion 0 [1]).records = [⟨txnIntentVersion, none⟩] := by decide
  refine ⟨hr, fun hw => ?_, by decide, by decide⟩
  obtain ⟨c, i, hc, -⟩ := hw 0 [1] ⟨txnIntentVersion, none⟩ (by simp [hr]) rfl
  cases hc

end Sekas.Txn
