import Mathlib.Data.List.Pairwise
import Sekas.Txn.Resolve
import Sekas.Txn.Replay

/-! Transactions as a client drives them over one group: each runs `write_intent`, applies
its batch, and later commits or clears all its keys; one whose `write_intent` failed is
cleared. While the transactions naming a key never overlap, every key behaves as a
register: a commit adds the record the request describes at the commit version, an abort
leaves the key as the transaction found it, and intents live only while their
transaction is open. -/
namespace Sekas.Txn
open Sekas.Engine

variable {Cond : Type} (codec : IntentCodec)
  (evalConditions : Option Value → List Cond → Except Error (Option Nat)) (latch : LatchGuard)

structure Transaction (Cond : Type) where
  startVersion : UInt64
  write : ShardWriteRequest Cond
  commitVersion : Option UInt64
  deriving DecidableEq

def Transaction.writes (t : Transaction Cond) : List (Write Cond) :=
  t.write.deletes.map .delete ++ t.write.puts.map .put

def Transaction.keys (t : Transaction Cond) : List Bytes := t.writes.map Write.key

def Transaction.beginCmd (t : Transaction Cond) : TxnCmd Cond :=
  .write latch ⟨t.startVersion, some t.write⟩

def Transaction.finishCmd (t : Transaction Cond) (writeOk : Bool) : TxnCmd Cond :=
  match writeOk, t.commitVersion with
  | true, some cv => .commit ⟨t.write.shardId, t.startVersion, cv, t.keys⟩
  | _, _ => .clear ⟨t.write.shardId, t.startVersion, t.keys⟩

inductive Event (Cond : Type) where
  | begin (t : Transaction Cond)
  | finish (startVersion : UInt64)

structure Client (Cond : Type) where
  engine : GroupEngine
  pending : List (Transaction Cond × Bool)

def Client.find (c : Client Cond) (s : UInt64) : Option (Transaction Cond × Bool) :=
  c.pending.find? (·.1.startVersion == s)

def Client.step (c : Client Cond) : Event Cond → Client Cond
  | .begin t =>
    ⟨(t.beginCmd latch).step codec evalConditions c.engine,
      (t, ((t.beginCmd latch).eval codec evalConditions c.engine).isOk) :: c.pending⟩
  | .finish s =>
    match c.find s with
    | some (t, writeOk) => ⟨(t.finishCmd writeOk).step codec evalConditions c.engine,
        c.pending.filter (·.1.startVersion != s)⟩
    | none => c

def Client.run (c : Client Cond) (evs : List (Event Cond)) : Client Cond :=
  evs.foldl (Client.step codec evalConditions latch) c

def Separate (p q : Transaction Cond × Bool) : Prop :=
  p.1.startVersion ≠ q.1.startVersion ∧
    (p.1.write.shardId = q.1.write.shardId → ∀ k ∈ p.1.keys, k ∉ q.1.keys)

instance (p q : Transaction Cond × Bool) : Decidable (Separate p q) :=
  inferInstanceAs (Decidable (_ ∧ _))

def Client.Allows (c : Client Cond) : Event Cond → Prop
  | .begin t => t.keys.Nodup ∧ (∀ cv ∈ t.commitVersion, cv ≠ txnIntentVersion) ∧
      ∀ p ∈ c.pending, Separate p (t, true)
  | .finish s => ∃ p, c.find s = some p ∧ ∀ cv ∈ p.1.commitVersion, ∀ k ∈ p.1.keys,
      ∀ r ∈ (c.engine p.1.write.shardId k).records, r.version ≠ txnIntentVersion →
        r.version < cv

def Client.ValidRun : Client Cond → List (Event Cond) → Prop
  | _, [] => True
  | c, ev :: evs => c.Allows ev ∧ (c.step codec evalConditions latch ev).ValidRun evs

def Write.registerValue (prev : Option Value) : Write Cond → Option (Option Bytes)
  | .delete _ => some none
  | .put p =>
    match p.putType with
    | .none => some (some p.value)
    | .nop => none
    | .addI64 => (decodeI64 p.value).map fun delta =>
        some (i64ToBeBytes ((((prev.bind (·.content)).bind decodeI64).getD 0) + delta))

def commitRecords (cv : UInt64) (intent : TxnIntent) : List Value :=
  if intent.isDelete then [⟨cv, none⟩]
  else match intent.value with
    | some value => [⟨cv, some value⟩]
    | none => []

theorem commitOps_eq (req : CommitIntentRequest) (k : Bytes) (i : TxnIntent) :
    commitOps req k i = .delete req.shardId k txnIntentVersion ::
      (commitRecords req.commitVersion i).map (.put req.shardId k) := by
  unfold commitOps commitRecords
  cases i.isDelete <;> cases i.value <;> rfl

theorem commitRecords_intent {w : Write Cond} {s : UInt64} {prev : Option Value} {i : TxnIntent}
    (h : w.intent s prev = .ok i) (cv : UInt64) :
    commitRecords cv i = ((w.registerValue prev).map fun x => ⟨cv, x⟩).toList := by
  cases w with
  | delete d =>
    cases h
    rfl
  | put p =>
    simp only [Write.intent, bind_eq_ok, pure_eq_ok, Except.ok.injEq] at h
    obtain ⟨v, hv, rfl⟩ := h
    cases ht : p.putType <;> simp only [applyPutOp, ht] at hv
    · cases hv
      simp [Write.registerValue, ht, commitRecords, TxnIntent.withPut]
    · cases hv
      simp [Write.registerValue, ht, commitRecords, TxnIntent.withPut]
    · obtain ⟨delta, hd, hv⟩ := bind_eq_ok.1 hv
      have hd := okOr_eq_ok.1 hd
      cases hc : prev.bind (·.content) with
      | none =>
        simp only [hc, ok_bind, pure_eq_ok, Except.ok.injEq] at hv
        subst hv
        simp [Write.registerValue, ht, hd, hc, commitRecords, TxnIntent.withPut]
      | some content =>
        simp only [hc, bind_eq_ok, okOr_eq_ok, pure_eq_ok, Except.ok.injEq] at hv
        obtain ⟨former, hf, rfl⟩ := hv
        simp [Write.registerValue, ht, hd, hc, hf, commitRecords, TxnIntent.withPut]

variable {e : GroupEngine} {s sh : UInt64}

theorem evalWrite_of_noIntent {j : Nat} {w : Write Cond} {o1 : Option TxnIntent}
    {o2 : WriteResponse} (hn : (e sh w.key).NoIntent)
    (h : evalWrite codec evalConditions e latch s sh j w = .ok (o1, o2)) :
    ∃ i, w.intent s (e sh w.key).latest = .ok i ∧ o1 = some i := by
  rw [evalWrite_of_fresh codec evalConditions (readIntentAndNextKey_of_fresh codec hn.latest)] at h
  obtain ⟨-, -, i, hi, ho⟩ := stageWrite_ok evalConditions h
  exact ⟨i, hi, ho⟩

theorem writeIntent_of_noIntent {req : WriteIntentRequest Cond} {write : ShardWriteRequest Cond}
    (hw : req.write = some write)
    (hnodup : ((write.deletes.map Write.delete ++ write.puts.map Write.put).map Write.key).Nodup)
    (hn : ∀ w ∈ write.deletes.map Write.delete ++ write.puts.map Write.put,
      (e write.shardId w.key).NoIntent)
    {r : Option WriteBatch} {resp : WriteIntentResponse}
    (h : writeIntent codec evalConditions e latch req = .ok (r, resp)) :
    ∀ w ∈ write.deletes.map Write.delete ++ write.puts.map Write.put, ∃ i,
      w.intent req.startVersion (e write.shardId w.key).latest = .ok i ∧
      (e.applyEval r write.shardId w.key).records =
        ⟨txnIntentVersion, some (codec.encode i)⟩ :: (e write.shardId w.key).records := by
  obtain ⟨write', outsD, outsP, hw', hD, hP, rfl, -⟩ := writeIntent_ok codec evalConditions h
  cases hw.symm.trans hw'
  intro w hw
  obtain ⟨i, hi, hmem⟩ : ∃ i, w.intent req.startVersion (e write.shardId w.key).latest = .ok i ∧
      .put write.shardId w.key ⟨txnIntentVersion, some (codec.encode i)⟩ ∈
        stagedOps codec write.shardId (write.deletes.map .delete) outsD ++
          stagedOps codec write.shardId (write.puts.map .put) outsP := by
    refine staged_mem_stagedOps_append codec evalConditions hD hP hw fun j o hj => ?_
    obtain ⟨i, hi, ho⟩ := evalWrite_of_noIntent codec evalConditions latch (hn w hw) hj
    exact ⟨i, ho, hi⟩
  -- every put on the key comes from its one write, which builds the same intent
  have hops : ∀ op ∈ stagedOps codec write.shardId (write.deletes.map .delete) outsD ++
      stagedOps codec write.shardId (write.puts.map .put) outsP, op.shard = write.shardId →
      op.key = w.key → ∃ sh k i', op = .put sh k ⟨txnIntentVersion, some (codec.encode i')⟩ ∧
        i' = i := by
    intro op hop _ hk
    obtain ⟨w', hw', j, i', r', hj, rfl⟩ := mem_stagedOps_append codec evalConditions hD hP hop
    have hww := List.inj_on_of_nodup_map hnodup hw' hw hk
    subst hww
    obtain ⟨i'', hi'', hii⟩ := evalWrite_of_noIntent codec evalConditions latch (hn w' hw') hj
    cases hii
    exact ⟨_, _, i', rfl, Except.ok.inj (hi''.symm.trans hi)⟩
  refine ⟨i, hi, ?_⟩
  obtain ⟨i', rfl, hrec⟩ := commit_intentPuts codec (e := e) hops hmem
  rw [applyEval_batchOf, hrec, History.delete_of_not_mem (hn w hw)]

theorem commitRecords_length (cv : UInt64) (i : TxnIntent) : (commitRecords cv i).length ≤ 1 := by
  unfold commitRecords
  split
  · simp
  · split <;> simp

theorem mem_commitRecords {cv : UInt64} {i : TxnIntent} {r : Value} (h : r ∈ commitRecords cv i) :
    r.version = cv := by
  unfold commitRecords at h
  split at h
  · simp_all
  · split at h <;> simp_all

theorem History.foldl_resolution {h : History} {x : Option Bytes} {rest recs : List Value}
    {sh : UInt64} {k : Bytes} (hh : h.records = ⟨txnIntentVersion, x⟩ :: rest)
    (hlen : recs.length ≤ 1) (hlt : ∀ r ∈ recs, ∀ r' ∈ rest, r'.version < r.version) :
    ((WriteOp.delete sh k txnIntentVersion :: recs.map (.put sh k)).foldl
      WriteOp.applyHistory h).records = recs ++ rest := by
  have hd := History.delete_of_head hh
  match recs, hlen with
  | [], _ => exact hd
  | [r], _ =>
    show ((h.delete txnIntentVersion).put r).records = r :: rest
    rw [History.put_of_lt fun r' hr' => hlt r (List.mem_singleton_self _) r' (hd ▸ hr'), hd]

theorem filter_flatMap_key {keys : List Bytes} (hnodup : keys.Nodup) {f : Bytes → List WriteOp}
    (hf : ∀ k', ∀ op ∈ f k', op.shard = sh ∧ op.key = k') {k : Bytes} (hk : k ∈ keys) :
    (keys.flatMap f).filter (fun op => decide (op.shard = sh ∧ op.key = k)) = f k := by
  induction keys with
  | nil => cases hk
  | cons k0 ks ih =>
    obtain ⟨hk0, hnd⟩ := List.nodup_cons.1 hnodup
    have hother (k') (hk' : k' ≠ k) :
        (f k').filter (fun op => decide (op.shard = sh ∧ op.key = k)) = [] :=
      List.filter_eq_nil_iff.2 fun op hop => by
        simp only [(hf k' op hop).2, decide_eq_true_eq, not_and]
        exact fun _ => hk'
    rw [List.flatMap_cons, List.filter_append]
    rcases List.mem_cons.1 hk with rfl | hk'
    · rw [List.filter_eq_self.2 fun op hop => by simpa using hf _ op hop,
        List.filter_eq_nil_iff.2 fun op hop => ?_, List.append_nil]
      obtain ⟨k', hk', hop⟩ := List.mem_flatMap.1 hop
      simp only [(hf k' op hop).2, decide_eq_true_eq, not_and]
      exact fun _ h => hk0 (h ▸ hk')
    · rw [hother k0 fun h => hk0 (h ▸ hk'), ih hnd hk', List.nil_append]

theorem readTargetIntent_of_own {k : Bytes} {i : TxnIntent} {rest : List Value}
    (hh : (e sh k).records = ⟨txnIntentVersion, some (codec.encode i)⟩ :: rest)
    (hi : i.startVersion = s) : readTargetIntent codec e s sh k = .ok (some i) := by
  rw [readTargetIntent_of_intent codec hh, codec.decode_encode]
  simp [Except.map, hi]

theorem targetOps_ok {ops : Bytes → TxnIntent → List WriteOp} {keys : List Bytes}
    (h : ∀ k ∈ keys, ∃ o, readTargetIntent codec e s sh k = .ok o) :
    keys.mapM (targetOps codec e s sh ops) =
      .ok (keys.map fun k => (ownIntent codec e s sh k).elim [] (ops k)) := by
  rw [mapM_eq_ok, List.forall₂_map_right_iff, List.forall₂_same]
  intro k hk
  obtain ⟨o, ho⟩ := h k hk
  rw [targetOps, ho, ← readTargetIntent_eq_ownIntent codec ho]
  cases o <;> rfl

theorem resolution_records {keys : List Bytes} (hnodup : keys.Nodup)
    {ops : Bytes → TxnIntent → List WriteOp} {recs : TxnIntent → List Value}
    (hops : ∀ k i, ops k i = .delete sh k txnIntentVersion :: (recs i).map (.put sh k))
    (hlen : ∀ i, (recs i).length ≤ 1)
    (hown : ∀ k ∈ keys, ∃ i rest, (e sh k).records =
      ⟨txnIntentVersion, some (codec.encode i)⟩ :: rest ∧ i.startVersion = s)
    (hlt : ∀ k ∈ keys, ∀ i, ∀ r ∈ recs i, ∀ r' ∈ (e sh k).records, r'.version ≠ txnIntentVersion →
      r'.version < r.version) :
    ∀ k ∈ keys, ∃ i rest, (e sh k).records = ⟨txnIntentVersion, some (codec.encode i)⟩ :: rest ∧
      (e.commit ⟨keys.flatMap fun k => (ownIntent codec e s sh k).elim [] (ops k)⟩ sh k).records =
        recs i ++ rest := by
  intro k hk
  obtain ⟨i, rest, hh, hi⟩ := hown k hk
  have hoi : ownIntent codec e s sh k = some i :=
    (readTargetIntent_eq_ownIntent codec (readTargetIntent_of_own codec hh hi)).symm
  refine ⟨i, rest, hh, ?_⟩
  rw [GroupEngine.commit_apply, filter_flatMap_key hnodup (fun k' op hop => ?_) hk, hoi,
    Option.elim, hops]
  · refine History.foldl_resolution hh (hlen i) fun r hr r' hr' => hlt k hk i r hr r' ?_ ?_
    · rw [hh]
      exact List.mem_cons_of_mem _ hr'
    · exact History.ne_intentVersion_of_mem_tail hh r' hr'
  · cases hk' : ownIntent codec e s sh k' with
    | none => simp [hk'] at hop
    | some i' =>
      simp only [hk', Option.elim, hops, List.mem_cons, List.mem_map] at hop
      rcases hop with rfl | ⟨_, _, rfl⟩ <;> exact ⟨rfl, rfl⟩

def Transaction.Names (t : Transaction Cond) (sh : UInt64) (k : Bytes) : Prop :=
  t.write.shardId = sh ∧ k ∈ t.keys

theorem Transaction.beginCmd_step_of_not_names {t : Transaction Cond} {k : Bytes}
    (h : ¬ t.Names sh k) : (t.beginCmd latch).step codec evalConditions e sh k = e sh k :=
  TxnCmd.step_of_not_names evalConditions fun ⟨_, hw, hsh, w, hw', hk⟩ => by
    cases hw
    exact h ⟨hsh, List.mem_map.2 ⟨w, hw', hk⟩⟩

theorem Transaction.finishCmd_step_of_not_names {t : Transaction Cond} {ok : Bool} {k : Bytes}
    (h : ¬ t.Names sh k) : (t.finishCmd ok).step codec evalConditions e sh k = e sh k := by
  refine TxnCmd.step_of_not_names evalConditions fun hn => h ?_
  unfold Transaction.finishCmd at hn
  split at hn <;> exact hn

theorem separate_symm : Symmetric (@Separate Cond) :=
  fun _ _ ⟨hs, hd⟩ => ⟨Ne.symm hs, fun h k hq hp => hd h.symm k hp hq⟩

theorem Separate.not_names {p q : Transaction Cond × Bool} (h : Separate p q) {k : Bytes}
    (hp : p.1.Names sh k) : ¬ q.1.Names sh k :=
  fun hq => h.2 (hp.1.trans hq.1.symm) k hp.2 hq.2

structure Client.Inv (c : Client Cond) : Prop where
  separate : c.pending.Pairwise Separate
  wellFormed : ∀ p ∈ c.pending, p.1.keys.Nodup ∧ ∀ cv ∈ p.1.commitVersion, cv ≠ txnIntentVersion
  intents : ∀ p ∈ c.pending, p.2 = true → ∀ k ∈ p.1.keys, ∃ i rest,
    (c.engine p.1.write.shardId k).records = ⟨txnIntentVersion, some (codec.encode i)⟩ :: rest ∧
      i.startVersion = p.1.startVersion
  clean : ∀ sh k, (c.engine sh k).NoIntent ∨ ∃ p ∈ c.pending, p.2 = true ∧ p.1.Names sh k

theorem Client.inv_init (he : ∀ sh k, (e sh k).NoIntent) : (⟨e, []⟩ : Client Cond).Inv codec where
  separate := .nil
  wellFormed _ h := by cases h
  intents _ h := by cases h
  clean sh k := .inl (he sh k)

variable {codec}

theorem Client.Inv.separate_of_ne {c : Client Cond} (hc : c.Inv codec) {p q : Transaction Cond × Bool}
    (hp : p ∈ c.pending) (hq : q ∈ c.pending) (hpq : p ≠ q) : Separate p q :=
  hc.separate.forall separate_symm hp hq hpq

theorem Client.Inv.find_eq {c : Client Cond} (hc : c.Inv codec) {p : Transaction Cond × Bool}
    (hp : p ∈ c.pending) : c.find p.1.startVersion = some p := by
  obtain ⟨q, hq⟩ := Option.isSome_iff_exists.1
    (List.find?_isSome.2 ⟨p, hp, by simp⟩ : (c.find p.1.startVersion).isSome)
  have hqs := List.find?_some hq
  rw [Client.find, hq]
  by_contra hne
  exact (hc.separate_of_ne (List.mem_of_find?_eq_some hq) hp fun h => hne (h ▸ rfl)).1
    (by simpa using hqs)

theorem Client.Inv.noIntent_of_unnamed {c : Client Cond} (hc : c.Inv codec) {sh : UInt64}
    {k : Bytes} (h : ∀ q ∈ c.pending, q.2 = true → ¬ q.1.Names sh k) : (c.engine sh k).NoIntent :=
  (hc.clean sh k).resolve_right fun ⟨q, hq, hok, hn⟩ => h q hq hok hn

theorem commitIntent_of_own {req : CommitIntentRequest}
    (hown : ∀ k ∈ req.keys, ∃ i rest, (e req.shardId k).records =
      ⟨txnIntentVersion, some (codec.encode i)⟩ :: rest ∧ i.startVersion = req.startVersion) :
    commitIntent codec e req = .ok (batchOf (req.keys.flatMap fun k =>
      (ownIntent codec e req.startVersion req.shardId k).elim [] (commitOps req k))) := by
  rw [commitIntent_eq, targetOps_ok codec fun k hk => ?_]
  · rfl
  · obtain ⟨i, rest, hh, hi⟩ := hown k hk
    exact ⟨_, readTargetIntent_of_own codec hh hi⟩

theorem clearIntent_of_own {req : ClearIntentRequest}
    (hown : ∀ k ∈ req.keys, ∃ i rest, (e req.shardId k).records =
      ⟨txnIntentVersion, some (codec.encode i)⟩ :: rest ∧ i.startVersion = req.startVersion) :
    clearIntent codec e req = .ok (batchOf (req.keys.flatMap fun k =>
      (ownIntent codec e req.startVersion req.shardId k).elim [] (clearOps req k))) := by
  rw [clearIntent_eq, targetOps_ok codec fun k hk => ?_]
  · rfl
  · obtain ⟨i, rest, hh, hi⟩ := hown k hk
    exact ⟨_, readTargetIntent_of_own codec hh hi⟩

@[simp] theorem Client.step_begin (c : Client Cond) (t : Transaction Cond) :
    c.step codec evalConditions latch (.begin t) =
      ⟨(t.beginCmd latch).step codec evalConditions c.engine,
        (t, ((t.beginCmd latch).eval codec evalConditions c.engine).isOk) :: c.pending⟩ := rfl

theorem Client.step_finish {c : Client Cond} {s : UInt64} {p : Transaction Cond × Bool}
    (h : c.find s = some p) :
    c.step codec evalConditions latch (.finish s) =
      ⟨(p.1.finishCmd p.2).step codec evalConditions c.engine,
        c.pending.filter (·.1.startVersion != s)⟩ := by
  simp [Client.step, h]

theorem Client.begin_records {c : Client Cond} (hc : c.Inv codec) {t : Transaction Cond}
    (ha : c.Allows (.begin t))
    (hok : ((t.beginCmd latch).eval codec evalConditions c.engine).isOk = true) :
    ∀ w ∈ t.writes, ∃ i, w.intent t.startVersion (c.engine t.write.shardId w.key).latest = .ok i ∧
      ((t.beginCmd latch).step codec evalConditions c.engine t.write.shardId w.key).records =
        ⟨txnIntentVersion, some (codec.encode i)⟩ :: (c.engine t.write.shardId w.key).records := by
  obtain ⟨hnodup, -, hsep⟩ := ha
  cases he : (t.beginCmd latch).eval codec evalConditions c.engine with
  | error => rw [he] at hok; cases hok
  | ok r =>
    obtain ⟨⟨r', resp⟩, hw, rfl⟩ := map_eq_ok.1 he
    unfold TxnCmd.step
    rw [he]
    refine writeIntent_of_noIntent codec evalConditions latch rfl hnodup (fun w hw' => ?_) hw
    exact hc.noIntent_of_unnamed fun q hq _ =>
      (separate_symm (hsep q hq)).not_names ⟨rfl, List.mem_map_of_mem _ hw'⟩

theorem Client.begin_failed {c : Client Cond} {t : Transaction Cond}
    (hok : ((t.beginCmd latch).eval codec evalConditions c.engine).isOk = false) :
    (t.beginCmd latch).step codec evalConditions c.engine = c.engine := by
  unfold TxnCmd.step
  cases he : (t.beginCmd latch).eval codec evalConditions c.engine with
  | error => rfl
  | ok r => rw [he] at hok; cases hok

theorem Client.finish_records {c : Client Cond} (hc : c.Inv codec) {t : Transaction Cond}
    (hp : (t, true) ∈ c.pending)
    (hlt : ∀ cv ∈ t.commitVersion, ∀ k ∈ t.keys, ∀ r ∈ (c.engine t.write.shardId k).records,
      r.version ≠ txnIntentVersion → r.version < cv) :
    ∀ k ∈ t.keys, ∃ i rest, (c.engine t.write.shardId k).records =
      ⟨txnIntentVersion, some (codec.encode i)⟩ :: rest ∧
      ((t.finishCmd true).step codec evalConditions c.engine t.write.shardId k).records =
        (t.commitVersion.elim [] fun cv => commitRecords cv i) ++ rest := by
  have hown := hc.intents _ hp rfl
  have hnodup := (hc.wellFormed _ hp).1
  unfold Transaction.finishCmd
  cases hcv : t.commitVersion with
  | none =>
    rw [TxnCmd.step_of_eval codec evalConditions (.clear ⟨t.write.shardId, t.startVersion, t.keys⟩)
      (clearIntent_of_own hown), applyEval_batchOf]
    exact resolution_records codec hnodup
      (fun _ _ => rfl : ∀ k i, clearOps ⟨t.write.shardId, t.startVersion, t.keys⟩ k i =
        .delete t.write.shardId k txnIntentVersion :: ([] : List Value).map (.put _ k))
      (fun _ => by simp) hown (fun _ _ _ r hr => by cases hr)
  | some cv =>
    rw [TxnCmd.step_of_eval codec evalConditions (.commit ⟨t.write.shardId, t.startVersion, cv, t.keys⟩)
      (commitIntent_of_own hown), applyEval_batchOf]
    exact resolution_records codec hnodup (commitOps_eq _) (commitRecords_length cv) hown
      fun k hk _ r hr r' hr' hv => (mem_commitRecords hr).symm ▸ hlt cv hcv k hk r' hr' hv

theorem Client.finish_failed {c : Client Cond} (hc : c.Inv codec) {t : Transaction Cond}
    (hp : (t, false) ∈ c.pending) :
    (t.finishCmd false).step codec evalConditions c.engine = c.engine := by
  refine TxnCmd.step_of_eval codec evalConditions (.clear ⟨t.write.shardId, t.startVersion, t.keys⟩)
    (clearIntent_of_resolved fun k hk =>
    ResolvedFor.of_noIntent (hc.noIntent_of_unnamed fun q hq hok hn => ?_))
  have hne : q ≠ (t, false) := fun h => by simp [h] at hok
  exact (hc.separate_of_ne hq hp hne).not_names hn ⟨rfl, hk⟩

theorem Client.Inv.noIntent_of_failed {c : Client Cond} (hc : c.Inv codec) {t : Transaction Cond}
    (hp : (t, false) ∈ c.pending) {sh : UInt64} {k : Bytes} (hk : t.Names sh k) :
    (c.engine sh k).NoIntent :=
  hc.noIntent_of_unnamed fun q hq hok hn =>
    (hc.separate_of_ne hq hp fun h => by simp [h] at hok).not_names hn hk

theorem Client.Inv.step_begin {c : Client Cond} (hc : c.Inv codec) {t : Transaction Cond}
    (ha : c.Allows (.begin t)) : (c.step codec evalConditions latch (.begin t)).Inv codec := by
  have hframe := fun sh k (h : ¬ t.Names sh k) =>
    Transaction.beginCmd_step_of_not_names codec evalConditions latch (e := c.engine) h
  obtain ⟨hnodup, hcv, hsep⟩ := ha
  rw [Client.step_begin]
  constructor <;> dsimp only
  · exact .cons (fun p hp => separate_symm (hsep p hp)) hc.separate
  · intro p hp
    rcases List.mem_cons.1 hp with rfl | hp
    · exact ⟨hnodup, hcv⟩
    · exact hc.wellFormed p hp
  · intro p hp hok k hk
    rcases List.mem_cons.1 hp with rfl | hp
    · obtain ⟨w, hw, rfl⟩ := List.mem_map.1 hk
      obtain ⟨i, hi, hrec⟩ := Client.begin_records evalConditions latch hc ⟨hnodup, hcv, hsep⟩ hok w hw
      exact ⟨i, _, hrec, Write.intent_startVersion hi⟩
    · rw [hframe _ _ ((hsep p hp).not_names ⟨rfl, hk⟩)]
      exact hc.intents p hp hok k hk
  · intro sh k
    have hold : (c.engine sh k).NoIntent ∨ ∃ p ∈ (t, ((t.beginCmd latch).eval codec evalConditions
        c.engine).isOk) :: c.pending, p.2 = true ∧ p.1.Names sh k :=
      (hc.clean sh k).imp_right fun ⟨p, hp, h⟩ => ⟨p, List.mem_cons_of_mem _ hp, h⟩
    by_cases hn : t.Names sh k
    · cases hok : ((t.beginCmd latch).eval codec evalConditions c.engine).isOk
      · rw [Client.begin_failed evalConditions latch hok]
        rw [hok] at hold
        exact hold
      · exact .inr ⟨_, List.mem_cons_self _ _, rfl, hn⟩
    · rw [hframe sh k hn]
      exact hold

theorem Client.finish_noIntent {c : Client Cond} (hc : c.Inv codec) {t : Transaction Cond}
    {ok : Bool} (hp : (t, ok) ∈ c.pending)
    (hlt : ∀ cv ∈ t.commitVersion, ∀ k ∈ t.keys, ∀ r ∈ (c.engine t.write.shardId k).records,
      r.version ≠ txnIntentVersion → r.version < cv) {k : Bytes} (hk : k ∈ t.keys) :
    ((t.finishCmd ok).step codec evalConditions c.engine t.write.shardId k).NoIntent := by
  cases ok
  · rw [Client.finish_failed evalConditions hc hp]
    exact hc.noIntent_of_failed hp ⟨rfl, hk⟩
  · obtain ⟨i, rest, hh, hrec⟩ := Client.finish_records evalConditions hc hp hlt k hk
    intro r hr
    rw [hrec] at hr
    rcases List.mem_append.1 hr with hr | hr
    · cases hcv : t.commitVersion with
      | none => simp [hcv] at hr
      | some cv =>
        simp only [hcv, Option.elim] at hr
        rw [mem_commitRecords hr]
        exact (hc.wellFormed _ hp).2 cv hcv
    · exact History.ne_intentVersion_of_mem_tail hh r hr

theorem Client.Inv.step_finish {c : Client Cond} (hc : c.Inv codec) {s : UInt64}
    (ha : c.Allows (.finish s)) : (c.step codec evalConditions latch (.finish s)).Inv codec := by
  obtain ⟨⟨t, ok⟩, hfind, hlt⟩ := ha
  have hp : (t, ok) ∈ c.pending := List.mem_of_find?_eq_some hfind
  have hs : t.startVersion = s := by simpa using List.find?_some hfind
  have hframe : ∀ sh k, ¬ t.Names sh k →
      (t.finishCmd ok).step codec evalConditions c.engine sh k = c.engine sh k :=
    fun _ _ h => Transaction.finishCmd_step_of_not_names codec evalConditions h
  have hrest : ∀ q ∈ c.pending.filter (·.1.startVersion != s), q ∈ c.pending ∧ Separate q (t, ok) :=
    fun q hq => by
      obtain ⟨hq, hqs⟩ := List.mem_filter.1 hq
      exact ⟨hq, hc.separate_of_ne hq hp fun h => by simp [h, hs] at hqs⟩
  rw [Client.step_finish evalConditions latch hfind]
  constructor <;> dsimp only
  · exact hc.separate.sublist (List.filter_sublist _)
  · exact fun q hq => hc.wellFormed q (hrest q hq).1
  · intro q hq hok k hk
    rw [hframe _ _ ((hrest q hq).2.not_names ⟨rfl, hk⟩)]
    exact hc.intents q (hrest q hq).1 hok k hk
  · intro sh k
    by_cases hn : t.Names sh k
    · obtain ⟨rfl, hk⟩ := hn
      exact .inl (Client.finish_noIntent evalConditions hc hp hlt hk)
    · rw [hframe sh k hn]
      refine (hc.clean sh k).imp_right fun ⟨q, hq, hok, hqn⟩ => ⟨q, ?_, hok, hqn⟩
      have hne : q ≠ (t, ok) := by
        rintro rfl
        exact hn hqn
      exact List.mem_filter.2 ⟨hq, by simpa [← hs] using (hc.separate_of_ne hq hp hne).1⟩

theorem Client.Inv.step {c : Client Cond} (hc : c.Inv codec) {ev : Event Cond}
    (ha : c.Allows ev) : (c.step codec evalConditions latch ev).Inv codec := by
  cases ev with
  | begin t => exact hc.step_begin evalConditions latch ha
  | finish s => exact hc.step_finish evalConditions latch ha

theorem Client.Inv.run {c : Client Cond} (hc : c.Inv codec) {evs : List (Event Cond)}
    (hv : c.ValidRun codec evalConditions latch evs) :
    (c.run codec evalConditions latch evs).Inv codec := by
  induction evs generalizing c with
  | nil => exact hc
  | cons ev evs ih => exact ih (hc.step evalConditions latch hv.1) hv.2

theorem Client.validRun_append {c : Client Cond} {l₁ l₂ : List (Event Cond)} :
    c.ValidRun codec evalConditions latch (l₁ ++ l₂) ↔ c.ValidRun codec evalConditions latch l₁ ∧
      (c.run codec evalConditions latch l₁).ValidRun codec evalConditions latch l₂ := by
  induction l₁ generalizing c with
  | nil => simp [Client.ValidRun, Client.run]
  | cons ev l₁ ih =>
    show c.Allows ev ∧ (c.step codec evalConditions latch ev).ValidRun codec evalConditions latch
      (l₁ ++ l₂) ↔ _
    rw [ih]
    exact and_assoc.symm

theorem Client.run_open {c : Client Cond} (hc : c.Inv codec) {mid : List (Event Cond)}
    (hv : c.ValidRun codec evalConditions latch mid) {p : Transaction Cond × Bool}
    (hp : p ∈ c.pending) (hmid : .finish p.1.startVersion ∉ mid) :
    p ∈ (c.run codec evalConditions latch mid).pending ∧ ∀ k ∈ p.1.keys,
      (c.run codec evalConditions latch mid).engine p.1.write.shardId k =
        c.engine p.1.write.shardId k := by
  induction mid generalizing c with
  | nil => exact ⟨hp, fun _ _ => rfl⟩
  | cons ev mid ih =>
    obtain ⟨ha, hv⟩ := hv
    have hstep : p ∈ (c.step codec evalConditions latch ev).pending ∧ ∀ k ∈ p.1.keys,
        (c.step codec evalConditions latch ev).engine p.1.write.shardId k =
          c.engine p.1.write.shardId k := by
      cases ev with
      | begin t =>
        exact ⟨List.mem_cons_of_mem _ hp, fun k hk => Transaction.beginCmd_step_of_not_names
          codec evalConditions latch ((ha.2.2 p hp).not_names ⟨rfl, hk⟩)⟩
      | finish s' =>
        obtain ⟨q, hfind, -⟩ := ha
        have hqs : q.1.startVersion = s' := by simpa using List.find?_some hfind
        have hps : p.1.startVersion ≠ s' := fun h => hmid (by rw [h]; exact List.mem_cons_self _ _)
        have hne : p ≠ q := by
          rintro rfl
          exact hps hqs
        rw [Client.step_finish evalConditions latch hfind]
        exact ⟨List.mem_filter.2 ⟨hp, by simpa using hps⟩, fun k hk =>
          Transaction.finishCmd_step_of_not_names codec evalConditions
            ((hc.separate_of_ne hp (List.mem_of_find?_eq_some hfind) hne).not_names ⟨rfl, hk⟩)⟩
    obtain ⟨hp', hk'⟩ := ih (hc.step evalConditions latch ha) hv hstep.1
      fun h => hmid (List.mem_cons_of_mem _ h)
    exact ⟨hp', fun k hk => (hk' k hk).trans (hstep.2 k hk)⟩

theorem Client.transaction_records {c : Client Cond} (hc : c.Inv codec) {t : Transaction Cond}
    (hb : c.Allows (.begin t)) {mid : List (Event Cond)}
    (hv : (c.step codec evalConditions latch (.begin t)).ValidRun codec evalConditions latch mid)
    (hmid : .finish t.startVersion ∉ mid)
    (hf : ((c.step codec evalConditions latch (.begin t)).run codec evalConditions latch mid).Allows
      (.finish t.startVersion)) :
    let c₁ := ((c.step codec evalConditions latch (.begin t)).run codec evalConditions latch
      mid).step codec evalConditions latch (.finish t.startVersion)
    let writeOk := ((t.beginCmd latch).eval codec evalConditions c.engine).isOk
    ∀ w ∈ t.writes, (c₁.engine t.write.shardId w.key).NoIntent ∧
      (∀ cv, writeOk = true → t.commitVersion = some cv →
        (c₁.engine t.write.shardId w.key).records =
          ((w.registerValue (c.engine t.write.shardId w.key).latest).map fun x => ⟨cv, x⟩).toList ++
            (c.engine t.write.shardId w.key).records) ∧
      ((writeOk = false ∨ t.commitVersion = none) →
        c₁.engine t.write.shardId w.key = c.engine t.write.shardId w.key) := by
  intro c₁ writeOk w hw
  have hk : w.key ∈ t.keys := List.mem_map_of_mem _ hw
  have hc₂ := hc.step evalConditions latch hb
  obtain ⟨hp₃, hkeys⟩ := Client.run_open evalConditions latch hc₂ hv
    (List.mem_cons_self (t, writeOk) _) hmid
  have hc₃ := hc₂.run evalConditions latch hv
  obtain ⟨p, hfind, hlt⟩ := hf
  rw [hc₃.find_eq hp₃] at hfind
  cases hfind
  have hc₁ : c₁.engine = (t.finishCmd writeOk).step codec evalConditions _ :=
    congrArg Client.engine (Client.step_finish evalConditions latch (hc₃.find_eq hp₃))
  have hk₃ := hkeys w.key hk
  -- with its intents staged, the transaction replaces each by what it commits, if anything
  have hsucc : writeOk = true → ∃ i, w.intent t.startVersion (c.engine t.write.shardId w.key).latest =
      .ok i ∧ (c₁.engine t.write.shardId w.key).records =
        (t.commitVersion.elim [] fun cv => commitRecords cv i) ++
          (c.engine t.write.shardId w.key).records := fun hok => by
    obtain ⟨i, hi, hrec₂⟩ := Client.begin_records evalConditions latch hc hb hok w hw
    rw [hok] at hp₃
    obtain ⟨i', rest, hh, hrec⟩ := Client.finish_records evalConditions hc₃ hp₃ hlt w.key hk
    rw [hk₃] at hh
    dsimp only [Client.step_begin] at hh
    rw [hrec₂, List.cons.injEq] at hh
    obtain ⟨hii, rfl⟩ := hh
    cases codec.encode_injective (Option.some.inj (congrArg Value.content hii))
    rw [hc₁, hok]
    exact ⟨i, hi, hrec⟩
  refine ⟨hc₁ ▸ Client.finish_noIntent evalConditions hc₃ hp₃ hlt hk, fun cv hok hcv => ?_,
    fun habort => ?_⟩
  · obtain ⟨i, hi, hrec⟩ := hsucc hok
    rw [hrec, hcv]
    exact congrArg (· ++ _) (commitRecords_intent hi cv)
  · by_cases hok : writeOk = true
    · obtain ⟨i, -, hrec⟩ := hsucc hok
      refine History.ext ?_
      rw [hrec, habort.resolve_left (by simp [hok])]
      rfl
    · rw [Bool.not_eq_true] at hok
      rw [hok] at hp₃
      rw [hc₁, hok, Client.finish_failed evalConditions hc₃ hp₃, hk₃]
      exact congrFun (congrFun (Client.begin_failed evalConditions latch hok) _) _

variable (codec)

/-- Through every run the client allows, a committed transaction gives each key exactly the record
its request describes; an aborted or failed one leaves its keys as it found them. -/
theorem serial_transactions_act_as_registers (e : GroupEngine) (he : ∀ sh k, (e sh k).NoIntent)
    (pre mid post : List (Event Cond)) (t : Transaction Cond)
    (hrun : (⟨e, []⟩ : Client Cond).ValidRun codec evalConditions latch
      (pre ++ .begin t :: mid ++ .finish t.startVersion :: post))
    (hmid : .finish t.startVersion ∉ mid) :
    let c₀ := (⟨e, []⟩ : Client Cond).run codec evalConditions latch pre
    let c₁ := c₀.run codec evalConditions latch (.begin t :: mid ++ [.finish t.startVersion])
    let writeOk := ((t.beginCmd latch).eval codec evalConditions c₀.engine).isOk
    (∀ sh k, (c₁.engine sh k).NoIntent ∨ ∃ p ∈ c₁.pending, p.2 = true ∧ p.1.Names sh k) ∧
    ∀ w ∈ t.writes, (c₁.engine t.write.shardId w.key).NoIntent ∧
      (∀ cv, writeOk = true → t.commitVersion = some cv →
        (c₁.engine t.write.shardId w.key).records =
          ((w.registerValue (c₀.engine t.write.shardId w.key).latest).map
            fun x => ⟨cv, x⟩).toList ++ (c₀.engine t.write.shardId w.key).records) ∧
      ((writeOk = false ∨ t.commitVersion = none) →
        c₁.engine t.write.shardId w.key = c₀.engine t.write.shardId w.key) := by
  intro c₀ c₁ writeOk
  rw [Client.validRun_append] at hrun
  obtain ⟨hpm, hf, -⟩ := hrun
  rw [Client.validRun_append] at hpm
  obtain ⟨hpre, hb, hv⟩ := hpm
  rw [Client.run, List.foldl_append] at hf
  have hc₀ := (Client.inv_init codec he).run evalConditions latch hpre
  have hc₁ : c₁ = ((c₀.step codec evalConditions latch (.begin t)).run codec evalConditions latch
      mid).step codec evalConditions latch (.finish t.startVersion) := by
    simp only [c₁, Client.run, List.foldl_cons, List.foldl_append, List.foldl_nil]
  rw [hc₁]
  exact ⟨(((hc₀.step evalConditions latch hb).run evalConditions latch hv).step evalConditions
    latch hf).clean, Client.transaction_records evalConditions latch hc₀ hb hv hmid hf⟩

def putFive : Transaction Empty := ⟨1, ⟨0, [], [⟨.none, [1], i64ToBeBytes 5, [], false⟩]⟩, some 2⟩

def deleteAndAdd : Transaction Empty :=
  ⟨3, ⟨0, [⟨[2], [], false⟩], [⟨.addI64, [1], i64ToBeBytes 1, [], false⟩]⟩, some 5⟩

theorem serial_transactions_act_as_registers_of_increment :
    (∀ sh k, (GroupEngine.empty sh k).NoIntent) ∧
    (⟨GroupEngine.empty, []⟩ : Client Empty).ValidRun fixedIntentCodec noConditions nopLatchGuard
      ([.begin putFive, .finish 1] ++ .begin deleteAndAdd :: [] ++
        .finish deleteAndAdd.startVersion :: []) ∧
    .finish deleteAndAdd.startVersion ∉ ([] : List (Event Empty)) ∧
    let c₀ := (⟨GroupEngine.empty, []⟩ : Client Empty).run fixedIntentCodec noConditions
      nopLatchGuard [.begin putFive, .finish 1]
    let c₁ := c₀.run fixedIntentCodec noConditions nopLatchGuard
      (.begin deleteAndAdd :: [] ++ [.finish deleteAndAdd.startVersion])
    let writeOk := ((deleteAndAdd.beginCmd nopLatchGuard).eval fixedIntentCodec noConditions
      c₀.engine).isOk
    (∀ sh k, (c₁.engine sh k).NoIntent ∨ ∃ p ∈ c₁.pending, p.2 = true ∧ p.1.Names sh k) ∧
    ∀ w ∈ deleteAndAdd.writes, (c₁.engine deleteAndAdd.write.shardId w.key).NoIntent ∧
      (∀ cv, writeOk = true → deleteAndAdd.commitVersion = some cv →
        (c₁.engine deleteAndAdd.write.shardId w.key).records =
          ((w.registerValue (c₀.engine deleteAndAdd.write.shardId w.key).latest).map
            fun x => ⟨cv, x⟩).toList ++ (c₀.engine deleteAndAdd.write.shardId w.key).records) ∧
      ((writeOk = false ∨ deleteAndAdd.commitVersion = none) →
        c₁.engine deleteAndAdd.write.shardId w.key = c₀.engine deleteAndAdd.write.shardId w.key) := by
  have he : ∀ sh k, (GroupEngine.empty sh k).NoIntent := fun _ _ _ hr => by
    simp [GroupEngine.empty, History.empty] at hr
  have hrun : (⟨GroupEngine.empty, []⟩ : Client Empty).ValidRun fixedIntentCodec noConditions
      nopLatchGuard ([.begin putFive, .finish 1] ++ .begin deleteAndAdd :: [] ++
        .finish deleteAndAdd.startVersion :: []) :=
    ⟨⟨by decide, by decide, by decide⟩, ⟨(putFive, true), by decide, by decide⟩,
      ⟨by decide, by decide, by decide⟩, ⟨(deleteAndAdd, true), by decide, by decide⟩, trivial⟩
  exact ⟨he, hrun, List.not_mem_nil _, serial_transactions_act_as_registers fixedIntentCodec
    noConditions nopLatchGuard _ he [.begin putFive, .finish 1] [] [] deleteAndAdd hrun
    (List.not_mem_nil _)⟩

def deleteKey (s cv : UInt64) (key : Bytes) : Transaction Empty :=
  ⟨s, ⟨0, [⟨key, [], false⟩], []⟩, some cv⟩

theorem commit_leaves_open_intents :
    (⟨GroupEngine.empty, []⟩ : Client Empty).ValidRun fixedIntentCodec noConditions nopLatchGuard
      [.begin (deleteKey 1 2 [1]), .begin (deleteKey 2 3 [2]), .finish 1, .finish 2] ∧
    ((Client.run fixedIntentCodec noConditions nopLatchGuard ⟨GroupEngine.empty, []⟩
      [.begin (deleteKey 1 2 [1]), .begin (deleteKey 2 3 [2]), .finish 1]).engine 0 [2]).records.map
        (·.version) = [txnIntentVersion] :=
  ⟨⟨⟨by decide, by decide, by decide⟩, ⟨by decide, by decide, by decide⟩,
    ⟨(deleteKey 1 2 [1], true), by decide, by decide⟩,
    ⟨(deleteKey 2 3 [2], true), by decide, by decide⟩, trivial⟩, by decide⟩

end Sekas.Txn
