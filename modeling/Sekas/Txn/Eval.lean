import Sekas.Txn.Intent

/-! The intent evaluator of `replica/eval/cmd_txn.rs`. Each command reads the group engine
and returns the write batch that a commit applies later. `cas::eval_conditions` and the
latch are outside the source and enter as arguments. -/
namespace Sekas.Txn
open Sekas.Engine

variable {Cond : Type} (codec : IntentCodec)
  (evalConditions : Option Value → List Cond → Except Error (Option Nat))

/-- `apply_put_op`: the value an intent records for a put of the given type. -/
def applyPutOp (type : PutType) (prevValue : Option Value) (value : Bytes) :
    Except Error (Option Bytes) :=
  match type with
  | .addI64 => do
    let delta ← okOr (decodeI64 value) (.invalidArgument "input value is not a valid i64")
    let formerValue ← match prevValue.bind (·.content) with
      | some content =>
        okOr (decodeI64 content) (.invalidArgument "the exists value is not a valid i64")
      | none => pure 0
    pure (some (i64ToBeBytes (formerValue + delta)))
  | .none => .ok (some value)
  | .nop => .ok none

/-- `read_intent_and_next_key`: the intent on top of a key, if any, and the record below
it (or the top record when it is not an intent). -/
def readIntentAndNextKey (engine : GroupEngine) (startVersion shardId : UInt64) (key : Bytes) :
    Except Error (Option TxnIntent × Option Value) :=
  match engine.snapshot shardId key with
  | [] => .ok (none, none)
  | entry :: rest =>
    if entry.version = txnIntentVersion then
      match entry.content with
      | none => .error (.invalidData
          s!"intent value must exist, shard={shardId}, key={key}, txn={startVersion}")
      | some content => do
        let txnIntent ← codec.decode content
        pure (some txnIntent, rest.head?)
    else .ok (none, some entry)

/-- `read_target_intent`: the intent of transaction `startVersion` on top of a key. -/
def readTargetIntent (engine : GroupEngine) (startVersion shardId : UInt64) (key : Bytes) :
    Except Error (Option TxnIntent) :=
  match engine.get shardId key with
  | none => .ok none
  | some value =>
    if value.version ≠ txnIntentVersion then .ok none
    else match value.content with
      | none => .error (.invalidData s!"txn intent without value, shard {shardId} key {key}")
      | some content => do
        let intent ← codec.decode content
        pure (if intent.startVersion ≠ startVersion then none else some intent)

structure LatchGuard where
  resolveTxn : UInt64 → Bytes → TxnIntent → Except Error (Option Value)

def nopLatchGuard : LatchGuard := ⟨fun _ _ _ => .ok none⟩

/-- An element of either loop of `write_intent`. -/
inductive Write (Cond : Type) where
  | delete (del : DeleteRequest Cond)
  | put (put : PutRequest Cond)

def Write.key : Write Cond → Bytes
  | .delete d => d.key
  | .put p => p.key

def Write.conditions : Write Cond → List Cond
  | .delete d => d.conditions
  | .put p => p.conditions

def Write.takePrevValue : Write Cond → Bool
  | .delete d => d.takePrevValue
  | .put p => p.takePrevValue

def Write.intent (startVersion : UInt64) (prevValue : Option Value) :
    Write Cond → Except Error TxnIntent
  | .delete _ => .ok (TxnIntent.tombstone startVersion)
  | .put p => do
    let applyValue ← applyPutOp p.putType prevValue p.value
    pure (TxnIntent.withPut startVersion applyValue)

def stageWrite (startVersion : UInt64) (idx : Nat) (w : Write Cond) (prevValue : Option Value)
    (skipWrite : Bool) : Except Error (Option TxnIntent × WriteResponse) := do
  let staged ← if skipWrite then pure none else do
    match ← evalConditions prevValue w.conditions with
    | some condIdx => throw (.casFailed (UInt64.ofNat idx) (UInt64.ofNat condIdx) prevValue)
    | none => some <$> w.intent startVersion prevValue
  pure (staged, ⟨if w.takePrevValue then prevValue else none⟩)

def evalWrite (engine : GroupEngine) (latchGuard : LatchGuard) (startVersion shardId : UInt64)
    (idx : Nat) (w : Write Cond) : Except Error (Option TxnIntent × WriteResponse) := do
  let (txnIntent, prevValue) ← readIntentAndNextKey codec engine startVersion shardId w.key
  match txnIntent with
  | none => stageWrite evalConditions startVersion idx w prevValue false
  | some txnIntent =>
    if txnIntent.startVersion ≠ startVersion then do
      let resolved ← latchGuard.resolveTxn shardId w.key txnIntent
      stageWrite evalConditions startVersion idx w (resolved.or prevValue) false
    else stageWrite evalConditions startVersion idx w prevValue true

def writeLoop (engine : GroupEngine) (latchGuard : LatchGuard) (startVersion shardId : UInt64) :
    Nat → List (Write Cond) → WriteBatch → Except Error (WriteBatch × List WriteResponse)
  | _, [], wb => pure (wb, [])
  | idx, w :: ws, wb => do
    let (staged, resp) ← evalWrite codec evalConditions engine latchGuard startVersion shardId idx w
    let wb := match staged with
      | some intent => GroupEngine.put wb shardId w.key (codec.encode intent) txnIntentVersion
      | none => wb
    let (wb, resps) ← writeLoop engine latchGuard startVersion shardId (idx + 1) ws wb
    pure (wb, resp :: resps)

/-- `write_intent`: deletes first, then puts, numbered in that order; the eval result is
absent when nothing was staged. -/
def writeIntent (engine : GroupEngine) (latchGuard : LatchGuard) (req : WriteIntentRequest Cond) :
    Except Error (Option WriteBatch × WriteIntentResponse) := do
  let write ← okOr req.write (.invalidArgument "`write` is required")
  let numDeletes := write.deletes.length
  let (wb, deletes) ← writeLoop codec evalConditions engine latchGuard req.startVersion
    write.shardId 0 (write.deletes.map .delete) ∅
  let (wb, puts) ← writeLoop codec evalConditions engine latchGuard req.startVersion
    write.shardId numDeletes (write.puts.map .put) wb
  pure (if !wb.isEmpty then some wb else none, ⟨some ⟨deletes, puts⟩⟩)

def resolveIntents (engine : GroupEngine) (startVersion shardId : UInt64) (keys : List Bytes)
    (stage : WriteBatch → Bytes → TxnIntent → WriteBatch) : Except Error (Option WriteBatch) := do
  let wb ← keys.foldlM (fun wb key => do
    match ← readTargetIntent codec engine startVersion shardId key with
    | none => pure wb
    | some intent => pure (stage wb key intent)) ∅
  pure (if wb.isEmpty then none else some wb)

/-- `commit_intent`: the intent goes, and its value or tombstone lands at the commit version. -/
def commitIntent (engine : GroupEngine) (req : CommitIntentRequest) :
    Except Error (Option WriteBatch) :=
  resolveIntents codec engine req.startVersion req.shardId req.keys fun wb key intent =>
    let wb := GroupEngine.delete wb req.shardId key txnIntentVersion
    if intent.isDelete then GroupEngine.tombstone wb req.shardId key req.commitVersion
    else match intent.value with
      | some value => GroupEngine.put wb req.shardId key value req.commitVersion
      | none => wb

/-- `clear_intent`: the intent goes. -/
def clearIntent (engine : GroupEngine) (req : ClearIntentRequest) :
    Except Error (Option WriteBatch) :=
  resolveIntents codec engine req.startVersion req.shardId req.keys fun wb key _ =>
    GroupEngine.delete wb req.shardId key txnIntentVersion

end Sekas.Txn

namespace Sekas.Txn
open Sekas.Engine

variable {Cond : Type} (codec : IntentCodec)
  (evalConditions : Option Value → List Cond → Except Error (Option Nat))

theorem readIntentAndNextKey_of_fresh {e : GroupEngine} {sh s : UInt64} {key : Bytes}
    (h : ∀ r ∈ (e sh key).latest, r.version ≠ txnIntentVersion) :
    readIntentAndNextKey codec e s sh key = .ok (none, (e sh key).latest) := by
  unfold readIntentAndNextKey GroupEngine.snapshot
  cases hr : (e sh key).records with
  | nil => simp [History.latest, hr]
  | cons r rs =>
    have : r.version ≠ txnIntentVersion := h r (by simp [History.latest, hr])
    simp [History.latest, hr, this]

theorem readIntentAndNextKey_of_intent {e : GroupEngine} {sh s : UInt64} {key c : Bytes}
    {rest : List Value} (h : (e sh key).records = ⟨txnIntentVersion, some c⟩ :: rest) :
    readIntentAndNextKey codec e s sh key = (codec.decode c).map fun i => (some i, rest.head?) := by
  unfold readIntentAndNextKey GroupEngine.snapshot
  rw [h]
  simp only [↓reduceIte]
  cases codec.decode c <;> rfl

theorem readTargetIntent_of_fresh {e : GroupEngine} {sh s : UInt64} {key : Bytes}
    (h : ∀ r ∈ (e sh key).latest, r.version ≠ txnIntentVersion) :
    readTargetIntent codec e s sh key = .ok none := by
  unfold readTargetIntent GroupEngine.get
  cases hr : (e sh key).latest with
  | none => rfl
  | some r => simp [h r hr]

theorem readTargetIntent_of_intent {e : GroupEngine} {sh s : UInt64} {key c : Bytes}
    {rest : List Value} (h : (e sh key).records = ⟨txnIntentVersion, some c⟩ :: rest) :
    readTargetIntent codec e s sh key =
      (codec.decode c).map fun i => if i.startVersion = s then some i else none := by
  unfold readTargetIntent GroupEngine.get History.latest
  rw [h]
  cases hd : codec.decode c with
  | error => simp [hd, Except.map]
  | ok i => by_cases hs : i.startVersion = s <;> simp [hd, hs, Except.map, pure, Except.pure]

theorem Write.intent_startVersion {w : Write Cond} {s : UInt64} {pv : Option Value} {i : TxnIntent}
    (h : w.intent s pv = .ok i) : i.startVersion = s := by
  cases w with
  | delete d => cases h; rfl
  | put p =>
    simp only [Write.intent, bind_eq_ok] at h
    obtain ⟨v, -, h⟩ := h
    cases h; rfl

theorem stageWrite_skip (s : UInt64) (idx : Nat) (w : Write Cond) (pv : Option Value) :
    stageWrite evalConditions s idx w pv true = .ok (none, ⟨if w.takePrevValue then pv else none⟩) :=
  rfl

theorem stageWrite_ok {s : UInt64} {idx : Nat} {w : Write Cond} {pv : Option Value}
    {o : Option TxnIntent} {r : WriteResponse}
    (h : stageWrite evalConditions s idx w pv false = .ok (o, r)) :
    r = ⟨if w.takePrevValue then pv else none⟩ ∧ evalConditions pv w.conditions = .ok none ∧
      ∃ i, w.intent s pv = .ok i ∧ o = some i := by
  simp only [stageWrite, Bool.false_eq_true, ↓reduceIte] at h
  obtain ⟨c, hc, h⟩ := bind_eq_ok.1 h
  cases c with
  | some => cases h
  | none =>
    cases hi : w.intent s pv with
    | error => simp [hi] at h
    | ok i =>
      simp only [hi, map_ok, ok_bind, pure_eq_ok, Except.ok.injEq, Prod.mk.injEq] at h
      obtain ⟨rfl, rfl⟩ := h
      exact ⟨rfl, hc, i, rfl, rfl⟩

theorem evalWrite_of_own {e : GroupEngine} {latch : LatchGuard} {s sh : UInt64} {idx : Nat}
    {w : Write Cond} {i : TxnIntent} {pv : Option Value}
    (h : readIntentAndNextKey codec e s sh w.key = .ok (some i, pv)) (hs : i.startVersion = s) :
    evalWrite codec evalConditions e latch s sh idx w =
      .ok (none, ⟨if w.takePrevValue then pv else none⟩) := by
  simp [evalWrite, h, hs, stageWrite_skip]

theorem evalWrite_of_fresh {e : GroupEngine} {latch : LatchGuard} {s sh : UInt64} {idx : Nat}
    {w : Write Cond} {pv : Option Value}
    (h : readIntentAndNextKey codec e s sh w.key = .ok (none, pv)) :
    evalWrite codec evalConditions e latch s sh idx w =
      stageWrite evalConditions s idx w pv false := by
  simp [evalWrite, h]

def batchOf (ops : List WriteOp) : Option WriteBatch := if ops.isEmpty then none else some ⟨ops⟩

def targetOps (engine : GroupEngine) (startVersion shardId : UInt64)
    (ops : Bytes → TxnIntent → List WriteOp) (key : Bytes) : Except Error (List WriteOp) :=
  (readTargetIntent codec engine startVersion shardId key).map fun
    | some intent => ops key intent
    | none => []

theorem foldlM_stage (f : Bytes → Except Error (List WriteOp)) (keys : List Bytes)
    (pre : List WriteOp) :
    keys.foldlM (fun wb key => (f key).map fun l => (⟨wb.ops ++ l⟩ : WriteBatch)) ⟨pre⟩ =
      (keys.mapM f).map fun ls => ⟨pre ++ ls.flatten⟩ := by
  induction keys generalizing pre with
  | nil => rw [List.mapM_nil]; simp [pure, Except.pure, Except.map]
  | cons k ks ih =>
    rw [List.foldlM_cons, List.mapM_cons]
    cases f k with
    | error e => rfl
    | ok l =>
      rw [show Except.map (fun l => (⟨pre ++ l⟩ : WriteBatch)) (.ok l) = .ok ⟨pre ++ l⟩ from rfl,
        ok_bind, ok_bind, ih]
      cases ks.mapM f <;> simp [pure, Except.pure, Except.map]

theorem resolveIntents_eq (engine : GroupEngine) (startVersion shardId : UInt64)
    (keys : List Bytes) (stage : WriteBatch → Bytes → TxnIntent → WriteBatch)
    (ops : Bytes → TxnIntent → List WriteOp)
    (hstage : ∀ wb key intent, stage wb key intent = ⟨wb.ops ++ ops key intent⟩) :
    resolveIntents codec engine startVersion shardId keys stage =
      (keys.mapM (targetOps codec engine startVersion shardId ops)).map
        fun ls => batchOf ls.flatten := by
  have hbody : (fun (wb : WriteBatch) key => do
      match ← readTargetIntent codec engine startVersion shardId key with
      | none => pure wb
      | some intent => pure (stage wb key intent)) =
      fun wb key => (targetOps codec engine startVersion shardId ops key).map
        fun l => (⟨wb.ops ++ l⟩ : WriteBatch) := by
    funext wb key
    simp only [targetOps]
    cases readTargetIntent codec engine startVersion shardId key with
    | error e => rfl
    | ok o => cases o <;> simp [hstage, Functor.map, Except.map, pure, Except.pure]
  simp only [resolveIntents, hbody]
  rw [show (∅ : WriteBatch) = ⟨[]⟩ from rfl, foldlM_stage]
  cases keys.mapM (targetOps codec engine startVersion shardId ops) <;> rfl

def commitOps (req : CommitIntentRequest) (key : Bytes) (intent : TxnIntent) : List WriteOp :=
  .delete req.shardId key txnIntentVersion ::
    if intent.isDelete then [.put req.shardId key ⟨req.commitVersion, none⟩]
    else match intent.value with
      | some value => [.put req.shardId key ⟨req.commitVersion, some value⟩]
      | none => []

def clearOps (req : ClearIntentRequest) (key : Bytes) (_ : TxnIntent) : List WriteOp :=
  [.delete req.shardId key txnIntentVersion]

theorem commitIntent_eq (engine : GroupEngine) (req : CommitIntentRequest) :
    commitIntent codec engine req =
      (req.keys.mapM (targetOps codec engine req.startVersion req.shardId (commitOps req))).map
        fun ls => batchOf ls.flatten := by
  refine resolveIntents_eq codec _ _ _ _ _ _ fun wb key intent => ?_
  simp only [commitOps, GroupEngine.delete, GroupEngine.tombstone, GroupEngine.put]
  split
  · simp
  · split <;> simp

theorem clearIntent_eq (engine : GroupEngine) (req : ClearIntentRequest) :
    clearIntent codec engine req =
      (req.keys.mapM (targetOps codec engine req.startVersion req.shardId (clearOps req))).map
        fun ls => batchOf ls.flatten :=
  resolveIntents_eq codec _ _ _ _ _ _ fun _ _ _ => rfl

def stagedOps (shardId : UInt64) :
    List (Write Cond) → List (Option TxnIntent × WriteResponse) → List WriteOp
  | w :: ws, (some i, _) :: outs =>
    .put shardId w.key ⟨txnIntentVersion, some (codec.encode i)⟩ :: stagedOps shardId ws outs
  | _ :: ws, (none, _) :: outs => stagedOps shardId ws outs
  | _, _ => []

@[simp] theorem stagedOps_nil {shardId : UInt64} {outs : List (Option TxnIntent × WriteResponse)} :
    stagedOps codec shardId ([] : List (Write Cond)) outs = [] := by
  cases outs <;> rfl

@[simp] theorem stagedOps_cons_none {shardId : UInt64} {w : Write Cond} {ws : List (Write Cond)}
    {r : WriteResponse} {outs : List (Option TxnIntent × WriteResponse)} :
    stagedOps codec shardId (w :: ws) ((none, r) :: outs) = stagedOps codec shardId ws outs := rfl

@[simp] theorem stagedOps_cons_some {shardId : UInt64} {w : Write Cond} {ws : List (Write Cond)}
    {i : TxnIntent} {r : WriteResponse} {outs : List (Option TxnIntent × WriteResponse)} :
    stagedOps codec shardId (w :: ws) ((some i, r) :: outs) =
      .put shardId w.key ⟨txnIntentVersion, some (codec.encode i)⟩ :: stagedOps codec shardId ws outs :=
  rfl

variable {e : GroupEngine} {latch : LatchGuard} {s sh : UInt64}

theorem writeLoop_ok {idx : Nat} {ws : List (Write Cond)} {wb₀ wb : WriteBatch}
    {rs : List WriteResponse}
    (h : writeLoop codec evalConditions e latch s sh idx ws wb₀ = .ok (wb, rs)) :
    ∃ outs, List.Forall₂ (fun w o => ∃ j, evalWrite codec evalConditions e latch s sh j w = .ok o)
        ws outs ∧ wb.ops = wb₀.ops ++ stagedOps codec sh ws outs ∧ rs = outs.map Prod.snd := by
  induction ws generalizing idx wb₀ wb rs with
  | nil => cases h; exact ⟨[], .nil, by simp, rfl⟩
  | cons w ws ih =>
    simp only [writeLoop, bind_eq_ok, pure_eq_ok, Except.ok.injEq, Prod.mk.injEq] at h
    obtain ⟨⟨o, r⟩, ho, ⟨wb', rs'⟩, hl, rfl, rfl⟩ := h
    cases o with
    | none =>
      obtain ⟨outs, hf, hw, hr⟩ := ih hl
      exact ⟨(none, r) :: outs, .cons ⟨idx, ho⟩ hf, by simpa using hw, by simp [hr]⟩
    | some i =>
      obtain ⟨outs, hf, hw, hr⟩ := ih hl
      exact ⟨(some i, r) :: outs, .cons ⟨idx, ho⟩ hf,
        by simpa [GroupEngine.put] using hw, by simp [hr]⟩

theorem writeLoop_of_forall₂ {idx : Nat} {ws : List (Write Cond)} {pre : List WriteOp}
    {outs : List (Option TxnIntent × WriteResponse)}
    (h : List.Forall₂ (fun w o => ∀ j, evalWrite codec evalConditions e latch s sh j w = .ok o) ws outs) :
    writeLoop codec evalConditions e latch s sh idx ws ⟨pre⟩ =
      .ok (⟨pre ++ stagedOps codec sh ws outs⟩, outs.map Prod.snd) := by
  induction h generalizing idx pre with
  | nil => simp [writeLoop]
  | @cons w o ws outs hw _ ih =>
    obtain ⟨_ | i, r⟩ := o
    · simp [writeLoop, hw idx, ih]
    · simp [writeLoop, hw idx, GroupEngine.put, ih]

theorem writeIntent_ok {req : WriteIntentRequest Cond} {r : Option WriteBatch}
    {resp : WriteIntentResponse}
    (h : writeIntent codec evalConditions e latch req = .ok (r, resp)) :
    ∃ write outsD outsP, req.write = some write ∧
      List.Forall₂ (fun w o => ∃ j, evalWrite codec evalConditions e latch req.startVersion
        write.shardId j w = .ok o) (write.deletes.map .delete) outsD ∧
      List.Forall₂ (fun w o => ∃ j, evalWrite codec evalConditions e latch req.startVersion
        write.shardId j w = .ok o) (write.puts.map .put) outsP ∧
      r = batchOf (stagedOps codec write.shardId (write.deletes.map .delete) outsD ++
        stagedOps codec write.shardId (write.puts.map .put) outsP) ∧
      resp = ⟨some ⟨outsD.map Prod.snd, outsP.map Prod.snd⟩⟩ := by
  simp only [writeIntent, bind_eq_ok, okOr_eq_ok, pure_eq_ok, Except.ok.injEq, Prod.mk.injEq] at h
  obtain ⟨write, hw, ⟨wb1, rd⟩, h1, ⟨wb2, rp⟩, h2, rfl, rfl⟩ := h
  obtain ⟨outsD, hD, hwb1, rfl⟩ := writeLoop_ok codec evalConditions h1
  obtain ⟨outsP, hP, hwb2, rfl⟩ := writeLoop_ok codec evalConditions h2
  refine ⟨write, outsD, outsP, hw, hD, hP, ?_, rfl⟩
  obtain ⟨ops2⟩ := wb2
  simp only at hwb2
  subst hwb2
  rw [hwb1, show (∅ : WriteBatch).ops = [] from rfl, List.nil_append]
  simp only [batchOf, WriteBatch.isEmpty]
  cases List.isEmpty _ <;> rfl

theorem writeIntent_of_forall₂ {req : WriteIntentRequest Cond} {write : ShardWriteRequest Cond}
    {outsD outsP : List (Option TxnIntent × WriteResponse)} (hw : req.write = some write)
    (hD : List.Forall₂ (fun w o => ∀ j, evalWrite codec evalConditions e latch req.startVersion
      write.shardId j w = .ok o) (write.deletes.map .delete) outsD)
    (hP : List.Forall₂ (fun w o => ∀ j, evalWrite codec evalConditions e latch req.startVersion
      write.shardId j w = .ok o) (write.puts.map .put) outsP) :
    writeIntent codec evalConditions e latch req =
      .ok (batchOf (stagedOps codec write.shardId (write.deletes.map .delete) outsD ++
        stagedOps codec write.shardId (write.puts.map .put) outsP),
        ⟨some ⟨outsD.map Prod.snd, outsP.map Prod.snd⟩⟩) := by
  simp only [writeIntent, hw, okOr, ok_bind]
  rw [show (∅ : WriteBatch) = ⟨[]⟩ from rfl, writeLoop_of_forall₂ codec evalConditions hD]
  simp only [ok_bind]
  rw [writeLoop_of_forall₂ codec evalConditions hP]
  simp only [ok_bind, pure_eq_ok, List.nil_append, batchOf, WriteBatch.isEmpty]
  cases List.isEmpty _ <;> rfl

end Sekas.Txn
