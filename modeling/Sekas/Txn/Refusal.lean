import Sekas.Txn.WellFormed

/-! Which write a refused `write_intent` fails at. Every write of a request is evaluated
against the store as it was before the request, so each write passes or fails on its own;
the two loops stop at the first failing write, in the order deletes then puts, return its
error, and a failed request stages no batch. -/
namespace Sekas.Txn
open Sekas.Engine

theorem exists_first_cons {α : Type} {P Q : Nat → α → Prop} {a : α} {l : List α} :
    (∃ j, ∃ hj : j < (a :: l).length, (∀ i (hi : i < j), P i (a :: l)[i]) ∧ Q j (a :: l)[j]) ↔
      Q 0 a ∨ P 0 a ∧
        ∃ j, ∃ hj : j < l.length, (∀ i (hi : i < j), P (i + 1) l[i]) ∧ Q (j + 1) l[j] := by
  constructor
  · rintro ⟨_ | j, hj, hp, hq⟩
    · exact .inl hq
    · exact .inr ⟨hp 0 (Nat.succ_pos _), j, Nat.lt_of_succ_lt_succ hj,
        fun i hi => hp (i + 1) (by omega), hq⟩
  · rintro (hq | ⟨hp0, j, hj, hp, hq⟩)
    · exact ⟨0, Nat.succ_pos _, fun i hi => absurd hi (Nat.not_lt_zero _), hq⟩
    · refine ⟨j + 1, Nat.succ_lt_succ hj, fun i hi => ?_, hq⟩
      cases i with
      | zero => exact hp0
      | succ i => exact hp i (by omega)

theorem forall_cons_getElem {α : Type} {P : Nat → α → Prop} {a : α} {l : List α} :
    (∀ j (hj : j < (a :: l).length), P j (a :: l)[j]) ↔
      P 0 a ∧ ∀ j (hj : j < l.length), P (j + 1) l[j] := by
  constructor
  · intro h
    exact ⟨h 0 (Nat.succ_pos _), fun j hj => h (j + 1) (Nat.succ_lt_succ hj)⟩
  · rintro ⟨h0, h⟩ (_ | j) hj
    · exact h0
    · exact h j (Nat.lt_of_succ_lt_succ hj)

variable {Cond : Type} (codec : IntentCodec)
  (evalConditions : Option Value → List Cond → Except Error (Option Nat))

def ShardWriteRequest.writes (write : ShardWriteRequest Cond) : List (Write Cond) :=
  write.deletes.map .delete ++ write.puts.map .put

inductive Sees (e : GroupEngine) (latch : LatchGuard) (s sh : UInt64) (k : Bytes) :
    Option Value → Bool → Prop
  | fresh (h : ∀ r ∈ (e sh k).latest, r.version ≠ txnIntentVersion) :
      Sees e latch s sh k (e sh k).latest false
  | own {c : Bytes} {i : TxnIntent} {rest : List Value}
      (hr : (e sh k).records = ⟨txnIntentVersion, some c⟩ :: rest) (hd : codec.decode c = .ok i)
      (hs : i.startVersion = s) : Sees e latch s sh k rest.head? true
  | other {c : Bytes} {i : TxnIntent} {rest : List Value} {resolved : Option Value}
      (hr : (e sh k).records = ⟨txnIntentVersion, some c⟩ :: rest) (hd : codec.decode c = .ok i)
      (hs : i.startVersion ≠ s) (hres : latch.resolveTxn sh k i = .ok resolved) :
      Sees e latch s sh k (resolved.or rest.head?) false

def Write.offense (startVersion : UInt64) (idx : Nat) (prevValue : Option Value)
    (w : Write Cond) : Option Error :=
  match evalConditions prevValue w.conditions with
  | .error err => some err
  | .ok (some condIdx) => some (.casFailed (UInt64.ofNat idx) (UInt64.ofNat condIdx) prevValue)
  | .ok none =>
    match w.intent startVersion prevValue with
    | .error err => some err
    | .ok _ => none

def Passes (e : GroupEngine) (latch : LatchGuard) (s sh : UInt64) (idx : Nat) (w : Write Cond) :
    Prop :=
  ∀ prev replay, Sees codec e latch s sh w.key prev replay → replay = false →
    w.offense evalConditions s idx prev = none

def Offends (e : GroupEngine) (latch : LatchGuard) (s sh : UInt64) (idx : Nat) (w : Write Cond)
    (err : Error) : Prop :=
  ∃ prev, Sees codec e latch s sh w.key prev false ∧ w.offense evalConditions s idx prev = some err

variable {codec evalConditions} {e : GroupEngine} {latch : LatchGuard} {s sh : UInt64}

theorem sees_exists {k : Bytes} (hwf : IntentWellFormed codec (e sh k))
    (hl : ∀ i, ∃ v, latch.resolveTxn sh k i = .ok v) :
    ∃ prev replay, Sees codec e latch s sh k prev replay := by
  rcases hr : (e sh k).records with _ | ⟨r, rest⟩
  · exact ⟨_, _, .fresh (by simp [History.latest, hr])⟩
  · by_cases hv : r.version = txnIntentVersion
    · obtain ⟨c, i, hc, hd⟩ := hwf r (by simp [hr]) hv
      obtain ⟨v, x⟩ := r
      simp only at hv hc
      subst hv hc
      by_cases hs : i.startVersion = s
      · exact ⟨_, _, .own hr hd hs⟩
      · obtain ⟨resolved, hres⟩ := hl i
        exact ⟨_, _, .other hr hd hs hres⟩
    · exact ⟨_, _, .fresh (by simpa [History.latest, hr] using hv)⟩

theorem evalWrite_of_sees {idx : Nat} {w : Write Cond} {prev : Option Value} {replay : Bool}
    (h : Sees codec e latch s sh w.key prev replay) :
    evalWrite codec evalConditions e latch s sh idx w =
      stageWrite evalConditions s idx w prev replay := by
  cases h with
  | fresh h => exact evalWrite_of_fresh codec evalConditions (readIntentAndNextKey_of_fresh codec h)
  | own hr hd hs =>
    rw [evalWrite_of_own codec evalConditions (by rw [readIntentAndNextKey_of_intent codec hr, hd]; rfl) hs]
    rfl
  | other hr hd hs hres =>
    simp [evalWrite, readIntentAndNextKey_of_intent codec hr, hd, Except.map, hs, hres]

theorem stageWrite_eq_error_iff {idx : Nat} {w : Write Cond} {prev : Option Value} {err : Error} :
    stageWrite evalConditions s idx w prev false = .error err ↔
      w.offense evalConditions s idx prev = some err := by
  unfold stageWrite Write.offense
  cases evalConditions prev w.conditions with
  | error => simp
  | ok c =>
    cases c with
    | some => simp [throw, throwThe, MonadExceptOf.throw]
    | none => cases w.intent s prev <;> simp [Functor.map, Except.map]

theorem evalWrite_eq_error_iff {idx : Nat} {w : Write Cond} {err : Error}
    (hwf : IntentWellFormed codec (e sh w.key)) (hl : ∀ i, ∃ v, latch.resolveTxn sh w.key i = .ok v) :
    evalWrite codec evalConditions e latch s sh idx w = .error err ↔
      Offends codec evalConditions e latch s sh idx w err := by
  constructor
  · intro h
    obtain ⟨prev, replay, hs⟩ := sees_exists (s := s) hwf hl
    rw [evalWrite_of_sees hs] at h
    cases replay
    · exact ⟨prev, hs, stageWrite_eq_error_iff.1 h⟩
    · cases h
  · rintro ⟨prev, hs, ho⟩
    rw [evalWrite_of_sees hs]
    exact stageWrite_eq_error_iff.2 ho

theorem evalWrite_ok_iff {idx : Nat} {w : Write Cond}
    (hwf : IntentWellFormed codec (e sh w.key)) (hl : ∀ i, ∃ v, latch.resolveTxn sh w.key i = .ok v) :
    (∃ o, evalWrite codec evalConditions e latch s sh idx w = .ok o) ↔
      Passes codec evalConditions e latch s sh idx w := by
  simp only [exists_ok_iff, ne_eq, evalWrite_eq_error_iff hwf hl, Offends, Passes]
  constructor
  · rintro h prev _ hs rfl
    cases ho : w.offense evalConditions s idx prev with
    | none => rfl
    | some err => exact absurd ⟨prev, hs, ho⟩ (h err)
  · rintro h err ⟨prev, hs, ho⟩
    rw [h prev false hs rfl] at ho
    cases ho

theorem writeLoop_eq_error_iff {idx : Nat} {ws : List (Write Cond)} {wb : WriteBatch}
    {err : Error} :
    writeLoop codec evalConditions e latch s sh idx ws wb = .error err ↔
      ∃ j, ∃ hj : j < ws.length,
        (∀ i (hi : i < j), ∃ o, evalWrite codec evalConditions e latch s sh (idx + i) ws[i] = .ok o) ∧
        evalWrite codec evalConditions e latch s sh (idx + j) ws[j] = .error err := by
  induction ws generalizing idx wb with
  | nil => exact ⟨fun h => absurd h nofun, fun h => h.elim fun _ h => absurd h.fst (Nat.not_lt_zero _)⟩
  | cons w ws ih =>
    simp only [writeLoop]
    rw [exists_first_cons
      (P := fun i w => ∃ o, evalWrite codec evalConditions e latch s sh (idx + i) w = .ok o)
      (Q := fun j w => evalWrite codec evalConditions e latch s sh (idx + j) w = .error err)]
    have hs : ∀ j, idx + 1 + j = idx + (j + 1) := fun j => by omega
    cases hw : evalWrite codec evalConditions e latch s sh idx w with
    | error err' =>
      simp only [Nat.add_zero, hw, error_bind, Except.error.injEq, reduceCtorEq, exists_false,
        false_and, or_false]
    | ok o =>
      simp only [ok_bind, bind_eq_error, pure_eq_ok, reduceCtorEq, and_false, exists_false,
        or_false, ih, Nat.add_zero, hw, false_or, Except.ok.injEq, exists_eq', true_and, hs]

theorem writeLoop_ok_iff {idx : Nat} {ws : List (Write Cond)} {wb : WriteBatch} :
    (∃ r, writeLoop codec evalConditions e latch s sh idx ws wb = .ok r) ↔
      ∀ j (hj : j < ws.length),
        ∃ o, evalWrite codec evalConditions e latch s sh (idx + j) ws[j] = .ok o := by
  induction ws generalizing idx wb with
  | nil => exact ⟨fun _ _ hj => absurd hj (Nat.not_lt_zero _), fun _ => ⟨_, rfl⟩⟩
  | cons w ws ih =>
    simp only [writeLoop]
    rw [forall_cons_getElem
      (P := fun j w => ∃ o, evalWrite codec evalConditions e latch s sh (idx + j) w = .ok o)]
    cases hw : evalWrite codec evalConditions e latch s sh idx w with
    | error err' =>
      simp only [Nat.add_zero, hw, error_bind, reduceCtorEq, exists_false, false_and]
    | ok o =>
      simp only [ok_bind, Nat.add_zero, hw]
      have hs : ∀ j, idx + (j + 1) = idx + 1 + j := fun j => by omega
      constructor
      · rintro ⟨r, h⟩
        obtain ⟨r', h', -⟩ := bind_eq_ok.1 h
        exact ⟨⟨o, rfl⟩, fun j hj => hs j ▸ ih.1 ⟨r', h'⟩ j hj⟩
      · rintro ⟨-, h⟩
        obtain ⟨r, hr⟩ := ih.2 fun j hj => hs j ▸ h j hj
        exact ⟨_, bind_eq_ok.2 ⟨r, hr, rfl⟩⟩

theorem writeLoop_append_eq_error_iff {idx : Nat} {xs ys : List (Write Cond)} {wb : WriteBatch}
    {err : Error} :
    writeLoop codec evalConditions e latch s sh idx (xs ++ ys) wb = .error err ↔
      writeLoop codec evalConditions e latch s sh idx xs wb = .error err ∨
        ∃ r, writeLoop codec evalConditions e latch s sh idx xs wb = .ok r ∧
          writeLoop codec evalConditions e latch s sh (idx + xs.length) ys r.1 = .error err := by
  induction xs generalizing idx wb with
  | nil => simp only [List.nil_append, writeLoop, pure_eq_ok, reduceCtorEq, Except.ok.injEq,
      exists_eq_left', List.length_nil, Nat.add_zero, false_or]
  | cons w xs ih =>
    simp only [List.cons_append, writeLoop]
    cases evalWrite codec evalConditions e latch s sh idx w with
    | error err' => simp only [error_bind, reduceCtorEq, false_and, exists_false, or_false]
    | ok o =>
      have hi : idx + 1 + xs.length = idx + (w :: xs).length := by simp only [List.length_cons]; omega
      simp only [ok_bind, bind_eq_error, pure_eq_ok, reduceCtorEq, and_false, exists_false,
        or_false, List.append_eq]
      rw [ih, hi]
      refine or_congr_right ⟨fun ⟨r, hr, he⟩ => ⟨_, bind_eq_ok.2 ⟨r, hr, rfl⟩, he⟩, ?_⟩
      rintro ⟨r, hr, he⟩
      obtain ⟨⟨wb', resps⟩, hr', h⟩ := bind_eq_ok.1 hr
      cases h
      exact ⟨_, hr', he⟩

theorem writeIntent_eq_error_iff {req : WriteIntentRequest Cond} {write : ShardWriteRequest Cond}
    (hw : req.write = some write) {err : Error} :
    writeIntent codec evalConditions e latch req = .error err ↔
      writeLoop codec evalConditions e latch req.startVersion write.shardId 0 write.writes ∅ =
        .error err := by
  rw [ShardWriteRequest.writes, writeLoop_append_eq_error_iff]
  simp only [writeIntent, hw, okOr, ok_bind, bind_eq_error, pure_eq_ok, reduceCtorEq, and_false,
    exists_false, or_false, List.length_map, Nat.zero_add]

variable (codec evalConditions)

/-- A `write_intent` without a `write` is an `InvalidArgument`; one with a `write` succeeds exactly
when every write passes, else fails at the first that does not and leaves the store as it was. -/
theorem write_intent_fails_at_first_offending_write (e : GroupEngine) (latch : LatchGuard)
    (req : WriteIntentRequest Cond) (hwf : IntentsWellFormed codec e)
    (hl : ∀ sh k i, ∃ v, latch.resolveTxn sh k i = .ok v) :
    (req.write = none → writeIntent codec evalConditions e latch req =
      .error (.invalidArgument "`write` is required")) ∧
    (∀ write, req.write = some write →
      ((∃ r, writeIntent codec evalConditions e latch req = .ok r) ↔
        ∀ j (hj : j < write.writes.length),
          Passes codec evalConditions e latch req.startVersion write.shardId j write.writes[j]) ∧
      ∀ err, writeIntent codec evalConditions e latch req = .error err ↔
        ∃ j, ∃ hj : j < write.writes.length,
          (∀ i (hi : i < j),
            Passes codec evalConditions e latch req.startVersion write.shardId i write.writes[i]) ∧
          Offends codec evalConditions e latch req.startVersion write.shardId j write.writes[j] err) ∧
    (∀ err, writeIntent codec evalConditions e latch req = .error err →
      (TxnCmd.write latch req).step codec evalConditions e = e) := by
  refine ⟨fun hw => by simp only [writeIntent, hw, okOr, error_bind], fun write hw => ?_,
    fun err h => by simp [TxnCmd.step, TxnCmd.eval, h, Except.map]⟩
  have hok : ∀ i w, (∃ o, evalWrite codec evalConditions e latch req.startVersion write.shardId
      i w = .ok o) ↔ Passes codec evalConditions e latch req.startVersion write.shardId i w :=
    fun _ w => evalWrite_ok_iff (hwf _ w.key) (hl _ w.key)
  refine ⟨?_, fun err => ?_⟩
  · rw [exists_ok_iff]
    simp only [ne_eq, writeIntent_eq_error_iff hw, ← exists_ok_iff, writeLoop_ok_iff,
      Nat.zero_add, hok]
  · simp only [writeIntent_eq_error_iff hw, writeLoop_eq_error_iff, Nat.zero_add, hok,
      evalWrite_eq_error_iff (hwf _ _) (hl _ _)]

def shortDeltaWrite : ShardWriteRequest Empty :=
  ⟨0, [⟨[1], [], false⟩], [⟨.addI64, [2], [7], [], false⟩]⟩

def shortDeltaRequest : WriteIntentRequest Empty := ⟨3, some shortDeltaWrite⟩

theorem short_delta_offends_after_delete :
    IntentsWellFormed fixedIntentCodec GroupEngine.empty ∧
      (∀ sh k i, ∃ v, nopLatchGuard.resolveTxn sh k i = .ok v) ∧
      writeIntent fixedIntentCodec noConditions GroupEngine.empty nopLatchGuard shortDeltaRequest =
        .error (.invalidArgument "input value is not a valid i64") ∧
      ∃ j, ∃ hj : j < shortDeltaWrite.writes.length,
        (∀ i (hi : i < j), Passes fixedIntentCodec noConditions GroupEngine.empty nopLatchGuard
          shortDeltaRequest.startVersion shortDeltaWrite.shardId i shortDeltaWrite.writes[i]) ∧
        Offends fixedIntentCodec noConditions GroupEngine.empty nopLatchGuard
          shortDeltaRequest.startVersion shortDeltaWrite.shardId j shortDeltaWrite.writes[j]
          (.invalidArgument "input value is not a valid i64") := by
  have hwf : IntentsWellFormed fixedIntentCodec GroupEngine.empty := fun _ _ =>
    IntentWellFormed.of_noIntent fun _ hr => by simp [GroupEngine.empty, History.empty] at hr
  have hl : ∀ sh k i, ∃ v, nopLatchGuard.resolveTxn sh k i = .ok v := fun _ _ _ => ⟨none, rfl⟩
  have herr : writeIntent fixedIntentCodec noConditions GroupEngine.empty nopLatchGuard
      shortDeltaRequest = .error (.invalidArgument "input value is not a valid i64") := by decide
  exact ⟨hwf, hl, herr, (((write_intent_fails_at_first_offending_write fixedIntentCodec noConditions
    GroupEngine.empty nopLatchGuard shortDeltaRequest hwf hl).2.1 shortDeltaWrite rfl).2 _).1 herr⟩

theorem write_intent_without_write_fails :
    writeIntent fixedIntentCodec noConditions GroupEngine.empty nopLatchGuard ⟨3, none⟩ =
      .error (.invalidArgument "`write` is required") :=
  rfl

end Sekas.Txn
