import Sekas.Txn.Displace

/-! The two intent readers of `cmd_txn.rs`. `read_intent_and_next_key` reads a key's
versions through a snapshot and `read_target_intent` its newest record through `get`; both
decide on the same newest record, so the target reader is the snapshot reader keeping only
the transaction's own intent. A record at the intent version that is a tombstone or does
not decode makes both fail. -/
namespace Sekas.Txn
open Sekas.Engine

variable {codec : IntentCodec} {e : GroupEngine} {s sh : UInt64} {k : Bytes}

theorem readIntentAndNextKey_eq_ok_iff {p : Option TxnIntent × Option Value} :
    readIntentAndNextKey codec e s sh k = .ok p ↔
      ((∀ r ∈ (e sh k).latest, r.version ≠ txnIntentVersion) ∧ p = (none, (e sh k).latest)) ∨
      ∃ c i rest, (e sh k).records = ⟨txnIntentVersion, some c⟩ :: rest ∧
        codec.decode c = .ok i ∧ p = (some i, rest.head?) := by
  unfold readIntentAndNextKey GroupEngine.snapshot History.latest
  rcases (e sh k).records with _ | ⟨⟨v, x⟩, rest⟩
  · simp only [List.head?_nil, Except.ok.injEq, @eq_comm _ p, reduceCtorEq, false_and,
      exists_false, or_false, iff_and_self]
    rintro - r ⟨⟩
  · simp only [List.head?_cons, Option.mem_def, Option.some.injEq, forall_eq', List.cons.injEq,
      Value.mk.injEq, @eq_comm _ p]
    by_cases hv : v = txnIntentVersion
    · subst hv
      simp only [if_true, ne_eq, not_true_eq_false, false_and, true_and, false_or]
      cases x with
      | none => simp only [reduceCtorEq, false_and, and_false, exists_false]
      | some c =>
        simp only [Option.some.injEq]
        cases hd : codec.decode c with
        | error => exact ⟨nofun, fun ⟨_, _, _, ⟨rfl, rfl⟩, hd', _⟩ => by rw [hd] at hd'; cases hd'⟩
        | ok i =>
          simp only [ok_bind, pure_eq_ok, Except.ok.injEq]
          exact ⟨fun h => ⟨c, i, rest, ⟨rfl, rfl⟩, hd, h⟩,
            fun ⟨_, _, _, ⟨rfl, rfl⟩, hd', h⟩ => by rw [hd] at hd'; cases hd'; exact h⟩
    · simp only [hv, if_false, Except.ok.injEq, ne_eq, not_false_eq_true, true_and, false_and,
        exists_false, or_false]

theorem readTargetIntent_eq_ok_iff {o : Option TxnIntent} :
    readTargetIntent codec e s sh k = .ok o ↔
      ∃ p, readIntentAndNextKey codec e s sh k = .ok p ∧
        o = p.1.filter (·.startVersion == s) := by
  unfold readTargetIntent readIntentAndNextKey GroupEngine.get GroupEngine.snapshot History.latest
  rcases (e sh k).records with _ | ⟨⟨v, _ | c⟩, rest⟩
  · simp only [List.head?_nil, Except.ok.injEq, @eq_comm _ o, exists_eq_left', Option.filter_none]
  · by_cases hv : v = txnIntentVersion
    · subst hv
      simp only [List.head?_cons, ne_eq, not_true_eq_false, if_true, if_false, reduceCtorEq,
        false_and, exists_false]
    · simp only [List.head?_cons, ne_eq, hv, not_false_eq_true, if_true, if_false,
        Except.ok.injEq, @eq_comm _ o, exists_eq_left', Option.filter_none]
  · by_cases hv : v = txnIntentVersion
    · subst hv
      simp only [List.head?_cons, ne_eq, not_true_eq_false, if_true, if_false]
      cases hd : codec.decode c with
      | error => simp only [error_bind, reduceCtorEq, false_and, exists_false]
      | ok i =>
        by_cases hs : i.startVersion = s <;>
          simp only [ok_bind, pure_eq_ok, hs, Except.ok.injEq, exists_eq_left', Option.filter,
            beq_iff_eq, if_true, if_false, not_true_eq_false, not_false_eq_true, @eq_comm _ o]
    · simp only [List.head?_cons, ne_eq, hv, not_false_eq_true, if_true, if_false,
        Except.ok.injEq, @eq_comm _ o, exists_eq_left', Option.filter_none]

variable (codec)

/-- Over every history of a key, the snapshot reader returns an intent, no intent or an error as
the newest record says, and the target reader agrees with it and fails with it. -/
theorem intent_readers_agree (e : GroupEngine) (s sh : UInt64) (k : Bytes) :
    (∀ i next, readIntentAndNextKey codec e s sh k = .ok (some i, next) ↔
      ∃ c rest, (e sh k).records = ⟨txnIntentVersion, some c⟩ :: rest ∧
        codec.decode c = .ok i ∧ next = rest.head?) ∧
    (∀ v, readIntentAndNextKey codec e s sh k = .ok (none, v) ↔
      (∀ r ∈ (e sh k).latest, r.version ≠ txnIntentVersion) ∧ v = (e sh k).latest) ∧
    ((∃ p, readIntentAndNextKey codec e s sh k = .ok p) ↔
      ∀ r ∈ (e sh k).latest, r.version = txnIntentVersion →
        ∃ c i, r.content = some c ∧ codec.decode c = .ok i) ∧
    (∀ i, readTargetIntent codec e s sh k = .ok (some i) ↔
      ∃ next, readIntentAndNextKey codec e s sh k = .ok (some i, next) ∧ i.startVersion = s) ∧
    ((∃ o, readTargetIntent codec e s sh k = .ok o) ↔
      ∃ p, readIntentAndNextKey codec e s sh k = .ok p) := by
  refine ⟨fun i next => ?_, fun v => ?_, ?_, fun i => ?_, ?_⟩
  · rw [readIntentAndNextKey_eq_ok_iff]
    constructor
    · rintro (⟨-, h⟩ | ⟨c, i', rest, hr, hd, h⟩)
      · cases h
      · simp only [Prod.mk.injEq, Option.some.injEq] at h
        obtain ⟨rfl, rfl⟩ := h
        exact ⟨c, rest, hr, hd, rfl⟩
    · rintro ⟨c, rest, hr, hd, rfl⟩
      exact .inr ⟨c, i, rest, hr, hd, rfl⟩
  · simp only [readIntentAndNextKey_eq_ok_iff, Prod.mk.injEq, true_and, reduceCtorEq, false_and,
      and_false, exists_false, or_false]
  · unfold readIntentAndNextKey GroupEngine.snapshot History.latest
    rcases (e sh k).records with _ | ⟨⟨v, x⟩, rest⟩
    · simp only [Except.ok.injEq, exists_eq', List.head?_nil, Option.mem_def, reduceCtorEq,
        false_implies, implies_true]
    · simp only [List.head?_cons, Option.mem_def, Option.some.injEq, forall_eq']
      by_cases hv : v = txnIntentVersion
      · subst hv
        simp only [if_true, true_implies]
        cases x with
        | none => simp only [reduceCtorEq, exists_false, false_and]
        | some c =>
          simp only [Option.some.injEq, exists_and_left, exists_eq_left']
          cases hd : codec.decode c <;> simp only [hd, error_bind, ok_bind, pure_eq_ok,
            reduceCtorEq, Except.ok.injEq, exists_false, exists_eq']
      · simp only [hv, if_false, Except.ok.injEq, exists_eq', false_implies]
  · rw [readTargetIntent_eq_ok_iff]
    constructor
    · rintro ⟨⟨_ | i', next⟩, hp, ho⟩
      · cases ho
      · simp only [Option.filter, beq_iff_eq] at ho
        split_ifs at ho with hs
        cases ho
        exact ⟨next, hp, hs⟩
    · rintro ⟨next, hp, hs⟩
      exact ⟨_, hp, by simp [Option.filter, hs]⟩
  · exact ⟨fun ⟨_, h⟩ => (readTargetIntent_eq_ok_iff.1 h).imp fun _ h => h.1,
      fun ⟨p, h⟩ => ⟨_, readTargetIntent_eq_ok_iff.2 ⟨p, h, rfl⟩⟩⟩

def tombstoneAtIntent : GroupEngine :=
  fun _ _ => ⟨[⟨txnIntentVersion, none⟩], List.pairwise_singleton _ _⟩

theorem tombstone_intent_fails_readers :
    readIntentAndNextKey fixedIntentCodec tombstoneAtIntent 1 0 [1] ≠
        .ok (none, (tombstoneAtIntent 0 [1]).latest) ∧
      (readIntentAndNextKey fixedIntentCodec tombstoneAtIntent 1 0 [1]).isOk = false ∧
      (readTargetIntent fixedIntentCodec tombstoneAtIntent 1 0 [1]).isOk = false := by
  decide

end Sekas.Txn
