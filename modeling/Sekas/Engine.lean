import Mathlib.Data.List.Nodup
import Mathlib.Logic.Function.Basic
import Mathlib.Tactic.SplitIfs
import Mathlib.Tactic.Use
import Mathlib.Tactic.Tauto
import Mathlib.Tactic.PushNeg
import Mathlib.Tactic.Convert
import Mathlib.Tactic.ByContra
import Mathlib.Tactic.Ring

/-! The group engine as the transaction evaluator sees it. Every key of a shard holds
its versions newest first; a write batch stages puts, tombstones and deletes, and a
commit applies them in order, all at once. -/
namespace Sekas.Engine

abbrev Bytes := List UInt8

/-- `TXN_INTENT_VERSION`, that is `u64::MAX`: the version a pending intent lives at. -/
def txnIntentVersion : UInt64 := 18446744073709551615

theorem u64_lt_iff (a b : UInt64) : a < b ↔ a.toNat < b.toNat := Iff.rfl

theorem u64_le_iff (a b : UInt64) : a ≤ b ↔ a.toNat ≤ b.toNat := Iff.rfl

@[simp] theorem txnIntentVersion_toNat : txnIntentVersion.toNat = 2 ^ 64 - 1 := rfl

theorem lt_txnIntentVersion {v : UInt64} (h : v ≠ txnIntentVersion) : v < txnIntentVersion := by
  replace h : v.toNat ≠ txnIntentVersion.toNat := fun he => h (UInt64.toNat.inj he)
  have := v.toNat_lt_size
  simp only [u64_lt_iff, txnIntentVersion_toNat, UInt64.size] at *
  omega

instance instDecidableEqExcept {ε α : Type} [DecidableEq ε] [DecidableEq α] :
    DecidableEq (Except ε α)
  | .ok a, .ok b => if h : a = b then isTrue (h ▸ rfl) else isFalse fun h' => h (by cases h'; rfl)
  | .error a, .error b =>
    if h : a = b then isTrue (h ▸ rfl) else isFalse fun h' => h (by cases h'; rfl)
  | .ok _, .error _ => isFalse fun h => by cases h
  | .error _, .ok _ => isFalse fun h => by cases h

theorem bind_eq_ok {x : Except ε α} {f : α → Except ε β} {b : β} :
    x >>= f = .ok b ↔ ∃ a, x = .ok a ∧ f a = .ok b := by
  cases x with
  | error e => exact ⟨nofun, fun ⟨_, h, _⟩ => nomatch h⟩
  | ok a => exact ⟨fun h => ⟨a, rfl, h⟩, fun ⟨_, h, hf⟩ => Except.ok.inj h ▸ hf⟩

@[simp] theorem ok_bind {a : α} {f : α → Except ε β} : (Except.ok a >>= f) = f a := rfl

theorem bind_eq_error {x : Except ε α} {f : α → Except ε β} {err : ε} :
    x >>= f = .error err ↔ x = .error err ∨ ∃ a, x = .ok a ∧ f a = .error err := by
  cases x with
  | error e =>
    exact ⟨fun h => .inl (Except.error.inj h ▸ rfl),
      fun h => h.elim (fun h => Except.error.inj h ▸ rfl) fun ⟨_, h, _⟩ => nomatch h⟩
  | ok a =>
    exact ⟨fun h => .inr ⟨a, rfl, h⟩, fun h => h.elim nofun fun ⟨_, h, hf⟩ => Except.ok.inj h ▸ hf⟩

theorem exists_ok_iff {x : Except ε α} : (∃ a, x = .ok a) ↔ ∀ err, x ≠ .error err := by
  cases x with
  | error e => exact ⟨fun ⟨_, h⟩ => (nomatch h), fun h => absurd rfl (h e)⟩
  | ok a => exact ⟨fun _ _ => nofun, fun _ => ⟨a, rfl⟩⟩

theorem map_eq_ok {x : Except ε α} {f : α → β} {b : β} :
    Except.map f x = .ok b ↔ ∃ a, x = .ok a ∧ f a = b := by
  cases x with
  | error e => exact ⟨nofun, fun ⟨_, h, _⟩ => nomatch h⟩
  | ok a => exact ⟨fun h => ⟨a, rfl, Except.ok.inj h⟩, fun ⟨_, h, hf⟩ => Except.ok.inj h ▸ hf ▸ rfl⟩

@[simp] theorem pure_eq_ok (a : α) : (pure a : Except ε α) = .ok a := rfl

@[simp] theorem map_ok (f : α → β) (a : α) : (f <$> (Except.ok a : Except ε α)) = .ok (f a) := rfl

@[simp] theorem throw_bind (e : ε) (f : α → Except ε β) : (throw e >>= f) = .error e := rfl

@[simp] theorem error_bind {e : ε} {f : α → Except ε β} : (Except.error e >>= f) = .error e := rfl

theorem mapM_eq_ok {f : α → Except ε β} {l : List α} {ls : List β} :
    l.mapM f = .ok ls ↔ List.Forall₂ (fun a b => f a = .ok b) l ls := by
  induction l generalizing ls with
  | nil =>
    rw [List.mapM_nil]
    cases ls with
    | nil => exact ⟨fun _ => .nil, fun _ => rfl⟩
    | cons => exact ⟨nofun, nofun⟩
  | cons a l ih =>
    rw [List.mapM_cons]
    cases ls with
    | nil =>
      simp only [bind_eq_ok, pure_eq_ok, Except.ok.injEq, reduceCtorEq, and_false, exists_false,
        false_iff]
      exact nofun
    | cons b ls =>
      simp only [bind_eq_ok, pure_eq_ok, Except.ok.injEq, List.cons.injEq, List.forall₂_cons, ih]
      constructor
      · rintro ⟨b', hb, ls', hl, rfl, rfl⟩; exact ⟨hb, hl⟩
      · rintro ⟨hb, hl⟩; exact ⟨b, hb, ls, hl, rfl, rfl⟩

def andThen (r : Except ε α × σ) (f : α → σ → Except ε β × σ) : Except ε β × σ :=
  match r with
  | (.error err, s) => (.error err, s)
  | (.ok a, s) => f a s

theorem eq_of_andThen_ok {r : Except ε α × σ} {f : α → σ → Except ε β × σ} {b : β}
    (h : (andThen r f).1 = .ok b) : ∃ a, r.1 = .ok a ∧ andThen r f = f a r.2 := by
  rcases r with ⟨_ | a, s⟩
  · cases h
  · exact ⟨a, rfl, rfl⟩

/-- One version of a key; `content = none` is a tombstone. -/
structure Value where
  version : UInt64
  content : Option Bytes
  deriving DecidableEq, Repr

/-- The crate's `Error`, with the variants the modelled code raises. -/
inductive Error where
  | invalidArgument (msg : String)
  | invalidData (msg : String)
  | casFailed (idx condIdx : UInt64) (prevValue : Option Value)
  | notLeader (groupId epoch : UInt64)
  | notRootLeader
  | other (msg : String)
  deriving DecidableEq, Repr

@[ext] structure History where
  records : List Value
  sorted : records.Pairwise (fun a b => b.version < a.version)
  deriving DecidableEq

def History.empty : History := ⟨[], .nil⟩

def History.latest (h : History) : Option Value := h.records.head?

def insertVersion (r : Value) : List Value → List Value
  | [] => [r]
  | a :: rs =>
    if a.version < r.version then r :: a :: rs
    else if a.version = r.version then r :: rs
    else a :: insertVersion r rs

theorem mem_insertVersion {r x : Value} {rs : List Value} (hx : x ∈ insertVersion r rs) :
    x = r ∨ x ∈ rs := by
  induction rs with
  | nil => exact .inl (List.mem_singleton.1 hx)
  | cons a rs ih =>
    simp only [insertVersion] at hx
    split_ifs at hx
    · exact List.mem_cons.1 hx
    · exact (List.mem_cons.1 hx).imp_right (List.mem_cons_of_mem a)
    · rcases List.mem_cons.1 hx with rfl | hx
      · exact .inr (List.mem_cons_self _ _)
      · exact (ih hx).imp_right (List.mem_cons_of_mem a)

theorem insertVersion_sorted (r : Value) {rs : List Value}
    (h : rs.Pairwise (fun a b => b.version < a.version)) :
    (insertVersion r rs).Pairwise (fun a b => b.version < a.version) := by
  induction rs with
  | nil => exact List.pairwise_singleton _ r
  | cons a rs ih =>
    rw [List.pairwise_cons] at h
    simp only [insertVersion]
    split_ifs with hlt heq
    · exact List.Pairwise.cons
        (List.forall_mem_cons.2 ⟨hlt, fun b hb => UInt64.lt_trans (h.1 b hb) hlt⟩)
        (List.Pairwise.cons h.1 h.2)
    · exact List.Pairwise.cons (fun b hb => heq ▸ h.1 b hb) h.2
    · refine List.Pairwise.cons (fun b hb => ?_) (ih h.2)
      rcases mem_insertVersion hb with rfl | hb
      · rw [u64_lt_iff] at hlt ⊢
        replace heq : a.version.toNat ≠ b.version.toNat := fun he => heq (UInt64.toNat.inj he)
        omega
      · exact h.1 b hb

/-- `put` or `tombstone` of one key: the record at `r.version` becomes `r`. -/
def History.put (h : History) (r : Value) : History :=
  ⟨insertVersion r h.records, insertVersion_sorted r h.sorted⟩

/-- `delete` of one key at one version. -/
def History.delete (h : History) (version : UInt64) : History :=
  ⟨h.records.filter (·.version != version), h.sorted.filter _⟩

theorem History.put_of_lt {h : History} {r : Value}
    (hr : ∀ x ∈ h.records, x.version < r.version) : (h.put r).records = r :: h.records := by
  cases h with
  | mk records sorted =>
    cases records with
    | nil => rfl
    | cons a rs => simp [History.put, insertVersion, hr a (by simp)]

theorem History.put_of_head {h : History} {r a : Value} {rs : List Value}
    (hh : h.records = a :: rs) (hv : a.version = r.version) : (h.put r).records = r :: rs := by
  have : ¬ a.version < r.version := by rw [hv]; exact UInt64.lt_irrefl _
  simp [History.put, hh, insertVersion, this, hv]

theorem History.delete_of_not_mem {h : History} {v : UInt64}
    (hv : ∀ x ∈ h.records, x.version ≠ v) : h.delete v = h := by
  ext1
  exact List.filter_eq_self.2 fun x hx => bne_iff_ne.2 (hv x hx)

theorem History.delete_of_head {h : History} {a : Value} {rs : List Value}
    (hh : h.records = a :: rs) : (h.delete a.version).records = rs := by
  have hs := h.sorted
  rw [hh, List.pairwise_cons] at hs
  simp only [History.delete, hh, List.filter_cons, bne_self_eq_false, Bool.false_eq_true,
    ↓reduceIte]
  exact List.filter_eq_self.2 fun b hb => bne_iff_ne.2 (UInt64.ne_of_lt (hs.1 b hb))

def History.recordAt (h : History) (v : UInt64) : Option Value := h.records.find? (·.version = v)

def History.NoIntent (h : History) : Prop := ∀ r ∈ h.records, r.version ≠ txnIntentVersion

theorem find_insertVersion_of_ne {r : Value} {v : UInt64} (hv : r.version ≠ v) (l : List Value) :
    (insertVersion r l).find? (·.version = v) = l.find? (·.version = v) := by
  induction l with
  | nil => simp [insertVersion, hv]
  | cons a rs ih =>
    simp only [insertVersion]
    split_ifs with h1 h2
    · simp [hv]
    · have ha : a.version ≠ v := h2 ▸ hv
      simp [hv, ha]
    · by_cases ha : a.version = v <;> simp [ha, ih]

theorem History.recordAt_put_of_ne (h : History) {r : Value} {v : UInt64} (hv : r.version ≠ v) :
    (h.put r).recordAt v = h.recordAt v :=
  find_insertVersion_of_ne hv h.records

theorem History.recordAt_delete_of_ne (h : History) {v' v : UInt64} (hv : v' ≠ v) :
    (h.delete v').recordAt v = h.recordAt v := by
  simp only [History.recordAt, History.delete, List.find?_filter]
  congr 1
  funext x
  by_cases hx : x.version = v <;> simp [hx, hv, Ne.symm hv]

theorem History.noIntent_delete (h : History) : (h.delete txnIntentVersion).NoIntent := by
  intro r hr
  simpa [History.delete] using (List.mem_filter.1 hr).2

theorem History.NoIntent.delete {h : History} (hn : h.NoIntent) (v : UInt64) :
    (h.delete v).NoIntent :=
  fun r hr => hn r (List.mem_filter.1 hr).1

theorem History.NoIntent.put {h : History} (hn : h.NoIntent) {r : Value}
    (hr : r.version ≠ txnIntentVersion) : (h.put r).NoIntent := by
  intro x hx
  rcases mem_insertVersion hx with rfl | hx
  · exact hr
  · exact hn x hx

theorem History.latest_put_intentVersion (h : History) (x : Option Bytes) :
    (h.put ⟨txnIntentVersion, x⟩).latest = some ⟨txnIntentVersion, x⟩ := by
  obtain ⟨_ | ⟨a, rs⟩, _⟩ := h
  · rfl
  · by_cases ha : a.version = txnIntentVersion
    · simp [History.put, History.latest, insertVersion, ha]
    · simp [History.put, History.latest, insertVersion, lt_txnIntentVersion ha]

theorem History.latest_put (h : History) (r : Value) :
    (h.put r).latest = some r ∨ (h.put r).latest = h.latest := by
  obtain ⟨_ | ⟨a, rs⟩, _⟩ := h
  · exact .inl rfl
  · simp only [History.put, History.latest, insertVersion]
    split_ifs <;> simp

theorem History.NoIntent.latest {h : History} (hn : h.NoIntent) :
    ∀ r ∈ h.latest, r.version ≠ txnIntentVersion :=
  fun r hr => hn r (List.mem_of_mem_head? hr)

theorem History.noIntent_of_latest {h : History}
    (hl : ∀ r ∈ h.latest, r.version ≠ txnIntentVersion) : h.NoIntent := by
  obtain ⟨_ | ⟨a, rs⟩, hs⟩ := h
  · simp [History.NoIntent]
  · intro r hr heq
    rcases List.mem_cons.1 hr with rfl | hr
    · exact hl r rfl heq
    · have hlt := (List.pairwise_cons.1 hs).1 r hr
      have := a.version.toNat_lt_size
      rw [u64_lt_iff, heq, txnIntentVersion_toNat] at hlt
      simp only [UInt64.size] at this
      omega

theorem History.ne_intentVersion_of_mem_tail {h : History} {x : Option Bytes} {rest : List Value}
    (hh : h.records = ⟨txnIntentVersion, x⟩ :: rest) : ∀ r ∈ rest, r.version ≠ txnIntentVersion := by
  have hs := h.sorted
  rw [hh, List.pairwise_cons] at hs
  exact fun r hr => UInt64.ne_of_lt (hs.1 r hr)

theorem History.put_intentVersion_records (h : History) (x : Option Bytes) :
    (h.put ⟨txnIntentVersion, x⟩).records =
      ⟨txnIntentVersion, x⟩ :: (h.delete txnIntentVersion).records := by
  rcases hr : h.records with _ | ⟨a, rs⟩
  · simp only [History.put, History.delete, hr, insertVersion, List.filter_nil]
  · by_cases ha : a.version = txnIntentVersion
    · rw [History.put_of_head hr ha, ← ha, History.delete_of_head hr]
    · have hn := History.noIntent_of_latest (h := h) (by simpa [History.latest, hr] using ha)
      rw [History.put_of_lt (r := ⟨txnIntentVersion, x⟩) fun y hy => lt_txnIntentVersion (hn y hy),
        History.delete_of_not_mem hn, hr]

theorem History.delete_put_intentVersion (h : History) (x : Option Bytes) :
    (h.put ⟨txnIntentVersion, x⟩).delete txnIntentVersion = h.delete txnIntentVersion := by
  ext1
  simp [History.delete, h.put_intentVersion_records x, List.filter_filter]

def GroupEngine := UInt64 → Bytes → History

def GroupEngine.empty : GroupEngine := fun _ _ => History.empty

def GroupEngine.modify (e : GroupEngine) (shard : UInt64) (key : Bytes)
    (f : History → History) : GroupEngine :=
  fun sh k => if sh = shard ∧ k = key then f (e sh k) else e sh k

@[simp] theorem GroupEngine.modify_apply (e : GroupEngine) (shard : UInt64) (key : Bytes)
    (f : History → History) (sh : UInt64) (k : Bytes) :
    e.modify shard key f sh k = if sh = shard ∧ k = key then f (e sh k) else e sh k := rfl

/-- `GroupEngine::get`: the latest record of a key, intent included. -/
def GroupEngine.get (e : GroupEngine) (shard : UInt64) (key : Bytes) : Option Value :=
  (e shard key).latest

/-- `GroupEngine::snapshot` in `SnapshotMode::Key`: the key's versions, newest first. -/
def GroupEngine.snapshot (e : GroupEngine) (shard : UInt64) (key : Bytes) : List Value :=
  (e shard key).records

inductive WriteOp where
  | put (shard : UInt64) (key : Bytes) (value : Value)
  | delete (shard : UInt64) (key : Bytes) (version : UInt64)
  deriving DecidableEq, Repr

def WriteOp.shard : WriteOp → UInt64
  | .put sh _ _ | .delete sh _ _ => sh

def WriteOp.key : WriteOp → Bytes
  | .put _ k _ | .delete _ k _ => k

def WriteOp.applyHistory (h : History) : WriteOp → History
  | .put _ _ r => h.put r
  | .delete _ _ v => h.delete v

def WriteOp.Resolves : WriteOp → Prop
  | .delete _ _ v => v = txnIntentVersion
  | .put _ _ r => r.version ≠ txnIntentVersion

theorem History.NoIntent.foldl {h : History} (hn : h.NoIntent) {ops : List WriteOp}
    (hops : ∀ op ∈ ops, op.Resolves) : (ops.foldl WriteOp.applyHistory h).NoIntent := by
  induction ops generalizing h with
  | nil => exact hn
  | cons op ops ih =>
    refine ih ?_ fun o ho => hops o (List.mem_cons_of_mem _ ho)
    have hop := hops op (List.mem_cons_self _ _)
    cases op with
    | put sh k r => exact hn.put hop
    | delete sh k v => exact hn.delete v

theorem History.noIntent_foldl {ops : List WriteOp} (hops : ∀ op ∈ ops, op.Resolves)
    (hdel : ∃ sh k, WriteOp.delete sh k txnIntentVersion ∈ ops) (h : History) :
    (ops.foldl WriteOp.applyHistory h).NoIntent := by
  induction ops generalizing h with
  | nil => simp at hdel
  | cons op ops ih =>
    have htail := fun o (ho : o ∈ ops) => hops o (List.mem_cons_of_mem _ ho)
    by_cases hd : ∃ sh k, WriteOp.delete sh k txnIntentVersion ∈ ops
    · exact ih htail hd _
    · obtain ⟨sh, k, hk⟩ := hdel
      rcases List.mem_cons.1 hk with rfl | hk
      · exact (h.noIntent_delete).foldl htail
      · exact absurd ⟨sh, k, hk⟩ hd

structure WriteBatch where
  ops : List WriteOp
  deriving DecidableEq, Repr

instance : EmptyCollection WriteBatch := ⟨⟨[]⟩⟩

def WriteBatch.isEmpty (wb : WriteBatch) : Bool := wb.ops.isEmpty

/-- `GroupEngine::put`. -/
def GroupEngine.put (wb : WriteBatch) (shard : UInt64) (key value : Bytes)
    (version : UInt64) : WriteBatch :=
  ⟨wb.ops ++ [.put shard key ⟨version, some value⟩]⟩

/-- `GroupEngine::tombstone`. -/
def GroupEngine.tombstone (wb : WriteBatch) (shard : UInt64) (key : Bytes)
    (version : UInt64) : WriteBatch :=
  ⟨wb.ops ++ [.put shard key ⟨version, none⟩]⟩

/-- `GroupEngine::delete`. -/
def GroupEngine.delete (wb : WriteBatch) (shard : UInt64) (key : Bytes)
    (version : UInt64) : WriteBatch :=
  ⟨wb.ops ++ [.delete shard key version]⟩

/-- `GroupEngine::commit`: the batch's mutations, in order, as one step. -/
def GroupEngine.commit (e : GroupEngine) (wb : WriteBatch) : GroupEngine :=
  wb.ops.foldl (fun e op => e.modify op.shard op.key (op.applyHistory ·)) e

theorem GroupEngine.commit_apply (e : GroupEngine) (wb : WriteBatch) (sh : UInt64) (k : Bytes) :
    e.commit wb sh k =
      (wb.ops.filter fun op => op.shard = sh ∧ op.key = k).foldl WriteOp.applyHistory (e sh k) := by
  obtain ⟨ops⟩ := wb
  induction ops generalizing e with
  | nil => rfl
  | cons op ops ih =>
    simp only [GroupEngine.commit] at ih ⊢
    rw [List.foldl_cons, ih, List.filter_cons]
    by_cases hk : op.shard = sh ∧ op.key = k
    · simp [hk.1, hk.2]
    · have : ¬ (sh = op.shard ∧ k = op.key) := fun h => hk ⟨h.1.symm, h.2.symm⟩
      simp [this, hk]

def GroupEngine.applyEval (engine : GroupEngine) : Option WriteBatch → GroupEngine
  | some wb => engine.commit wb
  | none => engine

theorem GroupEngine.commit_preserves {P : History → Prop} {e : GroupEngine} {wb : WriteBatch}
    {sh : UInt64} {k : Bytes}
    (hop : ∀ op ∈ wb.ops, op.shard = sh → op.key = k → ∀ h, P h → P (op.applyHistory h))
    (he : P (e sh k)) : P (e.commit wb sh k) := by
  obtain ⟨ops⟩ := wb
  rw [GroupEngine.commit_apply]
  generalize e sh k = h at he
  induction ops generalizing h with
  | nil => exact he
  | cons op ops ih =>
    have htail := ih fun o ho => hop o (List.mem_cons_of_mem _ ho)
    rw [List.filter_cons]
    split_ifs with hk
    · simp only [decide_eq_true_eq] at hk
      exact htail _ (hop op (List.mem_cons_self _ _) hk.1 hk.2 h he)
    · exact htail h he

theorem GroupEngine.commit_of_untouched {e : GroupEngine} {wb : WriteBatch} {sh : UInt64}
    {k : Bytes} (h : ∀ op ∈ wb.ops, op.shard = sh → op.key ≠ k) : e.commit wb sh k = e sh k := by
  rw [GroupEngine.commit_apply, List.filter_eq_nil_iff.2]
  · rfl
  · intro op hop hk
    simp only [decide_eq_true_eq] at hk
    exact h op hop hk.1 hk.2

theorem GroupEngine.commit_empty (e : GroupEngine) : e.commit ∅ = e := rfl

end Sekas.Engine
