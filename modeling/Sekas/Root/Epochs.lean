import Sekas.Root.TxnId

/-! Transaction ids across leaderships. A leadership starts at the maximum the earlier
ones persisted, allocates below the maximum it persisted itself, and its compare-exchange
moves `next_txn_id` only forward; so a returned range lies above every range returned
before it on the same core or on the core of an older leadership, also when the call holds
the core of a leadership that has ended. All of this holds while no `u64` sum wraps. -/
namespace Sekas.Root
open Sekas.Engine

def World.cap (w : World) (i : Nat) : Nat :=
  if i + 1 < w.epochs then (w.loaded (i + 1)).toNat else w.persisted.toNat

def Issued.Before (r r' : Issued) : Prop :=
  (r.epoch ≤ r'.epoch → r.stop ≤ r'.start.toNat) ∧ (r'.epoch < r.epoch → r'.stop ≤ r.start.toNat)

def Issued.Mem (x : Nat) (r : Issued) : Prop := r.start.toNat ≤ x ∧ x < r.stop

structure World.Inv (w : World) : Prop where
  loaded_mono : ∀ i j, i ≤ j → j < w.epochs → (w.loaded i).toNat ≤ (w.loaded j).toNat
  loaded_le : ∀ i < w.epochs, (w.loaded i).toNat ≤ w.persisted.toNat
  leader_last : ∀ i, w.leader = some i → i + 1 = w.epochs
  loaded_le_next : ∀ i < w.epochs, (w.loaded i).toNat ≤ (w.cores i).nextTxnId.toNat
  max_le_cap : ∀ i < w.epochs, (w.cores i).maxTxnId.toNat ≤ w.cap i
  store_le_cap : ∀ i x, w.bumps i = .store x → i < w.epochs ∧ x.toNat ≤ w.cap i
  leader_idle : ∀ i, w.leader = some i → w.bumps i = .idle → (w.cores i).maxTxnId = w.persisted
  leader_set : ∀ i x, w.leader = some i → w.bumps i = .setTxnId x →
    w.persisted.toNat ≤ x.toNat
  leader_store : ∀ i x, w.leader = some i → w.bumps i = .store x → x = w.persisted
  call_epoch : ∀ id c, w.calls id = some c → c.epoch < w.epochs
  cas_le_cap : ∀ id c v, w.calls id = some c → c.pc = .compareExchange v →
    v.toNat + c.numRequired.toNat ≤ w.cap c.epoch
  issued_epoch : ∀ r ∈ w.issued, r.epoch < w.epochs
  issued_start : ∀ r ∈ w.issued, (w.loaded r.epoch).toNat ≤ r.start.toNat
  issued_next : ∀ r ∈ w.issued, r.stop ≤ (w.cores r.epoch).nextTxnId.toNat
  issued_cap : ∀ r ∈ w.issued, r.stop ≤ w.cap r.epoch
  ordered : w.issued.Pairwise Issued.Before

namespace World
variable {w w' : World}

theorem Inv.init (p : UInt64) : (World.init p).Inv where
  loaded_mono _ _ _ h := absurd h (Nat.not_lt_zero _)
  loaded_le _ h := absurd h (Nat.not_lt_zero _)
  leader_last _ h := nomatch h
  loaded_le_next _ h := absurd h (Nat.not_lt_zero _)
  max_le_cap _ h := absurd h (Nat.not_lt_zero _)
  store_le_cap _ _ h := nomatch h
  leader_idle _ h := nomatch h
  leader_set _ _ h := nomatch h
  leader_store _ _ h := nomatch h
  call_epoch _ _ h := nomatch h
  cas_le_cap _ _ _ h := nomatch h
  issued_epoch _ h := nomatch h
  issued_start _ h := nomatch h
  issued_next _ h := nomatch h
  issued_cap _ h := nomatch h
  ordered := .nil

theorem cap_of_last {i : Nat} (h : i + 1 = w.epochs) : w.cap i = w.persisted.toNat := by
  rw [World.cap, if_neg (by omega)]

theorem Inv.cap_le_loaded (hw : w.Inv) {i j : Nat} (hij : i < j) (hj : j < w.epochs) :
    w.cap i ≤ (w.loaded j).toNat := by
  rw [World.cap, if_pos (by omega)]
  exact hw.loaded_mono _ _ hij hj

theorem cap_le_cap (he : w'.epochs = w.epochs) (hl : w'.loaded = w.loaded)
    (hp : w.persisted.toNat ≤ w'.persisted.toNat) (i : Nat) : w.cap i ≤ w'.cap i := by
  unfold World.cap
  rw [he, hl]
  split_ifs <;> omega

theorem toNat_add_of_lt {a b : UInt64} (h : a.toNat + b.toNat < UInt64.size) :
    (a + b).toNat = a.toNat + b.toNat := by
  show (a.toNat + b.toNat) % UInt64.size = _
  exact Nat.mod_eq_of_lt h

theorem le_bumpTarget {m now : UInt64}
    (h : (if m ≤ now then now else m).toNat + reservation.toNat < UInt64.size) :
    m.toNat ≤ (bumpTarget m now).toNat := by
  rw [bumpTarget, toNat_add_of_lt h]
  split_ifs with hm
  · exact Nat.le_add_right_of_le hm
  · exact Nat.le_add_right _ _

@[simp] theorem gain_epochs : w.gain.epochs = w.epochs + 1 := rfl
@[simp] theorem gain_leader : w.gain.leader = some w.epochs := rfl
@[simp] theorem gain_persisted : w.gain.persisted = w.persisted := rfl
@[simp] theorem gain_calls : w.gain.calls = w.calls := rfl
@[simp] theorem gain_issued : w.gain.issued = w.issued := rfl

theorem gain_loaded (i : Nat) :
    w.gain.loaded i = if i = w.epochs then w.persisted else w.loaded i :=
  Function.update_apply _ _ _ _

theorem gain_cores (i : Nat) :
    w.gain.cores i = if i = w.epochs then ⟨w.persisted, w.persisted⟩ else w.cores i :=
  Function.update_apply _ _ _ _

theorem gain_bumps (i : Nat) : w.gain.bumps i = if i = w.epochs then .idle else w.bumps i :=
  Function.update_apply _ _ _ _

theorem gain_cap {i : Nat} (hi : i < w.epochs) : w.gain.cap i = w.cap i := by
  unfold World.cap
  rw [gain_epochs, if_pos (by omega), gain_loaded]
  by_cases h : i + 1 < w.epochs
  · rw [if_neg (by omega), if_pos h]
  · rw [if_pos (by omega), if_neg h]

theorem Inv.gain (hw : w.Inv) : w.gain.Inv where
  loaded_mono i j hij hj := by
    rw [gain_loaded, gain_loaded]
    rw [gain_epochs] at hj
    by_cases hj' : j = w.epochs
    · by_cases hi' : i = w.epochs
      · simp [hi', hj']
      · rw [if_pos hj', if_neg hi']
        exact hw.loaded_le i (by omega)
    · rw [if_neg hj', if_neg (by omega)]
      exact hw.loaded_mono i j hij (by omega)
  loaded_le i hi := by
    rw [gain_loaded]
    split_ifs with h
    · exact le_rfl
    · exact hw.loaded_le i (by rw [gain_epochs] at hi; omega)
  leader_last i h := by
    cases h
    rfl
  loaded_le_next i hi := by
    rw [gain_loaded, gain_cores]
    split_ifs with h
    · exact le_rfl
    · exact hw.loaded_le_next i (by rw [gain_epochs] at hi; omega)
  max_le_cap i hi := by
    rw [gain_cores]
    split_ifs with h
    · rw [cap_of_last (by rw [h, gain_epochs])]
      exact le_rfl
    · rw [gain_cap (by rw [gain_epochs] at hi; omega)]
      exact hw.max_le_cap i (by rw [gain_epochs] at hi; omega)
  store_le_cap i x h := by
    rw [gain_bumps] at h
    split_ifs at h with hi
    obtain ⟨hi', hx⟩ := hw.store_le_cap i x h
    exact ⟨by rw [gain_epochs]; omega, by rw [gain_cap hi']; exact hx⟩
  leader_idle i h _ := by
    cases h
    rw [gain_cores, if_pos rfl]
    rfl
  leader_set i x h hb := by
    cases h
    rw [gain_bumps, if_pos rfl] at hb
    cases hb
  leader_store i x h hb := by
    cases h
    rw [gain_bumps, if_pos rfl] at hb
    cases hb
  call_epoch id c h := Nat.lt_succ_of_lt (hw.call_epoch id c h)
  cas_le_cap id c v h hpc := by
    rw [gain_cap (hw.call_epoch id c h)]
    exact hw.cas_le_cap id c v h hpc
  issued_epoch r hr := Nat.lt_succ_of_lt (hw.issued_epoch r hr)
  issued_start r hr := by
    rw [gain_loaded, if_neg (Nat.ne_of_lt (hw.issued_epoch r hr))]
    exact hw.issued_start r hr
  issued_next r hr := by
    rw [gain_cores, if_neg (Nat.ne_of_lt (hw.issued_epoch r hr))]
    exact hw.issued_next r hr
  issued_cap r hr := by
    rw [gain_cap (hw.issued_epoch r hr)]
    exact hw.issued_cap r hr
  ordered := hw.ordered

theorem Inv.lose (hw : w.Inv) : ({ w with leader := none } : World).Inv :=
  { hw with
    leader_last := fun _ h => nomatch h
    leader_idle := fun _ h => nomatch h
    leader_set := fun _ _ h => nomatch h
    leader_store := fun _ _ h => nomatch h }

theorem cap_lt_size (w : World) (i : Nat) : w.cap i < UInt64.size := by
  unfold World.cap
  split_ifs
  · exact UInt64.toNat_lt_size _
  · exact UInt64.toNat_lt_size _

@[simp] theorem nextTxnId_update_max (cs : Nat → RootCore) (e i : Nat) (m : UInt64) :
    (Function.update cs e ⟨(cs e).nextTxnId, m⟩ i).nextTxnId = (cs i).nextTxnId := by
  by_cases h : i = e
  · subst h
    rw [Function.update_same]
  · rw [Function.update_noteq h]

@[simp] theorem maxTxnId_update_next (cs : Nat → RootCore) (e i : Nat) (m : UInt64) :
    (Function.update cs e ⟨m, (cs e).maxTxnId⟩ i).maxTxnId = (cs i).maxTxnId := by
  by_cases h : i = e
  · subst h
    rw [Function.update_same]
  · rw [Function.update_noteq h]

theorem apply_of_update_ne {f : Nat → BumpPc} {a a' : Nat} {b b' : BumpPc}
    (h : Function.update f a b a' = b') (hb : b' ≠ b) : f a' = b' ∧ a' ≠ a := by
  by_cases ha : a' = a
  · subst ha
    rw [Function.update_same] at h
    exact absurd h.symm hb
  · rw [Function.update_noteq ha] at h
    exact ⟨h, ha⟩

theorem Inv.stepDown (hw : w.Inv) {e : Nat} (hl : w.leader ≠ some e) :
    ({ w with cores := Function.update w.cores e { (w.cores e) with maxTxnId := 0 } } : World).Inv :=
  { hw with
    loaded_le_next := fun i hi => by
      dsimp only
      rw [nextTxnId_update_max]
      exact hw.loaded_le_next i hi
    max_le_cap := fun i hi => by
      dsimp only
      by_cases h : i = e
      · subst h
        rw [Function.update_same]
        exact Nat.zero_le _
      · rw [Function.update_noteq h]
        exact hw.max_le_cap i hi
    leader_idle := fun i h hb => by
      dsimp only at h hb ⊢
      rw [Function.update_noteq (by rintro rfl; exact hl h)]
      exact hw.leader_idle i h hb
    issued_next := fun r hr => by
      dsimp only at hr ⊢
      rw [nextTxnId_update_max]
      exact hw.issued_next r hr }

theorem Inv.bump (hw : w.Inv) {e : Nat} {now : UInt64} (hb : w.bumps e = .idle)
    (hnw : (if (w.cores e).maxTxnId ≤ now then now else (w.cores e).maxTxnId).toNat +
      reservation.toNat < UInt64.size) :
    ({ w with
      bumps := Function.update w.bumps e (.setTxnId (bumpTarget (w.cores e).maxTxnId now)) } :
      World).Inv :=
  { hw with
    store_le_cap := fun i x h => hw.store_le_cap i x (apply_of_update_ne h fun h => nomatch h).1
    leader_idle := fun i h hb' => hw.leader_idle i h (apply_of_update_ne hb' fun h => nomatch h).1
    leader_set := fun i x h hb' => by
      dsimp only at h hb' ⊢
      by_cases hi : i = e
      · subst hi
        rw [Function.update_same] at hb'
        rw [← BumpPc.setTxnId.inj hb', ← hw.leader_idle i h hb]
        exact le_bumpTarget hnw
      · rw [Function.update_noteq hi] at hb'
        exact hw.leader_set i x h hb'
    leader_store := fun i x h hb' =>
      hw.leader_store i x h (apply_of_update_ne hb' fun h => nomatch h).1 }

theorem Inv.setTxnId (hw : w.Inv) {e : Nat} {x : UInt64} (hl : w.leader = some e)
    (hb : w.bumps e = .setTxnId x) :
    ({ w with persisted := x, bumps := Function.update w.bumps e (.store x) } : World).Inv := by
  have hp := hw.leader_set e x hl hb
  have hcap : ∀ i, w.cap i ≤ World.cap { w with
      persisted := x, bumps := Function.update w.bumps e (.store x) } i := cap_le_cap rfl rfl hp
  have hlead {i : Nat} (h : w.leader = some i) : i = e := Option.some.inj (h.symm.trans hl)
  exact
  { hw with
    loaded_le := fun i hi => (hw.loaded_le i hi).trans hp
    max_le_cap := fun i hi => (hw.max_le_cap i hi).trans (hcap i)
    store_le_cap := fun i y h => by
      dsimp only at h ⊢
      by_cases hi : i = e
      · subst hi
        rw [Function.update_same] at h
        cases h
        have he := hw.leader_last i hl
        refine ⟨by omega, ?_⟩
        simp only [World.cap]
        rw [if_neg (by omega)]
      · rw [Function.update_noteq hi] at h
        obtain ⟨hi', hy⟩ := hw.store_le_cap i y h
        exact ⟨hi', hy.trans (hcap i)⟩
    leader_idle := fun i h hb' => by
      dsimp only at h hb' ⊢
      cases hlead h
      rw [Function.update_same] at hb'
      cases hb'
    leader_set := fun i y h hb' => by
      dsimp only at h hb' ⊢
      cases hlead h
      rw [Function.update_same] at hb'
      cases hb'
    leader_store := fun i y h hb' => by
      dsimp only at h hb' ⊢
      cases hlead h
      rw [Function.update_same] at hb'
      cases hb'
      rfl
    cas_le_cap := fun id c v h hv => (hw.cas_le_cap id c v h hv).trans (hcap _)
    issued_cap := fun r hr => (hw.issued_cap r hr).trans (hcap _) }

theorem Inv.setTxnId_failed (hw : w.Inv) {e : Nat} (hl : w.leader ≠ some e) :
    ({ w with bumps := Function.update w.bumps e .stopped } : World).Inv :=
  have hne {i : Nat} (h : w.leader = some i) : i ≠ e := fun he => hl (he ▸ h)
  { hw with
    store_le_cap := fun i x h => hw.store_le_cap i x (apply_of_update_ne h fun h => nomatch h).1
    leader_idle := fun i h hb => by
      dsimp only at h hb ⊢
      rw [Function.update_noteq (hne h)] at hb
      exact hw.leader_idle i h hb
    leader_set := fun i x h hb => by
      dsimp only at h hb ⊢
      rw [Function.update_noteq (hne h)] at hb
      exact hw.leader_set i x h hb
    leader_store := fun i x h hb => by
      dsimp only at h hb ⊢
      rw [Function.update_noteq (hne h)] at hb
      exact hw.leader_store i x h hb }

theorem Inv.storeMax (hw : w.Inv) {e : Nat} {x : UInt64} (hb : w.bumps e = .store x) :
    ({ w with
      cores := Function.update w.cores e { (w.cores e) with maxTxnId := x }
      bumps := Function.update w.bumps e .idle } : World).Inv :=
  { hw with
    loaded_le_next := fun i hi => by
      dsimp only
      rw [nextTxnId_update_max]
      exact hw.loaded_le_next i hi
    max_le_cap := fun i hi => by
      dsimp only
      by_cases h : i = e
      · subst h
        rw [Function.update_same]
        exact (hw.store_le_cap i x hb).2
      · rw [Function.update_noteq h]
        exact hw.max_le_cap i hi
    store_le_cap := fun i y h => hw.store_le_cap i y (apply_of_update_ne h fun h => nomatch h).1
    leader_idle := fun i h hb' => by
      dsimp only at h hb' ⊢
      by_cases hi : i = e
      · subst hi
        rw [Function.update_same]
        exact hw.leader_store i x h hb
      · rw [Function.update_noteq hi] at hb' ⊢
        exact hw.leader_idle i h hb'
    leader_set := fun i y h hb' => hw.leader_set i y h (apply_of_update_ne hb' fun h => nomatch h).1
    leader_store := fun i y h hb' =>
      hw.leader_store i y h (apply_of_update_ne hb' fun h => nomatch h).1
    issued_next := fun r hr => by
      dsimp only at hr ⊢
      rw [nextTxnId_update_max]
      exact hw.issued_next r hr }

theorem Inv.setCall (hw : w.Inv) {id : Nat} {c : Call} (he : c.epoch < w.epochs)
    (hpc : ∀ v, c.pc = .compareExchange v → v.toNat + c.numRequired.toNat ≤ w.cap c.epoch) :
    ({ w with calls := Function.update w.calls id (some c) } : World).Inv :=
  { hw with
    call_epoch := fun id' c' h => by
      dsimp only at h ⊢
      by_cases hi : id' = id
      · subst hi
        rw [Function.update_same] at h
        cases h
        exact he
      · rw [Function.update_noteq hi] at h
        exact hw.call_epoch id' c' h
    cas_le_cap := fun id' c' v h hv => by
      dsimp only at h hv ⊢
      by_cases hi : id' = id
      · subst hi
        rw [Function.update_same] at h
        cases h
        exact hpc v hv
      · rw [Function.update_noteq hi] at h
        exact hw.cas_le_cap id' c' v h hv }

theorem Inv.issue (hw : w.Inv) {e : Nat} {v n : UInt64} (he : e < w.epochs)
    (hcap : v.toNat + n.toNat ≤ w.cap e) (hv : (w.cores e).nextTxnId = v) :
    ({ w with
      cores := Function.update w.cores e ⟨v + n, (w.cores e).maxTxnId⟩
      issued := w.issued ++ [⟨e, v, n⟩] } : World).Inv := by
  have hsum : (v + n).toNat = v.toNat + n.toNat :=
    toNat_add_of_lt (lt_of_le_of_lt hcap (cap_lt_size w e))
  have hstart : (w.loaded e).toNat ≤ v.toNat := hv ▸ hw.loaded_le_next e he
  have hnext : ∀ i, (w.cores i).nextTxnId.toNat ≤
      (Function.update w.cores e ⟨v + n, (w.cores e).maxTxnId⟩ i).nextTxnId.toNat := by
    intro i
    by_cases hi : i = e
    · subst hi
      rw [Function.update_same, hv]
      dsimp only
      omega
    · rw [Function.update_noteq hi]
  have hbefore : ∀ r ∈ w.issued, r.Before ⟨e, v, n⟩ := by
    intro r hr
    refine ⟨fun hle => ?_, fun hlt => ?_⟩
    · rcases Nat.lt_or_eq_of_le hle with hlt | heq
      · exact (hw.issued_cap r hr).trans ((hw.cap_le_loaded hlt he).trans hstart)
      · have := hw.issued_next r hr
        rwa [heq, hv] at this
    · exact (hcap.trans (hw.cap_le_loaded hlt (hw.issued_epoch r hr))).trans (hw.issued_start r hr)
  exact
  { hw with
    loaded_le_next := fun i hi => (hw.loaded_le_next i hi).trans (hnext i)
    max_le_cap := fun i hi => by
      dsimp only
      rw [maxTxnId_update_next]
      exact hw.max_le_cap i hi
    leader_idle := fun i h hb => by
      dsimp only at hb ⊢
      rw [maxTxnId_update_next]
      exact hw.leader_idle i h hb
    issued_epoch := List.forall_mem_append.2 ⟨hw.issued_epoch, List.forall_mem_singleton.2 he⟩
    issued_start := List.forall_mem_append.2 ⟨hw.issued_start, List.forall_mem_singleton.2 hstart⟩
    issued_next := List.forall_mem_append.2 ⟨fun r hr => (hw.issued_next r hr).trans (hnext _),
      List.forall_mem_singleton.2 (by dsimp only; rw [Function.update_same]; exact hsum.symm.le)⟩
    issued_cap := List.forall_mem_append.2 ⟨hw.issued_cap, List.forall_mem_singleton.2 hcap⟩
    ordered := List.pairwise_append.2 ⟨hw.ordered, List.pairwise_singleton _ _,
      fun r hr _ hr' => List.mem_singleton.1 hr' ▸ hbefore r hr⟩ }

end World

theorem allocStep_cases (n : UInt64) (core : RootCore) {pc : AllocPc} (hd : pc.done = false) :
    ((allocStep n core pc).1 = core ∧
      (∀ v, (allocStep n core pc).2 = .compareExchange v →
        pc = .loadMax v ∧ ¬ v + n > core.maxTxnId) ∧
      ∀ v, (allocStep n core pc).2 ≠ .returned (.ok v)) ∨
    ∃ v, pc = .compareExchange v ∧ core.nextTxnId = v ∧
      allocStep n core pc = (⟨v + n, core.maxTxnId⟩, .returned (.ok v)) := by
  cases pc with
  | loadNext => exact .inl ⟨rfl, fun _ h => (by cases h), fun _ h => (by cases h)⟩
  | loadMax v =>
    left
    simp only [allocStep]
    split_ifs with h0 hgt
    · exact ⟨rfl, fun _ h => (by cases h), fun _ h => (by cases h)⟩
    · exact ⟨rfl, fun _ h => (by cases h), fun _ h => (by cases h)⟩
    · refine ⟨rfl, fun _ h => ?_, fun _ h => (by cases h)⟩
      cases h
      exact ⟨rfl, hgt⟩
  | compareExchange v =>
    simp only [allocStep]
    split_ifs with hv
    · exact .inr ⟨v, rfl, hv, rfl⟩
    · exact .inl ⟨rfl, fun _ h => (by cases h), fun _ h => (by cases h)⟩
  | returned r => cases hd

theorem Call.issues_eq_nil {c : Call} {pc : AllocPc} (h : ∀ v, pc ≠ .returned (.ok v)) :
    c.issues pc = [] := by
  unfold Call.issues
  split
  · exact absurd rfl (h _)
  · rfl

namespace World
variable {w w' : World}

theorem Inv.alloc (hw : w.Inv) {id : Nat} (hnw : w.noWrap (.alloc id) = true)
    (h : w.step (.alloc id) = some w') : w'.Inv := by
  cases hc : w.calls id with
  | none => simp [World.step, hc] at h
  | some c =>
    obtain ⟨e, n, pc⟩ := c
    have he : e < w.epochs := hw.call_epoch id _ hc
    simp only [World.step, hc] at h
    split_ifs at h with hd
    cases h
    rcases allocStep_cases n (w.cores e) (Bool.eq_false_iff.2 hd) with
      ⟨hcore, hcas, hret⟩ | ⟨v, rfl, hv, hs⟩
    · rw [hcore, Function.update_eq_self, Call.issues_eq_nil hret, List.append_nil]
      refine hw.setCall he fun v hv' => ?_
      obtain ⟨rfl, hle⟩ := hcas v hv'
      have hsz : v.toNat + n.toNat < UInt64.size := by simpa [World.noWrap, hc] using hnw
      rw [gt_iff_lt, u64_lt_iff, not_lt, toNat_add_of_lt hsz] at hle
      exact hle.trans (hw.max_le_cap e he)
    · rw [hs]
      exact (hw.issue he (hw.cas_le_cap id _ v hc rfl) hv).setCall he fun _ h => nomatch h

theorem Inv.step (hw : w.Inv) {ev : Event} (hnw : w.noWrap ev = true)
    (h : w.step ev = some w') : w'.Inv := by
  cases ev with
  | gain =>
    simp only [World.step] at h
    split_ifs at h
    cases h
    exact hw.gain
  | lose =>
    simp only [World.step] at h
    split_ifs at h
    cases h
    exact hw.lose
  | stepDown e =>
    simp only [World.step] at h
    split_ifs at h with hg
    cases h
    exact hw.stepDown hg.2
  | bump e now =>
    simp only [World.step] at h
    split_ifs at h with hg
    cases h
    exact hw.bump hg.2 (by simpa [World.noWrap] using hnw)
  | setTxnId e =>
    match hb : w.bumps e with
    | .setTxnId x =>
      simp only [World.step, hb] at h
      split_ifs at h with hl <;> cases h
      · exact hw.setTxnId hl hb
      · exact hw.setTxnId_failed hl
    | .idle | .store _ | .stopped => simp [World.step, hb] at h
  | storeMax e =>
    match hb : w.bumps e with
    | .store x =>
      simp only [World.step, hb] at h
      cases h
      exact hw.storeMax hb
    | .idle | .setTxnId _ | .stopped => simp [World.step, hb] at h
  | call id e n =>
    simp only [World.step] at h
    split_ifs at h with hg
    cases h
    exact hw.setCall hg.2 fun _ h => nomatch h
  | alloc id => exact hw.alloc hnw h

theorem Inv.run (hw : w.Inv) {evs : List Event} (hnw : w.noWrapRun evs = true)
    (h : w.run evs = some w') : w'.Inv := by
  induction evs generalizing w with
  | nil =>
    cases h
    exact hw
  | cons ev evs ih =>
    cases hs : w.step ev with
    | none => simp [World.run, hs] at h
    | some w₁ =>
      simp only [World.noWrapRun, hs, Bool.and_eq_true] at hnw
      simp only [World.run, hs, Option.some_bind] at h
      exact ih (hw.step hnw.1 hs) hnw.2 h

end World

theorem Issued.Before.disjoint {r r' : Issued} (h : r.Before r') {x : Nat} (hx : r.Mem x) :
    ¬ r'.Mem x := by
  unfold Issued.Mem at *
  by_cases he : r.epoch ≤ r'.epoch
  · have := h.1 he
    omega
  · have := h.2 (by omega)
    omega

variable (persisted : UInt64)

/-- In every run with no `u64` wrap, each returned range of ids lies above every earlier range of
the same or an older leadership and below every earlier range of a newer one. -/
theorem txn_ids_unique_without_wrap (evs : List Event) (w : World)
    (hnw : (World.init persisted).noWrapRun evs = true)
    (h : (World.init persisted).run evs = some w) :
    w.issued.Pairwise fun r r' => r.Before r' ∧ ∀ x, r.Mem x → ¬ r'.Mem x :=
  (World.Inv.run (World.Inv.init persisted) hnw h).ordered.imp fun hb => ⟨hb, fun _ => hb.disjoint⟩

def handoffTrace : List Event :=
  [.gain, .bump 0 7, .setTxnId 0, .storeMax 0,
   .call 0 0 3, .alloc 0, .alloc 0, .call 1 0 2, .alloc 1, .alloc 1,
   .lose, .gain, .bump 1 9, .setTxnId 1, .storeMax 1, .stepDown 0, .alloc 1,
   .call 2 1 4, .alloc 2, .alloc 2, .alloc 2, .alloc 0]

theorem txn_ids_unique_of_handoff :
    (((World.init 0).run handoffTrace).get (by decide)).issued.Pairwise
      fun r r' => r.Before r' ∧ ∀ x, r.Mem x → ¬ r'.Mem x :=
  txn_ids_unique_without_wrap 0 handoffTrace _ (by decide) (Option.some_get _).symm

def wrapTrace : List Event :=
  [.gain, .bump 0 0, .setTxnId 0, .storeMax 0,
   .call 0 0 1, .alloc 0, .alloc 0, .alloc 0,
   .call 1 0 18446744073709551615, .alloc 1, .alloc 1, .alloc 1,
   .call 2 0 1, .alloc 2, .alloc 2, .alloc 2]

/-- The first and the third call, neither of which wraps, both return the range `[0, 1)`. -/
theorem wrapping_call_reissues_ids :
    ((World.init 0).run wrapTrace).map World.issued =
      some [⟨0, 0, 1⟩, ⟨0, 1, 18446744073709551615⟩, ⟨0, 0, 1⟩] := by
  decide

end Sekas.Root
