import Sekas.Engine

/-! The root's handling of node reports (`Root::report`). For each `GroupUpdates` a call
reads the stored `GroupDesc` and `ReplicaState`, keeps the reported ones that are newer,
and writes them through `update_group_replica`; each read and the write are awaits, and
nothing compares the stored values again before the write. Calls interleave at their
awaits. -/
namespace Sekas.Root
open Sekas.Engine

/-- The fields of `GroupDesc` that `report` reads; shards and replicas are left out. -/
structure GroupDesc where
  id : UInt64
  epoch : UInt64
  deriving DecidableEq, Repr

structure ReplicaState where
  groupId : UInt64
  replicaId : UInt64
  term : UInt64
  role : Int
  deriving DecidableEq, Repr

/-- `GroupUpdates`, without `schedule_state`, which only goes to the ongoing stats. -/
structure GroupUpdates where
  groupId : UInt64
  groupDesc : Option GroupDesc
  replicaState : Option ReplicaState
  deriving DecidableEq, Repr

def reportGroupDesc (u : GroupUpdates) (pre : Option GroupDesc) : Option GroupDesc :=
  match u.groupDesc with
  | some g =>
    match pre with
    | some p => if p.epoch ≥ g.epoch then none else u.groupDesc
    | none => u.groupDesc
  | none => none

def reportReplicaState (u : GroupUpdates) (pre : Option ReplicaState) : Option ReplicaState :=
  match u.replicaState with
  | some s =>
    match pre with
    | some p => if p.term > s.term || (p.term == s.term && p.role == s.role) then none
      else u.replicaState
    | none => u.replicaState
  | none => none

structure ReportStore where
  groups : UInt64 → Option GroupDesc
  replicaStates : UInt64 × UInt64 → Option ReplicaState

/-- `Schema::update_group_replica`: puts the descriptor and the state it is given, each
under its own ids, and leaves the store as it is for a `None`. -/
def ReportStore.updateGroupReplica (st : ReportStore) (groupDesc : Option GroupDesc)
    (replicaState : Option ReplicaState) : ReportStore where
  groups := match groupDesc with
    | some g => Function.update st.groups g.id (some g)
    | none => st.groups
  replicaStates := match replicaState with
    | some s => Function.update st.replicaStates (s.groupId, s.replicaId) (some s)
    | none => st.replicaStates

inductive ReportPc where
  | next
  | readReplica (u : GroupUpdates) (readGroup groupDesc : Option GroupDesc)
  | write (u : GroupUpdates) (readGroup groupDesc : Option GroupDesc)
      (readReplica replicaState : Option ReplicaState)
  | returned (result : Except Error Unit)
  deriving DecidableEq, Repr

/-- A call of `report` with the updates it has not yet taken. -/
structure ReportCall where
  updates : List GroupUpdates
  pc : ReportPc
  deriving DecidableEq, Repr

structure ReportWorld where
  store : ReportStore
  calls : List ReportCall

inductive ReportEvent where
  | call (updates : List GroupUpdates)
  | readGroup (i : Nat)
  | readReplica (i : Nat)
  | write (i : Nat)
  | fail (i : Nat) (err : Error)

def GroupUpdates.replicaKey (u : GroupUpdates) (s : ReplicaState) : UInt64 × UInt64 :=
  (u.groupId, s.replicaId)

def ReportStore.readReplica (st : ReportStore) (u : GroupUpdates) : Option ReplicaState :=
  u.replicaState.bind fun s => st.replicaStates (u.replicaKey s)

namespace ReportWorld

def setCall (w : ReportWorld) (i : Nat) (updates : List GroupUpdates) (pc : ReportPc) :
    ReportWorld :=
  { w with calls := w.calls.set i ⟨updates, pc⟩ }

def step (w : ReportWorld) : ReportEvent → Option ReportWorld
  | .call updates => some { w with calls := w.calls ++ [⟨updates, .next⟩] }
  | .readGroup i =>
    match w.calls[i]? with
    | some ⟨[], .next⟩ => some (w.setCall i [] (.returned (.ok ())))
    | some ⟨u :: rest, .next⟩ =>
      let pre := w.store.groups u.groupId
      some (w.setCall i rest (.readReplica u pre (reportGroupDesc u pre)))
    | _ => none
  | .readReplica i =>
    match w.calls[i]? with
    | some ⟨rest, .readReplica u rg gd⟩ =>
      let pre := w.store.readReplica u
      some (w.setCall i rest (.write u rg gd pre (reportReplicaState u pre)))
    | _ => none
  | .write i =>
    match w.calls[i]? with
    | some ⟨rest, .write _ _ gd _ rsd⟩ =>
      some { w.setCall i rest .next with store := w.store.updateGroupReplica gd rsd }
    | _ => none
  | .fail i err =>
    match w.calls[i]? with
    | some ⟨_, .returned _⟩ => none
    | some ⟨rest, _⟩ => some (w.setCall i rest (.returned (.error err)))
    | none => none

def run (w : ReportWorld) : List ReportEvent → Option ReportWorld
  | [] => some w
  | ev :: evs => (w.step ev).bind (·.run evs)

def casHolds (w : ReportWorld) : ReportEvent → Bool
  | .write i =>
    match w.calls[i]? with
    | some ⟨_, .write u rg gd rr rsd⟩ =>
      (gd.isNone || w.store.groups u.groupId == rg) && (rsd.isNone || w.store.readReplica u == rr)
    | _ => true
  | _ => true

def casRun (w : ReportWorld) : List ReportEvent → Bool
  | [] => true
  | ev :: evs => w.casHolds ev && match w.step ev with
    | some w' => w'.casRun evs
    | none => true

end ReportWorld

def GroupUpdates.wellKeyed (u : GroupUpdates) : Bool :=
  u.groupDesc.all (·.id == u.groupId) && u.replicaState.all (·.groupId == u.groupId)

def ReportEvent.wellKeyed : ReportEvent → Bool
  | .call updates => updates.all GroupUpdates.wellKeyed
  | _ => true

structure ReportStore.Grows (st st' : ReportStore) : Prop where
  epochs : ∀ id d, st.groups id = some d → ∃ d', st'.groups id = some d' ∧ d.epoch ≤ d'.epoch
  terms : ∀ k s, st.replicaStates k = some s →
    ∃ s', st'.replicaStates k = some s' ∧ s.term ≤ s'.term

namespace ReportStore
variable {st st₁ st₂ : ReportStore}

theorem Grows.refl (st : ReportStore) : st.Grows st :=
  ⟨fun _ d h => ⟨d, h, UInt64.le_refl _⟩, fun _ s h => ⟨s, h, UInt64.le_refl _⟩⟩

theorem Grows.trans (h₁ : st.Grows st₁) (h₂ : st₁.Grows st₂) : st.Grows st₂ where
  epochs id d h := by
    obtain ⟨d₁, h, hd₁⟩ := h₁.epochs id d h
    obtain ⟨d₂, h, hd₂⟩ := h₂.epochs id d₁ h
    exact ⟨d₂, h, UInt64.le_trans hd₁ hd₂⟩
  terms k s h := by
    obtain ⟨s₁, h, hs₁⟩ := h₁.terms k s h
    obtain ⟨s₂, h, hs₂⟩ := h₂.terms k s₁ h
    exact ⟨s₂, h, UInt64.le_trans hs₁ hs₂⟩

end ReportStore

def GroupSound (u : GroupUpdates) (rg gd : Option GroupDesc) : Prop :=
  ∀ g, gd = some g → g.id = u.groupId ∧ ∀ p, rg = some p → p.epoch < g.epoch

def ReplicaSound (u : GroupUpdates) (rr rsd : Option ReplicaState) : Prop :=
  ∀ s, rsd = some s → u.replicaState = some s ∧ s.groupId = u.groupId ∧
    ∀ p, rr = some p → p.term ≤ s.term

theorem reportGroupDesc_sound {u : GroupUpdates} (hu : u.wellKeyed = true)
    (pre : Option GroupDesc) : GroupSound u pre (reportGroupDesc u pre) := by
  intro g hg
  simp only [GroupUpdates.wellKeyed, Bool.and_eq_true] at hu
  unfold reportGroupDesc at hg
  rcases hd : u.groupDesc with _ | g'
  · simp [hd] at hg
  · rw [hd] at hg hu
    have hid : g'.id = u.groupId := by simpa using hu.1
    rcases pre with _ | p
    · cases hg
      exact ⟨hid, fun _ h => nomatch h⟩
    · simp only at hg
      split_ifs at hg with hp
      cases hg
      exact ⟨hid, fun _ h => Option.some.inj h ▸ UInt64.not_le.1 hp⟩

theorem reportReplicaState_sound {u : GroupUpdates} (hu : u.wellKeyed = true)
    (pre : Option ReplicaState) : ReplicaSound u pre (reportReplicaState u pre) := by
  intro s hs
  simp only [GroupUpdates.wellKeyed, Bool.and_eq_true] at hu
  unfold reportReplicaState at hs
  rcases hr : u.replicaState with _ | s'
  · simp [hr] at hs
  · rw [hr] at hs hu
    have hid : s'.groupId = u.groupId := by simpa using hu.2
    rcases pre with _ | p
    · cases hs
      exact ⟨rfl, hid, fun _ h => nomatch h⟩
    · simp only at hs
      split_ifs at hs with hp
      cases hs
      refine ⟨rfl, hid, fun _ h => Option.some.inj h ▸ ?_⟩
      simp only [Bool.or_eq_true, decide_eq_true_eq, not_or] at hp
      exact UInt64.not_lt.1 hp.1

def ReportPc.Sound : ReportPc → Prop
  | .readReplica u rg gd => u.wellKeyed = true ∧ GroupSound u rg gd
  | .write u rg gd rr rsd => GroupSound u rg gd ∧ ReplicaSound u rr rsd
  | _ => True

structure ReportWorld.Inv (w : ReportWorld) : Prop where
  keyed : ∀ c ∈ w.calls, ∀ u ∈ c.updates, u.wellKeyed = true
  sound : ∀ c ∈ w.calls, c.pc.Sound

namespace ReportWorld
variable {w w' : ReportWorld}

theorem Inv.setCall (hw : w.Inv) {i : Nat} {c : ReportCall} (hc : w.calls[i]? = some c)
    {rest : List GroupUpdates} (hr : ∀ u ∈ rest, u ∈ c.updates) {pc : ReportPc}
    (hpc : pc.Sound) : (w.setCall i rest pc).Inv := by
  have hc := List.getElem?_mem hc
  constructor
  · intro c' hc'
    rcases List.mem_or_eq_of_mem_set hc' with hc' | rfl
    · exact hw.keyed c' hc'
    · exact fun u hu => hw.keyed c hc u (hr u hu)
  · intro c' hc'
    rcases List.mem_or_eq_of_mem_set hc' with hc' | rfl
    · exact hw.sound c' hc'
    · exact hpc

theorem grows_of_write {u : GroupUpdates} {rg gd : Option GroupDesc}
    {rr rsd : Option ReplicaState} (hs : (ReportPc.write u rg gd rr rsd).Sound)
    (hg : gd.isNone = true ∨ w.store.groups u.groupId = rg)
    (hr : rsd.isNone = true ∨ w.store.readReplica u = rr) :
    w.store.Grows (w.store.updateGroupReplica gd rsd) where
  epochs id d hd := by
    rcases gd with _ | g
    · exact ⟨d, hd, UInt64.le_refl _⟩
    obtain ⟨hid, hlt⟩ := hs.1 g rfl
    simp only [ReportStore.updateGroupReplica, Function.update_apply]
    split_ifs with he
    · subst he
      have hrg : w.store.groups u.groupId = rg := hg.resolve_left (by simp)
      rw [← hid, hd] at hrg
      exact ⟨g, rfl, UInt64.not_lt.1 (UInt64.lt_asymm (hlt d hrg.symm))⟩
    · exact ⟨d, hd, UInt64.le_refl _⟩
  terms k s hk := by
    rcases rsd with _ | s'
    · exact ⟨s, hk, UInt64.le_refl _⟩
    obtain ⟨hu, hid, hle⟩ := hs.2 s' rfl
    simp only [ReportStore.updateGroupReplica, Function.update_apply]
    split_ifs with he
    · subst he
      have hrr : w.store.readReplica u = rr := hr.resolve_left (by simp)
      simp only [ReportStore.readReplica, hu, Option.some_bind, GroupUpdates.replicaKey,
        ← hid, hk] at hrr
      exact ⟨s', rfl, hle s hrr.symm⟩
    · exact ⟨s, hk, UInt64.le_refl _⟩

theorem Inv.step (hw : w.Inv) {ev : ReportEvent} (hk : ev.wellKeyed = true)
    (hcas : w.casHolds ev = true) (h : w.step ev = some w') :
    w'.Inv ∧ w.store.Grows w'.store := by
  cases ev with
  | call updates =>
    cases h
    refine ⟨⟨fun c hc => ?_, fun c hc => ?_⟩, .refl _⟩
    · rcases List.mem_append.1 hc with hc | hc
      · exact hw.keyed c hc
      · rw [List.mem_singleton.1 hc]
        exact fun u hu => List.all_eq_true.1 hk u hu
    · rcases List.mem_append.1 hc with hc | hc
      · exact hw.sound c hc
      · rw [List.mem_singleton.1 hc]
        trivial
  | readGroup i =>
    simp only [ReportWorld.step] at h
    split at h <;> cases h
    · exact ⟨hw.setCall ‹_› (fun _ h => (List.not_mem_nil _ h).elim) (by trivial), .refl _⟩
    · rename_i u rest hc
      have hu := hw.keyed _ (List.getElem?_mem hc) u (List.mem_cons_self _ _)
      exact ⟨hw.setCall hc (fun _ h => List.mem_cons_of_mem _ h)
        ⟨hu, reportGroupDesc_sound hu _⟩, .refl _⟩
  | readReplica i =>
    simp only [ReportWorld.step] at h
    split at h <;> cases h
    rename_i rest u rg gd hc
    obtain ⟨hu, hs⟩ := hw.sound _ (List.getElem?_mem hc)
    exact ⟨hw.setCall hc (fun _ h => h) ⟨hs, reportReplicaState_sound hu _⟩, .refl _⟩
  | write i =>
    simp only [ReportWorld.step] at h
    split at h <;> cases h
    rename_i rest u rg gd rr rsd hc
    simp only [ReportWorld.casHolds, hc, Bool.and_eq_true, Bool.or_eq_true, beq_iff_eq] at hcas
    have hw' : (w.setCall i rest .next).Inv := hw.setCall hc (fun _ h => h) trivial
    exact ⟨⟨hw'.keyed, hw'.sound⟩, grows_of_write (hw.sound _ (List.getElem?_mem hc)) hcas.1 hcas.2⟩
  | fail i err =>
    simp only [ReportWorld.step] at h
    split at h <;> cases h
    rename_i rest _ _ hc
    exact ⟨hw.setCall hc (fun _ h => h) (by trivial), .refl _⟩

theorem Inv.run (hw : w.Inv) {evs : List ReportEvent} (hk : ∀ ev ∈ evs, ev.wellKeyed = true)
    (hcas : w.casRun evs = true) (h : w.run evs = some w') :
    w'.Inv ∧ w.store.Grows w'.store := by
  induction evs generalizing w with
  | nil =>
    cases h
    exact ⟨hw, .refl _⟩
  | cons ev evs ih =>
    cases hs : w.step ev with
    | none => simp [ReportWorld.run, hs] at h
    | some w₁ =>
      simp only [ReportWorld.casRun, hs, Bool.and_eq_true] at hcas
      simp only [ReportWorld.run, hs, Option.some_bind] at h
      obtain ⟨hw₁, hg₁⟩ := hw.step (hk ev (List.mem_cons_self _ _)) hcas.1 hs
      obtain ⟨hw', hg⟩ := ih hw₁ (fun ev h => hk ev (List.mem_cons_of_mem _ h)) hcas.2 h
      exact ⟨hw', hg₁.trans hg⟩

theorem casRun_append {evs evs' : List ReportEvent} {w₁ : ReportWorld}
    (h : w.run evs = some w₁) : w.casRun (evs ++ evs') = (w.casRun evs && w₁.casRun evs') := by
  induction evs generalizing w with
  | nil =>
    cases h
    simp [ReportWorld.casRun]
  | cons ev evs ih =>
    cases hs : w.step ev with
    | none => simp [ReportWorld.run, hs] at h
    | some w₂ =>
      simp only [ReportWorld.run, hs, Option.some_bind] at h
      rw [List.cons_append]
      simp only [ReportWorld.casRun, hs, ih h, Bool.and_assoc]

def init (store : ReportStore) : ReportWorld := ⟨store, []⟩

theorem Inv.init (store : ReportStore) : (ReportWorld.init store).Inv :=
  ⟨fun _ h => (nomatch h), fun _ h => (nomatch h)⟩

end ReportWorld

/-- Were every write of `report` a compare-and-set on what its call read, no interleaving of
well-keyed reports would lower a stored epoch or term. -/
theorem report_never_lowers_with_cas (store : ReportStore) (evs evs' : List ReportEvent)
    (w w' : ReportWorld) (hk : ∀ ev ∈ evs ++ evs', ev.wellKeyed = true)
    (hcas : (ReportWorld.init store).casRun (evs ++ evs') = true)
    (h : (ReportWorld.init store).run evs = some w) (h' : w.run evs' = some w') :
    w.store.Grows w'.store := by
  rw [ReportWorld.casRun_append h, Bool.and_eq_true] at hcas
  have hw := ((ReportWorld.Inv.init store).run (fun ev he => hk ev (List.mem_append_left _ he))
    hcas.1 h).1
  exact (hw.run (fun ev he => hk ev (List.mem_append_right _ he)) hcas.2 h').2

def groupOneAtEpochOne : ReportStore :=
  ⟨fun id => if id = 1 then some ⟨1, 1⟩ else none,
   fun k => if k = (1, 1) then some ⟨1, 1, 3, 1⟩ else none⟩

def reportEpochThree : GroupUpdates := ⟨1, some ⟨1, 3⟩, some ⟨1, 1, 5, 1⟩⟩

def reportEpochTwo : GroupUpdates := ⟨1, some ⟨1, 2⟩, some ⟨1, 1, 4, 1⟩⟩

def serialReports : List ReportEvent :=
  [.call [reportEpochThree], .readGroup 0, .readReplica 0, .write 0]

theorem report_never_lowers_of_serial :
    (((ReportWorld.init groupOneAtEpochOne).run serialReports).get (by decide)).store.Grows
      (((((ReportWorld.init groupOneAtEpochOne).run serialReports).get (by decide)).run
        [.call [reportEpochTwo], .readGroup 1, .readReplica 1, .write 1]).get (by decide)).store :=
  report_never_lowers_with_cas groupOneAtEpochOne serialReports _ _ _ (by decide) (by decide)
    (Option.some_get _).symm (Option.some_get _).symm

def racingReports : List ReportEvent :=
  [.call [reportEpochThree], .call [reportEpochTwo], .readGroup 0, .readGroup 1,
   .readReplica 0, .readReplica 1, .write 0]

def ReportWorld.epochAndTerm (w : ReportWorld) : Option UInt64 × Option UInt64 :=
  ((w.store.groups 1).map (·.epoch), (w.store.replicaStates (1, 1)).map (·.term))

/-- After the report of epoch 3 has written epoch 3 and term 5, the stale write of the
other report puts epoch 2 and term 4 over them. -/
theorem concurrent_reports_lower_epoch_and_term :
    ((ReportWorld.init groupOneAtEpochOne).run racingReports).map ReportWorld.epochAndTerm =
        some (some 3, some 5) ∧
      ((ReportWorld.init groupOneAtEpochOne).run (racingReports ++ [.write 1])).map
        ReportWorld.epochAndTerm = some (some 2, some 4) := by
  decide

end Sekas.Root
