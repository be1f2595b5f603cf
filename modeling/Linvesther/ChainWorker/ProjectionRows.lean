import Linvesther.Base.Replay
import Linvesther.ChainWorker.PostgresProjectionStore

/-! What the events of one block do to the rows: applied again they change nothing, and deleting
the block's row takes them back when they changed no row of an earlier block. -/

namespace Linvesther.ChainWorker

open Replay

variable {H A B : Type}

/-- A row of one of the three tables. -/
inductive RowKey (B : Type) where
  | identity (id : B) | track (id : B) | account (id : B)
deriving DecidableEq

/-- The row an event inserts, unless it is there already. -/
def DomainEvent.creates : DomainEvent A B → Option (RowKey B)
  | .identityCreated identityId _ _ _ => some (.identity identityId)
  | .trackCreated _ trackId _ _ => some (.track trackId)
  | .accountRegistered _ accountId _ _ _ => some (.account accountId)
  | _ => none

/-- The row an event changes. -/
def DomainEvent.updates : DomainEvent A B → Option (RowKey B)
  | .ownerRotationProposed identityId _ _ _ => some (.identity identityId)
  | .ownerRotated identityId _ _ _ => some (.identity identityId)
  | .accountActivated _ accountId _ _ => some (.account accountId)
  | .accountRemoved _ accountId _ _ => some (.account accountId)
  | _ => none

def Projection.createdAt (p : Projection A B) : RowKey B → Option ℕ
  | .identity id => (p.identities id).map (·.createdAtBlock)
  | .track id => (p.tracks id).map (·.createdAtBlock)
  | .account id => (p.accounts id).map (·.createdAtBlock)

/-- Within a block a row is created once, and before it is changed. -/
def WellOrdered (events : List (DomainEvent A B)) : Prop :=
  events.Pairwise fun e e' => ∀ key ∈ e'.creates, e.creates ≠ some key ∧ e.updates ≠ some key

/-- The events change no row that was created at another block. -/
def OwnRows (events : List (DomainEvent A B)) (number : ℕ) (p : Projection A B) : Prop :=
  ∀ e ∈ events, ∀ key ∈ e.updates, ∀ n ∈ p.createdAt key, n = number

section Events

variable [DecidableEq B]

def applyEvents (events : List (DomainEvent A B)) (number : ℕ) (p : Projection A B) :
    Except Error (Projection A B) :=
  events.foldlM (fun p event => applyEvent event number p) p

end Events

section RowOps

/-- What an event at a block may do to a row: keep it or change it in place, or add it. -/
structure RowOp {R : Type} (createdAt : R → ℕ) (number : ℕ) (op : Option R → Option R) : Prop where
  keeps : ∀ r, ∃ r', op (some r) = some r' ∧ createdAt r' = createdAt r
  adds : ∀ r, op none = some r → createdAt r = number

theorem RowOp.replay {R : Type} {createdAt : R → ℕ} {number : ℕ}
    {ops : List (Option R → Option R)} (h : ∀ op ∈ ops, RowOp createdAt number op) :
    RowOp createdAt number (replay ops) := by
  induction ops using List.reverseRecOn with
  | nil => exact ⟨fun r => ⟨r, rfl, rfl⟩, fun r hr => by cases hr⟩
  | append_singleton ops op ih =>
    have hops := ih fun op hop => h op (by simp [hop])
    have hop := h op (by simp)
    constructor
    · intro r
      obtain ⟨r₁, h₁, hc₁⟩ := hops.keeps r
      obtain ⟨r₂, h₂, hc₂⟩ := hop.keeps r₁
      exact ⟨r₂, by rw [replay_append, h₁]; exact h₂, by rw [hc₂, hc₁]⟩
    · intro r hr
      rw [replay_append] at hr
      change op (Replay.replay ops none) = some r at hr
      cases hn : Replay.replay ops none with
      | none => exact hop.adds r (by rw [← hn, hr])
      | some r₁ =>
        obtain ⟨r₂, h₂, hc₂⟩ := hop.keeps r₁
        rw [hn, h₂] at hr
        cases hr
        rw [hc₂]
        exact hops.adds r₁ hn

section

variable {R : Type} {createdAt : R → ℕ} {number : ℕ}

theorem RowOp.id : RowOp createdAt number fun row => row :=
  ⟨fun r => ⟨r, rfl, rfl⟩, fun r hr => by cases hr⟩

theorem RowOp.insert {r₀ : R} (h : createdAt r₀ = number) :
    RowOp createdAt number fun row => some (row.getD r₀) :=
  ⟨fun r => ⟨r, rfl, rfl⟩, fun r hr => by cases hr; exact h⟩

theorem RowOp.update {f : R → R} (h : ∀ r, createdAt (f r) = createdAt r) :
    RowOp createdAt number fun row => row.map f :=
  ⟨fun r => ⟨f r, rfl, h r⟩, fun r hr => by cases hr⟩

theorem RowOp.ite (c : Prop) [Decidable c] {op : Option R → Option R}
    (h : RowOp createdAt number op) : RowOp createdAt number fun row => if c then op row else row := by
  split_ifs
  · exact h
  · exact .id

end

variable [DecidableEq B]

/-- What an event does to the identity row `key`. -/
def identityOp (number : ℕ) (key : B) :
    DomainEvent A B → Option (IdentityRow A) → Option (IdentityRow A)
  | .identityCreated identityId owner _ _, row =>
    if identityId = key then
      some (row.getD { owner, pendingOwner := none, ownerEpoch := 0, state := .pendingConfirmation,
                       createdAtBlock := number })
    else row
  | .ownerRotationProposed identityId _ pendingOwner _, row =>
    if identityId = key then row.map fun row => { row with pendingOwner := some pendingOwner }
    else row
  | .ownerRotated identityId _ newOwner newOwnerEpoch, row =>
    if identityId = key then
      row.map fun row => { row with
        owner := newOwner, pendingOwner := none, ownerEpoch := newOwnerEpoch, state := .active }
    else row
  | _, row => row

def trackOp (number : ℕ) (key : B) : DomainEvent A B → Option (TrackRow B) → Option (TrackRow B)
  | .trackCreated identityId trackId financialProfileId denominationCommitment, row =>
    if trackId = key then
      some (row.getD { identityId, financialProfileId, denominationCommitment,
                       createdAtBlock := number })
    else row
  | _, row => row

def accountOp (number : ℕ) (key : B) :
    DomainEvent A B → Option (AccountRow B) → Option (AccountRow B)
  | .accountRegistered trackId accountId venueId _ _, row =>
    if accountId = key then
      some (row.getD { trackId, venueId, state := .pendingBaseline, createdAtBlock := number })
    else row
  | .accountActivated _ accountId _ _, row =>
    if accountId = key then row.map fun row => { row with state := .active } else row
  | .accountRemoved _ accountId _ _, row =>
    if accountId = key then row.map fun row => { row with state := .removed } else row
  | _, row => row

theorem insertRow_apply {R : Type} (table : B → Option R) (id : B) (row : R) (key : B) :
    insertRow table id row key = if id = key then some ((table key).getD row) else table key := by
  rw [insertRow, Function.update_apply]
  split_ifs with h h' h'
  · rw [h]
  · exact absurd h.symm h'
  · exact absurd h'.symm h
  · rfl

theorem updateRow_apply {R : Type} (table : B → Option R) (id : B) (f : R → R) (key : B) :
    updateRow table id f key = if id = key then (table key).map f else table key := by
  rw [updateRow, Function.update_apply]
  split_ifs with h h' h'
  · rw [h]
  · exact absurd h.symm h'
  · exact absurd h'.symm h
  · rfl

/-- One event acts on each row by itself. -/
theorem applyEvent_rows {event : DomainEvent A B} {number : ℕ} {p p' : Projection A B}
    (h : applyEvent event number p = .ok p') :
    (∀ key, p'.identities key = identityOp number key event (p.identities key)) ∧
    (∀ key, p'.tracks key = trackOp number key event (p.tracks key)) ∧
    (∀ key, p'.accounts key = accountOp number key event (p.accounts key)) := by
  cases event with
  | identityCreated =>
    cases h
    exact ⟨insertRow_apply _ _ _, fun _ => rfl, fun _ => rfl⟩
  | trackCreated =>
    simp only [applyEvent] at h
    split_ifs at h
    cases h
    exact ⟨fun _ => rfl, insertRow_apply _ _ _, fun _ => rfl⟩
  | ownerRotationProposed =>
    cases h
    exact ⟨updateRow_apply _ _ _, fun _ => rfl, fun _ => rfl⟩
  | ownerRotated =>
    simp only [applyEvent, bigint] at h
    split_ifs at h
    · cases h
      exact ⟨updateRow_apply _ _ _, fun _ => rfl, fun _ => rfl⟩
    · cases h
  | accountRegistered =>
    simp only [applyEvent] at h
    split_ifs at h
    cases h
    exact ⟨fun _ => rfl, fun _ => rfl, insertRow_apply _ _ _⟩
  | accountActivated =>
    cases h
    exact ⟨fun _ => rfl, fun _ => rfl, updateRow_apply _ _ _⟩
  | accountRemoved =>
    cases h
    exact ⟨fun _ => rfl, fun _ => rfl, updateRow_apply _ _ _⟩

theorem applyEvents_rows {events : List (DomainEvent A B)} {number : ℕ} {p p' : Projection A B}
    (h : applyEvents events number p = .ok p') :
    (∀ key, p'.identities key = replay (events.map (identityOp number key)) (p.identities key)) ∧
    (∀ key, p'.tracks key = replay (events.map (trackOp number key)) (p.tracks key)) ∧
    (∀ key, p'.accounts key = replay (events.map (accountOp number key)) (p.accounts key)) := by
  induction events generalizing p with
  | nil =>
    cases h
    exact ⟨fun _ => rfl, fun _ => rfl, fun _ => rfl⟩
  | cons event events ih =>
    rw [applyEvents, List.foldlM_cons, Transaction.bind_ok] at h
    obtain ⟨p₁, h₁, h⟩ := h
    obtain ⟨hi, ht, ha⟩ := applyEvent_rows h₁
    obtain ⟨hi', ht', ha'⟩ := ih h
    exact ⟨fun key => by rw [hi', hi]; rfl, fun key => by rw [ht', ht]; rfl,
      fun key => by rw [ha', ha]; rfl⟩

theorem identityOp_rowOp (number : ℕ) (key : B) (event : DomainEvent A B) :
    RowOp (·.createdAtBlock) number (identityOp number key event) := by
  cases event with
  | identityCreated => exact .ite _ (.insert rfl)
  | ownerRotationProposed => exact .ite _ (.update fun _ => rfl)
  | ownerRotated => exact .ite _ (.update fun _ => rfl)
  | _ => exact .id

theorem trackOp_rowOp (number : ℕ) (key : B) (event : DomainEvent A B) :
    RowOp (·.createdAtBlock) number (trackOp number key event) := by
  cases event with
  | trackCreated => exact .ite _ (.insert rfl)
  | _ => exact .id

theorem accountOp_rowOp (number : ℕ) (key : B) (event : DomainEvent A B) :
    RowOp (·.createdAtBlock) number (accountOp number key event) := by
  cases event with
  | accountRegistered => exact .ite _ (.insert rfl)
  | accountActivated => exact .ite _ (.update fun _ => rfl)
  | accountRemoved => exact .ite _ (.update fun _ => rfl)
  | _ => exact .id

/-- An event about other rows leaves a row alone. -/
theorem identityOp_other {number : ℕ} {key : B} {event : DomainEvent A B}
    (hcreates : event.creates ≠ some (.identity key))
    (hupdates : event.updates ≠ some (.identity key)) (row : Option (IdentityRow A)) :
    identityOp number key event row = row := by
  cases event with
  | identityCreated => simp_all [identityOp, DomainEvent.creates]
  | ownerRotationProposed => simp_all [identityOp, DomainEvent.updates]
  | ownerRotated => simp_all [identityOp, DomainEvent.updates]
  | _ => rfl

theorem accountOp_other {number : ℕ} {key : B} {event : DomainEvent A B}
    (hcreates : event.creates ≠ some (.account key))
    (hupdates : event.updates ≠ some (.account key)) (row : Option (AccountRow B)) :
    accountOp number key event row = row := by
  cases event with
  | accountRegistered => simp_all [accountOp, DomainEvent.creates]
  | accountActivated => simp_all [accountOp, DomainEvent.updates]
  | accountRemoved => simp_all [accountOp, DomainEvent.updates]
  | _ => rfl

theorem identityOp_idem (number : ℕ) (key : B) (event : DomainEvent A B)
    (row : Option (IdentityRow A)) :
    identityOp number key event (identityOp number key event row) =
      identityOp number key event row := by
  cases event with
  | identityCreated => simp only [identityOp]; split_ifs <;> rfl
  | ownerRotationProposed => simp only [identityOp]; split_ifs <;> cases row <;> rfl
  | ownerRotated => simp only [identityOp]; split_ifs <;> cases row <;> rfl
  | _ => rfl

/-- An event under an update, on rows that the update makes alike. -/
theorem map_over {R : Type} {f : R → R} (op : Option R → Option R) {r r' : Option R} (hr : r.map f = r'.map f)
    (hop : ∀ x y, f x = f y → (op (some x)).map f = (op (some y)).map f) : (op r).map f = (op r').map f := by
  cases r with
  | none =>
    cases r' with
    | none => rfl
    | some y => cases hr
  | some x =>
    cases r' with
    | none => cases hr
    | some y => exact hop x y (Option.some.inj hr)

theorem identityOp_over {number : ℕ} {key : B} {e e' : DomainEvent A B}
    (h : ∀ key ∈ e'.creates, e.creates ≠ some key ∧ e.updates ≠ some key)
    {r r' : Option (IdentityRow A)}
    (hr : identityOp number key e' r = identityOp number key e' r') :
    identityOp number key e' (identityOp number key e r) =
      identityOp number key e' (identityOp number key e r') := by
  cases e' with
  | identityCreated identityId =>
    by_cases hkey : identityId = key
    · obtain ⟨hcreates, hupdates⟩ := h (.identity key) (by simp [DomainEvent.creates, hkey])
      rw [identityOp_other hcreates hupdates, identityOp_other hcreates hupdates, hr]
    · simp only [identityOp, hkey, ite_false] at hr
      rw [hr]
  | ownerRotationProposed identityId =>
    by_cases hkey : identityId = key
    · rw [identityOp, identityOp, if_pos hkey, if_pos hkey] at hr ⊢
      refine map_over (identityOp number key e) hr fun x y hxy => ?_
      simp only [IdentityRow.mk.injEq] at hxy
      cases e with
      | ownerRotationProposed => simp only [identityOp]; split_ifs <;> simp [hxy]
      | ownerRotated => simp only [identityOp]; split_ifs <;> simp [hxy]
      | _ => simp [identityOp, hxy]
    · simp only [identityOp, hkey, ite_false] at hr
      rw [hr]
  | ownerRotated identityId =>
    by_cases hkey : identityId = key
    · rw [identityOp, identityOp, if_pos hkey, if_pos hkey] at hr ⊢
      refine map_over (identityOp number key e) hr fun x y hxy => ?_
      simp only [IdentityRow.mk.injEq] at hxy
      cases e with
      | ownerRotationProposed => simp only [identityOp]; split_ifs <;> simp [hxy]
      | ownerRotated => simp only [identityOp]; split_ifs <;> simp [hxy]
      | _ => simp [identityOp, hxy]
    · simp only [identityOp, hkey, ite_false] at hr
      rw [hr]
  | _ => rw [show r = r' from hr]

theorem trackOp_other {number : ℕ} {key : B} {event : DomainEvent A B}
    (hcreates : event.creates ≠ some (.track key)) (row : Option (TrackRow B)) :
    trackOp number key event row = row := by
  cases event with
  | trackCreated => simp_all [trackOp, DomainEvent.creates]
  | _ => rfl

theorem trackOp_idem (number : ℕ) (key : B) (event : DomainEvent A B)
    (row : Option (TrackRow B)) :
    trackOp number key event (trackOp number key event row) = trackOp number key event row := by
  cases event with
  | trackCreated => simp only [trackOp]; split_ifs <;> rfl
  | _ => rfl

theorem trackOp_over {number : ℕ} {key : B} {e e' : DomainEvent A B}
    (h : ∀ key ∈ e'.creates, e.creates ≠ some key ∧ e.updates ≠ some key)
    {r r' : Option (TrackRow B)} (hr : trackOp number key e' r = trackOp number key e' r') :
    trackOp number key e' (trackOp number key e r) =
      trackOp number key e' (trackOp number key e r') := by
  cases e' with
  | trackCreated _ trackId =>
    by_cases hkey : trackId = key
    · obtain ⟨hcreates, -⟩ := h (.track key) (by simp [DomainEvent.creates, hkey])
      rw [trackOp_other hcreates, trackOp_other hcreates, hr]
    · simp only [trackOp, hkey, ite_false] at hr
      rw [hr]
  | _ => rw [show r = r' from hr]

theorem accountOp_idem (number : ℕ) (key : B) (event : DomainEvent A B)
    (row : Option (AccountRow B)) :
    accountOp number key event (accountOp number key event row) =
      accountOp number key event row := by
  cases event with
  | accountRegistered => simp only [accountOp]; split_ifs <;> rfl
  | accountActivated => simp only [accountOp]; split_ifs <;> cases row <;> rfl
  | accountRemoved => simp only [accountOp]; split_ifs <;> cases row <;> rfl
  | _ => rfl

theorem accountOp_over {number : ℕ} {key : B} {e e' : DomainEvent A B}
    (h : ∀ key ∈ e'.creates, e.creates ≠ some key ∧ e.updates ≠ some key)
    {r r' : Option (AccountRow B)} (hr : accountOp number key e' r = accountOp number key e' r') :
    accountOp number key e' (accountOp number key e r) =
      accountOp number key e' (accountOp number key e r') := by
  cases e' with
  | accountRegistered _ accountId =>
    by_cases hkey : accountId = key
    · obtain ⟨hcreates, hupdates⟩ := h (.account key) (by simp [DomainEvent.creates, hkey])
      rw [accountOp_other hcreates hupdates, accountOp_other hcreates hupdates, hr]
    · simp only [accountOp, hkey, ite_false] at hr
      rw [hr]
  | accountActivated _ accountId =>
    by_cases hkey : accountId = key
    · rw [accountOp, accountOp, if_pos hkey, if_pos hkey] at hr ⊢
      refine map_over (accountOp number key e) hr fun x y hxy => ?_
      simp only [AccountRow.mk.injEq] at hxy
      cases e with
      | accountActivated => simp only [accountOp]; split_ifs <;> simp [hxy]
      | accountRemoved => simp only [accountOp]; split_ifs <;> simp [hxy]
      | _ => simp [accountOp, hxy]
    · simp only [accountOp, hkey, ite_false] at hr
      rw [hr]
  | accountRemoved _ accountId =>
    by_cases hkey : accountId = key
    · rw [accountOp, accountOp, if_pos hkey, if_pos hkey] at hr ⊢
      refine map_over (accountOp number key e) hr fun x y hxy => ?_
      simp only [AccountRow.mk.injEq] at hxy
      cases e with
      | accountActivated => simp only [accountOp]; split_ifs <;> simp [hxy]
      | accountRemoved => simp only [accountOp]; split_ifs <;> simp [hxy]
      | _ => simp [accountOp, hxy]
    · simp only [accountOp, hkey, ite_false] at hr
      rw [hr]
  | _ => rw [show r = r' from hr]

end RowOps

section Blocks

variable [DecidableEq B] {events : List (DomainEvent A B)} {number : ℕ} {p p' p'' : Projection A B}

omit [DecidableEq B] in
theorem Projection.ext_rows (hi : ∀ key, p.identities key = p'.identities key)
    (ht : ∀ key, p.tracks key = p'.tracks key) (ha : ∀ key, p.accounts key = p'.accounts key) :
    p = p' := by
  obtain ⟨_, _, _⟩ := p
  obtain ⟨_, _, _⟩ := p'
  simp only [Projection.mk.injEq]
  exact ⟨funext hi, funext ht, funext ha⟩

theorem applyEvents_append {events' : List (DomainEvent A B)} :
    applyEvents (events ++ events') number p = .ok p'' ↔
      ∃ p', applyEvents events number p = .ok p' ∧ applyEvents events' number p' = .ok p'' := by
  rw [applyEvents, List.foldlM_append, Transaction.bind_ok]
  rfl

/-- What an event asks of the rows there are: the foreign keys, and the range of a `BIGINT`. -/
def DomainEvent.Admitted (createdAt : RowKey B → Option ℕ) : DomainEvent A B → Prop
  | .trackCreated identityId trackId _ _ =>
    ¬ (createdAt (.track trackId) = none ∧ createdAt (.identity identityId) = none)
  | .accountRegistered trackId accountId _ _ _ =>
    ¬ (createdAt (.account accountId) = none ∧ createdAt (.track trackId) = none)
  | .ownerRotated _ _ _ newOwnerEpoch => newOwnerEpoch < 2 ^ 63
  | _ => True

theorem applyEvent_admitted {event : DomainEvent A B} :
    (∃ p', applyEvent event number p = .ok p') ↔ event.Admitted p.createdAt := by
  cases event with
  | trackCreated =>
    simp only [applyEvent, DomainEvent.Admitted, Projection.createdAt, Option.map_eq_none_iff]
    split_ifs with hmissing <;> simp [hmissing]
  | accountRegistered =>
    simp only [applyEvent, DomainEvent.Admitted, Projection.createdAt, Option.map_eq_none_iff]
    split_ifs with hmissing <;> simp [hmissing]
  | ownerRotated =>
    simp only [applyEvent, DomainEvent.Admitted, bigint]
    split_ifs with hrange
    · exact iff_of_true ⟨_, rfl⟩ hrange
    · exact iff_of_false (fun ⟨_, h⟩ => nomatch h) hrange
  | _ => simp [applyEvent, DomainEvent.Admitted]

theorem identityOp_createdAt (event : DomainEvent A B) (key : B) (row : Option (IdentityRow A)) :
    (identityOp number key event row).map (·.createdAtBlock) =
      if event.creates = some (.identity key) then
        some ((row.map (·.createdAtBlock)).getD number)
      else row.map (·.createdAtBlock) := by
  cases event with
  | identityCreated =>
    simp only [identityOp, DomainEvent.creates, Option.some_inj, RowKey.identity.injEq]
    split_ifs <;> cases row <;> rfl
  | ownerRotationProposed =>
    simp only [identityOp, DomainEvent.creates, reduceCtorEq, if_false]
    split_ifs <;> cases row <;> rfl
  | ownerRotated =>
    simp only [identityOp, DomainEvent.creates, reduceCtorEq, if_false]
    split_ifs <;> cases row <;> rfl
  | _ => rfl

theorem trackOp_createdAt (event : DomainEvent A B) (key : B) (row : Option (TrackRow B)) :
    (trackOp number key event row).map (·.createdAtBlock) =
      if event.creates = some (.track key) then some ((row.map (·.createdAtBlock)).getD number)
      else row.map (·.createdAtBlock) := by
  cases event with
  | trackCreated =>
    simp only [trackOp, DomainEvent.creates, Option.some_inj, RowKey.track.injEq]
    split_ifs <;> cases row <;> rfl
  | _ => rfl

theorem accountOp_createdAt (event : DomainEvent A B) (key : B) (row : Option (AccountRow B)) :
    (accountOp number key event row).map (·.createdAtBlock) =
      if event.creates = some (.account key) then some ((row.map (·.createdAtBlock)).getD number)
      else row.map (·.createdAtBlock) := by
  cases event with
  | accountRegistered =>
    simp only [accountOp, DomainEvent.creates, Option.some_inj, RowKey.account.injEq]
    split_ifs <;> cases row <;> rfl
  | accountActivated =>
    simp only [accountOp, DomainEvent.creates, reduceCtorEq, if_false]
    split_ifs <;> cases row <;> rfl
  | accountRemoved =>
    simp only [accountOp, DomainEvent.creates, reduceCtorEq, if_false]
    split_ifs <;> cases row <;> rfl
  | _ => rfl

/-- An event changes no creation number, it only adds the one of the row it creates. -/
theorem applyEvent_createdAt {event : DomainEvent A B} (h : applyEvent event number p = .ok p')
    (key : RowKey B) : p'.createdAt key =
      if event.creates = some key then some ((p.createdAt key).getD number)
      else p.createdAt key := by
  obtain ⟨hi, ht, ha⟩ := applyEvent_rows h
  cases key with
  | identity id => rw [Projection.createdAt, hi, identityOp_createdAt]; rfl
  | track id => rw [Projection.createdAt, ht, trackOp_createdAt]; rfl
  | account id => rw [Projection.createdAt, ha, accountOp_createdAt]; rfl

/-- Whether events go through depends on which rows are there, not on what is in them. -/
theorem applyEvents_congr {q : Projection A B} (hpq : p.createdAt = q.createdAt)
    (h : applyEvents events number p = .ok p') :
    ∃ q', applyEvents events number q = .ok q' ∧ p'.createdAt = q'.createdAt := by
  induction events generalizing p q with
  | nil =>
    cases h
    exact ⟨q, rfl, hpq⟩
  | cons event events ih =>
    rw [applyEvents, List.foldlM_cons, Transaction.bind_ok] at h
    obtain ⟨p₁, h₁, h⟩ := h
    obtain ⟨q₁, hq₁⟩ := applyEvent_admitted.2 (hpq ▸ applyEvent_admitted.1 ⟨p₁, h₁⟩)
    have hcreated : p₁.createdAt = q₁.createdAt := funext fun key => by
      rw [applyEvent_createdAt h₁, applyEvent_createdAt hq₁, hpq]
    obtain ⟨q', hq', hc⟩ := ih hcreated h
    refine ⟨q', ?_, hc⟩
    rw [applyEvents, List.foldlM_cons, Transaction.bind_ok]
    exact ⟨q₁, hq₁, hq'⟩

/-- Events whose rows are there already add none. -/
theorem applyEvents_createdAt
    (hthere : ∀ e ∈ events, ∀ key ∈ e.creates, (p.createdAt key).isSome)
    (h : applyEvents events number p = .ok p') : p'.createdAt = p.createdAt := by
  induction events generalizing p with
  | nil => cases h; rfl
  | cons event events ih =>
    rw [applyEvents, List.foldlM_cons, Transaction.bind_ok] at h
    obtain ⟨p₁, h₁, h⟩ := h
    have hsame : p₁.createdAt = p.createdAt := funext fun key => by
      rw [applyEvent_createdAt h₁]
      split_ifs with hcreates
      · obtain ⟨n, hn⟩ := Option.isSome_iff_exists.1 (hthere event (by simp) key hcreates)
        rw [hn, Option.getD_some]
      · rfl
    rw [ih (fun e he => by rw [hsame]; exact hthere e (by simp [he])) h, hsame]

theorem applyEvents_creates (h : applyEvents events number p = .ok p') :
    (∀ key, (p.createdAt key).isSome → (p'.createdAt key).isSome) ∧
      ∀ e ∈ events, ∀ key ∈ e.creates, (p'.createdAt key).isSome := by
  induction events generalizing p with
  | nil => cases h; exact ⟨fun _ h => h, by simp⟩
  | cons event events ih =>
    rw [applyEvents, List.foldlM_cons, Transaction.bind_ok] at h
    obtain ⟨p₁, h₁, h⟩ := h
    obtain ⟨hkept, hthere⟩ := ih h
    refine ⟨fun key hkey => hkept key ?_, ?_⟩
    · rw [applyEvent_createdAt h₁]
      split_ifs
      · rfl
      · exact hkey
    · intro e he key hcreates
      rcases List.mem_cons.1 he with rfl | he
      · refine hkept key ?_
        rw [applyEvent_createdAt h₁, if_pos (Option.mem_def.1 hcreates)]
        rfl
      · exact hthere e he key hcreates

/-- Beginning again where the rows of a first part are there already does the first part once. -/
theorem applyEvents_resume {q : Projection A B} {events' : List (DomainEvent A B)}
    (hq : applyEvents events number p = .ok q) (hc : p'.createdAt = q.createdAt)
    (h : applyEvents (events ++ events') number p' = .ok p'') :
    ∃ q', applyEvents (events ++ events') number p = .ok q' ∧ p''.createdAt = q'.createdAt := by
  obtain ⟨p₁, h₁, h'⟩ := applyEvents_append.1 h
  have hsame : p₁.createdAt = q.createdAt := by
    rw [applyEvents_createdAt (fun e he key hkey => ?_) h₁, hc]
    rw [hc]
    exact (applyEvents_creates hq).2 e he key hkey
  obtain ⟨q', hq', hc'⟩ := applyEvents_congr hsame h'
  exact ⟨q', applyEvents_append.2 ⟨q, hq, hq'⟩, hc'⟩

/-- The states that attempts at the events of a block lead to, each begun at the first event and
broken off anywhere. -/
inductive Attempts (events : List (DomainEvent A B)) (number : ℕ) (p : Projection A B) :
    Projection A B → Prop where
  | none : Attempts events number p p
  | again {p' p'' : Projection A B} {pre : List (DomainEvent A B)} :
    Attempts events number p p' → pre <+: events → applyEvents pre number p' = .ok p'' →
      Attempts events number p p''

/-- The rows that are there after some attempts are those of the longest one. -/
theorem Attempts.reached (h : Attempts events number p p') :
    ∃ pre q, pre <+: events ∧ applyEvents pre number p = .ok q ∧ p'.createdAt = q.createdAt := by
  induction h with
  | none => exact ⟨[], p, List.nil_prefix, rfl, rfl⟩
  | @again p' p'' pre' _ hpre' h' ih =>
    obtain ⟨pre, q, hpre, hq, hc⟩ := ih
    rcases List.prefix_or_prefix_of_prefix hpre' hpre with ⟨rest, rfl⟩ | ⟨rest, rfl⟩
    · refine ⟨pre' ++ rest, q, hpre, hq, ?_⟩
      rw [applyEvents_createdAt (fun e he key hkey => ?_) h', hc]
      rw [hc]
      exact (applyEvents_creates hq).2 e (by simp [he]) key hkey
    · obtain ⟨q', hq', hc'⟩ := applyEvents_resume hq hc h'
      exact ⟨pre ++ rest, q', hpre', hq', hc'⟩

/-- The events of a block wipe out what attempts at them did. -/
theorem Attempts.rows (hordered : WellOrdered events) (h : Attempts events number p p') :
    (∀ key, replay (events.map (identityOp number key)) (p'.identities key) =
      replay (events.map (identityOp number key)) (p.identities key)) ∧
    (∀ key, replay (events.map (trackOp number key)) (p'.tracks key) =
      replay (events.map (trackOp number key)) (p.tracks key)) ∧
    (∀ key, replay (events.map (accountOp number key)) (p'.accounts key) =
      replay (events.map (accountOp number key)) (p.accounts key)) := by
  induction h with
  | none => exact ⟨fun _ => rfl, fun _ => rfl, fun _ => rfl⟩
  | again _ hpre happly ih =>
    obtain ⟨hi, ht, ha⟩ := applyEvents_rows happly
    refine ⟨fun key => ?_, fun key => ?_, fun key => ?_⟩
    · rw [hi, replay_prefix (hpre.map _), ih.1]
      · simpa using fun e _ => identityOp_idem number key e
      · exact List.pairwise_map.2 (hordered.imp fun hee s t => identityOp_over hee)
    · rw [ht, replay_prefix (hpre.map _), ih.2.1]
      · simpa using fun e _ => trackOp_idem number key e
      · exact List.pairwise_map.2 (hordered.imp fun hee s t => trackOp_over hee)
    · rw [ha, replay_prefix (hpre.map _), ih.2.2]
      · simpa using fun e _ => accountOp_idem number key e
      · exact List.pairwise_map.2 (hordered.imp fun hee s t => accountOp_over hee)

/-- Once an attempt gets to the end the block has been applied, as if at the first attempt. -/
theorem Attempts.finish (hordered : WellOrdered events) (h : Attempts events number p p')
    (happly : applyEvents events number p' = .ok p'') : applyEvents events number p = .ok p'' := by
  obtain ⟨pre, q₀, ⟨rest, rfl⟩, hq₀, hc⟩ := h.reached
  obtain ⟨q, hq, -⟩ := applyEvents_resume hq₀ hc happly
  obtain ⟨hi, ht, ha⟩ := applyEvents_rows hq
  obtain ⟨hi', ht', ha'⟩ := applyEvents_rows happly
  obtain ⟨hri, hrt, hra⟩ := h.rows hordered
  rw [hq, Except.ok.injEq]
  exact Projection.ext_rows (fun key => by rw [hi, hi', hri]) (fun key => by rw [ht, ht', hrt])
    fun key => by rw [ha, ha', hra]

theorem Attempts.sequence (h : Attempts events number p p') :
    ∃ events', (∀ e ∈ events', e ∈ events) ∧ applyEvents events' number p = .ok p' := by
  induction h with
  | none => exact ⟨[], by simp, rfl⟩
  | again _ hpre happly ih =>
    obtain ⟨events', hmem, h'⟩ := ih
    refine ⟨_ ++ _, fun e he => ?_, applyEvents_append.2 ⟨_, h', happly⟩⟩
    rcases List.mem_append.1 he with he | he
    · exact hmem e he
    · exact hpre.subset he

/-- Every row was created at a block below the bound, and what it refers to is there. -/
structure Projection.Founded (p : Projection A B) (bound : ℕ) : Prop where
  identities : ∀ id, ∀ row ∈ p.identities id, row.createdAtBlock < bound
  tracks : ∀ id, ∀ row ∈ p.tracks id,
    row.createdAtBlock < bound ∧ (p.identities row.identityId).isSome
  accounts : ∀ id, ∀ row ∈ p.accounts id,
    row.createdAtBlock < bound ∧ (p.tracks row.trackId).isSome

omit [DecidableEq B] in
theorem Projection.empty_founded (bound : ℕ) : (Projection.empty : Projection A B).Founded bound := by
  constructor <;> simp [Projection.empty]

omit [DecidableEq B] in
theorem RowOp.lt {R : Type} {createdAt : R → ℕ} {op : Option R → Option R}
    (hop : RowOp createdAt number op) {bound : ℕ} (hnumber : number < bound) {row : Option R}
    (h : ∀ r ∈ row, createdAt r < bound) : ∀ r ∈ op row, createdAt r < bound := by
  intro r hr
  cases row with
  | none => rw [hop.adds r hr]; exact hnumber
  | some r₀ =>
    obtain ⟨r₁, h₁, hc⟩ := hop.keeps r₀
    rw [h₁, Option.mem_some_iff] at hr
    rw [← hr, hc]
    exact h r₀ rfl

omit [DecidableEq B] in
theorem RowOp.isSome {R : Type} {createdAt : R → ℕ} {op : Option R → Option R}
    (hop : RowOp createdAt number op) {row : Option R} (h : row.isSome) : (op row).isSome := by
  obtain ⟨r, rfl⟩ := Option.isSome_iff_exists.1 h
  obtain ⟨r', h', -⟩ := hop.keeps r
  rw [h']
  rfl

/-- The foreign keys: a row that is new or changed refers to a row that was there before. -/
theorem applyEvent_refers {event : DomainEvent A B} (h : applyEvent event number p = .ok p') :
    (∀ id, ∀ row ∈ p'.tracks id, row ∈ p.tracks id ∨ (p.identities row.identityId).isSome) ∧
    (∀ id, ∀ row ∈ p'.accounts id, (∃ row₀ ∈ p.accounts id, row.trackId = row₀.trackId) ∨
      (p.tracks row.trackId).isSome) := by
  obtain ⟨-, htracks, haccounts⟩ := applyEvent_rows h
  constructor
  · intro id row hrow
    rw [htracks] at hrow
    cases event with
    | trackCreated identityId trackId =>
      simp only [applyEvent] at h
      split_ifs at h with hmissing
      simp only [trackOp] at hrow
      split_ifs at hrow with hid
      · subst hid
        cases hold : p.tracks trackId with
        | some r => rw [hold] at hrow; exact .inl hrow
        | none =>
          rw [hold] at hrow
          cases hrow
          refine .inr (Option.isSome_iff_ne_none.2 fun hnone => hmissing ⟨hold, hnone⟩)
      · exact .inl hrow
    | _ => exact .inl hrow
  · intro id row hrow
    rw [haccounts] at hrow
    cases event with
    | accountRegistered trackId accountId =>
      simp only [applyEvent] at h
      split_ifs at h with hmissing
      simp only [accountOp] at hrow
      split_ifs at hrow with hid
      · subst hid
        cases hold : p.accounts accountId with
        | some r => rw [hold] at hrow; exact .inl ⟨row, hrow, rfl⟩
        | none =>
          rw [hold] at hrow
          cases hrow
          refine .inr (Option.isSome_iff_ne_none.2 fun hnone => hmissing ⟨hold, hnone⟩)
      · exact .inl ⟨row, hrow, rfl⟩
    | accountActivated _ accountId =>
      simp only [accountOp] at hrow
      split_ifs at hrow
      · obtain ⟨r, hr, rfl⟩ := Option.map_eq_some_iff.1 hrow
        exact .inl ⟨r, hr, rfl⟩
      · exact .inl ⟨row, hrow, rfl⟩
    | accountRemoved _ accountId =>
      simp only [accountOp] at hrow
      split_ifs at hrow
      · obtain ⟨r, hr, rfl⟩ := Option.map_eq_some_iff.1 hrow
        exact .inl ⟨r, hr, rfl⟩
      · exact .inl ⟨row, hrow, rfl⟩
    | _ => exact .inl ⟨row, hrow, rfl⟩

theorem applyEvent_founded {event : DomainEvent A B} {bound : ℕ} (hp : p.Founded bound)
    (hnumber : number < bound) (h : applyEvent event number p = .ok p') : p'.Founded bound := by
  obtain ⟨hi, ht, ha⟩ := applyEvent_rows h
  obtain ⟨hrefersT, hrefersA⟩ := applyEvent_refers h
  have hkeepsI : ∀ id, (p.identities id).isSome → (p'.identities id).isSome := fun id hid => by
    rw [hi]; exact (identityOp_rowOp number id event).isSome hid
  have hkeepsT : ∀ id, (p.tracks id).isSome → (p'.tracks id).isSome := fun id hid => by
    rw [ht]; exact (trackOp_rowOp number id event).isSome hid
  constructor
  · intro id row hrow
    rw [hi] at hrow
    exact (identityOp_rowOp number id event).lt hnumber (hp.identities id) row hrow
  · intro id row hrow
    refine ⟨?_, hkeepsI _ ?_⟩
    · rw [ht] at hrow
      exact (trackOp_rowOp number id event).lt hnumber (fun r hr => (hp.tracks id r hr).1) row hrow
    · rcases hrefersT id row hrow with hold | hsome
      · exact (hp.tracks id row hold).2
      · exact hsome
  · intro id row hrow
    refine ⟨?_, hkeepsT _ ?_⟩
    · rw [ha] at hrow
      exact (accountOp_rowOp number id event).lt hnumber (fun r hr => (hp.accounts id r hr).1) row
        hrow
    · rcases hrefersA id row hrow with ⟨r, hold, heq⟩ | hsome
      · rw [heq]
        exact (hp.accounts id r hold).2
      · exact hsome

theorem applyEvents_founded {bound : ℕ} (hp : p.Founded bound) (hnumber : number < bound)
    (h : applyEvents events number p = .ok p') : p'.Founded bound := by
  induction events generalizing p with
  | nil => cases h; exact hp
  | cons event events ih =>
    rw [applyEvents, List.foldlM_cons, Transaction.bind_ok] at h
    obtain ⟨p₁, h₁, h⟩ := h
    exact ih (applyEvent_founded hp hnumber h₁) h

omit [DecidableEq B] in
/-- Rows that were there stay as they are, rows the block added go. -/
theorem filter_replay {R : Type} {createdAt : R → ℕ} {ops : List (Option R → Option R)}
    (hops : ∀ op ∈ ops, RowOp createdAt number op) {row : Option R} {keep : R → Bool}
    (hold : ∀ r ∈ row, keep r = true ∧ replay ops row = row)
    (hnew : ∀ r, createdAt r = number → keep r = false) :
    (replay ops row).filter keep = row := by
  cases row with
  | none =>
    cases hr : replay ops none with
    | none => rfl
    | some r => simp [Option.filter, hnew r ((RowOp.replay hops).adds r hr)]
  | some r =>
    obtain ⟨hkeep, hsame⟩ := hold r rfl
    rw [hsame]
    simp [Option.filter, hkeep]

omit [DecidableEq B] in
/-- Events that do not change a row leave it alone once it is there. -/
theorem replay_untouched {R : Type} {op : DomainEvent A B → Option R → Option R} {key : RowKey B}
    (hop : ∀ e r, e.updates ≠ some key → op e (some r) = some r)
    (hevents : ∀ e ∈ events, e.updates ≠ some key) (r : R) :
    replay (events.map op) (some r) = some r := by
  induction events with
  | nil => rfl
  | cons e events ih =>
    change replay (events.map op) (op e (some r)) = some r
    rw [hop e r (hevents e (by simp))]
    exact ih fun e he => hevents e (by simp [he])

theorem identityOp_some {key : B} (e : DomainEvent A B) (r : IdentityRow A)
    (h : e.updates ≠ some (.identity key)) : identityOp number key e (some r) = some r := by
  cases e with
  | identityCreated => simp [identityOp]
  | ownerRotationProposed => simp_all [identityOp, DomainEvent.updates]
  | ownerRotated => simp_all [identityOp, DomainEvent.updates]
  | _ => rfl

theorem trackOp_some {key : B} (e : DomainEvent A B) (r : TrackRow B) :
    trackOp number key e (some r) = some r := by
  cases e with
  | trackCreated => simp [trackOp]
  | _ => rfl

theorem accountOp_some {key : B} (e : DomainEvent A B) (r : AccountRow B)
    (h : e.updates ≠ some (.account key)) : accountOp number key e (some r) = some r := by
  cases e with
  | accountRegistered => simp [accountOp]
  | accountActivated => simp_all [accountOp, DomainEvent.updates]
  | accountRemoved => simp_all [accountOp, DomainEvent.updates]
  | _ => rfl

theorem identityOps_rowOp (events : List (DomainEvent A B)) (number : ℕ) (key : B) :
    ∀ op ∈ events.map (identityOp number key), RowOp (·.createdAtBlock) number op := by
  simpa using fun e _ => identityOp_rowOp number key e

theorem trackOps_rowOp (events : List (DomainEvent A B)) (number : ℕ) (key : B) :
    ∀ op ∈ events.map (trackOp number key), RowOp (·.createdAtBlock) number op := by
  simpa using fun e _ => trackOp_rowOp number key e

theorem accountOps_rowOp (events : List (DomainEvent A B)) (number : ℕ) (key : B) :
    ∀ op ∈ events.map (accountOp number key), RowOp (·.createdAtBlock) number op := by
  simpa using fun e _ => accountOp_rowOp number key e

/-- Events that change only rows of their own block change no row that was there before. -/
theorem OwnRows.updates_ne (hown : OwnRows events number p') (hp : p.Founded number)
    (h : applyEvents events number p = .ok p') {key : RowKey B} {n : ℕ}
    (hkey : p.createdAt key = some n) : ∀ e ∈ events, e.updates ≠ some key := by
  obtain ⟨hi, ht, ha⟩ := applyEvents_rows h
  have hsame : p'.createdAt key = some n ∧ n < number := by
    cases key with
    | identity id =>
      obtain ⟨r, hr, rfl⟩ := Option.map_eq_some_iff.1 hkey
      obtain ⟨r', hr', hc⟩ := (RowOp.replay (identityOps_rowOp events number id)).keeps r
      exact ⟨by rw [Projection.createdAt, hi, hr, hr', Option.map_some, hc], hp.identities id r hr⟩
    | track id =>
      obtain ⟨r, hr, rfl⟩ := Option.map_eq_some_iff.1 hkey
      obtain ⟨r', hr', hc⟩ := (RowOp.replay (trackOps_rowOp events number id)).keeps r
      exact ⟨by rw [Projection.createdAt, ht, hr, hr', Option.map_some, hc], (hp.tracks id r hr).1⟩
    | account id =>
      obtain ⟨r, hr, rfl⟩ := Option.map_eq_some_iff.1 hkey
      obtain ⟨r', hr', hc⟩ := (RowOp.replay (accountOps_rowOp events number id)).keeps r
      exact ⟨by rw [Projection.createdAt, ha, hr, hr', Option.map_some, hc], (hp.accounts id r hr).1⟩
  intro e he hupdates
  have := hown e he key hupdates n hsame.1
  omega

/-- Taking the block's row away undoes a block that changed no older row. -/
theorem cascade_applyEvents (hp : p.Founded number) (h : applyEvents events number p = .ok p')
    (hown : OwnRows events number p') : p'.cascade number = p := by
  obtain ⟨hi, ht, ha⟩ := applyEvents_rows h
  have hidentities : (p'.cascade number).identities = p.identities := by
    funext id
    simp only [Projection.cascade, hi]
    refine filter_replay (identityOps_rowOp events number id) (fun r hr => ⟨?_, ?_⟩)
      fun r hr => by simp [hr]
    · simpa using (hp.identities id r hr).ne
    · rw [Option.mem_def.1 hr]
      exact replay_untouched (fun e r => identityOp_some e r)
        (hown.updates_ne hp h (by rw [Projection.createdAt, hr]; rfl)) r
  have htracks : (p'.cascade number).tracks = p.tracks := by
    funext id
    change (p'.tracks id).filter (fun row => row.createdAtBlock ≠ number ∧
      ((p'.cascade number).identities row.identityId).isSome) = _
    rw [ht, hidentities]
    refine filter_replay (trackOps_rowOp events number id) (fun r hr => ⟨?_, ?_⟩)
      fun r hr => by simp [hr]
    · simpa using ⟨(hp.tracks id r hr).1.ne, (hp.tracks id r hr).2⟩
    · rw [Option.mem_def.1 hr]
      exact @replay_untouched _ _ _ _ _ (.track id) (fun e r _ => trackOp_some e r)
        (hown.updates_ne hp h (by rw [Projection.createdAt, hr]; rfl)) r
  refine Projection.ext_rows (congrFun hidentities) (congrFun htracks) fun id => ?_
  change (p'.accounts id).filter (fun row => row.createdAtBlock ≠ number ∧
    ((p'.cascade number).tracks row.trackId).isSome) = _
  rw [ha, htracks]
  refine filter_replay (accountOps_rowOp events number id) (fun r hr => ⟨?_, ?_⟩)
    fun r hr => by simp [hr]
  · simpa using ⟨(hp.accounts id r hr).1.ne, (hp.accounts id r hr).2⟩
  · rw [Option.mem_def.1 hr]
    exact replay_untouched (fun e r => accountOp_some e r)
      (hown.updates_ne hp h (by rw [Projection.createdAt, hr]; rfl)) r

end Blocks

end Linvesther.ChainWorker
