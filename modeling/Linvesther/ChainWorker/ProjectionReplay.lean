import Linvesther.ChainWorker.ProjectionRows

/-! When the projection is the replay of the canonical blocks: as long as no reverted block has
changed a row of an earlier one, and no block is written over another. -/

namespace Linvesther.ChainWorker

open Program

variable {H A B : Type} [DecidableEq B]

/-- The events of a block, on whichever branch it is. -/
def eventsOf (logs : H → List (World.Event A B)) (h : H) : List (DomainEvent A B) :=
  (logs h).filterMap decodeDomainEvent

/-- The fold of the events of some blocks, in order, from empty tables. -/
def projectionOf (logs : H → List (World.Event A B)) (headers : List (BlockHeader H)) :
    Except Error (Projection A B) :=
  headers.foldlM (fun p header => applyEvents (eventsOf logs header.hash) header.number p) .empty

/-- The logs `apply` reads, if it gets to read any, are those of the block. -/
def ReadsOwnLogs (tree : BlockTree H) (m : Moment H) (block : IndexedBlock H) : Prop :=
  m.rpcUp = true → block.header.number ≤ tree.number m.tip ∧
    tree.canonical m.tip block.header.number = block.header.hash

/-- What a call of the store must find and be given so that the tables stay a replay.
An applied block reads its own logs, and it comes after all persisted blocks or is the last of them
again. A reverted block is the last one, or gone already, and changed only its own rows. -/
def StoreCall.Clean (tree : BlockTree H) (logs : H → List (World.Event A B))
    (c : StoreCall H (Tables H A B)) : Prop :=
  c.moment.storeUp = true →
  match c.op with
  | .apply block =>
    ReadsOwnLogs tree c.moment block ∧
    ∀ row ∈ c.store.indexedBlocks, row.header.number < block.header.number ∨
      row.header = block.header ∧ WellOrdered (eventsOf logs block.header.hash)
  | .revert block => ∀ row ∈ c.store.indexedBlocks, row.header.number < block.header.number ∨
      row.header = block.header ∧
        OwnRows (eventsOf logs block.header.hash) block.header.number c.store.projection

instance (events : List (DomainEvent A B)) : Decidable (WellOrdered events) :=
  inferInstanceAs (Decidable (events.Pairwise fun e e' =>
    ∀ key ∈ e'.creates, e.creates ≠ some key ∧ e.updates ≠ some key))

instance (events : List (DomainEvent A B)) (number : ℕ) (p : Projection A B) :
    Decidable (OwnRows events number p) :=
  inferInstanceAs (Decidable (∀ e ∈ events, ∀ key ∈ e.updates, ∀ n ∈ p.createdAt key, n = number))

instance [DecidableEq H] (tree : BlockTree H) (logs : H → List (World.Event A B))
    (c : StoreCall H (Tables H A B)) : Decidable (c.Clean tree logs) :=
  match c with
  | ⟨store, _, m, .apply block, _⟩ =>
    inferInstanceAs (Decidable (m.storeUp = true →
      (m.rpcUp = true → block.header.number ≤ tree.number m.tip ∧
        tree.canonical m.tip block.header.number = block.header.hash) ∧
      ∀ row ∈ store.indexedBlocks, row.header.number < block.header.number ∨
        row.header = block.header ∧ WellOrdered (eventsOf logs block.header.hash)))
  | ⟨store, _, m, .revert block, _⟩ =>
    inferInstanceAs (Decidable (m.storeUp = true →
      ∀ row ∈ store.indexedBlocks, row.header.number < block.header.number ∨
        row.header = block.header ∧
          OwnRows (eventsOf logs block.header.hash) block.header.number store.projection))

section Calls

variable {σ : Type}

/-- The block a call of the store was to apply, and whether it was applied to the end. -/
def StoreCall.applied (c : StoreCall H σ) : Option (BlockHeader H × Bool) :=
  match c.op with
  | .apply block => if c.moment.storeUp then some (block.header, c.completed) else none
  | .revert _ => none

/-- A block that was not applied to the end is the next one applied. -/
def Retried (calls : List (StoreCall H σ)) : Prop :=
  (calls.filterMap StoreCall.applied).IsChain fun a b => a.2 = true ∨ b.1 = a.1

instance [DecidableEq H] (calls : List (StoreCall H σ)) : Decidable (Retried calls) :=
  inferInstanceAs (Decidable ((calls.filterMap StoreCall.applied).IsChain
    fun a b => a.2 = true ∨ b.1 = a.1))

/-- The block applied last was applied to the end. -/
def Settled (calls : List (StoreCall H σ)) : Prop :=
  ∀ a ∈ (calls.filterMap StoreCall.applied).getLast?, a.2 = true

instance (calls : List (StoreCall H σ)) : Decidable (Settled calls) :=
  inferInstanceAs (Decidable (∀ a ∈ (calls.filterMap StoreCall.applied).getLast?, a.2 = true))

end Calls

/-- The tables are the replay of the persisted blocks, which are in ascending order. -/
structure Tables.Replays (logs : H → List (World.Event A B)) (t : Tables H A B) : Prop where
  ascending : (t.indexedBlocks.map (·.header)).Pairwise fun a b => a.number < b.number
  replayed : projectionOf logs (t.indexedBlocks.map (·.header)) = .ok t.projection

/-- The last persisted block is `header`, whose events have been begun on the replay of the blocks
before it. -/
structure Tables.Begun (logs : H → List (World.Event A B)) (header : BlockHeader H)
    (rows : List (IndexedBlock H)) (p : Projection A B) (t : Tables H A B) : Prop where
  last : ∃ row, t.indexedBlocks = rows ++ [row] ∧ row.header = header
  ascending : (rows.map (·.header)).Pairwise fun a b => a.number < b.number
  below : ∀ row ∈ rows, row.header.number < header.number
  replayed : projectionOf logs (rows.map (·.header)) = .ok p
  begun : Attempts (eventsOf logs header.hash) header.number p t.projection

variable {tree : BlockTree H} {logs : H → List (World.Event A B)} {t t' : Tables H A B}
  {block : IndexedBlock H} {m : Moment H} {header : BlockHeader H} {rows : List (IndexedBlock H)}
  {p : Projection A B}

section Store

variable {events : List (DomainEvent A B)} {number : ℕ}

theorem applyLogs_cons (event : DomainEvent A B) :
    applyLogs number (event :: events) t =
      match applyEvent event number t.projection with
      | .ok projection => applyLogs number events { t with projection }
      | .error e => .error e t := by
  cases he : applyEvent event number t.projection <;>
    simp [applyLogs, bind, EStateM.bind, get, getThe, MonadStateOf.get, EStateM.get, he, set,
      EStateM.set, throw, throwThe, MonadExceptOf.throw, EStateM.throw]

theorem applyLogs_ok (h : applyLogs number events t = .ok () t') :
    applyEvents events number t.projection = .ok t'.projection := by
  induction events generalizing t with
  | nil => cases h; rfl
  | cons event events ih =>
    rw [applyLogs_cons] at h
    cases he : applyEvent event number t.projection with
    | error e => rw [he] at h; cases h
    | ok p =>
      rw [he] at h
      rw [applyEvents, List.foldlM_cons, he]
      exact ih h

/-- Wherever the loop stops, a first part of the events has been applied. -/
theorem applyLogs_final (events : List (DomainEvent A B)) (t : Tables H A B) :
    (final (applyLogs number events t)).indexedBlocks = t.indexedBlocks ∧
      ∃ pre, pre <+: events ∧
        applyEvents pre number t.projection = .ok (final (applyLogs number events t)).projection := by
  induction events generalizing t with
  | nil => exact ⟨rfl, [], List.nil_prefix, rfl⟩
  | cons event events ih =>
    rw [applyLogs_cons]
    cases he : applyEvent event number t.projection with
    | error e => exact ⟨rfl, [], List.nil_prefix, rfl⟩
    | ok p =>
      obtain ⟨hblocks, pre, hpre, happly⟩ := ih { t with projection := p }
      refine ⟨hblocks, event :: pre, List.cons_prefix_cons.2 ⟨rfl, hpre⟩, ?_⟩
      rw [applyEvents, List.foldlM_cons, he]
      exact happly

omit [DecidableEq B] in
theorem ReadsOwnLogs.events_eq (h : ReadsOwnLogs tree m block) (hup : m.rpcUp = true) :
    (getLogs tree logs m block.header.number).filterMap decodeDomainEvent =
      eventsOf logs block.header.hash := by
  obtain ⟨hle, hcanonical⟩ := h hup
  rw [getLogs, if_pos hle, hcanonical, eventsOf]

theorem apply_eq : PostgresProjectionStore.apply tree logs m block t =
    (if m.rpcUp then
      let events := (getLogs tree logs m block.header.number).filterMap decodeDomainEvent
      match m.cutAfter with
      | none => applyLogs block.header.number events
      | some n => do
        applyLogs block.header.number (events.take n)
        throw Error.store
    else throw Error.rpc : EStateM Error (Tables H A B) Unit) { t with indexedBlocks := upsertBlock t.indexedBlocks block } :=
  rfl

theorem apply_ok (hlogs : ReadsOwnLogs tree m block)
    (h : PostgresProjectionStore.apply tree logs m block t = .ok () t') :
    applyEvents (eventsOf logs block.header.hash) block.header.number t.projection =
      .ok t'.projection := by
  rw [apply_eq] at h
  by_cases hup : m.rpcUp
  · rw [if_pos hup, hlogs.events_eq hup] at h
    cases hcut : m.cutAfter with
    | none =>
      rw [hcut] at h
      exact applyLogs_ok (t := { t with indexedBlocks := upsertBlock t.indexedBlocks block }) h
    | some n =>
      rw [hcut] at h
      exact absurd h (bind_throw_ne_ok _ _ _ _ _)
  · rw [if_neg hup] at h
    cases h

/-- Applying a block, to the end or not, persists it and applies a first part of its events. -/
theorem apply_final (hlogs : ReadsOwnLogs tree m block) (t : Tables H A B) :
    let t' := final (PostgresProjectionStore.apply tree logs m block t)
    t'.indexedBlocks = upsertBlock t.indexedBlocks block ∧
      ∃ pre, pre <+: eventsOf logs block.header.hash ∧
        applyEvents pre block.header.number t.projection = .ok t'.projection := by
  dsimp only
  rw [apply_eq]
  by_cases hup : m.rpcUp
  · rw [if_pos hup, hlogs.events_eq hup]
    cases hcut : m.cutAfter with
    | none => exact applyLogs_final _ _
    | some n =>
      obtain ⟨hblocks, pre, hpre, happly⟩ := @applyLogs_final H _ _ _ block.header.number
        ((eventsOf logs block.header.hash).take n)
        { t with indexedBlocks := upsertBlock t.indexedBlocks block }
      dsimp only
      rw [final_bind_throw]
      exact ⟨hblocks, pre, hpre.trans (List.take_prefix _ _), happly⟩
  · rw [if_neg hup]
    exact ⟨rfl, [], List.nil_prefix, rfl⟩

omit [DecidableEq B] in
theorem revert_final (t : Tables H A B) :
    final (PostgresProjectionStore.revert block t) =
      if t.indexedBlocks.any (·.header.number = block.header.number) then
        { indexedBlocks := t.indexedBlocks.filter (·.header.number ≠ block.header.number)
          projection := t.projection.cascade block.header.number }
      else t :=
  rfl

omit [DecidableEq B] in
theorem upsertBlock_new (h : ∀ row ∈ rows, row.header.number < block.header.number) :
    upsertBlock rows block = rows ++ [block] := by
  have hany : ¬ rows.any (·.header.number = block.header.number) = true := by
    simp only [List.any_eq_true, decide_eq_true_eq, not_exists, not_and]
    exact fun row hrow => (h row hrow).ne
  rw [upsertBlock, if_neg hany]

omit [DecidableEq B] in
theorem upsertBlock_last (h : ∀ row ∈ rows, row.header.number < block.header.number)
    {row : IndexedBlock H} (hrow : row.header = block.header) :
    upsertBlock (rows ++ [row]) block = rows ++ [block] := by
  have hkeep : ∀ r ∈ rows, (if r.header.number = block.header.number then block else r) = r :=
    fun r hr => if_neg (h r hr).ne
  have hany : (rows ++ [row]).any (·.header.number = block.header.number) = true := by
    simp [hrow]
  rw [upsertBlock, if_pos hany, List.map_append, List.map_congr_left hkeep, List.map_id',
    List.map_singleton, if_pos (by rw [hrow])]

end Store

section Replays

theorem projectionOf_concat {headers : List (BlockHeader H)} {p : Projection A B} :
    projectionOf logs (headers ++ [header]) = .ok p ↔ ∃ p₀, projectionOf logs headers = .ok p₀ ∧
      applyEvents (eventsOf logs header.hash) header.number p₀ = .ok p := by
  rw [projectionOf, List.foldlM_append, Transaction.bind_ok]
  simp only [List.foldlM_cons, List.foldlM_nil, Transaction.bind_ok, Transaction.pure_ok,
    exists_eq_right]
  rfl

/-- A replay of blocks below a number has rows created below it. -/
theorem projectionOf_founded {headers : List (BlockHeader H)} {p : Projection A B}
    (h : projectionOf logs headers = .ok p) {bound : ℕ} (hbound : ∀ x ∈ headers, x.number < bound) :
    p.Founded bound := by
  induction headers using List.reverseRecOn generalizing p with
  | nil =>
    cases h
    exact Projection.empty_founded bound
  | append_singleton headers header ih =>
    obtain ⟨p₀, h₀, h⟩ := projectionOf_concat.1 h
    exact applyEvents_founded (ih h₀ fun x hx => hbound x (by simp [hx])) (hbound header (by simp)) h

/-- A replay has its last block begun, unless nothing is persisted. -/
theorem Tables.Replays.nil_or_begun (h : t.Replays logs) :
    t.indexedBlocks = [] ∨ ∃ header rows p, t.Begun logs header rows p := by
  rcases List.eq_nil_or_concat t.indexedBlocks with hnil | ⟨rows, row, hconcat⟩
  · exact .inl hnil
  · rw [List.concat_eq_append] at hconcat
    obtain ⟨hascending, hreplayed⟩ := h
    rw [hconcat, List.map_append] at hascending hreplayed
    obtain ⟨hrows, -, hlast⟩ := List.pairwise_append.1 hascending
    obtain ⟨p, hp, happly⟩ := projectionOf_concat.1 hreplayed
    exact .inr ⟨row.header, rows, p, ⟨row, hconcat, rfl⟩, hrows, by simpa using hlast, hp,
      .again .none List.prefix_rfl happly⟩

theorem Tables.Begun.replays (h : t.Begun logs header rows p)
    (happly : applyEvents (eventsOf logs header.hash) header.number p = .ok t.projection) :
    t.Replays logs := by
  obtain ⟨row, hrows, rfl⟩ := h.last
  constructor
  · rw [hrows, List.map_append]
    exact List.pairwise_append.2 ⟨h.ascending, by simp, by simpa using h.below⟩
  · rw [hrows, List.map_append]
    exact projectionOf_concat.2 ⟨p, h.replayed, happly⟩

/-- A block after all persisted ones is begun, and if it is applied to the end, in the replay. -/
theorem Tables.Replays.apply (h : t.Replays logs) (hlogs : ReadsOwnLogs tree m block)
    (hnew : ∀ row ∈ t.indexedBlocks, row.header.number < block.header.number) :
    (final (PostgresProjectionStore.apply tree logs m block t)).Begun logs block.header
        t.indexedBlocks t.projection ∧
      ∀ t', PostgresProjectionStore.apply tree logs m block t = .ok () t' → t'.Replays logs := by
  obtain ⟨hblocks, pre, hpre, happly⟩ := @apply_final _ _ _ _ _ logs _ _ hlogs t
  have hbegun : (final (PostgresProjectionStore.apply tree logs m block t)).Begun logs block.header
      t.indexedBlocks t.projection :=
    ⟨⟨block, by rw [hblocks, upsertBlock_new hnew], rfl⟩, h.ascending, hnew, h.replayed,
      .again .none hpre happly⟩
  refine ⟨hbegun, fun t' hrun => ?_⟩
  rw [hrun] at hbegun
  exact hbegun.replays (apply_ok hlogs hrun)

/-- The block begun last is begun again, and if it is applied to the end now, in the replay. -/
theorem Tables.Begun.apply (h : t.Begun logs block.header rows p)
    (hlogs : ReadsOwnLogs tree m block)
    (hordered : WellOrdered (eventsOf logs block.header.hash)) :
    (final (PostgresProjectionStore.apply tree logs m block t)).Begun logs block.header rows p ∧
      ∀ t', PostgresProjectionStore.apply tree logs m block t = .ok () t' → t'.Replays logs := by
  obtain ⟨hblocks, pre, hpre, happly⟩ := @apply_final _ _ _ _ _ logs _ _ hlogs t
  obtain ⟨row, hrows, hrow⟩ := h.last
  have hbegun : (final (PostgresProjectionStore.apply tree logs m block t)).Begun logs block.header
      rows p :=
    ⟨⟨block, by rw [hblocks, hrows, upsertBlock_last h.below hrow], rfl⟩, h.ascending, h.below,
      h.replayed, .again h.begun hpre happly⟩
  refine ⟨hbegun, fun t' hrun => ?_⟩
  rw [hrun] at hbegun
  exact hbegun.replays (h.begun.finish hordered (apply_ok hlogs hrun))

/-- Reverting the last block, if it changed only its own rows, leaves the replay of the others. -/
theorem Tables.Begun.revert (h : t.Begun logs block.header rows p)
    (hown : OwnRows (eventsOf logs block.header.hash) block.header.number t.projection) :
    (final (PostgresProjectionStore.revert block t)).Replays logs := by
  obtain ⟨row, hrows, hrow⟩ := h.last
  obtain ⟨events, hevents, happly⟩ := h.begun.sequence
  have hany : t.indexedBlocks.any (·.header.number = block.header.number) = true := by
    simp [hrows, hrow]
  have hkept : t.indexedBlocks.filter (·.header.number ≠ block.header.number) = rows := by
    rw [hrows, List.filter_append, List.filter_eq_self.2 fun r hr => by
      simpa using (h.below r hr).ne]
    simp [hrow]
  have hfounded : p.Founded block.header.number :=
    projectionOf_founded h.replayed (by simpa using h.below)
  rw [revert_final, if_pos hany, hkept,
    cascade_applyEvents hfounded happly fun e he => hown e (hevents e he)]
  exact ⟨h.ascending, h.replayed⟩

omit [DecidableEq B] in
theorem revert_gone (h : ∀ row ∈ t.indexedBlocks, row.header.number < block.header.number) :
    final (PostgresProjectionStore.revert block t) = t := by
  have hany : ¬ t.indexedBlocks.any (·.header.number = block.header.number) = true := by
    simp only [List.any_eq_true, decide_eq_true_eq, not_exists, not_and]
    exact fun row hrow => (h row hrow).ne
  rw [revert_final, if_neg hany]

/-- A block that no persisted one comes after is new, or is the one begun last. -/
theorem Tables.Begun.new_or_last {P : Prop} (h : t.Begun logs header rows p)
    (hrows : ∀ row ∈ t.indexedBlocks, row.header.number < block.header.number ∨
      row.header = block.header ∧ P) :
    (∀ row ∈ t.indexedBlocks, row.header.number < block.header.number) ∨
      header = block.header ∧ P := by
  obtain ⟨last, hconcat, rfl⟩ := h.last
  rcases hrows last (by simp [hconcat]) with hlt | hlast
  · refine .inl fun row hrow => ?_
    rw [hconcat, List.mem_append, List.mem_singleton] at hrow
    rcases hrow with hrow | rfl
    · exact (h.below row hrow).trans hlt
    · exact hlt
  · exact .inr hlast

end Replays

section Runs

/-- What the tables are after some calls: the replay of the persisted blocks, unless the block
applied last was not applied to the end. -/
def StoreProgress (logs : H → List (World.Event A B)) (calls : List (StoreCall H (Tables H A B)))
    (t : Tables H A B) : Prop :=
  t.Replays logs ∨ ∃ header rows p, t.Begun logs header rows p ∧
    (calls.filterMap StoreCall.applied).getLast? = some (header, false)

variable {calls : List (StoreCall H (Tables H A B))} {c : StoreCall H (Tables H A B)}

theorem StoreProgress.apply (h : StoreProgress logs calls t)
    (hlogs : ReadsOwnLogs tree m block)
    (hrows : ∀ row ∈ t.indexedBlocks, row.header.number < block.header.number ∨
      row.header = block.header ∧ WellOrdered (eventsOf logs block.header.hash))
    (hretried : ∀ header, (calls.filterMap StoreCall.applied).getLast? = some (header, false) →
      block.header = header) :
    (∃ rows p, (final (PostgresProjectionStore.apply tree logs m block t)).Begun logs block.header
        rows p) ∧
      ∀ t', PostgresProjectionStore.apply tree logs m block t = .ok () t' → t'.Replays logs := by
  rcases h with h | ⟨header, rows, p, h, hlast⟩
  · have hcase : (∀ row ∈ t.indexedBlocks, row.header.number < block.header.number) ∨
        ∃ rows p, t.Begun logs block.header rows p ∧
          WellOrdered (eventsOf logs block.header.hash) := by
      rcases h.nil_or_begun with hnil | ⟨header, rows, p, hbegun⟩
      · exact .inl (by simp [hnil])
      · exact (hbegun.new_or_last hrows).imp_right fun ⟨heq, hordered⟩ =>
          ⟨rows, p, heq ▸ hbegun, hordered⟩
    rcases hcase with hnew | ⟨rows, p, hbegun, hordered⟩
    · exact (h.apply hlogs hnew).imp_left fun h => ⟨_, _, h⟩
    · exact (hbegun.apply hlogs hordered).imp_left fun h => ⟨_, _, h⟩
  · obtain rfl := hretried header hlast
    have hordered : WellOrdered (eventsOf logs block.header.hash) := by
      rcases h.new_or_last hrows with hnew | ⟨-, hordered⟩
      · obtain ⟨last, hconcat, hheader⟩ := h.last
        have := hnew last (by simp [hconcat])
        rw [hheader] at this
        exact absurd this (Nat.lt_irrefl _)
      · exact hordered
    exact (h.apply hlogs hordered).imp_left fun h => ⟨_, _, h⟩

theorem StoreProgress.revert (h : StoreProgress logs calls t)
    (hrows : ∀ row ∈ t.indexedBlocks, row.header.number < block.header.number ∨
      row.header = block.header ∧
        OwnRows (eventsOf logs block.header.hash) block.header.number t.projection) :
    StoreProgress logs calls (final (PostgresProjectionStore.revert block t)) := by
  have hbegun : ∀ header rows p, t.Begun logs header rows p →
      final (PostgresProjectionStore.revert block t) = t ∨
        (final (PostgresProjectionStore.revert block t)).Replays logs := by
    intro header rows p hbegun
    rcases hbegun.new_or_last hrows with hnew | ⟨rfl, hown⟩
    · exact .inl (revert_gone hnew)
    · exact .inr (hbegun.revert hown)
  rcases h with hreplays | ⟨header, rows, p, h, hlast⟩
  · rcases hreplays.nil_or_begun with hnil | ⟨header, rows, p, h⟩
    · rw [revert_gone (by simp [hnil])]
      exact .inl hreplays
    · rcases hbegun header rows p h with heq | hdone
      · rw [heq]
        exact .inl hreplays
      · exact .inl hdone
  · rcases hbegun header rows p h with heq | hdone
    · rw [heq]
      exact .inr ⟨header, rows, p, h, hlast⟩
    · exact .inl hdone

/-- Every call of the store, completed or not, keeps the tables in step with the calls. -/
theorem storeInvariant_progress : StoreInvariant (PostgresProjectionStore tree logs)
    fun i => (∀ c ∈ i.calls, c.Clean tree logs) → Retried i.calls → StoreProgress logs i.calls i.store where
  timeless _ _ hi := hi
  viewless _ _ hi := hi
  call i m op store completed hi hrun hclean hretried := by
    have hcall := hclean _ (List.mem_append_right _ (List.mem_singleton_self _))
    rw [Retried, List.filterMap_append, List.isChain_append] at hretried
    have hbefore := hi (fun c hc => hclean c (List.mem_append_left _ hc)) hretried.1
    cases hup : m.storeUp with
    | false =>
      simp only [Outcome, hup, Bool.false_eq_true, if_false] at hrun
      have hsame : StoreCall.applied (⟨i.store, i.chain, m, op, completed⟩ :
          StoreCall H (Tables H A B)) = none := by
        cases op <;> simp [StoreCall.applied, hup]
      simpa [StoreProgress, hsame, hrun.2] using hbefore
    | true =>
      have hfinal : store = final ((PostgresProjectionStore tree logs).run m op i.store) := by
        simp only [Outcome, hup, if_true] at hrun
        split_ifs at hrun
        · rw [hrun]; rfl
        · obtain ⟨e, hrun⟩ := hrun
          rw [hrun]; rfl
      cases op with
      | apply block =>
        obtain ⟨hlogs, hrows⟩ := hcall hup
        have happlied : StoreCall.applied (⟨i.store, i.chain, m, .apply block, completed⟩ :
            StoreCall H (Tables H A B)) = some (block.header, completed) := by
          simp [StoreCall.applied, hup]
        obtain ⟨⟨rows, p, hbegun⟩, hdone⟩ := hbefore.apply hlogs hrows fun header hlast => by
          have := hretried.2.2 _ hlast (block.header, completed) (by simp [happlied])
          simpa using this
        cases completed with
        | true =>
          simp only [Outcome, hup, if_true] at hrun
          exact .inl (hdone store hrun)
        | false =>
          refine .inr ⟨block.header, rows, p, by rw [hfinal]; exact hbegun, ?_⟩
          simp [happlied]
      | revert block =>
        have hafter : StoreProgress logs i.calls store := by
          rw [hfinal]
          exact hbefore.revert (hcall hup)
        simpa [StoreProgress, StoreCall.applied] using hafter

variable [DecidableEq H]

theorem run_progress (deployBlock : ℕ) (s : Service H A B)
    (hs : (∀ c ∈ s.indexer.calls, c.Clean tree logs) → Retried s.indexer.calls →
      StoreProgress logs s.indexer.calls s.indexer.store)
    (steps : List (ServiceStep H)) :
    let s' := s.run tree logs deployBlock steps
    (∀ c ∈ s'.indexer.calls, c.Clean tree logs) → Retried s'.indexer.calls →
      StoreProgress logs s'.indexer.calls s'.indexer.store := by
  induction steps generalizing s with
  | nil => exact hs
  | cons step steps ih =>
    refine ih _ ?_
    cases step with
    | tick moments => exact (syncOnce_keeps storeInvariant_progress s.fromNumber).final hs
    | restart => exact hs

/-- Ticks and restarts in any order: once the canonical chain is persisted and its last block is
applied to the end, the tables are the replay of its blocks, as long as every call of the store was a
clean one and every block that was cut off was the next one applied. -/
theorem projection_eq_replay {deployBlock : ℕ} {steps : List (ServiceStep H)} {tip : H}
    {s : Service H A B} (hrun : s = (Service.init deployBlock).run tree logs deployBlock steps)
    (hclean : ∀ c ∈ s.indexer.calls, c.Clean tree logs) (hretried : Retried s.indexer.calls)
    (hsettled : Settled s.indexer.calls)
    (hindexed : s.indexer.store.indexedBlocks.map (·.header) =
      tree.segment tip deployBlock (tree.number tip + 1 - deployBlock)) :
    projectionOf logs (tree.segment tip deployBlock (tree.number tip + 1 - deployBlock)) =
      .ok s.indexer.store.projection := by
  subst hrun
  have hinit : (Tables.empty : Tables H A B).Replays logs := ⟨.nil, rfl⟩
  rw [← hindexed]
  rcases run_progress deployBlock (Service.init deployBlock) (fun _ _ => .inl hinit) steps hclean
    hretried with hreplays | ⟨header, rows, p, -, hlast⟩
  · exact hreplays.replayed
  · cases hsettled _ hlast

end Runs

section AbandonedRotation

theorem forkTree_number_parentHash (h : ℕ) (hne : h / 2 ≠ 0) :
    (if h < 4 then 0 else if h = 5 then 2 else h - 2) / 2 + 1 = h / 2 := by
  split_ifs <;> omega

/-- Two branches over block 2: 4, 6, 8, … and 5, 7, 9, …. -/
def forkTree : BlockTree ℕ where
  number h := h / 2
  parentHash h := if h < 4 then 0 else if h = 5 then 2 else h - 2
  number_parentHash := forkTree_number_parentHash

/-- The owner 10 creates the identity 7 on block 2. -/
def forkLogs (abandoned : List (IdentityRegistry.Event ℕ ℕ)) : ℕ → List (World.Event ℕ ℕ)
  | 2 => [.identity (.identityCreated 7 10 .person 100)]
  | 4 => abandoned.map .identity
  | 5 => [.identity (.identityCreated 8 12 .person 101),
          .identity (.ownerRotationProposed 7 10 11 0)]
  | _ => []

/-- A tick at a tip, all of whose calls are answered. -/
def forkTick (tip : ℕ) : ServiceStep ℕ := .tick fun _ => ⟨tip, none, none, true, true, none⟩

/-- The tick's fifth call, which applies block 4, is cut off after its first statement. -/
def cutTick : ServiceStep ℕ :=
  .tick fun t => ⟨4, none, none, true, true, if t = 4 then some 1 else none⟩

/-- The abandoned block creates an identity of its own and proposes a rotation of it. It is cut
off, applied, applied again after a restart, and reverted. -/
theorem projection_eq_replay_after_reorg :
    let logs := forkLogs [.identityCreated 8 12 .person 101, .ownerRotationProposed 8 12 13 0]
    let s := (Service.init 1).run forkTree logs 1
      [cutTick, forkTick 4, .restart, forkTick 4, forkTick 7]
    projectionOf logs (forkTree.segment 7 1 3) = .ok s.indexer.store.projection ∧
      s.indexer.store.projection.identities 7 = some ⟨10, some 11, 0, .pendingConfirmation, 1⟩ := by
  intro logs s
  exact ⟨@projection_eq_replay _ _ _ _ _ _ _ 1 _ 7 _ rfl (by decide +kernel)
    (by decide +kernel) (by decide +kernel) (by decide +kernel), by decide +kernel⟩

/-- The abandoned block confirms a rotation to the owner 11, which stays. -/
theorem abandoned_rotation_stays :
    let logs := forkLogs [.ownerRotationProposed 7 10 11 0, .ownerRotated 7 10 11 1]
    let s := (Service.init 1).run forkTree logs 1 [forkTick 4, forkTick 7]
    s.indexer.store.indexedBlocks.map (·.header) = forkTree.segment 7 1 3 ∧
    (∀ c ∈ s.indexer.calls, c.completed = true) ∧
    s.indexer.store.projection.identities 7 = some ⟨11, some 11, 1, .active, 1⟩ ∧
    (projectionOf logs (forkTree.segment 7 1 3)).map (·.identities 7) =
      .ok (some ⟨10, some 11, 0, .pendingConfirmation, 1⟩) := by
  decide +kernel

end AbandonedRotation

end Linvesther.ChainWorker
