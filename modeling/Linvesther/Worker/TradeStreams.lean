import Linvesther.Base.FirstWins
import Linvesther.Base.Runs
import Linvesther.Worker.History
import Linvesther.Worker.Rekey

/-! The trade streams of the scheduler. A tick lists the active connections and starts a stream for each that
has none running, with the credential that the listing has read. The stream keeps that credential until it
ends; meanwhile other processes connect and disconnect accounts. -/

namespace Linvesther.Worker.Streams

open Connections (Database Sound)
open Rekey (Row stored)

section Model

/-- A task of `run_trade_stream`. -/
structure Task where
  connection : ℕ
  credential : List String
  subscribed : Bool
  finished : Bool
deriving DecidableEq

/-- A fill that a stream has stored. Beside it stand what the stream was subscribed with, what was stored for
the connection then, and whether a whole tick had passed since the account was last connected. -/
structure Fill where
  connection : ℕ
  trade : Trade
  subscribedWith : List String
  stored : Option (List String)
  settled : Bool
deriving DecidableEq

def fillKey (f : Fill) : ℕ × String × UInt64 := (f.connection, f.trade.symbol, f.trade.id)

/-- The table, the scheduler's tasks with its handles to them, and what is left of the listing of a tick.
`touched` are the connections made since that listing, `unsettled` those that no tick has passed since. -/
structure State where
  db : Database (List EncryptedField)
  tasks : List Task
  handles : ℕ → Option ℕ
  listed : Option (List Row)
  touched : List ℕ
  unsettled : List ℕ
  fills : List Fill

def State.init (db : Database (List EncryptedField)) : State := ⟨db, [], fun _ => none, none, [], [], []⟩

inductive Move where
  /-- An account is connected, for the first time or again. -/
  | connect (accountId : String) (secrets : List EncryptedField) (symbols : List String) (nowMs : ℕ)
  | disconnect (id : ℕ)
  | synced (id nowMs : ℕ)
  | list (nowMs : ℕ)
  | visit
  | finish
  | subscribe (i : ℕ)
  | receive (i : ℕ) (trade : Trade)
  | stop (i : ℕ)

/-- `connections_due_for_sync` with an interval of no seconds. -/
def due (nowMs : ℕ) (c : Row) : Bool := c.status = "active" && c.lastSyncedAt.all (· < nowMs)

/-- `!handle.is_finished()` of the handle that is kept for a connection. -/
def State.stillRunning (s : State) (id : ℕ) : Bool :=
  ((s.handles id).bind fun i => s.tasks[i]?).any fun t => !t.finished

def State.setTask (s : State) (i : ℕ) (t : Task) : State := { s with tasks := s.tasks.set i t }

variable (aead : Aead) (key : MasterKey)

/-- One step of the loop over the connections listed. -/
def State.ensureRunning (s : State) (c : Row) : State :=
  if s.stillRunning c.id then s
  else
    match stored aead key .binance c with
    | none => s
    | some credential =>
      { s with
        tasks := s.tasks ++ [⟨c.id, credential, false, false⟩]
        handles := Function.update s.handles c.id (some s.tasks.length) }

/-- A fill for a connection that is gone ends its stream. -/
def State.store (s : State) (i : ℕ) (t : Task) (trade : Trade) : State :=
  match (s.db.tables .binance).find? (·.id = t.connection) with
  | none => s.setTask i { t with finished := true }
  | some c =>
    let fill : Fill :=
      ⟨t.connection, trade, t.credential, stored aead key .binance c, t.connection ∉ s.unsettled⟩
    { s with fills := FirstWins.insertNew fillKey s.fills fill }

def State.step (s : State) : Move → State
  | .connect accountId secrets symbols nowMs =>
    let inserted := s.db.insert .binance accountId none secrets symbols none nowMs
    { s with db := inserted.2, touched := inserted.1 :: s.touched, unsettled := inserted.1 :: s.unsettled }
  | .disconnect id => { s with db := (s.db.delete .binance id).2 }
  | .synced id nowMs => { s with db := s.db.markSynced .binance id nowMs }
  | .list nowMs =>
    match s.listed with
    | none => { s with listed := some ((s.db.tables .binance).filter (due nowMs)), touched := [] }
    | some _ => s
  | .visit =>
    match s.listed with
    | some (c :: rest) => { s.ensureRunning aead key c with listed := some rest }
    | _ => s
  | .finish =>
    match s.listed with
    | some [] => { s with listed := none, unsettled := s.unsettled.filter (· ∈ s.touched) }
    | _ => s
  | .subscribe i =>
    match s.tasks[i]? with
    | some t => if t.finished then s else s.setTask i { t with subscribed := true }
    | none => s
  | .receive i trade =>
    match s.tasks[i]? with
    | some t => if t.finished || !t.subscribed then s else s.store aead key i t trade
    | none => s
  | .stop i =>
    match s.tasks[i]? with
    | some t => s.setTask i { t with finished := true }
    | none => s

def State.run (s : State) (moves : List Move) : State := moves.foldl (State.step aead key) s

end Model

section Spec

variable (aead : Aead) (key : MasterKey)

/-- What is stored once a tick has passed was received with the credential that is stored. -/
def Follows (s : State) : Prop := ∀ f ∈ s.fills, f.settled = true → f.stored = some f.subscribedWith

/-- No two streams run for one connection. -/
def OneEach (s : State) : Prop :=
  ∀ (i j : ℕ) (t t' : Task), s.tasks[i]? = some t → s.tasks[j]? = some t' → t.finished = false → t'.finished = false →
    t.connection = t'.connection → i = j

/-- The streams that run for the connection were started with what the row stores. -/
def State.agrees (s : State) (c : Row) : Bool :=
  s.tasks.all fun t => t.finished || t.connection ≠ c.id || stored aead key .binance c = some t.credential

/-- A tick finds no stream running with a credential that was replaced. -/
def undisturbed (s : State) : Move → Bool
  | .list nowMs =>
    if s.listed.isNone then (s.db.tables .binance).all fun c => due nowMs c || s.agrees aead key c else true
  | .visit =>
    match s.listed with
    | some (c :: _) => s.agrees aead key c
    | _ => true
  | _ => true

variable {aead key} {s : State} {c : Row}

theorem agrees_iff : s.agrees aead key c = true ↔ ∀ t ∈ s.tasks, t.finished = false → t.connection = c.id →
    stored aead key .binance c = some t.credential := by
  unfold State.agrees
  rw [List.all_eq_true]
  refine forall₂_congr fun t _ => ?_
  cases t.finished <;> simp [imp_iff_not_or]

end Spec

section Running

variable {aead : Aead} {key : MasterKey} {s s' : State} {c c' : Row} {i : ℕ} {t t' : Task}

/-- The streams that run now ran before. -/
def Carries (s s' : State) : Prop :=
  ∀ (j : ℕ) (u : Task), s'.tasks[j]? = some u → u.finished = false →
    ∃ u₀, s.tasks[j]? = some u₀ ∧ u₀.finished = false ∧ u₀.connection = u.connection ∧ u₀.credential = u.credential

theorem Carries.of_tasks (h : s'.tasks = s.tasks) : Carries s s' := by
  intro j u hu hrun
  rw [h] at hu
  exact ⟨u, hu, hrun, rfl, rfl⟩

theorem carries_setTask (ht : s.tasks[i]? = some t) (hconnection : t'.connection = t.connection)
    (hcredential : t'.credential = t.credential) (hfinished : t'.finished = false → t.finished = false) :
    Carries s (s.setTask i t') := by
  intro j u hu hrun
  unfold State.setTask at hu
  rw [List.getElem?_set] at hu
  split_ifs at hu with hij hlt
  · cases hu
    subst hij
    exact ⟨t, ht, hfinished hrun, hconnection.symm, hcredential.symm⟩
  · exact ⟨u, hu, hrun, rfl, rfl⟩

theorem Carries.agrees (h : Carries s s') (hagrees : s.agrees aead key c = true) : s'.agrees aead key c = true := by
  rw [agrees_iff] at hagrees ⊢
  intro u hu hrun hconnection
  obtain ⟨j, hj⟩ := List.mem_iff_getElem?.1 hu
  obtain ⟨u₀, hu₀, hrun₀, hsame, hcredential⟩ := h j u hj hrun
  rw [← hcredential]
  exact hagrees u₀ (List.mem_of_getElem? hu₀) hrun₀ (hsame.trans hconnection)

/-- The handles are those of the streams that run. -/
def Handled (s : State) : Prop :=
  ∀ (i : ℕ) (t : Task), s.tasks[i]? = some t → t.finished = false → s.handles t.connection = some i

theorem Handled.oneEach (h : Handled s) : OneEach s := by
  intro i j t t' hi hj hrun hrun' hsame
  have hhandle := h i t hi hrun
  rw [hsame, h j t' hj hrun'] at hhandle
  exact (Option.some.inj hhandle).symm

theorem Handled.stillRunning (h : Handled s) (hi : s.tasks[i]? = some t) (hrun : t.finished = false) :
    s.stillRunning t.connection = true := by
  unfold State.stillRunning
  rw [h i t hi hrun]
  simp [hi, hrun]

theorem Handled.carried (h : Handled s) (hcarries : Carries s s') (hhandles : s'.handles = s.handles) : Handled s' := by
  intro j u hu hrun
  obtain ⟨u₀, hu₀, hrun₀, hsame, -⟩ := hcarries j u hu hrun
  rw [hhandles, ← hsame]
  exact h j u₀ hu₀ hrun₀

/-- A connection that is visited has a stream running already, or cannot be read, or gets one. -/
theorem ensureRunning_cases (s : State) (c : Row) :
    s.ensureRunning aead key c = s ∨ s.stillRunning c.id = false ∧ ∃ credential,
      stored aead key .binance c = some credential ∧ s.ensureRunning aead key c = { s with
        tasks := s.tasks ++ [⟨c.id, credential, false, false⟩]
        handles := Function.update s.handles c.id (some s.tasks.length) } := by
  unfold State.ensureRunning
  split_ifs with hrunning
  · exact .inl rfl
  · split
    next => exact .inl rfl
    next credential hstored => exact .inr ⟨Bool.eq_false_of_not_eq_true hrunning, credential, hstored, rfl⟩

theorem Handled.ensureRunning (h : Handled s) (c : Row) : Handled (s.ensureRunning aead key c) := by
  rcases ensureRunning_cases s c with hsame | ⟨hnot, credential, -, hnew⟩
  · rw [hsame]
    exact h
  · rw [hnew]
    intro j u hu hrun
    dsimp only at hu ⊢
    rcases lt_or_ge j s.tasks.length with hlt | hge
    · rw [List.getElem?_append_left hlt] at hu
      have hother : u.connection ≠ c.id := by
        intro hsame
        have := h.stillRunning hu hrun
        rw [hsame, hnot] at this
        cases this
      rw [Function.update_of_ne hother]
      exact h j u hu hrun
    · rw [List.getElem?_append_right hge, List.getElem?_singleton] at hu
      split_ifs at hu with hlast
      cases hu
      rw [Function.update_self]
      exact congrArg some (by omega)

/-- Every step but a tick's visit leaves the streams that run as they are. -/
theorem step_carries (m : Move) : (∃ c rest, m = .visit ∧ s.listed = some (c :: rest)) ∨
    Carries s (s.step aead key m) ∧ (s.step aead key m).handles = s.handles := by
  cases m with
  | connect accountId secrets symbols nowMs => exact .inr ⟨.of_tasks rfl, rfl⟩
  | disconnect id => exact .inr ⟨.of_tasks rfl, rfl⟩
  | synced id nowMs => exact .inr ⟨.of_tasks rfl, rfl⟩
  | list nowMs =>
    unfold State.step
    dsimp only
    split <;> exact .inr ⟨.of_tasks rfl, rfl⟩
  | visit =>
    unfold State.step
    dsimp only
    split
    next c rest hlisted => exact .inl ⟨c, rest, rfl, hlisted⟩
    next => exact .inr ⟨.of_tasks rfl, rfl⟩
  | finish =>
    unfold State.step
    dsimp only
    split <;> exact .inr ⟨.of_tasks rfl, rfl⟩
  | subscribe i =>
    unfold State.step
    dsimp only
    split
    next t ht =>
      split_ifs with hfinished
      · exact .inr ⟨.of_tasks rfl, rfl⟩
      · exact .inr ⟨carries_setTask ht rfl rfl id, rfl⟩
    next => exact .inr ⟨.of_tasks rfl, rfl⟩
  | receive i trade =>
    unfold State.step
    dsimp only
    split
    next t ht =>
      split_ifs
      · exact .inr ⟨.of_tasks rfl, rfl⟩
      · unfold State.store
        split
        next => exact .inr ⟨carries_setTask ht rfl rfl (fun hrun => by cases hrun), rfl⟩
        next => exact .inr ⟨.of_tasks rfl, rfl⟩
    next => exact .inr ⟨.of_tasks rfl, rfl⟩
  | stop i =>
    unfold State.step
    dsimp only
    split
    next t ht => exact .inr ⟨carries_setTask ht rfl rfl (fun hrun => by cases hrun), rfl⟩
    next => exact .inr ⟨.of_tasks rfl, rfl⟩

theorem Handled.step (h : Handled s) (m : Move) : Handled (s.step aead key m) := by
  rcases step_carries m with ⟨c, rest, rfl, hlisted⟩ | ⟨hcarries, hhandles⟩
  · unfold State.step
    dsimp only
    rw [hlisted]
    exact h.ensureRunning c
  · exact h.carried hcarries hhandles

/-- Whatever is connected meanwhile, and whenever streams end, no connection gets a second one. -/
theorem handled_run (db : Database (List EncryptedField)) (moves : List Move) :
    Handled ((State.init db).run aead key moves) := by
  have hinit : Handled (State.init db) := fun i t hi => by cases hi
  generalize State.init db = s at hinit
  unfold State.run
  induction moves generalizing s with
  | nil => exact hinit
  | cons m moves ih => exact ih _ (hinit.step m)

end Running

section Following

variable {aead : Aead} {key : MasterKey} {s : State} {c : Row}

/-- A stream agrees with the row of its connection, unless that is new since a tick has passed; and within a
tick, unless it is new since the listing or still to be visited. -/
structure Current (aead : Aead) (key : MasterKey) (s : State) : Prop where
  sound : Sound s.db
  touched : ∀ id ∈ s.touched, id ∈ s.unsettled
  settled : ∀ c ∈ s.db.tables .binance, c.id ∉ s.unsettled → s.agrees aead key c = true
  tick : ∀ rows, s.listed = some rows → ∀ c ∈ s.db.tables .binance, c.id ∉ s.touched →
    (∃ r ∈ rows, r.id = c.id) ∨ s.agrees aead key c = true
  rows : ∀ rows, s.listed = some rows → ∀ r ∈ rows, ∀ c ∈ s.db.tables .binance, c.id = r.id → c.id ∉ s.touched →
    stored aead key .binance c = stored aead key .binance r
  follows : Follows s

theorem current_init {db : Database (List EncryptedField)} (h : Sound db) : Current aead key (State.init db) := by
  refine ⟨h, fun _ hid => (by cases hid), fun c _ _ => ?_, fun _ hlisted => (by cases hlisted),
    fun _ hlisted => (by cases hlisted), fun _ hf => (by cases hf)⟩
  exact agrees_iff.2 fun _ ht => (by cases ht)

/-- Only the streams have changed, and those that run ran before. -/
theorem Current.carried (h : Current aead key s) {tasks : List Task} (hcarries : Carries s { s with tasks }) :
    Current aead key { s with tasks } where
  sound := h.sound
  touched := h.touched
  settled c hc hid := hcarries.agrees (h.settled c hc hid)
  tick rows hlisted c hc hid := (h.tick rows hlisted c hc hid).imp_right hcarries.agrees
  rows := h.rows
  follows := h.follows

/-- The row that a connect writes is the one whose id it returns. -/
theorem mem_connect (hs : Sound s.db) {accountId : String} {secrets : List EncryptedField} {symbols : List String}
    {nowMs : ℕ} {c : Row}
    (hc : c ∈ (s.db.insert .binance accountId none secrets symbols none nowMs).2.tables .binance) :
    c ∈ s.db.tables .binance ∨ c.id = (s.db.insert .binance accountId none secrets symbols none nowMs).1 := by
  unfold Database.insert at hc ⊢
  cases hfind : s.db.find .binance accountId with
  | some found =>
    obtain ⟨hfound, hsame⟩ := (Connections.find_eq_some_iff hs).1 hfind
    rw [hfind] at hc
    dsimp only at hc ⊢
    rw [Rekey.mem_setTable, if_pos rfl] at hc
    obtain ⟨r, hr, rfl⟩ := List.mem_map.1 hc
    split_ifs with haccount
    · have heq : r = found := List.inj_on_of_nodup_map (hs.accounts .binance) hr hfound (haccount.trans hsame.symm)
      exact .inr (show r.id = found.id by rw [heq])
    · exact .inl hr
  | none =>
    rw [hfind] at hc
    change c ∈ (s.db.setTable .binance (s.db.tables .binance ++ [_])).tables .binance at hc
    rw [Rekey.mem_setTable, if_pos rfl, List.mem_append, List.mem_singleton] at hc
    rcases hc with hold | rfl
    · exact .inl hold
    · exact .inr rfl

theorem Current.connect (h : Current aead key s) (accountId : String) (secrets : List EncryptedField)
    (symbols : List String) (nowMs : ℕ) :
    Current aead key (s.step aead key (.connect accountId secrets symbols nowMs)) := by
  have hold : ∀ c ∈ (s.db.insert .binance accountId none secrets symbols none nowMs).2.tables .binance,
      ∀ ids, c.id ∉ (s.db.insert .binance accountId none secrets symbols none nowMs).1 :: ids →
        c ∈ s.db.tables .binance ∧ c.id ∉ ids := by
    intro c hc ids hid
    rw [List.mem_cons, not_or] at hid
    rcases mem_connect h.sound hc with hthere | hnew
    · exact ⟨hthere, hid.2⟩
    · exact absurd hnew hid.1
  refine ⟨(Rekey.insert_sound h.sound ..).1, ?_, fun c hc hid => ?_, fun rows hlisted c hc hid => ?_,
    fun rows hlisted r hr c hc hsame hid => ?_, h.follows⟩
  · intro id hid
    rcases List.mem_cons.1 hid with rfl | hid
    · exact List.mem_cons_self
    · exact List.mem_cons_of_mem _ (h.touched id hid)
  · obtain ⟨hthere, hid'⟩ := hold c hc _ hid
    exact h.settled c hthere hid'
  · obtain ⟨hthere, hid'⟩ := hold c hc _ hid
    exact h.tick rows hlisted c hthere hid'
  · obtain ⟨hthere, hid'⟩ := hold c hc _ hid
    exact h.rows rows hlisted r hr c hthere hsame hid'

theorem Current.disconnect (h : Current aead key s) (id : ℕ) : Current aead key (s.step aead key (.disconnect id)) := by
  have hold : ∀ c ∈ (s.db.delete .binance id).2.tables .binance, c ∈ s.db.tables .binance := by
    intro c hc
    change c ∈ (s.db.setTable .binance ((s.db.tables .binance).filter _)).tables .binance at hc
    rw [Rekey.mem_setTable, if_pos rfl] at hc
    exact List.mem_of_mem_filter hc
  exact ⟨(Connections.delete_effect s.db .binance id).sound h.sound, h.touched,
    fun c hc => h.settled c (hold c hc), fun rows hlisted c hc => h.tick rows hlisted c (hold c hc),
    fun rows hlisted r hr c hc => h.rows rows hlisted r hr c (hold c hc), h.follows⟩

theorem Current.synced (h : Current aead key s) (id nowMs : ℕ) : Current aead key (s.step aead key (.synced id nowMs)) := by
  have hold : ∀ c ∈ (s.db.markSynced .binance id nowMs).tables .binance, ∃ c₀ ∈ s.db.tables .binance,
      c₀.id = c.id ∧ stored aead key .binance c₀ = stored aead key .binance c := by
    intro c hc
    unfold Database.markSynced at hc
    rw [Rekey.mem_setTable, if_pos rfl] at hc
    obtain ⟨c₀, hc₀, rfl⟩ := List.mem_map.1 hc
    refine ⟨c₀, hc₀, ?_⟩
    split_ifs <;> exact ⟨rfl, rfl⟩
  have hagrees : ∀ {c c₀ : Row}, c₀.id = c.id → stored aead key .binance c₀ = stored aead key .binance c →
      s.agrees aead key c₀ = true → (s.step aead key (.synced id nowMs)).agrees aead key c = true := by
    intro c c₀ hid hstored hc₀
    rw [agrees_iff] at hc₀ ⊢
    intro t ht hrun hconnection
    rw [← hstored]
    exact hc₀ t ht hrun (hconnection.trans hid.symm)
  have hsound : Sound (s.db.markSynced .binance id nowMs) := by
    refine (Connections.keeps_setTable_map s.db .binance _ fun c => ?_).sound h.sound
    split_ifs <;> exact ⟨rfl, rfl⟩
  refine ⟨hsound, h.touched, fun c hc hid => ?_, fun rows hlisted c hc hid => ?_,
    fun rows hlisted r hr c hc hsame hid => ?_, h.follows⟩
  · obtain ⟨c₀, hc₀, hid₀, hstored⟩ := hold c hc
    exact hagrees hid₀ hstored (h.settled c₀ hc₀ (hid₀ ▸ hid))
  · obtain ⟨c₀, hc₀, hid₀, hstored⟩ := hold c hc
    have hthen := h.tick rows hlisted c₀ hc₀ (hid₀ ▸ hid)
    rw [hid₀] at hthen
    exact hthen.imp_right (hagrees hid₀ hstored)
  · obtain ⟨c₀, hc₀, hid₀, hstored⟩ := hold c hc
    rw [← hstored]
    exact h.rows rows hlisted r hr c₀ hc₀ (hid₀.trans hsame) (hid₀ ▸ hid)

/-- The listing reads the rows as they are, and leaves out none that a stream of it disagrees with. -/
theorem Current.list (h : Current aead key s) {nowMs : ℕ} (hlisted : s.listed = none)
    (hundisturbed : undisturbed aead key s (.list nowMs) = true) :
    Current aead key { s with listed := some ((s.db.tables .binance).filter (due nowMs)), touched := [] } := by
  refine ⟨h.sound, fun _ hid => (by cases hid), h.settled, fun rows hrows c hc _ => ?_,
    fun rows hrows r hr c hc hsame _ => ?_, h.follows⟩
  · cases hrows
    simp only [undisturbed, hlisted, Option.isNone_none, if_true, List.all_eq_true, Bool.or_eq_true] at hundisturbed
    rcases hundisturbed c hc with hdue | hagrees
    · exact .inl ⟨c, List.mem_filter.2 ⟨hc, hdue⟩, rfl⟩
    · exact .inr hagrees
  · cases hrows
    rw [List.inj_on_of_nodup_map (h.sound.idsNodup .binance) hc (List.mem_of_mem_filter hr) hsame]

/-- A visit takes the row off the listing once its stream agrees with it. -/
theorem Current.visit (h : Current aead key s) {rest : List Row} (hlisted : s.listed = some (c :: rest))
    (hagrees : s.agrees aead key c = true) : Current aead key { s with listed := some rest } := by
  refine ⟨h.sound, h.touched, h.settled, fun rows hrows c' hc' hid => ?_, fun rows hrows r hr => ?_, h.follows⟩
  · cases hrows
    rcases h.tick _ hlisted c' hc' hid with ⟨r, hr, hsame⟩ | hthen
    · rcases List.mem_cons.1 hr with rfl | hr
      · right
        rw [agrees_iff] at hagrees ⊢
        intro t ht hrun hconnection
        rw [h.rows _ hlisted r List.mem_cons_self c' hc' hsame.symm hid]
        exact hagrees t ht hrun (hconnection.trans hsame.symm)
      · exact .inl ⟨r, hr, hsame⟩
    · exact .inr hthen
  · cases hrows
    exact h.rows _ hlisted r (List.mem_cons_of_mem _ hr)

/-- A stream that is started has the credential that was listed. -/
theorem Current.ensureRunning (h : Current aead key s) {rest : List Row} (hlisted : s.listed = some (c :: rest)) :
    Current aead key (s.ensureRunning aead key c) ∧
      (s.agrees aead key c = true → (s.ensureRunning aead key c).agrees aead key c = true) := by
  rcases ensureRunning_cases s c with hsame | ⟨-, credential, hstored, hnew⟩
  · rw [hsame]
    exact ⟨h, id⟩
  · rw [hnew]
    have hagrees : ∀ {c' : Row}, (c'.id = c.id → stored aead key .binance c' = some credential) →
        s.agrees aead key c' = true → State.agrees aead key { s with
          tasks := s.tasks ++ [⟨c.id, credential, false, false⟩]
          handles := Function.update s.handles c.id (some s.tasks.length) } c' = true := by
      intro c' hc' hthen
      rw [agrees_iff] at hthen ⊢
      intro t ht hrun hconnection
      rcases List.mem_append.1 ht with hold | hlast
      · exact hthen t hold hrun hconnection
      · rw [List.mem_singleton] at hlast
        subst hlast
        exact hc' hconnection.symm
    have hlistedRow : ∀ c' ∈ s.db.tables .binance, c'.id ∉ s.touched → c'.id = c.id →
        stored aead key .binance c' = some credential := by
      intro c' hc' hid hsame
      rw [h.rows _ hlisted c List.mem_cons_self c' hc' hsame hid]
      exact hstored
    refine ⟨⟨h.sound, h.touched, fun c' hc' hid => ?_, fun rows hrows c' hc' hid => ?_, h.rows, h.follows⟩,
      hagrees fun _ => hstored⟩
    · exact hagrees (hlistedRow c' hc' fun htouched => hid (h.touched _ htouched)) (h.settled c' hc' hid)
    · exact (h.tick rows hrows c' hc' hid).imp_right (hagrees (hlistedRow c' hc' hid))

/-- With the last visit the tick has passed every connection that was not made since its listing. -/
theorem Current.finish (h : Current aead key s) (hlisted : s.listed = some []) :
    Current aead key { s with listed := none, unsettled := s.unsettled.filter (· ∈ s.touched) } := by
  refine ⟨h.sound, fun id hid => ?_, fun c hc hid => ?_, fun _ hrows => (by cases hrows),
    fun _ hrows => (by cases hrows), h.follows⟩
  · exact List.mem_filter.2 ⟨h.touched id hid, decide_eq_true hid⟩
  · by_cases htouched : c.id ∈ s.touched
    · exact absurd (List.mem_filter.2 ⟨h.touched _ htouched, decide_eq_true htouched⟩) hid
    · rcases h.tick _ hlisted c hc htouched with ⟨r, hr, -⟩ | hagrees
      · cases hr
      · exact hagrees

/-- What a stream stores once a tick has passed it has received with the credential of the row. -/
theorem Current.store (h : Current aead key s) {i : ℕ} {t : Task} (ht : s.tasks[i]? = some t)
    (hrun : t.finished = false) (trade : Trade) : Current aead key (s.store aead key i t trade) := by
  unfold State.store
  split
  next => exact h.carried (carries_setTask ht rfl rfl fun hrun => by cases hrun)
  next c hfind =>
    have hid := List.find?_some hfind
    rw [decide_eq_true_eq] at hid
    refine ⟨h.sound, h.touched, h.settled, h.tick, h.rows, fun f hf hsettled => ?_⟩
    change f ∈ FirstWins.insertAll fillKey s.fills [_] at hf
    rcases FirstWins.mem_of_mem_insertAll hf with hold | hnew
    · exact h.follows f hold hsettled
    · rw [List.mem_singleton] at hnew
      subst hnew
      have hunsettled : c.id ∉ s.unsettled := by
        rw [hid]
        exact of_decide_eq_true hsettled
      have hagrees := h.settled c (List.mem_of_find?_eq_some hfind) hunsettled
      exact agrees_iff.1 hagrees t (List.mem_of_getElem? ht) hrun hid.symm

theorem Current.step (h : Current aead key s) {m : Move} (hm : undisturbed aead key s m = true) :
    Current aead key (s.step aead key m) := by
  cases m with
  | connect accountId secrets symbols nowMs => exact h.connect accountId secrets symbols nowMs
  | disconnect id => exact h.disconnect id
  | synced id nowMs => exact h.synced id nowMs
  | list nowMs =>
    unfold State.step
    dsimp only
    split
    next hlisted => exact h.list hlisted hm
    next => exact h
  | visit =>
    unfold State.step
    dsimp only
    split
    next c rest hlisted =>
      have hagrees : s.agrees aead key c = true := by
        unfold undisturbed at hm
        rw [hlisted] at hm
        exact hm
      obtain ⟨hstarted, hstill⟩ := h.ensureRunning hlisted
      have hlisted' : (s.ensureRunning aead key c).listed = some (c :: rest) := by
        rcases ensureRunning_cases s c with hsame | ⟨-, credential, -, hnew⟩
        · rw [hsame]
          exact hlisted
        · rw [hnew]
          exact hlisted
      exact hstarted.visit hlisted' (hstill hagrees)
    next => exact h
  | finish =>
    unfold State.step
    dsimp only
    split
    next hlisted => exact h.finish hlisted
    next => exact h
  | subscribe i =>
    unfold State.step
    dsimp only
    split
    next t ht =>
      split_ifs
      · exact h
      · exact h.carried (carries_setTask ht rfl rfl id)
    next => exact h
  | receive i trade =>
    unfold State.step
    dsimp only
    split
    next t ht =>
      split_ifs with hnot
      · exact h
      · rw [Bool.or_eq_true, not_or] at hnot
        exact h.store ht (Bool.eq_false_of_not_eq_true hnot.1) trade
    next => exact h
  | stop i =>
    unfold State.step
    dsimp only
    split
    next t ht => exact h.carried (carries_setTask ht rfl rfl fun hrun => by cases hrun)
    next => exact h

/-- As long as no tick finds a stream running with a credential that was replaced, the streams follow what is
stored: once a tick has passed, each fill was received with the credential stored when it came. One stream runs
for a connection at most, in any case. -/
theorem streams_follow_credential {db : Database (List EncryptedField)} (hdb : Sound db) (moves : List Move)
    (h : Runs.Along (State.step aead key) (fun s m => undisturbed aead key s m = true) (State.init db) moves) :
    Follows ((State.init db).run aead key moves) ∧ OneEach ((State.init db).run aead key moves) :=
  ⟨(h.invariant (fun _ _ hs hm => hs.step hm) (current_init hdb)).follows, (handled_run db moves).oneEach⟩

end Following

section Reconnected

open Rekey (labelling rotated someNonce)

/-- A credential of the account, encrypted. -/
def sealedAs (value : String) : List EncryptedField :=
  (Rekey.fields .binance).filterMap fun name =>
    encrypt labelling rotated someNonce value (Rekey.contextOf .binance "a" name)

def someTrade : Trade := ⟨"BTCUSDT", 1, "1", "1", "0", "", 0, true⟩

/-- An account is connected, its stream runs, and it is connected again with another key. -/
def reconnected : List Move :=
  [.connect "a" (sealedAs "old") [] 0, .list 0, .visit, .finish, .subscribe 0, .connect "a" (sealedAs "new") [] 1,
    .list 1, .visit, .finish, .receive 0 someTrade]

/-- The next tick finds the stream running and leaves it: what comes with the old key is stored for the account. -/
theorem replaced_key_stored : ¬ Follows ((State.init (Database.init _)).run labelling rotated reconnected) := by
  have hfills : ((State.init (Database.init _)).run labelling rotated reconnected).fills =
      [⟨0, someTrade, ["old", "old"], some ["new", "new"], true⟩] := by decide +kernel
  intro h
  have hfollows := h _ (by rw [hfills]; exact List.mem_singleton_self _) rfl
  exact absurd hfollows (by decide +kernel)

theorem streams_follow_credential_ended :
    Follows ((State.init (Database.init _)).run labelling rotated (reconnected.take 6 ++
      [.stop 0, .list 1, .visit, .finish, .subscribe 1, .receive 1 someTrade])) ∧
    OneEach ((State.init (Database.init _)).run labelling rotated (reconnected.take 6 ++
      [.stop 0, .list 1, .visit, .finish, .subscribe 1, .receive 1 someTrade])) :=
  streams_follow_credential Connections.sound_init _ (by decide +kernel)

end Reconnected

end Linvesther.Worker.Streams
