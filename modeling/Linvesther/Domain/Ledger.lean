import Linvesther.Base.OrderedMap
import Linvesther.Base.Transaction

/-! The ledger: it takes events in, once each, and keeps a balance for every asset. -/

namespace Linvesther.Domain

open Transaction

section Ledger

structure LedgerLeg where
  asset : String
  amount : String
  isCredit : Bool
deriving DecidableEq

structure LedgerEvent where
  sourceNamespace : String
  sourceId : String
  economicTimeMs : UInt64
  observedTimeMs : UInt64
  legs : List LedgerLeg
  fee : Option LedgerLeg
deriving DecidableEq

def LedgerEvent.key (e : LedgerEvent) : String × String := (e.sourceNamespace, e.sourceId)

inductive LedgerError where
  | conflict (namespace_ sourceId : String)
  | invalidAmount (asset amount : String)
deriving DecidableEq

/-- Events by namespace and id, in the order of the pair. -/
abbrev Events := Std.TreeMap (String × String) LedgerEvent (@compare _ lexOrd)

structure Ledger where
  events : Events
  balances : Std.TreeMap String ℚ

def Ledger.new : Ledger := ⟨∅, ∅⟩

variable (fromStr : String → Option ℚ)

def signedAmount (leg : LedgerLeg) : Except LedgerError ℚ :=
  match fromStr leg.amount with
  | none => .error (.invalidAmount leg.asset leg.amount)
  | some amount => .ok (if leg.isCredit then amount else -amount)

/-- The legs and then the fee. -/
def LedgerEvent.allLegs (e : LedgerEvent) : List LedgerLeg := e.legs ++ e.fee.toList

/-- The first loop of `ingest`: every amount is read before any balance changes. -/
def readDeltas : List LedgerLeg → Except LedgerError (List (String × ℚ))
  | [] => pure []
  | leg :: legs => do
    let delta ← signedAmount fromStr leg
    let deltas ← readDeltas legs
    pure ((leg.asset, delta) :: deltas)

/-- The second loop of `ingest`. -/
def applyDeltas (balances : Std.TreeMap String ℚ) (deltas : List (String × ℚ)) :
    Std.TreeMap String ℚ :=
  deltas.foldl (fun balances d => balances.alter d.1 fun b => some (b.getD 0 + d.2)) balances

/-- What `ingest` returns, and the ledger it leaves. -/
def Ledger.ingest (ledger : Ledger) (event : LedgerEvent) : Except LedgerError Unit × Ledger :=
  let key := event.key
  match ledger.events[key]? with
  | some existing =>
    if existing = event then (.ok (), ledger) else (.error (.conflict key.1 key.2), ledger)
  | none =>
    match readDeltas fromStr event.allLegs with
    | .error e => (.error e, ledger)
    | .ok deltas =>
      (.ok (), ⟨ledger.events.insert key event, applyDeltas ledger.balances deltas⟩)

def Ledger.balance (ledger : Ledger) (asset : String) : ℚ := ledger.balances.getD asset 0

def Ledger.event (ledger : Ledger) (namespace_ sourceId : String) : Option LedgerEvent :=
  ledger.events[(namespace_, sourceId)]?

def Ledger.eventCount (ledger : Ledger) : ℕ := ledger.events.size

def Ledger.assets (ledger : Ledger) : List String := ledger.balances.keys

/-- The ledger after a sequence of calls, whatever each of them returned. -/
def Ledger.ingestAll (ledger : Ledger) (events : List LedgerEvent) : Ledger :=
  events.foldl (fun l e => (l.ingest fromStr e).2) ledger

end Ledger

section Conservation

variable (fromStr : String → Option ℚ)

/-- What a leg adds to the balance of an asset. -/
def LedgerLeg.effect (asset : String) (leg : LedgerLeg) : ℚ :=
  if leg.asset = asset then (signedAmount fromStr leg).toOption.getD 0 else 0

/-- The signed legs and the fee of an event, as far as they are of one asset. -/
def LedgerEvent.effect (asset : String) (e : LedgerEvent) : ℚ :=
  (e.allLegs.map (LedgerLeg.effect fromStr asset)).sum

/-- Every amount of the event is a decimal. -/
def LedgerEvent.Valid (e : LedgerEvent) : Prop :=
  ∀ leg ∈ e.allLegs, (fromStr leg.amount).isSome

/-- The effect of the stored events, each taken once. -/
def Ledger.stored (ledger : Ledger) (asset : String) : ℚ :=
  (ledger.events.toList.map fun p => p.2.effect fromStr asset).sum

variable {fromStr}

theorem readDeltas_ok {legs : List LedgerLeg} {deltas : List (String × ℚ)}
    (h : readDeltas fromStr legs = .ok deltas) (asset : String) :
    ((deltas.filter fun d => d.1 = asset).map Prod.snd).sum =
      (legs.map (LedgerLeg.effect fromStr asset)).sum := by
  induction legs generalizing deltas with
  | nil =>
    simp only [readDeltas, pure_ok] at h
    subst h
    rfl
  | cons leg legs ih =>
    simp only [readDeltas, bind_ok, pure_ok] at h
    obtain ⟨delta, hdelta, deltas', hrest, rfl⟩ := h
    have hsum := ih hrest
    have heffect : LedgerLeg.effect fromStr asset leg = if leg.asset = asset then delta else 0 := by
      unfold LedgerLeg.effect
      rw [hdelta]
      rfl
    rw [List.map_cons, List.sum_cons, heffect, ← hsum]
    by_cases ha : leg.asset = asset
    · simp [ha]
    · simp [ha]

theorem signedAmount_returns {leg : LedgerLeg} :
    (∃ delta, signedAmount fromStr leg = .ok delta) ↔ (fromStr leg.amount).isSome := by
  unfold signedAmount
  rcases fromStr leg.amount with _ | amount
  · simp
  · simp

theorem readDeltas_returns {legs : List LedgerLeg} :
    (∃ deltas, readDeltas fromStr legs = .ok deltas) ↔
      ∀ leg ∈ legs, (fromStr leg.amount).isSome := by
  induction legs with
  | nil => simp [readDeltas, pure_ok]
  | cons leg legs ih =>
    rw [List.forall_mem_cons, ← signedAmount_returns, ← ih]
    simp only [readDeltas, bind_ok, pure_ok]
    constructor
    · rintro ⟨_, delta, hdelta, deltas, hdeltas, -⟩
      exact ⟨⟨delta, hdelta⟩, deltas, hdeltas⟩
    · rintro ⟨⟨delta, hdelta⟩, deltas, hdeltas⟩
      exact ⟨_, delta, hdelta, deltas, hdeltas, rfl⟩

/-- Every delta goes to the balance of its asset, however often the asset comes up. -/
theorem getD_applyDeltas (balances : Std.TreeMap String ℚ) (deltas : List (String × ℚ))
    (asset : String) :
    (applyDeltas balances deltas).getD asset 0 =
      balances.getD asset 0 + ((deltas.filter fun d => d.1 = asset).map Prod.snd).sum := by
  unfold applyDeltas
  induction deltas generalizing balances with
  | nil => simp
  | cons d deltas ih =>
    have hone : (balances.alter d.1 fun b => some (b.getD 0 + d.2)).getD asset 0 =
        balances.getD asset 0 + if d.1 = asset then d.2 else 0 := by
      rw [Std.TreeMap.getD_eq_getD_getElem?, Std.TreeMap.getD_eq_getD_getElem?,
        Std.TreeMap.getElem?_alter]
      simp only [Std.compare_eq_iff_eq]
      by_cases h : d.1 = asset
      · simp [h]
      · simp [h]
    rw [List.foldl_cons, ih, hone, add_assoc]
    by_cases h : d.1 = asset
    · simp [h]
    · simp [h]

/-- An error leaves the ledger as it was. -/
theorem ingest_error {ledger : Ledger} {e : LedgerEvent} {x : LedgerError}
    (h : (ledger.ingest fromStr e).1 = .error x) : (ledger.ingest fromStr e).2 = ledger := by
  unfold Ledger.ingest at h ⊢
  dsimp only at h ⊢
  rcases hevent : ledger.events[e.key]? with _ | existing
  · rcases hread : readDeltas fromStr e.allLegs with y | deltas
    · rfl
    · simp [hevent, hread] at h
  · by_cases hsame : existing = e
    · simp [hsame]
    · simp [hsame]

/-- A repeated event leaves the ledger as it was. -/
theorem ingest_repeat {ledger : Ledger} {e : LedgerEvent} (h : ledger.events[e.key]? = some e) :
    ledger.ingest fromStr e = (.ok (), ledger) := by
  unfold Ledger.ingest
  simp [h]

/-- A new valid event is stored and its effect is added. -/
structure Stores (fromStr : String → Option ℚ) (ledger ledger' : Ledger) (e : LedgerEvent) :
    Prop where
  fresh : ledger.events[e.key]? = none
  valid : e.Valid fromStr
  events : ledger'.events = ledger.events.insert e.key e
  balance : ∀ asset, ledger'.balance asset = ledger.balance asset + e.effect fromStr asset

variable (fromStr) in
/-- What a call does: it stores the event, or it changes nothing and the event was there already or
is not valid. -/
theorem ingest_cases (ledger : Ledger) (e : LedgerEvent) :
    Stores fromStr ledger (ledger.ingest fromStr e).2 e ∨
    (ledger.ingest fromStr e).2 = ledger ∧
      ((∃ existing, ledger.events[e.key]? = some existing) ∨ ¬ e.Valid fromStr) := by
  unfold Ledger.ingest
  dsimp only
  rcases hevent : ledger.events[e.key]? with _ | existing
  · rcases hread : readDeltas fromStr e.allLegs with x | deltas
    · refine .inr ⟨rfl, .inr fun hvalid => ?_⟩
      obtain ⟨deltas, hok⟩ := readDeltas_returns.2 hvalid
      rw [hread] at hok
      cases hok
    · refine .inl ⟨hevent, readDeltas_returns.1 ⟨deltas, hread⟩, rfl, fun asset => ?_⟩
      unfold Ledger.balance LedgerEvent.effect
      rw [getD_applyDeltas, readDeltas_ok hread]
  · refine .inr ⟨?_, .inl ⟨existing, rfl⟩⟩
    by_cases hsame : existing = e
    · simp [hsame]
    · simp [hsame]

/-- The balances are those of the stored events, each under its own key. -/
structure Ledger.Sound (fromStr : String → Option ℚ) (ledger : Ledger) : Prop where
  balance : ∀ asset, ledger.balance asset = ledger.stored fromStr asset
  keyed : ∀ k (e : LedgerEvent), ledger.events[k]? = some e → e.key = k

theorem Stores.getElem? {ledger ledger' : Ledger} {e : LedgerEvent}
    (h : Stores fromStr ledger ledger' e) (k : String × String) :
    ledger'.events[k]? = if e.key = k then some e else ledger.events[k]? := by
  rw [h.events, Std.TreeMap.getElem?_insert]
  simp only [Std.LawfulEqCmp.compare_eq_iff_eq]

theorem Stores.sound {ledger ledger' : Ledger} {e : LedgerEvent}
    (h : Stores fromStr ledger ledger' e) (hs : ledger.Sound fromStr) : ledger'.Sound fromStr := by
  refine ⟨fun asset => ?_, fun k e' hk => ?_⟩
  · have hperm := OrderedMap.perm_toList_insert h.fresh e
    have hsum := (hperm.map fun p => p.2.effect fromStr asset).sum_eq
    rw [List.map_cons, List.sum_cons] at hsum
    rw [h.balance, hs.balance, Ledger.stored, Ledger.stored, h.events, hsum, add_comm]
  · rw [h.getElem?] at hk
    split_ifs at hk with hkey
    · cases hk
      exact hkey
    · exact hs.keyed k e' hk

theorem ingest_sound {ledger : Ledger} (e : LedgerEvent) (hs : ledger.Sound fromStr) :
    (ledger.ingest fromStr e).2.Sound fromStr := by
  rcases ingest_cases fromStr ledger e with h | ⟨hsame, -⟩
  · exact h.sound hs
  · rw [hsame]
    exact hs

theorem ingestAll_cons (ledger : Ledger) (e : LedgerEvent) (events : List LedgerEvent) :
    ledger.ingestAll fromStr (e :: events) =
      (ledger.ingest fromStr e).2.ingestAll fromStr events := rfl

theorem ingestAll_sound {ledger : Ledger} (events : List LedgerEvent)
    (hs : ledger.Sound fromStr) : (ledger.ingestAll fromStr events).Sound fromStr := by
  induction events generalizing ledger with
  | nil => exact hs
  | cons e events ih => exact ih (ingest_sound e hs)

theorem new_sound : Ledger.new.Sound fromStr := by
  refine ⟨fun asset => ?_, fun k e hk => ?_⟩
  · rfl
  · simp [Ledger.new] at hk

end Conservation

section Order

variable {fromStr : String → Option ℚ}

/-- No two of the events, nor one of them and a stored one, have the same key and differ. -/
structure NonConflicting (ledger : Ledger) (events : List LedgerEvent) : Prop where
  among : ∀ e ∈ events, ∀ e' ∈ events, e.key = e'.key → e = e'
  stored : ∀ e ∈ events, ∀ e', ledger.events[e.key]? = some e' → e = e'

/-- What is stored after some events that do not conflict: what was there, and the valid ones. -/
theorem ingestAll_events {ledger : Ledger} {events : List LedgerEvent}
    (h : NonConflicting ledger events) (k : String × String) (e : LedgerEvent) :
    (ledger.ingestAll fromStr events).events[k]? = some e ↔
      ledger.events[k]? = some e ∨ e ∈ events ∧ e.key = k ∧ e.Valid fromStr := by
  induction events generalizing ledger with
  | nil => simp [Ledger.ingestAll]
  | cons e₀ events ih =>
    have hrest : NonConflicting (ledger.ingest fromStr e₀).2 events := by
      refine ⟨fun e he e' he' => h.among e (by simp [he]) e' (by simp [he']), fun e he e' hk => ?_⟩
      rcases ingest_cases fromStr ledger e₀ with hstores | ⟨hsame, -⟩
      · rw [hstores.getElem?] at hk
        split_ifs at hk with hkey
        · cases hk
          exact h.among e (by simp [he]) e₀ (by simp) hkey.symm
        · exact h.stored e (by simp [he]) e' hk
      · rw [hsame] at hk
        exact h.stored e (by simp [he]) e' hk
    rw [ingestAll_cons, ih hrest]
    rcases ingest_cases fromStr ledger e₀ with hstores | ⟨hsame, hwhy⟩
    · rw [hstores.getElem?, List.mem_cons]
      by_cases hkey : e₀.key = k
      · have hnone : ledger.events[k]? = none := hkey ▸ hstores.fresh
        rw [if_pos hkey, hnone]
        constructor
        · rintro (heq | ⟨he, hrest⟩)
          · cases heq
            exact .inr ⟨.inl rfl, hkey, hstores.valid⟩
          · exact .inr ⟨.inr he, hrest⟩
        · rintro (heq | ⟨rfl | he, hrest⟩)
          · cases heq
          · exact .inl rfl
          · exact .inr ⟨he, hrest⟩
      · have hne : e.key = k → e ≠ e₀ := by
          rintro hk rfl
          exact hkey hk
        rw [if_neg hkey]
        constructor
        · rintro (hold | ⟨he, hrest⟩)
          · exact .inl hold
          · exact .inr ⟨.inr he, hrest⟩
        · rintro (hold | ⟨heq | he, hrest⟩)
          · exact .inl hold
          · exact absurd heq (hne hrest.1)
          · exact .inr ⟨he, hrest⟩
    · rw [hsame, List.mem_cons]
      constructor
      · rintro (hold | ⟨he, hrest⟩)
        · exact .inl hold
        · exact .inr ⟨.inr he, hrest⟩
      · rintro (hold | ⟨rfl | he, hk, hvalid⟩)
        · exact .inl hold
        · rcases hwhy with ⟨existing, hexisting⟩ | hinvalid
          · have hstored := h.stored e (by simp) existing hexisting
            rw [← hstored, hk] at hexisting
            exact .inl hexisting
          · exact absurd hvalid hinvalid
        · exact .inr ⟨he, hk, hvalid⟩

/-- Two orders of the same events store the same events. -/
theorem ingestAll_events_perm {ledger : Ledger} {events events' : List LedgerEvent}
    (hperm : events.Perm events') (h : NonConflicting ledger events) (k : String × String) :
    (ledger.ingestAll fromStr events).events[k]? = (ledger.ingestAll fromStr events').events[k]? := by
  have h' : NonConflicting ledger events' :=
    ⟨fun e he e' he' => h.among e (hperm.mem_iff.2 he) e' (hperm.mem_iff.2 he'),
      fun e he => h.stored e (hperm.mem_iff.2 he)⟩
  refine Option.ext fun e => ?_
  rw [ingestAll_events h, ingestAll_events h', hperm.mem_iff]

/-- Sound ledgers that store the same events have the same balances. -/
theorem Ledger.Sound.balance_eq {ledger ledger' : Ledger} (hs : ledger.Sound fromStr)
    (hs' : ledger'.Sound fromStr)
    (hevents : ∀ k : String × String, ledger.events[k]? = ledger'.events[k]?) (asset : String) :
    ledger.balance asset = ledger'.balance asset := by
  rw [hs.balance, hs'.balance, Ledger.stored, Ledger.stored]
  exact ((OrderedMap.perm_toList hevents).map _).sum_eq

/-- Every stored event comes from one of the calls. -/
theorem ingestAll_known {ledger : Ledger} {events : List LedgerEvent} {k : String × String}
    {e : LedgerEvent} (h : (ledger.ingestAll fromStr events).events[k]? = some e) :
    ledger.events[k]? = some e ∨ e ∈ events := by
  induction events generalizing ledger with
  | nil => exact .inl h
  | cons e₀ events ih =>
    rw [ingestAll_cons] at h
    rcases ih h with hstored | he
    · rcases ingest_cases fromStr ledger e₀ with hstores | ⟨hsame, -⟩
      · rw [hstores.getElem?] at hstored
        split_ifs at hstored with hkey
        · cases hstored
          exact .inr List.mem_cons_self
        · exact .inl hstored
      · rw [hsame] at hstored
        exact .inl hstored
    · exact .inr (List.mem_cons_of_mem _ he)

/-- The ledger conserves. After any calls a balance is the effect of the stored events, each of them
ingested, kept under its own key and counted once; an error or a repetition changes nothing; and the
order of events that do not conflict does not matter. -/
theorem ledger_conservation (fromStr : String → Option ℚ) (calls : List LedgerEvent) :
    let ledger := Ledger.new.ingestAll fromStr calls
    (∀ asset, ledger.balance asset =
      (ledger.events.toList.map fun p => p.2.effect fromStr asset).sum) ∧
    (ledger.events.toList.map Prod.fst).Nodup ∧
    (∀ p ∈ ledger.events.toList, p.2 ∈ calls ∧ p.2.key = p.1 ∧
      ledger.event p.1.1 p.1.2 = some p.2) ∧
    (∀ e x, (ledger.ingest fromStr e).1 = .error x → (ledger.ingest fromStr e).2 = ledger) ∧
    (∀ e, ledger.event e.sourceNamespace e.sourceId = some e →
      ledger.ingest fromStr e = (.ok (), ledger)) ∧
    ∀ events events' : List LedgerEvent, events.Perm events' → NonConflicting ledger events →
      ∀ asset, (ledger.ingestAll fromStr events).balance asset =
        (ledger.ingestAll fromStr events').balance asset := by
  intro ledger
  have hs : ledger.Sound fromStr := ingestAll_sound calls new_sound
  refine ⟨hs.balance, ?_, fun p hp => ?_, fun e x => ingest_error, fun e he => ingest_repeat he,
    fun events events' hperm h asset => ?_⟩
  · rw [Std.TreeMap.map_fst_toList_eq_keys]
    exact Std.TreeMap.nodup_keys
  · have hk := OrderedMap.mem_toList.1 hp
    refine ⟨?_, hs.keyed _ _ hk, hk⟩
    rcases ingestAll_known hk with hnew | he
    · simp [Ledger.new] at hnew
    · exact he
  · exact (ingestAll_sound events hs).balance_eq (ingestAll_sound events' hs)
      (ingestAll_events_perm hperm h) asset

end Order

section Example

def exampleFromStr (s : String) : Option ℚ :=
  if s = "100" then some 100 else if s = "0.5" then some (1 / 2) else none

def exampleDeposit : LedgerEvent where
  sourceNamespace := "binance.deposit"
  sourceId := "d1"
  economicTimeMs := 1000
  observedTimeMs := 1001
  legs := [⟨"USDT", "100", true⟩]
  fee := none

/-- A withdrawal of half a unit with a fee of half a unit, in the same asset. -/
def exampleWithdrawal : LedgerEvent where
  sourceNamespace := "binance.withdrawal"
  sourceId := "w1"
  economicTimeMs := 2000
  observedTimeMs := 2001
  legs := [⟨"USDT", "0.5", false⟩]
  fee := some ⟨"USDT", "0.5", false⟩

theorem ledger_conservation_reordered :
    NonConflicting Ledger.new [exampleDeposit, exampleWithdrawal] ∧
    (Ledger.new.ingestAll exampleFromStr [exampleDeposit, exampleWithdrawal]).balance "USDT" =
      (Ledger.new.ingestAll exampleFromStr [exampleWithdrawal, exampleDeposit]).balance "USDT" := by
  obtain ⟨-, -, -, -, -, horder⟩ := ledger_conservation exampleFromStr []
  have hfree : NonConflicting Ledger.new [exampleDeposit, exampleWithdrawal] := by
    refine ⟨by decide, fun e _ e' he' => ?_⟩
    simp [Ledger.new] at he'
  exact ⟨hfree, horder _ _ (List.Perm.swap _ _ _) hfree "USDT"⟩

end Example

end Linvesther.Domain
