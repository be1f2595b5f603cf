import Mathlib

/-! Realized and unrealized profit for each position since an account was connected, at average cost. -/

namespace Linvesther.Worker

section Pnl

inductive PnlEvent where
  | acquire (asset : String) (quantity unitPrice : ℚ)
  | dispose (asset : String) (quantity unitPrice : ℚ)
  | withdraw (asset : String) (quantity : ℚ)
  | fee (value : ℚ)
deriving DecidableEq

structure PositionPnl where
  asset : String
  quantity : ℚ
  averageCost : Option ℚ
  markPrice : ℚ
  realized : ℚ
  unrealized : Option ℚ
deriving DecidableEq

structure PnlSummary where
  positions : List PositionPnl
  realized : ℚ
  unrealized : ℚ
  fees : ℚ
deriving DecidableEq

structure Lot where
  held : ℚ
  averageCost : ℚ
  realized : ℚ
deriving DecidableEq

def Lot.empty : Lot := ⟨0, 0, 0⟩

def Lot.acquire (lot : Lot) (quantity price : ℚ) : Lot :=
  let total := lot.held + quantity
  { lot with
    averageCost := if total > 0 then (lot.held * lot.averageCost + quantity * price) / total
      else lot.averageCost
    held := total }

def Lot.dispose (lot : Lot) (quantity price : ℚ) : Lot :=
  let matched := min quantity lot.held
  { lot with
    realized := lot.realized + matched * (price - lot.averageCost)
    held := lot.held - matched }

def Lot.withdraw (lot : Lot) (quantity : ℚ) : Lot :=
  { lot with held := lot.held - min quantity lot.held }

/-- The lots by asset, and the fees. -/
structure PnlState where
  lots : Std.TreeMap String Lot
  fees : ℚ

def PnlState.update (s : PnlState) (asset : String) (f : Lot → Lot) : PnlState :=
  { s with lots := s.lots.alter asset fun lot => some (f (lot.getD .empty)) }

def pnlStep (s : PnlState) : PnlEvent → PnlState
  | .acquire asset quantity unitPrice => s.update asset fun lot => lot.acquire quantity unitPrice
  | .dispose asset quantity unitPrice => s.update asset fun lot => lot.dispose quantity unitPrice
  | .withdraw asset quantity =>
    -- an asset with no lot gets none
    { s with lots := s.lots.modify asset fun lot => lot.withdraw quantity }
  | .fee value => { s with fees := s.fees + value }

/-- What is said of one asset; one that is not held and realized nothing is left out. -/
def positionOf (lots : Std.TreeMap String Lot) (currentQuantities marks : Std.TreeMap String ℚ)
    (asset : String) : Option PositionPnl :=
  let quantity := currentQuantities.getD asset 0
  let lot := lots[asset]?
  let realized := (lot.map Lot.realized).getD 0
  if quantity = 0 ∧ realized = 0 then none
  else
    let markPrice := marks.getD asset 0
    let averageCost := (lot.filter fun l => l.held > 0).map Lot.averageCost
    some ⟨asset, quantity, averageCost, markPrice, realized,
      averageCost.map fun cost => (markPrice - cost) * quantity⟩

def computePnl (openings : List (String × ℚ × ℚ)) (events : List PnlEvent)
    (currentQuantities marks : Std.TreeMap String ℚ) : PnlSummary :=
  let opened := (openings.map fun o => PnlEvent.acquire o.1 o.2.1 o.2.2).foldl pnlStep ⟨∅, 0⟩
  let s := events.foldl pnlStep opened
  let assets := (Std.TreeSet.ofList (s.lots.keys ++ currentQuantities.keys)).toList
  let positions := assets.filterMap (positionOf s.lots currentQuantities marks)
  { positions
    realized := (positions.map PositionPnl.realized).sum
    unrealized := (positions.map fun p => p.unrealized.getD 0).sum
    fees := s.fees }

end Pnl

section Books

/-- The lot of an asset; one that was never met holds nothing. -/
def PnlState.lot (s : PnlState) (asset : String) : Lot := s.lots[asset]?.getD .empty

def PnlState.start : PnlState := ⟨∅, 0⟩

def openingEvents (openings : List (String × ℚ × ℚ)) : List PnlEvent :=
  openings.map fun o => .acquire o.1 o.2.1 o.2.2

/-- Every event with the state that it meets. -/
def moments : PnlState → List PnlEvent → List (PnlState × PnlEvent)
  | _, [] => []
  | s, e :: events => (s, e) :: moments (pnlStep s e) events

def PnlEvent.quantity : PnlEvent → ℚ
  | .acquire _ quantity _ => quantity
  | .dispose _ quantity _ => quantity
  | .withdraw _ quantity => quantity
  | .fee _ => 0

def PnlEvent.removes : PnlEvent → Prop
  | .dispose .. => True
  | .withdraw .. => True
  | _ => False

variable (asset : String)

/-- What an event does to the lot of the asset. -/
def PnlEvent.onLot (lot : Lot) : PnlEvent → Lot
  | .acquire a quantity unitPrice => if a = asset then lot.acquire quantity unitPrice else lot
  | .dispose a quantity unitPrice => if a = asset then lot.dispose quantity unitPrice else lot
  | .withdraw a quantity => if a = asset then lot.withdraw quantity else lot
  | .fee _ => lot

/-- What was paid for what comes in. -/
def PnlEvent.acquiredCost : PnlEvent → ℚ
  | .acquire a quantity unitPrice => if a = asset then quantity * unitPrice else 0
  | _ => 0

/-- What a disposal finds of its quantity. -/
def PnlEvent.matched (lot : Lot) : PnlEvent → ℚ
  | .dispose a quantity _ => if a = asset then min quantity lot.held else 0
  | _ => 0

def PnlEvent.disposalPrice : PnlEvent → ℚ
  | .dispose _ _ unitPrice => unitPrice
  | _ => 0

/-- What a withdrawal finds of its quantity. -/
def PnlEvent.withdrawn (lot : Lot) : PnlEvent → ℚ
  | .withdraw a quantity => if a = asset then min quantity lot.held else 0
  | _ => 0

/-- The sum over all moments of what each counts, by the lot that the event meets. -/
def total (count : Lot → PnlEvent → ℚ) (past : List (PnlState × PnlEvent)) : ℚ :=
  (past.map fun m => count (m.1.lot asset) m.2).sum

def acquiredTotal := total asset fun _ e => e.acquiredCost asset

def matchedCost := total asset fun lot e => e.matched asset lot * lot.averageCost

def withdrawnCost := total asset fun lot e => e.withdrawn asset lot * lot.averageCost

def proceeds := total asset fun lot e => e.matched asset lot * e.disposalPrice

/-- The books of one asset after those moments. -/
structure Accounted (s : PnlState) (past : List (PnlState × PnlEvent)) : Prop where
  held_nonneg : 0 ≤ (s.lot asset).held
  cost : acquiredTotal asset past = (s.lot asset).held * (s.lot asset).averageCost +
    matchedCost asset past + withdrawnCost asset past
  realized : (s.lot asset).realized = proceeds asset past - matchedCost asset past

variable {asset} {s : PnlState} {lot : Lot}

theorem total_append (count : Lot → PnlEvent → ℚ) (past : List (PnlState × PnlEvent)) (e : PnlEvent) :
    total asset count (past ++ [(s, e)]) = total asset count past + count (s.lot asset) e := by
  unfold total
  rw [List.map_append, List.sum_append]
  simp

theorem lot_update (a : String) (f : Lot → Lot) :
    (s.update a f).lot asset = if a = asset then f (s.lot asset) else s.lot asset := by
  unfold PnlState.update PnlState.lot
  rw [Std.TreeMap.getElem?_alter]
  by_cases h : a = asset
  · subst h
    simp
  · rw [if_neg h, if_neg fun hcompare => h (Std.LawfulEqCmp.compare_eq_iff_eq.1 hcompare)]

theorem lot_modify (a : String) {quantity : ℚ} (h : 0 ≤ quantity) :
    (pnlStep s (.withdraw a quantity)).lot asset =
      if a = asset then (s.lot asset).withdraw quantity else s.lot asset := by
  unfold pnlStep PnlState.lot
  rw [Std.TreeMap.getElem?_modify]
  by_cases ha : a = asset
  · subst ha
    rw [if_pos Std.ReflCmp.compare_self, if_pos rfl]
    cases s.lots[a]? with
    | none => simp [Lot.withdraw, Lot.empty, h]
    | some lot => rfl
  · rw [if_neg ha, if_neg fun hcompare => ha (Std.LawfulEqCmp.compare_eq_iff_eq.1 hcompare)]

/-- An event reaches the lot of its own asset only. -/
theorem lot_pnlStep {e : PnlEvent} (he : 0 ≤ e.quantity) :
    (pnlStep s e).lot asset = e.onLot asset (s.lot asset) := by
  cases e with
  | acquire a quantity unitPrice => exact lot_update a _
  | dispose a quantity unitPrice => exact lot_update a _
  | withdraw a quantity => exact lot_modify a he
  | fee value => rfl

theorem Lot.acquire_cost (hheld : 0 ≤ lot.held) {quantity : ℚ} (h : 0 ≤ quantity) (price : ℚ) :
    (lot.acquire quantity price).held * (lot.acquire quantity price).averageCost =
      lot.held * lot.averageCost + quantity * price := by
  unfold Lot.acquire
  dsimp only
  split_ifs with htotal
  · field_simp
  · have hzero : lot.held = 0 := by linarith
    have hquantity : quantity = 0 := by linarith
    rw [hzero, hquantity]
    ring

theorem onLot_held_nonneg {e : PnlEvent} (hheld : 0 ≤ lot.held) (he : 0 ≤ e.quantity) :
    0 ≤ (e.onLot asset lot).held := by
  cases e <;> simp only [PnlEvent.onLot] <;> try split_ifs
  · exact add_nonneg hheld he
  · exact hheld
  · exact sub_nonneg.2 (min_le_right _ _)
  · exact hheld
  · exact sub_nonneg.2 (min_le_right _ _)
  · exact hheld
  · exact hheld

/-- What is held is worth at cost what it was worth, and what came in, less what went out. -/
theorem onLot_cost {e : PnlEvent} (hheld : 0 ≤ lot.held) (he : 0 ≤ e.quantity) :
    (e.onLot asset lot).held * (e.onLot asset lot).averageCost =
      lot.held * lot.averageCost + e.acquiredCost asset - e.matched asset lot * lot.averageCost -
        e.withdrawn asset lot * lot.averageCost := by
  cases e with
  | acquire a quantity unitPrice =>
    simp only [PnlEvent.onLot, PnlEvent.acquiredCost, PnlEvent.matched, PnlEvent.withdrawn]
    have hquantity : 0 ≤ quantity := he
    split_ifs
    · rw [Lot.acquire_cost hheld hquantity]
      ring
    · ring
  | dispose a quantity unitPrice =>
    simp only [PnlEvent.onLot, PnlEvent.acquiredCost, PnlEvent.matched, PnlEvent.withdrawn, Lot.dispose]
    split_ifs <;> ring
  | withdraw a quantity =>
    simp only [PnlEvent.onLot, PnlEvent.acquiredCost, PnlEvent.matched, PnlEvent.withdrawn, Lot.withdraw]
    split_ifs <;> ring
  | fee value =>
    simp only [PnlEvent.onLot, PnlEvent.acquiredCost, PnlEvent.matched, PnlEvent.withdrawn]
    ring

theorem onLot_realized (e : PnlEvent) :
    (e.onLot asset lot).realized =
      lot.realized + e.matched asset lot * e.disposalPrice - e.matched asset lot * lot.averageCost := by
  cases e with
  | dispose a quantity unitPrice =>
    simp only [PnlEvent.onLot, PnlEvent.matched, PnlEvent.disposalPrice, Lot.dispose]
    split_ifs <;> ring
  | acquire a quantity unitPrice =>
    simp only [PnlEvent.onLot, PnlEvent.matched, Lot.acquire]
    split_ifs <;> ring
  | withdraw a quantity =>
    simp only [PnlEvent.onLot, PnlEvent.matched, Lot.withdraw]
    split_ifs <;> ring
  | fee value =>
    simp only [PnlEvent.onLot, PnlEvent.matched]
    ring

/-- What leaves does not change what the rest costs on average. -/
theorem onLot_averageCost {e : PnlEvent} (h : e.removes) :
    (e.onLot asset lot).averageCost = lot.averageCost := by
  cases e with
  | dispose a quantity unitPrice =>
    simp only [PnlEvent.onLot, Lot.dispose]
    split_ifs <;> rfl
  | withdraw a quantity =>
    simp only [PnlEvent.onLot, Lot.withdraw]
    split_ifs <;> rfl
  | acquire a quantity unitPrice => exact h.elim
  | fee value => exact h.elim

theorem Accounted.step {past : List (PnlState × PnlEvent)} {e : PnlEvent} (h : Accounted asset s past)
    (he : 0 ≤ e.quantity) : Accounted asset (pnlStep s e) (past ++ [(s, e)]) := by
  have hlot := @lot_pnlStep asset s e he
  refine ⟨?_, ?_, ?_⟩
  · rw [hlot]
    exact onLot_held_nonneg h.held_nonneg he
  · have hcost := h.cost
    rw [hlot, onLot_cost h.held_nonneg he]
    unfold acquiredTotal matchedCost withdrawnCost at hcost ⊢
    rw [total_append, total_append, total_append]
    linarith
  · have hrealized := h.realized
    rw [hlot, onLot_realized]
    unfold proceeds matchedCost at hrealized ⊢
    rw [total_append, total_append]
    linarith

theorem Accounted.run {past : List (PnlState × PnlEvent)} {events : List PnlEvent}
    (h : Accounted asset s past) (he : ∀ e ∈ events, 0 ≤ e.quantity) :
    Accounted asset (events.foldl pnlStep s) (past ++ moments s events) := by
  induction events generalizing s past with
  | nil =>
    rw [moments, List.append_nil]
    exact h
  | cons e events ih =>
    have hstep := ih (h.step (he e List.mem_cons_self)) fun e' he' => he e' (List.mem_cons_of_mem _ he')
    rwa [List.append_assoc] at hstep

theorem accounted_start (asset : String) : Accounted asset .start [] := by
  have hlot : PnlState.start.lot asset = .empty := by
    unfold PnlState.lot PnlState.start
    simp
  refine ⟨?_, ?_, ?_⟩ <;> rw [hlot] <;>
    simp [Lot.empty, acquiredTotal, matchedCost, withdrawnCost, proceeds, total]

end Books

section Identity

/-- The lots after the openings and those events. -/
def runPnl (openings : List (String × ℚ × ℚ)) (events : List PnlEvent) : PnlState :=
  events.foldl pnlStep ((openingEvents openings).foldl pnlStep .start)

def history (openings : List (String × ℚ × ℚ)) (events : List PnlEvent) : List (PnlState × PnlEvent) :=
  moments .start (openingEvents openings ++ events)

theorem accounted_runPnl {openings : List (String × ℚ × ℚ)} {events : List PnlEvent}
    (hopenings : ∀ o ∈ openings, 0 ≤ o.2.1) (hevents : ∀ e ∈ events, 0 ≤ e.quantity) (asset : String) :
    Accounted asset (runPnl openings events) (history openings events) := by
  have hall : ∀ e ∈ openingEvents openings ++ events, 0 ≤ e.quantity := by
    intro e he
    rcases List.mem_append.1 he with hopening | hevent
    · obtain ⟨o, ho, rfl⟩ := List.mem_map.1 hopening
      exact hopenings o ho
    · exact hevents e hevent
  have hrun := (accounted_start asset).run hall
  rwa [List.foldl_append, List.nil_append] at hrun

theorem mem_positions {openings : List (String × ℚ × ℚ)} {events : List PnlEvent}
    {currentQuantities marks : Std.TreeMap String ℚ} {p : PositionPnl}
    (hp : p ∈ (computePnl openings events currentQuantities marks).positions) :
    p.realized = ((runPnl openings events).lot p.asset).realized ∧
      ∀ cost, p.averageCost = some cost → cost = ((runPnl openings events).lot p.asset).averageCost := by
  obtain ⟨asset, -, hposition⟩ := List.mem_filterMap.1 hp
  change positionOf (runPnl openings events).lots currentQuantities marks asset = some p at hposition
  unfold PnlState.lot
  unfold positionOf at hposition
  dsimp only at hposition
  split_ifs at hposition
  rw [Option.some.injEq] at hposition
  subst hposition
  dsimp only
  cases (runPnl openings events).lots[asset]? with
  | none => exact ⟨rfl, by simp⟩
  | some lot =>
    refine ⟨rfl, fun cost hcost => ?_⟩
    rw [Option.map_eq_some_iff] at hcost
    obtain ⟨l, hl, rfl⟩ := hcost
    rw [Option.filter_eq_some_iff, Option.some.injEq] at hl
    rw [hl.1, Option.getD_some]

end Identity

end Linvesther.Worker
