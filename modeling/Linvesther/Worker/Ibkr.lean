import Linvesther.Base.FirstWins

/-! `ibkr.rs`: an Interactive Brokers account is measured from one total a day and the deposits and withdrawals that
the report names, as they are stored. -/

namespace Linvesther.Worker.Ibkr

open FirstWins

section Stored

structure EquityPoint where
  reportDate : String
  total : ℚ

structure CashFlow where
  reportDate : String
  amount : ℚ
  currency : String

structure FlexStatement where
  equity : List EquityPoint
  flows : List CashFlow

/-- A row of `ibkr_flows`; a date is taken as the number of its day. -/
structure FlowRow where
  reportDate : ℤ
  amount : ℚ
  currency : String
deriving DecidableEq

def FlowRow.key (row : FlowRow) : ℤ × ℚ := (row.reportDate, row.amount)

structure Store where
  equityPoints : Std.TreeMap ℤ ℚ
  flows : List FlowRow

def Store.empty : Store := ⟨∅, []⟩

variable (parseReportDate : String → Option ℤ) (sinceDate : ℤ)

/-- The date of a report's entry, unless it is unreadable or before the connection. -/
def keptDate (reportDate : String) : Option ℤ := do
  let date ← parseReportDate reportDate
  if date < sinceDate then none else some date

/-- `ON CONFLICT (connection_id, report_date) DO UPDATE`. -/
def storePoint (points : Std.TreeMap ℤ ℚ) (point : EquityPoint) : Std.TreeMap ℤ ℚ :=
  match keptDate parseReportDate sinceDate point.reportDate with
  | none => points
  | some date => points.insert date point.total

/-- `ON CONFLICT (connection_id, report_date, amount) DO NOTHING`. -/
def storeFlow (rows : List FlowRow) (flow : CashFlow) : List FlowRow :=
  match keptDate parseReportDate sinceDate flow.reportDate with
  | none => rows
  | some date => insertNew FlowRow.key rows ⟨date, flow.amount, flow.currency⟩

def sync (store : Store) (statement : FlexStatement) : Store where
  equityPoints := statement.equity.foldl (storePoint parseReportDate sinceDate) store.equityPoints
  flows := statement.flows.foldl (storeFlow parseReportDate sinceDate) store.flows

def Store.storedEquity (store : Store) : List (ℤ × ℚ) := store.equityPoints.toList

def Store.storedFlows (store : Store) : List (ℤ × ℚ) :=
  (store.flows.insertionSort fun a b => a.reportDate ≤ b.reportDate).map FlowRow.key

end Stored

section Index

structure IbkrIndexPoint where
  timeMs : UInt64
  nav : ℚ
  index : ℚ

def DAY_MS : ℤ := 86400000

def msAtDate (date : ℤ) : Int64 := Int64.ofInt (date * DAY_MS)

/-- A division by zero panics. -/
def divide (a b : ℚ) : Option ℚ := if b = 0 then none else some (a / b)

def flowByDate (flows : List (ℤ × ℚ)) : Std.TreeMap ℤ ℚ :=
  flows.foldl (fun byDate flow => byDate.insert flow.1 (byDate.getD flow.1 0 + flow.2)) ∅

/-- The index after a day, from the one before it. -/
def nextIndex (byDate : Std.TreeMap ℤ ℚ) (previousTotal : Option ℚ) (index : ℚ) (date : ℤ) (total : ℚ) :
    Option ℚ :=
  match previousTotal with
  | none => some index
  | some previous =>
    if previous > 0 then do
      let flow := byDate.getD date 0
      let ratio ← divide (total - flow) previous
      let periodReturn := ratio - 1
      pure (index * (1 + periodReturn))
    else some index

def indexFrom (byDate : Std.TreeMap ℤ ℚ) : Option ℚ → ℚ → List (ℤ × ℚ) → Option (List IbkrIndexPoint)
  | _, _, [] => some []
  | previousTotal, index, (date, total) :: rest => do
    let index ← nextIndex byDate previousTotal index date total
    let points ← indexFrom byDate (some total) index rest
    pure (⟨(msAtDate date).toUInt64, total, index⟩ :: points)

def buildIndex (equity flows : List (ℤ × ℚ)) : Option (List IbkrIndexPoint) :=
  indexFrom (flowByDate flows) none 1 equity

def dailyReturns (index : List IbkrIndexPoint) : Option (List ℚ) :=
  (index.zip index.tail).mapM fun w => do
    let ratio ← divide w.2.index w.1.index
    pure (ratio - 1)

def totalChange (equity flows : List (ℤ × ℚ)) : ℚ :=
  let netFlows := (flows.map Prod.snd).sum
  match equity.head?, equity.getLast? with
  | some first, some last => last.2 - first.2 - netFlows
  | _, _ => 0

structure IbkrPerformance where
  dailyNav : List (UInt64 × ℚ)
  dailyReturns : List ℚ
  totalChange : ℚ

def loadPerformance (store : Store) : Option IbkrPerformance := do
  let equity := store.storedEquity
  let flows := store.storedFlows
  let index ← buildIndex equity flows
  let daily ← dailyReturns index
  pure ⟨index.map fun p => (p.timeMs, p.nav), daily, totalChange equity flows⟩

end Index

section Indexes

variable {flows : List (ℤ × ℚ)}

/-- What the flows of some days come to. -/
def amountIn (days : ℤ → Prop) [DecidablePred days] (flows : List (ℤ × ℚ)) : ℚ :=
  (flows.map fun f => if days f.1 then f.2 else 0).sum

/-- What a day's flows come to. -/
def flowOn (flows : List (ℤ × ℚ)) (date : ℤ) : ℚ := amountIn (· = date) flows

theorem getD_flowByDate (date : ℤ) : (flowByDate flows).getD date 0 = flowOn flows date := by
  have hfold : ∀ byDate : Std.TreeMap ℤ ℚ,
      (flows.foldl (fun byDate flow => byDate.insert flow.1 (byDate.getD flow.1 0 + flow.2)) byDate).getD date 0 =
        byDate.getD date 0 + flowOn flows date := by
    induction flows with
    | nil => simp [flowOn, amountIn]
    | cons flow flows ih =>
      intro byDate
      rw [List.foldl_cons, ih, Std.TreeMap.getD_insert]
      by_cases h : flow.1 = date
      · simp [flowOn, amountIn, h, add_assoc]
      · simp [flowOn, amountIn, h]
  unfold flowByDate
  rw [hfold]
  simp

/-- By how much the index grows from one point to the next. -/
def growth (flows : List (ℤ × ℚ)) (a b : ℤ × ℚ) : ℚ := if 0 < a.2 then (b.2 - flowOn flows b.1) / a.2 else 1

def grown (flows : List (ℤ × ℚ)) : ℤ × ℚ → ℚ → List (ℤ × ℚ) → List ℚ
  | _, _, [] => []
  | a, index, b :: rest => index * growth flows a b :: grown flows b (index * growth flows a b) rest

theorem nextIndex_eq (a b : ℤ × ℚ) (index : ℚ) :
    nextIndex (flowByDate flows) (some a.2) index b.1 b.2 = some (index * growth flows a b) := by
  unfold nextIndex growth
  dsimp only
  split_ifs with hpos
  · rw [getD_flowByDate, divide, if_neg hpos.ne']
    change some (index * (1 + ((b.2 - flowOn flows b.1) / a.2 - 1))) = _
    rw [add_sub_cancel]
  · rw [mul_one]

/-- The index is built without a failure. -/
theorem indexFrom_eq (a : ℤ × ℚ) (index : ℚ) (rest : List (ℤ × ℚ)) :
    ∃ points, indexFrom (flowByDate flows) (some a.2) index rest = some points ∧
      points.map IbkrIndexPoint.index = grown flows a index rest := by
  induction rest generalizing a index with
  | nil => exact ⟨[], rfl, rfl⟩
  | cons b rest ih =>
    obtain ⟨points, hpoints, hindex⟩ := ih b (index * growth flows a b)
    refine ⟨⟨(msAtDate b.1).toUInt64, b.2, index * growth flows a b⟩ :: points, ?_, ?_⟩
    · unfold indexFrom
      rw [nextIndex_eq]
      change (indexFrom _ _ _ _ >>= _) = _
      rw [hpoints]
      rfl
    · rw [List.map_cons, hindex]
      rfl

/-- The values of the index. -/
def indexes (flows : List (ℤ × ℚ)) : List (ℤ × ℚ) → List ℚ
  | [] => []
  | a :: rest => 1 :: grown flows a 1 rest

theorem buildIndex_eq (equity flows : List (ℤ × ℚ)) :
    ∃ points, buildIndex equity flows = some points ∧
      points.map IbkrIndexPoint.index = indexes flows equity := by
  cases equity with
  | nil => exact ⟨[], rfl, rfl⟩
  | cons a rest =>
    obtain ⟨points, hpoints, hindex⟩ := @indexFrom_eq flows a 1 rest
    refine ⟨⟨(msAtDate a.1).toUInt64, a.2, 1⟩ :: points, ?_, ?_⟩
    · unfold buildIndex indexFrom nextIndex
      change (indexFrom _ _ _ _ >>= _) = _
      rw [hpoints]
      rfl
    · rw [List.map_cons, hindex]
      rfl

end Indexes

section Amounts

variable {flows flows' : List (ℤ × ℚ)} {days days' : ℤ → Prop} [DecidablePred days] [DecidablePred days']

theorem amountIn_perm (h : flows.Perm flows') : amountIn days flows = amountIn days flows' := (h.map _).sum_eq

theorem amountIn_append : amountIn days (flows ++ flows') = amountIn days flows + amountIn days flows' := by
  simp [amountIn]

theorem amountIn_congr (h : ∀ date, days date ↔ days' date) : amountIn days flows = amountIn days' flows := by
  simp [amountIn, h]

/-- The flows of days that fall in two parts. -/
theorem amountIn_or (h : ∀ date, days date → ¬ days' date) :
    amountIn (fun date => days date ∨ days' date) flows = amountIn days flows + amountIn days' flows := by
  unfold amountIn
  rw [← List.sum_map_add]
  congr 1
  refine List.map_congr_left fun f _ => ?_
  by_cases hd : days f.1
  · simp [hd, h f.1 hd]
  · simp [hd]

theorem amountIn_all (h : ∀ f ∈ flows, days f.1) : amountIn days flows = (flows.map Prod.snd).sum := by
  unfold amountIn
  congr 1
  exact List.map_congr_left fun f hf => if_pos (h f hf)

/-- The flows that are listed again later, with the same day and amount. -/
def repeats : List (ℤ × ℚ) → List (ℤ × ℚ)
  | [] => []
  | f :: flows => if f ∈ flows then f :: repeats flows else repeats flows

theorem perm_repeats (flows : List (ℤ × ℚ)) : flows.Perm (flows.dedup ++ repeats flows) := by
  induction flows with
  | nil => exact .refl _
  | cons f flows ih =>
    unfold repeats
    split_ifs with h
    · rw [List.dedup_cons_of_mem h]
      exact (ih.cons f).trans List.perm_middle.symm
    · rw [List.dedup_cons_of_notMem h, List.cons_append]
      exact ih.cons f

end Amounts

section Kept

variable (parseReportDate : String → Option ℤ) (sinceDate : ℤ)

/-- The deposits and withdrawals of a report, inside the period. -/
def FlexStatement.flowsInPeriod (statement : FlexStatement) : List (ℤ × ℚ) :=
  statement.flows.filterMap fun flow =>
    (keptDate parseReportDate sinceDate flow.reportDate).map fun date => (date, flow.amount)

/-- What is stored of one report. -/
def readBack (statement : FlexStatement) : Store := sync parseReportDate sinceDate Store.empty statement

variable {parseReportDate sinceDate}

theorem storeFlows_eq (flows : List CashFlow) (rows : List FlowRow) :
    flows.foldl (storeFlow parseReportDate sinceDate) rows =
      insertAll FlowRow.key rows (flows.filterMap fun flow =>
        (keptDate parseReportDate sinceDate flow.reportDate).map fun date =>
          ⟨date, flow.amount, flow.currency⟩) := by
  refine foldl_insertNew (fun rows flow => ?_) flows
  unfold storeFlow
  cases keptDate parseReportDate sinceDate flow.reportDate with
  | none => rfl
  | some date => rfl

/-- Each flow of the period is stored once, however often a day has it. -/
theorem storedFlows_perm (statement : FlexStatement) :
    (readBack parseReportDate sinceDate statement).storedFlows.Perm
      (statement.flowsInPeriod parseReportDate sinceDate).dedup := by
  have hsorted : (readBack parseReportDate sinceDate statement).storedFlows.Perm
      ((statement.flows.foldl (storeFlow parseReportDate sinceDate) []).map FlowRow.key) :=
    (List.perm_insertionSort _ _).map _
  refine hsorted.trans ?_
  rw [storeFlows_eq, List.perm_ext_iff_of_nodup (nodup_insertAll (by simp)) (List.nodup_dedup _)]
  intro key
  rw [mem_keys_insertAll, List.mem_dedup, FlexStatement.flowsInPeriod, List.map_filterMap]
  simp [FlowRow.key, Option.map_map, Function.comp_def]

theorem storedEquity_ascending (store : Store) : store.storedEquity.IsChain fun a b => a.1 < b.1 := by
  unfold Store.storedEquity
  refine List.Pairwise.isChain ?_
  refine (Std.TreeMap.ordered_keys_toList (t := store.equityPoints)).imp fun {a b} hlt => ?_
  exact compare_lt_iff_lt.1 hlt

end Kept

section Neutral

variable {flows stored : List (ℤ × ℚ)}

/-- Equity that nothing changes but the flows: those after a point and up to the next one. -/
def DrivenBy (flows equity : List (ℤ × ℚ)) : Prop :=
  equity.IsChain fun a b => b.2 - a.2 = amountIn (fun date => a.1 < date ∧ date ≤ b.1) flows

/-- What the index does not see of the flows between two points: those of the days between them, and those that are
merged into an equal one of the later day. -/
def unseen (flows : List (ℤ × ℚ)) (a b : ℤ × ℚ) : ℚ :=
  amountIn (fun date => a.1 < date ∧ date < b.1) flows + amountIn (· = b.1) (repeats flows)

theorem flowOn_stored (h : stored.Perm flows.dedup) (date : ℤ) :
    flowOn flows date = flowOn stored date + amountIn (· = date) (repeats flows) := by
  unfold flowOn
  rw [amountIn_perm (perm_repeats flows), amountIn_append, amountIn_perm h]

theorem growth_eq_one_iff (h : stored.Perm flows.dedup) {a b : ℤ × ℚ} (hlt : a.1 < b.1)
    (hdriven : b.2 - a.2 = amountIn (fun date => a.1 < date ∧ date ≤ b.1) flows) :
    growth stored a b = 1 ↔ (0 < a.2 → unseen flows a b = 0) := by
  have hsplit : amountIn (fun date => a.1 < date ∧ date ≤ b.1) flows =
      amountIn (fun date => a.1 < date ∧ date < b.1) flows + flowOn flows b.1 := by
    unfold flowOn
    rw [← amountIn_or fun date hbetween heq => by omega]
    exact amountIn_congr fun date => by omega
  rw [hsplit, flowOn_stored h] at hdriven
  unfold growth unseen
  by_cases hpos : 0 < a.2
  · rw [if_pos hpos, div_eq_one_iff_eq hpos.ne']
    constructor
    · intro heq _
      linarith
    · intro hnone
      linarith [hnone hpos]
  · rw [if_neg hpos]
    simp [hpos]

/-- The index stays at one if and only if it sees the flows between any two points, the first of which is worth
something. -/
theorem grown_ones_iff (h : stored.Perm flows.dedup) {a : ℤ × ℚ} {rest : List (ℤ × ℚ)}
    (hsorted : (a :: rest).IsChain fun a b => a.1 < b.1) (hdriven : DrivenBy flows (a :: rest)) :
    (∀ x ∈ grown stored a 1 rest, x = 1) ↔ (a :: rest).IsChain fun a b => 0 < a.2 → unseen flows a b = 0 := by
  induction rest generalizing a with
  | nil => simp [grown]
  | cons b rest ih =>
    unfold DrivenBy at hdriven
    rw [List.isChain_cons_cons] at hsorted hdriven ⊢
    have hone := growth_eq_one_iff h hsorted.1 hdriven.1
    unfold grown
    rw [List.forall_mem_cons, one_mul, hone]
    constructor
    · rintro ⟨hfirst, hrest⟩
      rw [hone.2 hfirst] at hrest
      exact ⟨hfirst, (ih hsorted.2 hdriven.2).1 hrest⟩
    · rintro ⟨hfirst, hrest⟩
      refine ⟨hfirst, ?_⟩
      rw [hone.2 hfirst]
      exact (ih hsorted.2 hdriven.2).2 hrest

theorem indexes_ones_iff (h : stored.Perm flows.dedup) {equity : List (ℤ × ℚ)}
    (hsorted : equity.IsChain fun a b => a.1 < b.1) (hdriven : DrivenBy flows equity) :
    (∀ x ∈ indexes stored equity, x = 1) ↔ equity.IsChain fun a b => 0 < a.2 → unseen flows a b = 0 := by
  cases equity with
  | nil => simp [indexes]
  | cons a rest =>
    unfold indexes
    rw [List.forall_mem_cons, grown_ones_iff h hsorted hdriven]
    simp

end Neutral

section Total

variable {flows stored : List (ℤ × ℚ)}

/-- From the first point to the last the equity has changed by the flows after the one and up to the other. -/
theorem DrivenBy.total {a last : ℤ × ℚ} {rest : List (ℤ × ℚ)} (h : DrivenBy flows (a :: rest))
    (hsorted : (a :: rest).IsChain fun a b => a.1 < b.1) (hlast : (a :: rest).getLast? = some last) :
    a.1 ≤ last.1 ∧ last.2 - a.2 = amountIn (fun date => a.1 < date ∧ date ≤ last.1) flows := by
  induction rest generalizing a with
  | nil =>
    obtain rfl : a = last := by simpa using hlast
    refine ⟨le_rfl, ?_⟩
    have hnone : amountIn (fun date => a.1 < date ∧ date ≤ a.1) flows = 0 := by
      refine List.sum_eq_zero fun x hx => ?_
      obtain ⟨f, -, rfl⟩ := List.mem_map.1 hx
      exact if_neg fun hboth => absurd hboth.1 (not_lt.2 hboth.2)
    rw [hnone, sub_self]
  | cons b rest ih =>
    unfold DrivenBy at h
    rw [List.isChain_cons_cons] at h hsorted
    rw [List.getLast?_cons_cons] at hlast
    obtain ⟨hle, hafter⟩ := ih h.2 hsorted.2 hlast
    refine ⟨hsorted.1.le.trans hle, ?_⟩
    have hfirst := h.1
    have hsplit : amountIn (fun date => a.1 < date ∧ date ≤ last.1) flows =
        amountIn (fun date => a.1 < date ∧ date ≤ b.1) flows +
          amountIn (fun date => b.1 < date ∧ date ≤ last.1) flows := by
      rw [← amountIn_or fun date hbefore hlater => by omega]
      have := hsorted.1
      exact amountIn_congr fun date => by omega
    rw [hsplit, ← hfirst, ← hafter]
    ring

/-- The flows that are taken off the change although the equity did not change by them come to as much as those that
were merged into an equal one. -/
def Balances (flows equity : List (ℤ × ℚ)) : Prop :=
  ∀ first, equity.head? = some first → ∀ last, equity.getLast? = some last →
    amountIn (fun date => date ≤ first.1 ∨ last.1 < date) flows.dedup =
      amountIn (fun date => first.1 < date ∧ date ≤ last.1) (repeats flows)

theorem totalChange_eq_zero_iff (h : stored.Perm flows.dedup) {equity : List (ℤ × ℚ)}
    (hsorted : equity.IsChain fun a b => a.1 < b.1) (hdriven : DrivenBy flows equity) :
    totalChange equity stored = 0 ↔ Balances flows equity := by
  cases equity with
  | nil => simp [totalChange, Balances]
  | cons a rest =>
    obtain ⟨last, hlast⟩ : ∃ last, (a :: rest).getLast? = some last :=
      Option.isSome_iff_exists.1 (by simp)
    obtain ⟨-, hchange⟩ := hdriven.total hsorted hlast
    have hinside : amountIn (fun date => a.1 < date ∧ date ≤ last.1) flows =
        amountIn (fun date => a.1 < date ∧ date ≤ last.1) flows.dedup +
          amountIn (fun date => a.1 < date ∧ date ≤ last.1) (repeats flows) := by
      rw [amountIn_perm (perm_repeats flows), amountIn_append]
    have hstored : (stored.map Prod.snd).sum =
        amountIn (fun date => a.1 < date ∧ date ≤ last.1) flows.dedup +
          amountIn (fun date => date ≤ a.1 ∨ last.1 < date) flows.dedup := by
      rw [← amountIn_or fun date hinside houtside => by omega, (h.map _).sum_eq]
      exact (amountIn_all fun f _ => by omega).symm
    have htotal : totalChange (a :: rest) stored = last.2 - a.2 - (stored.map Prod.snd).sum := by
      unfold totalChange
      rw [hlast]
      rfl
    rw [htotal, hchange, hinside, hstored]
    constructor
    · intro hzero first hfirst last' hlast'
      obtain rfl : a = first := by simpa using hfirst
      obtain rfl : last = last' := Option.some.inj (hlast.symm.trans hlast')
      linarith
    · intro hbalances
      have := hbalances a rfl last hlast
      linarith

end Total

section Performance

variable {parseReportDate : String → Option ℤ} {sinceDate : ℤ}

/-- Nothing is gained and nothing lost. -/
structure FlowNeutral (store : Store) : Prop where
  index : ∃ points, buildIndex store.storedEquity store.storedFlows = some points ∧ ∀ p ∈ points, p.index = 1
  total : totalChange store.storedEquity store.storedFlows = 0

/-- Equity that only the flows change shows no gain if and only if the index sees the flows between any two points,
the first of which is worth something, and those taken off the change are those the equity has changed by. -/
theorem performance_neutral_iff {statement : FlexStatement}
    (h : DrivenBy (statement.flowsInPeriod parseReportDate sinceDate)
      (readBack parseReportDate sinceDate statement).storedEquity) :
    FlowNeutral (readBack parseReportDate sinceDate statement) ↔
      ((readBack parseReportDate sinceDate statement).storedEquity.IsChain fun a b =>
        0 < a.2 → unseen (statement.flowsInPeriod parseReportDate sinceDate) a b = 0) ∧
      Balances (statement.flowsInPeriod parseReportDate sinceDate)
        (readBack parseReportDate sinceDate statement).storedEquity := by
  have hstored := @storedFlows_perm parseReportDate sinceDate statement
  have hsorted := storedEquity_ascending (readBack parseReportDate sinceDate statement)
  rw [← indexes_ones_iff hstored hsorted h, ← totalChange_eq_zero_iff hstored hsorted h]
  obtain ⟨points, hpoints, hindexes⟩ := buildIndex_eq (readBack parseReportDate sinceDate statement).storedEquity
    (readBack parseReportDate sinceDate statement).storedFlows
  have hones : (∀ x ∈ points.map IbkrIndexPoint.index, x = 1) ↔ ∀ p ∈ points, p.index = 1 :=
    List.forall_mem_map
  rw [← hindexes, hones]
  constructor
  · rintro ⟨⟨points', hpoints', hindex⟩, htotal⟩
    obtain rfl := Option.some.inj (hpoints.symm.trans hpoints')
    exact ⟨hindex, htotal⟩
  · rintro ⟨hindex, htotal⟩
    exact ⟨⟨points, hpoints, hindex⟩, htotal⟩

/-- The days of January 2026, counted from its first. -/
def january (reportDate : String) : Option ℤ :=
  if reportDate = "20260102" then some 1 else if reportDate = "20260103" then some 2
  else if reportDate = "20260105" then some 4 else none

/-- Fifty are deposited on a Monday. -/
def mondayDeposit : FlexStatement := ⟨[⟨"20260102", 100⟩, ⟨"20260105", 150⟩], [⟨"20260105", 50, "USD"⟩]⟩

theorem performance_neutral_monday : FlowNeutral (readBack january 0 mondayDeposit) := by
  have hequity : (readBack january 0 mondayDeposit).storedEquity = [(1, 100), (4, 150)] := by decide +kernel
  have hflows : mondayDeposit.flowsInPeriod january 0 = [(4, 50)] := by decide +kernel
  refine (performance_neutral_iff ?_).2 ⟨?_, ?_⟩
  · rw [hequity, hflows]
    unfold DrivenBy
    decide +kernel
  · rw [hequity, hflows]
    decide +kernel
  · rw [hequity, hflows]
    intro first hfirst last hlast
    obtain rfl := Option.some.inj hfirst
    obtain rfl := Option.some.inj hlast
    decide +kernel

/-- Fifty are deposited on a Saturday, of which there is no point. -/
def saturdayDeposit : FlexStatement :=
  ⟨[⟨"20260102", 100⟩, ⟨"20260105", 150⟩], [⟨"20260103", 50, "USD"⟩]⟩

/-- Fifty are deposited twice on a Monday. -/
def twoDeposits : FlexStatement :=
  ⟨[⟨"20260102", 100⟩, ⟨"20260105", 200⟩], [⟨"20260105", 50, "USD"⟩, ⟨"20260105", 50, "USD"⟩]⟩

/-- A hundred are deposited on the first day. -/
def firstDeposit : FlexStatement := ⟨[⟨"20260102", 100⟩, ⟨"20260105", 100⟩], [⟨"20260102", 100, "USD"⟩]⟩

theorem not_flowNeutral {store : Store} (h : ((buildIndex store.storedEquity store.storedFlows).map fun points =>
    points.all fun p => p.index = 1) ≠ some true ∨ totalChange store.storedEquity store.storedFlows ≠ 0) :
    ¬ FlowNeutral store := by
  rintro ⟨⟨points, hpoints, hindex⟩, htotal⟩
  rcases h with hone | hzero
  · rw [hpoints] at hone
    refine hone (congrArg some (List.all_eq_true.2 fun p hp => ?_))
    exact decide_eq_true (hindex p hp)
  · exact hzero htotal

theorem deposits_taken_for_gains :
    (DrivenBy (saturdayDeposit.flowsInPeriod january 0) (readBack january 0 saturdayDeposit).storedEquity ∧
      ¬ FlowNeutral (readBack january 0 saturdayDeposit)) ∧
    (DrivenBy (twoDeposits.flowsInPeriod january 0) (readBack january 0 twoDeposits).storedEquity ∧
      ¬ FlowNeutral (readBack january 0 twoDeposits)) ∧
    DrivenBy (firstDeposit.flowsInPeriod january 0) (readBack january 0 firstDeposit).storedEquity ∧
      ¬ FlowNeutral (readBack january 0 firstDeposit) := by
  refine ⟨⟨?_, not_flowNeutral (.inl ?_)⟩, ⟨?_, not_flowNeutral (.inl ?_)⟩, ?_, not_flowNeutral (.inr ?_)⟩
  · unfold DrivenBy
    decide +kernel
  · decide +kernel
  · unfold DrivenBy
    decide +kernel
  · decide +kernel
  · unfold DrivenBy
    decide +kernel
  · decide +kernel

end Performance

section Divisions

variable {flows : List (ℤ × ℚ)}

/-- The flow of a day is all there is after a day that was worth something. -/
def Cancels (flows : List (ℤ × ℚ)) (a b : ℤ × ℚ) : Prop := 0 < a.2 ∧ b.2 = flowOn flows b.1

theorem growth_eq_zero_iff (a b : ℤ × ℚ) : growth flows a b = 0 ↔ Cancels flows a b := by
  unfold growth Cancels
  split_ifs with hpos
  · rw [div_eq_zero_iff, sub_eq_zero]
    simp [hpos, hpos.ne']
  · simp [hpos]

/-- The index is zero from the first day on that is cancelled. -/
theorem grown_ne_zero_iff (a : ℤ × ℚ) {index : ℚ} (hindex : index ≠ 0) (rest : List (ℤ × ℚ)) :
    (∀ x ∈ (index :: grown flows a index rest).dropLast, x ≠ 0) ↔
      (a :: rest).dropLast.IsChain fun a b => ¬ Cancels flows a b := by
  induction rest generalizing a index with
  | nil => simp [grown]
  | cons b rest ih =>
    unfold grown
    cases rest with
    | nil => simp [grown, hindex]
    | cons c rest =>
      have hdrop : (a :: b :: c :: rest).dropLast = a :: b :: (c :: rest).dropLast := rfl
      have hdrop' : (b :: c :: rest).dropLast = b :: (c :: rest).dropLast := rfl
      rw [List.dropLast_cons_cons, List.forall_mem_cons, and_iff_right hindex, hdrop, List.isChain_cons_cons,
        ← hdrop']
      by_cases hcancels : Cancels flows a b
      · have hzero := (growth_eq_zero_iff a b).2 hcancels
        rw [hzero, mul_zero]
        simp [grown, hcancels]
      · have hgrowth : index * growth flows a b ≠ 0 :=
          mul_ne_zero hindex fun hzero => hcancels ((growth_eq_zero_iff a b).1 hzero)
        rw [ih b hgrowth, and_iff_right hcancels]

theorem dailyReturns_isSome_iff (points : List IbkrIndexPoint) :
    (dailyReturns points).isSome ↔ ∀ x ∈ (points.map IbkrIndexPoint.index).dropLast, x ≠ 0 := by
  unfold dailyReturns
  induction points with
  | nil => simp
  | cons p points ih =>
    cases points with
    | nil => simp
    | cons q points =>
      have hzip : (p :: q :: points).zip (p :: q :: points).tail =
          (p, q) :: (q :: points).zip (q :: points).tail := rfl
      rw [hzip, List.mapM_cons, List.map_cons, List.map_cons, List.dropLast_cons_cons, List.forall_mem_cons,
        ← List.map_cons, ← ih]
      by_cases hzero : p.index = 0
      · simp [divide, hzero]
      · cases ((q :: points).zip (q :: points).tail).mapM fun w => do
            let ratio ← divide w.2.index w.1.index
            pure (ratio - 1) with
        | none => simp [divide, hzero]
        | some daily => simp [divide, hzero]

/-- An account that falls to zero and is filled again. -/
def emptiedStore : Store := ⟨(((∅ : Std.TreeMap ℤ ℚ).insert 1 100).insert 2 0).insert 3 50, []⟩

end Divisions

end Linvesther.Worker.Ibkr
