import Linvesther.Worker.Holdings

/-! `kraken.rs`: what becomes of the lines of a Kraken ledger. A line's amount keeps its sign, except in a
deposit or a withdrawal. -/

namespace Linvesther.Worker

open Transaction

section Classify

structure LedgerRow where
  ledgerId : String
  refid : String
  timeMs : Int64
  entryType : String
  subtype : String
  asset : String
  amount : String
  fee : String
deriving DecidableEq

/-- A ledger line whose amount or fee cannot be read. -/
structure UnreadableLine where
  what : String
  value : String
deriving DecidableEq

def AssetLeg.credit (asset amount : String) : AssetLeg := ⟨asset, amount, true⟩

def AssetLeg.debit (asset amount : String) : AssetLeg := ⟨asset, amount, false⟩

/-- `str::contains`. -/
def containsText (text part : String) : Bool := decide (part.toList <:+: text.toList)

variable (lib : Decimals) (toLowercase : String → String)

def decimal (value what : String) : Except UnreadableLine ℚ :=
  match lib.fromStr value with
  | some d => .ok d
  | none => .error ⟨what, value⟩

/-- What the line did to the balance: its amount less the fee. -/
def net (row : LedgerRow) : Except UnreadableLine ℚ := do
  let amount ← decimal lib row.amount "amount"
  let fee ← decimal lib row.fee "fee"
  pure (amount - fee)

def signedLeg (asset : String) (change : ℚ) : AssetLeg :=
  if change < 0 then .debit asset (lib.toString |change|) else .credit asset (lib.toString change)

/-- Lines that only move money between a person's own Kraken wallets. -/
def isWalletMove (row : LedgerRow) : Bool :=
  let subtype := toLowercase row.subtype
  if row.entryType = "transfer" then containsText subtype "staking" || containsText subtype "earn"
  else row.entryType = "earn" && subtype ≠ "reward"

/-- What the trade history has, or what cancels out. -/
def isLeftOut (row : LedgerRow) : Bool := row.entryType = "trade" || isWalletMove toLowercase row

abbrev Conversions := Std.TreeMap String (List LedgerRow)

def conversionKey (row : LedgerRow) : String := if row.refid = "" then row.ledgerId else row.refid

/-- A line that is a flow of its own, if it changes anything. -/
def plainFlow (family : FlowFamily) (row : LedgerRow) : Except UnreadableLine (List NormalizedFlow) := do
  let change ← net lib row
  if change = 0 then pure []
  else pure [⟨family, "kraken:" ++ row.ledgerId, row.timeMs.toUInt64, [signedLeg lib row.asset change],
    none⟩]

def otherFamily (entryType : String) : FlowFamily :=
  if entryType = "staking" ∨ entryType = "dividend" ∨ entryType = "credit" ∨ entryType = "earn" then
    .dividend
  else .transfer

/-- The flow of a deposit or a withdrawal, whose sign is that of its kind. -/
def capitalFlow (row : LedgerRow) (fee : ℚ) : Except UnreadableLine NormalizedFlow := do
  let amount ← decimal lib row.amount "amount"
  let leg := if row.entryType = "deposit" then (FlowFamily.deposit,
      AssetLeg.credit row.asset (lib.toString |amount|))
    else (FlowFamily.withdrawal, AssetLeg.debit row.asset (lib.toString |amount|))
  pure ⟨leg.1, "kraken:" ++ row.ledgerId, row.timeMs.toUInt64, [leg.2],
    if fee = 0 then none else some (.debit row.asset (lib.toString fee))⟩

def isCapital (row : LedgerRow) : Bool := row.entryType = "deposit" || row.entryType = "withdrawal"

def isConversion (row : LedgerRow) : Bool :=
  row.entryType = "spend" || row.entryType = "receive" || row.entryType = "adjustment"

/-- One line of the ledger: the flows so far, and the conversions whose lines belong together. -/
def classifyRow (s : List NormalizedFlow × Conversions) (row : LedgerRow) :
    Except UnreadableLine (List NormalizedFlow × Conversions) :=
  if isLeftOut toLowercase row then .ok s
  else do
    let fee ← decimal lib row.fee "fee"
    if isCapital row then do
      let flow ← capitalFlow lib row fee
      pure (s.1 ++ [flow], s.2)
    else if isConversion row then
      pure (s.1, s.2.alter (conversionKey row) fun rows => some (rows.getD [] ++ [row]))
    else if row.entryType = "transfer" && containsText (toLowercase row.subtype) "futures" then do
      -- leaving for Kraken Futures is money leaving this account
      let change ← net lib row
      let flows ← plainFlow lib (if change < 0 then .withdrawal else .deposit) row
      pure (s.1 ++ flows, s.2)
    else do
      let flows ← plainFlow lib (otherFamily row.entryType) row
      pure (s.1 ++ flows, s.2)

/-- The legs of a conversion: a line that changes nothing has none. -/
def conversionLegs (lines : List LedgerRow) : Except UnreadableLine (List AssetLeg) := do
  let legs ← lines.mapM fun line => do
    let change ← net lib line
    pure (if change = 0 then [] else [signedLeg lib line.asset change])
  pure legs.flatten

def earliest (lines : List LedgerRow) : UInt64 :=
  (Int64.ofInt ((lines.map fun l => l.timeMs.toInt).min?.getD 0)).toUInt64

def conversionFlow (group : String × List LedgerRow) : Except UnreadableLine (List NormalizedFlow) := do
  let legs ← conversionLegs lib group.2
  if legs = [] then pure []
  else pure [⟨.convert, "kraken:" ++ group.1, earliest group.2, legs, none⟩]

def classify (rows : List LedgerRow) : Except UnreadableLine (List NormalizedFlow) := do
  let s ← rows.foldlM (classifyRow lib toLowercase) ([], ∅)
  let converted ← s.2.toList.mapM (conversionFlow lib)
  pure ((s.1 ++ converted.flatten).insertionSort fun a b =>
    toLex (a.economicTimeMs.toNat, a.sourceId) ≤ toLex (b.economicTimeMs.toNat, b.sourceId))

end Classify

section Change

variable (lib : Decimals) (asset : String)

/-- What a leg does to an asset. -/
def AssetLeg.change (l : AssetLeg) : ℚ :=
  if l.asset = asset then if l.isCredit then amountOf lib l.amount else -amountOf lib l.amount else 0

/-- What the legs and fees of flows do to an asset. -/
def flowsChange (flows : List NormalizedFlow) : ℚ :=
  (flows.map fun f => ((f.legs ++ f.fee.toList).map (AssetLeg.change lib asset)).sum).sum

/-- What a line of the ledger did to an asset. -/
def LedgerRow.change (row : LedgerRow) : ℚ :=
  if row.asset = asset then amountOf lib row.amount - amountOf lib row.fee else 0

/-- What a deposit or a withdrawal is taken for beyond what it is: its amount may have the sign of the
other. -/
def LedgerRow.misread (row : LedgerRow) : ℚ :=
  if isCapital row ∧ row.asset = asset then
    (if row.entryType = "deposit" then |amountOf lib row.amount| else -|amountOf lib row.amount|) -
      amountOf lib row.amount
  else 0

def Writes (d : ℚ) : Prop := lib.fromStr (lib.toString d) = some d

/-- The numbers that are written of a line read back from their texts. -/
structure LedgerRow.WritesBack (row : LedgerRow) : Prop where
  amount : Writes lib |amountOf lib row.amount|
  fee : Writes lib (amountOf lib row.fee)
  net : Writes lib |amountOf lib row.amount - amountOf lib row.fee|

variable {lib asset}

theorem Writes.amountOf {d : ℚ} (h : Writes lib d) : amountOf lib (lib.toString d) = d := by
  unfold Worker.amountOf
  rw [h]
  rfl

theorem flowsChange_append (l l' : List NormalizedFlow) :
    flowsChange lib asset (l ++ l') = flowsChange lib asset l + flowsChange lib asset l' := by
  simp [flowsChange]

theorem decimal_ok {value what : String} {d : ℚ} (h : decimal lib value what = .ok d) :
    amountOf lib value = d := by
  unfold decimal at h
  unfold amountOf
  rcases hs : lib.fromStr value with _ | d'
  · rw [hs] at h
    cases h
  · rw [hs] at h
    exact Except.ok.inj h

theorem net_ok {row : LedgerRow} {change : ℚ} (h : net lib row = .ok change) :
    change = amountOf lib row.amount - amountOf lib row.fee := by
  simp only [net, bind_ok, pure_ok] at h
  obtain ⟨amount, hamount, fee, hfee, rfl⟩ := h
  rw [decimal_ok hamount, decimal_ok hfee]

@[simp] theorem change_credit (a text : String) :
    (AssetLeg.credit a text).change lib asset = if a = asset then amountOf lib text else 0 := by
  simp [AssetLeg.change, AssetLeg.credit]

@[simp] theorem change_debit (a text : String) :
    (AssetLeg.debit a text).change lib asset = if a = asset then -amountOf lib text else 0 := by
  simp [AssetLeg.change, AssetLeg.debit]

/-- A signed leg does what it was made of. -/
theorem signedLeg_change (asset : String) {a : String} {change : ℚ} (h : Writes lib |change|) :
    (signedLeg lib a change).change lib asset = if a = asset then change else 0 := by
  unfold signedLeg
  by_cases hneg : change < 0
  · rw [if_pos hneg, change_debit, h.amountOf, abs_of_neg hneg, neg_neg]
  · rw [abs_of_nonneg (not_lt.1 hneg)] at h
    rw [if_neg hneg, change_credit, h.amountOf]

theorem plainFlow_ok {family : FlowFamily} {row : LedgerRow} {flows : List NormalizedFlow}
    (hwrites : row.WritesBack lib) (h : plainFlow lib family row = .ok flows) :
    flowsChange lib asset flows = row.change lib asset := by
  simp only [plainFlow, bind_ok] at h
  obtain ⟨change, hchange, h⟩ := h
  have hnet := net_ok hchange
  unfold LedgerRow.change
  rw [← hnet]
  split_ifs at h with hzero
  · rw [pure_ok] at h
    subst h
    rw [hzero, ite_self]
    rfl
  · rw [pure_ok] at h
    subst h
    have hleg := signedLeg_change asset (a := row.asset) (hnet ▸ hwrites.net)
    simpa [flowsChange] using hleg

theorem capitalFlow_ok {row : LedgerRow} {flow : NormalizedFlow} (hwrites : row.WritesBack lib)
    (hcapital : isCapital row = true) (h : capitalFlow lib row (amountOf lib row.fee) = .ok flow) :
    flowsChange lib asset [flow] = row.change lib asset + row.misread lib asset := by
  simp only [capitalFlow, bind_ok, pure_ok] at h
  obtain ⟨amount, hamount, rfl⟩ := h
  rw [← decimal_ok hamount]
  have hfee : ((if amountOf lib row.fee = 0 then none
      else some (AssetLeg.debit row.asset (lib.toString (amountOf lib row.fee)))).toList.map
        (AssetLeg.change lib asset)).sum = if row.asset = asset then -amountOf lib row.fee else 0 := by
    by_cases hzero : amountOf lib row.fee = 0
    · rw [if_pos hzero, hzero, neg_zero, ite_self]
      rfl
    · rw [if_neg hzero]
      simp [hwrites.fee.amountOf]
  have hleg : (if row.entryType = "deposit" then (FlowFamily.deposit,
        AssetLeg.credit row.asset (lib.toString |amountOf lib row.amount|))
      else (FlowFamily.withdrawal, AssetLeg.debit row.asset (lib.toString |amountOf lib row.amount|))).2.change
        lib asset = if row.asset = asset then
          (if row.entryType = "deposit" then |amountOf lib row.amount| else -|amountOf lib row.amount|)
        else 0 := by
    by_cases hdeposit : row.entryType = "deposit"
    · rw [if_pos hdeposit, if_pos hdeposit, change_credit, hwrites.amount.amountOf]
    · rw [if_neg hdeposit, if_neg hdeposit, change_debit, hwrites.amount.amountOf]
  unfold flowsChange
  rw [List.map_singleton, List.sum_singleton, List.map_append, List.sum_append, hfee,
    List.map_singleton, List.sum_singleton, hleg]
  unfold LedgerRow.change LedgerRow.misread
  by_cases hasset : row.asset = asset
  · have hboth : isCapital row = true ∧ row.asset = asset := ⟨hcapital, hasset⟩
    rw [if_pos hasset, if_pos hasset, if_pos hasset, if_pos hboth]
    ring
  · rw [if_neg hasset, if_neg hasset, if_neg hasset, if_neg fun h => hasset h.2]

/-- What lines did to an asset, together. -/
def linesChange (lib : Decimals) (asset : String) (lines : List LedgerRow) : ℚ :=
  (lines.map (LedgerRow.change lib asset)).sum

theorem linesChange_perm {lines lines' : List LedgerRow} (h : lines.Perm lines') :
    linesChange lib asset lines = linesChange lib asset lines' :=
  (h.map _).sum_eq

theorem linesChange_append (lines lines' : List LedgerRow) :
    linesChange lib asset (lines ++ lines') =
      linesChange lib asset lines + linesChange lib asset lines' := by
  simp [linesChange]

theorem conversionLegs_ok {lines : List LedgerRow} {legs : List AssetLeg}
    (hwrites : ∀ line ∈ lines, line.WritesBack lib) (h : conversionLegs lib lines = .ok legs) :
    (legs.map (AssetLeg.change lib asset)).sum = linesChange lib asset lines := by
  simp only [conversionLegs, bind_ok, pure_ok] at h
  obtain ⟨each, heach, rfl⟩ := h
  rw [mapM_ok] at heach
  induction heach with
  | nil => rfl
  | cons hfirst hrest ih =>
    rename_i line ls lines each
    obtain ⟨hline, hlines⟩ := List.forall_mem_cons.1 hwrites
    simp only [bind_ok, pure_ok] at hfirst
    obtain ⟨change, hchange, rfl⟩ := hfirst
    have hnet := net_ok hchange
    have hfirst : ((if change = 0 then [] else [signedLeg lib line.asset change]).map
        (AssetLeg.change lib asset)).sum = line.change lib asset := by
      unfold LedgerRow.change
      rw [← hnet]
      split_ifs with hzero hasset hasset
      · exact hzero.symm
      · rfl
      · rw [List.map_singleton, List.sum_singleton, signedLeg_change asset (hnet ▸ hline.net), if_pos hasset]
      · rw [List.map_singleton, List.sum_singleton, signedLeg_change asset (hnet ▸ hline.net),
          if_neg hasset]
    rw [List.flatten_cons, List.map_append, List.sum_append, hfirst, ih hlines]
    simp [linesChange]

theorem conversionFlow_ok (asset : String) {group : String × List LedgerRow} {flows : List NormalizedFlow}
    (hwrites : ∀ line ∈ group.2, line.WritesBack lib) (h : conversionFlow lib group = .ok flows) :
    flowsChange lib asset flows = linesChange lib asset group.2 := by
  simp only [conversionFlow, bind_ok] at h
  obtain ⟨legs, hlegs, h⟩ := h
  rw [← conversionLegs_ok hwrites hlegs]
  split_ifs at h with hnone
  · rw [pure_ok] at h
    rw [← h, hnone]
    rfl
  · rw [pure_ok] at h
    rw [← h]
    simp [flowsChange]

/-- The groups of lines, each a flow of its own. -/
theorem conversionFlows_ok {groups : List (String × List LedgerRow)}
    {flows : List (List NormalizedFlow)}
    (hwrites : ∀ line ∈ groups.flatMap Prod.snd, line.WritesBack lib)
    (h : groups.mapM (conversionFlow lib) = .ok flows) :
    flowsChange lib asset flows.flatten = linesChange lib asset (groups.flatMap Prod.snd) := by
  rw [mapM_ok] at h
  induction h with
  | nil => rfl
  | cons hfirst hrest ih =>
    rw [List.flatMap_cons] at hwrites ⊢
    have hgroup := conversionFlow_ok asset
      (fun line hline => hwrites line (List.mem_append_left _ hline)) hfirst
    have hrest := ih fun line hline => hwrites line (List.mem_append_right _ hline)
    rw [List.flatten_cons, flowsChange_append, linesChange_append, hgroup, hrest]

end Change

section Conservation

variable {lib : Decimals} {toLowercase : String → String} {asset : String}

/-- The lines of conversions, whose flows are made at the end. -/
def waiting (s : List NormalizedFlow × Conversions) : List LedgerRow := s.2.toList.flatMap Prod.snd

/-- What has been made of the lines so far. -/
def made (lib : Decimals) (asset : String) (s : List NormalizedFlow × Conversions) : ℚ :=
  flowsChange lib asset s.1 + linesChange lib asset (waiting s)

theorem made_flows (s : List NormalizedFlow × Conversions) (flows : List NormalizedFlow) :
    made lib asset (s.1 ++ flows, s.2) = made lib asset s + flowsChange lib asset flows := by
  unfold made
  rw [flowsChange_append, add_right_comm]
  rfl

theorem misread_of_not_capital {row : LedgerRow} (h : ¬ isCapital row = true) :
    row.misread lib asset = 0 :=
  if_neg fun hboth => h hboth.1

/-- One line is added with the sign it has, but for what is misread of it. -/
theorem classifyRow_ok (asset : String) {s s' : List NormalizedFlow × Conversions} {row : LedgerRow}
    (hwrites : row.WritesBack lib) (hkept : ¬ isLeftOut toLowercase row = true)
    (h : classifyRow lib toLowercase s row = .ok s') :
    made lib asset s' = made lib asset s + (row.change lib asset + row.misread lib asset) ∧
      ∀ line ∈ waiting s', line ∈ waiting s ∨ line = row := by
  unfold classifyRow at h
  rw [if_neg hkept, bind_ok] at h
  obtain ⟨fee, hfee, h⟩ := h
  rw [← decimal_ok hfee] at h
  split_ifs at h with hcapital hconversion hfutures
  · rw [bind_ok] at h
    obtain ⟨flow, hflow, h⟩ := h
    rw [pure_ok] at h
    subst h
    refine ⟨?_, fun line hline => .inl hline⟩
    rw [made_flows, capitalFlow_ok hwrites hcapital hflow]
  · rw [pure_ok] at h
    subst h
    have hpush := OrderedMap.perm_flatMap_push s.2 (conversionKey row) row
    refine ⟨?_, fun line hline => by simpa [waiting] using hpush.subset hline⟩
    unfold made waiting
    dsimp only
    rw [linesChange_perm hpush, linesChange_append, misread_of_not_capital hcapital]
    simp [linesChange, add_assoc]
  · rw [bind_ok] at h
    obtain ⟨change, -, h⟩ := h
    rw [bind_ok] at h
    obtain ⟨flows, hflows, h⟩ := h
    rw [pure_ok] at h
    subst h
    refine ⟨?_, fun line hline => .inl hline⟩
    rw [made_flows, plainFlow_ok hwrites hflows, misread_of_not_capital hcapital, add_zero]
  · rw [bind_ok] at h
    obtain ⟨flows, hflows, h⟩ := h
    rw [pure_ok] at h
    subst h
    refine ⟨?_, fun line hline => .inl hline⟩
    rw [made_flows, plainFlow_ok hwrites hflows, misread_of_not_capital hcapital, add_zero]

/-- The lines that are neither trades nor moves between a person's own wallets. -/
def kept (toLowercase : String → String) (rows : List LedgerRow) : List LedgerRow :=
  rows.filter fun row => !isLeftOut toLowercase row

/-- All lines, those that are left out counting for nothing. -/
theorem classifyRows_ok (asset : String) {rows : List LedgerRow} {s s' : List NormalizedFlow × Conversions}
    (hwrites : ∀ row ∈ rows, row.WritesBack lib)
    (h : rows.foldlM (classifyRow lib toLowercase) s = .ok s') :
    made lib asset s' = made lib asset s + ((kept toLowercase rows).map fun row =>
        row.change lib asset + row.misread lib asset).sum ∧
      ∀ line ∈ waiting s', line ∈ waiting s ∨ line ∈ rows := by
  unfold kept
  induction rows generalizing s with
  | nil =>
    rw [List.foldlM_nil, pure_ok] at h
    subst h
    simp
  | cons row rows ih =>
    obtain ⟨hrow, hrows⟩ := List.forall_mem_cons.1 hwrites
    rw [List.foldlM_cons, bind_ok] at h
    obtain ⟨s₁, hfirst, hrest⟩ := h
    obtain ⟨hmade, hwaiting⟩ := ih hrows hrest
    by_cases hout : isLeftOut toLowercase row = true
    · unfold classifyRow at hfirst
      rw [if_pos hout, Except.ok.injEq] at hfirst
      subst hfirst
      rw [List.filter_cons_of_neg (by simp [hout])]
      exact ⟨hmade, fun line hline => (hwaiting line hline).imp_right (List.mem_cons_of_mem _)⟩
    · obtain ⟨hmade₁, hwaiting₁⟩ := classifyRow_ok asset hrow hout hfirst
      rw [List.filter_cons_of_pos (by simp [hout]), List.map_cons, List.sum_cons]
      refine ⟨by rw [hmade, hmade₁, add_assoc], fun line hline => ?_⟩
      rcases hwaiting line hline with hin | hin
      · rcases hwaiting₁ line hin with hin | rfl
        · exact .inl hin
        · exact .inr List.mem_cons_self
      · exact .inr (List.mem_cons_of_mem _ hin)

/-- The amount of a deposit that took money out. -/
def LedgerRow.reversedDeposit (lib : Decimals) (asset : String) (row : LedgerRow) : ℚ :=
  if row.entryType = "deposit" ∧ row.asset = asset ∧ amountOf lib row.amount < 0 then
    |amountOf lib row.amount|
  else 0

/-- The amount of a withdrawal that gave money back. -/
def LedgerRow.reversedWithdrawal (lib : Decimals) (asset : String) (row : LedgerRow) : ℚ :=
  if row.entryType = "withdrawal" ∧ row.asset = asset ∧ 0 < amountOf lib row.amount then
    |amountOf lib row.amount|
  else 0

/-- A reversal is taken for its opposite, which misses it by twice its amount. -/
theorem misread_eq (row : LedgerRow) :
    row.misread lib asset =
      2 * row.reversedDeposit lib asset - 2 * row.reversedWithdrawal lib asset := by
  unfold LedgerRow.misread LedgerRow.reversedDeposit LedgerRow.reversedWithdrawal
  generalize amountOf lib row.amount = amount
  by_cases hasset : row.asset = asset
  · by_cases hdeposit : row.entryType = "deposit"
    · have hcapital : isCapital row = true := by simp [isCapital, hdeposit]
      by_cases hneg : amount < 0
      · simp [hasset, hdeposit, hcapital, hneg, abs_of_neg hneg]
        ring
      · simp [hasset, hdeposit, hcapital, hneg, abs_of_nonneg (not_lt.1 hneg)]
    · by_cases hwithdrawal : row.entryType = "withdrawal"
      · have hcapital : isCapital row = true := by simp [isCapital, hwithdrawal]
        by_cases hpos : 0 < amount
        · simp [hasset, hwithdrawal, hcapital, hpos, abs_of_pos hpos]
          ring
        · simp [hasset, hwithdrawal, hcapital, hpos, abs_of_nonpos (not_lt.1 hpos)]
      · have hcapital : ¬ isCapital row = true := by simp [isCapital, hdeposit, hwithdrawal]
        simp [hdeposit, hwithdrawal, hcapital]
  · simp [hasset]

theorem sum_misread (rows : List LedgerRow) :
    (rows.map (LedgerRow.misread lib asset)).sum =
      2 * (rows.map (LedgerRow.reversedDeposit lib asset)).sum -
        2 * (rows.map (LedgerRow.reversedWithdrawal lib asset)).sum := by
  induction rows with
  | nil => simp
  | cons row rows ih =>
    simp only [List.map_cons, List.sum_cons, ih, misread_eq]
    ring

/-- The flows do to an asset what the lines of the ledger did, but for the reversals. -/
theorem classify_ok {rows : List LedgerRow} {flows : List NormalizedFlow}
    (hwrites : ∀ row ∈ rows, row.WritesBack lib) (h : classify lib toLowercase rows = .ok flows) :
    flowsChange lib asset flows = linesChange lib asset (kept toLowercase rows) +
      ((kept toLowercase rows).map (LedgerRow.misread lib asset)).sum := by
  simp only [classify, bind_ok, pure_ok] at h
  obtain ⟨s, hs, converted, hconverted, rfl⟩ := h
  obtain ⟨hmade, hwaiting⟩ := classifyRows_ok asset hwrites hs
  have hnone : waiting ([], ∅) = [] := rfl
  have hstart : made lib asset ([], ∅) = 0 := by
    unfold made
    rw [hnone]
    simp [flowsChange, linesChange]
  have hlines : ∀ line ∈ s.2.toList.flatMap Prod.snd, line.WritesBack lib := by
    intro line hline
    rcases hwaiting line hline with hin | hin
    · rw [hnone] at hin
      cases hin
    · exact hwrites line hin
  have hsorted : flowsChange lib asset ((s.1 ++ converted.flatten).insertionSort fun a b =>
      toLex (a.economicTimeMs.toNat, a.sourceId) ≤ toLex (b.economicTimeMs.toNat, b.sourceId)) =
      flowsChange lib asset (s.1 ++ converted.flatten) :=
    ((List.perm_insertionSort _ _).map _).sum_eq
  rw [hsorted, flowsChange_append, conversionFlows_ok hlines hconverted]
  rw [hstart, zero_add, List.sum_map_add] at hmade
  exact hmade

/-- Value is kept if and only if the reversed deposits of the asset come to as much as its reversed
withdrawals. -/
theorem classify_conserves_iff {rows : List LedgerRow} {flows : List NormalizedFlow}
    (hwrites : ∀ row ∈ rows, row.WritesBack lib) (h : classify lib toLowercase rows = .ok flows) :
    flowsChange lib asset flows = linesChange lib asset (kept toLowercase rows) ↔
      ((kept toLowercase rows).map (LedgerRow.reversedDeposit lib asset)).sum =
        ((kept toLowercase rows).map (LedgerRow.reversedWithdrawal lib asset)).sum := by
  rw [classify_ok hwrites h, sum_misread]
  constructor
  · intro heq
    linarith
  · intro heq
    linarith

end Conservation

section Example

/-- The amounts of the example and their texts. -/
def ledgerDecimals : Decimals where
  fromStr text :=
    if text = "0" then some 0 else if text = "1" then some 1 else if text = "100" then some 100
    else if text = "-100" then some (-100) else if text = "99" then some 99 else none
  toString q :=
    if q = 1 then "1" else if q = 99 then "99" else if q = 100 then "100" else if q = 101 then "101"
    else "0"

def asciiLowercase (text : String) : String := String.ofList (text.toList.map Char.toLower)

/-- A deposit of a hundred dollars for a fee of one. -/
def depositRow (amount : String) : LedgerRow := ⟨"L1", "R1", 1000, "deposit", "", "USD", amount, "1"⟩

theorem classify_conserves_deposit :
    ∃ flows, classify ledgerDecimals asciiLowercase [depositRow "100"] = .ok flows ∧
      flowsChange ledgerDecimals "USD" flows =
        linesChange ledgerDecimals "USD" (kept asciiLowercase [depositRow "100"]) := by
  have hwrites : ∀ row ∈ [depositRow "100"], row.WritesBack ledgerDecimals := by
    intro row hrow
    rw [List.mem_singleton.1 hrow]
    constructor <;> unfold Writes <;> decide +kernel
  rcases h : classify ledgerDecimals asciiLowercase [depositRow "100"] with e | flows
  · have hok : (classify ledgerDecimals asciiLowercase [depositRow "100"]).isOk = true := by
      decide +kernel
    rw [h] at hok
    cases hok
  · exact ⟨flows, rfl, (classify_conserves_iff hwrites h).2 (by decide +kernel)⟩

/-- A deposit that Kraken takes back is given out once more: a hundred and one were taken, and ninety-nine
are added. -/
theorem reversed_deposit_added :
    ∃ flows, classify ledgerDecimals asciiLowercase [depositRow "-100"] = .ok flows ∧
      flowsChange ledgerDecimals "USD" flows = 99 ∧
      linesChange ledgerDecimals "USD" (kept asciiLowercase [depositRow "-100"]) = -101 := by
  rcases h : classify ledgerDecimals asciiLowercase [depositRow "-100"] with e | flows
  · have hok : (classify ledgerDecimals asciiLowercase [depositRow "-100"]).isOk = true := by
      decide +kernel
    rw [h] at hok
    cases hok
  · have hflows : (classify ledgerDecimals asciiLowercase [depositRow "-100"]).toOption.map
        (flowsChange ledgerDecimals "USD") = some 99 := by
      decide +kernel
    rw [h] at hflows
    exact ⟨flows, rfl, Option.some.inj hflows, by decide +kernel⟩

end Example

end Linvesther.Worker
