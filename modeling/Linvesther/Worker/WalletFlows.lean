import Linvesther.Base.JoinedText
import Linvesther.Worker.Kraken

/-! `classify` of `wallet.rs`: what becomes of the effects that were kept of a wallet. The transfers of one
transaction are one flow together; gas and what no transfer explains are flows of their own. -/

namespace Linvesther.Worker.WalletFlows

open Transaction OrderedMap JoinedText

section Classify

structure EffectRow where
  chainId : Int64
  txHash : String
  asset : String
  kind : String
  timeMs : Int64
  delta : String
deriving DecidableEq

inductive ClassifyError where
  | unreadable (text : String)
  | unknownKind (kind : String)
deriving DecidableEq

/-- The transactions, by network and hash. -/
abbrev Transactions := Std.TreeMap (Int64 × String) (List EffectRow) (@compare _ lexOrd)

def EffectRow.transaction (row : EffectRow) : Int64 × String := (row.chainId, row.txHash)

variable (lib : Decimals)

def amount (text : String) : Except ClassifyError ℚ :=
  match lib.fromStr text with
  | some d => .ok d
  | none => .error (.unreadable text)

def leg (asset : String) (delta : ℚ) : AssetLeg := signedLeg lib asset delta

def gasFlow (row : EffectRow) (delta : ℚ) : NormalizedFlow where
  sourceNamespace := .transfer
  sourceId := "gas:" ++ (toString row.chainId.toInt ++ ":" ++ row.txHash)
  economicTimeMs := row.timeMs.toUInt64
  legs := [leg lib row.asset delta]
  fee := none

def unexplainedFlow (row : EffectRow) (delta : ℚ) : NormalizedFlow where
  sourceNamespace := if delta < 0 then .withdrawal else .deposit
  sourceId := "unexplained:" ++ (toString row.chainId.toInt ++ ":" ++ (row.txHash ++ ":" ++ row.asset))
  economicTimeMs := row.timeMs.toUInt64
  legs := [leg lib row.asset delta]
  fee := none

/-- The first loop: the flows so far, and the transfers that wait for their transaction. -/
def classifyRow (s : List NormalizedFlow × Transactions) (row : EffectRow) :
    Except ClassifyError (List NormalizedFlow × Transactions) := do
  let delta ← amount lib row.delta
  if row.kind = "transfer" then pure (s.1, push EffectRow.transaction s.2 row)
  else if row.kind = "gas" then pure (s.1 ++ [gasFlow lib row delta], s.2)
  else if row.kind = "unexplained" then pure (s.1 ++ [unexplainedFlow lib row delta], s.2)
  else .error (.unknownKind row.kind)

structure Sides where
  legs : List AssetLeg
  credits : Bool
  debits : Bool

def addEffect (s : Sides) (effect : EffectRow) : Except ClassifyError Sides := do
  let delta ← amount lib effect.delta
  pure ⟨s.legs ++ [leg lib effect.asset delta], s.credits || !decide (delta < 0),
    s.debits || decide (delta < 0)⟩

def familyOf : Bool → Bool → FlowFamily
  | true, true => .convert
  | true, false => .deposit
  | _, _ => .withdrawal

def earliestOf (effects : List EffectRow) : UInt64 :=
  (Int64.ofInt ((effects.map fun e => e.timeMs.toInt).min?.getD 0)).toUInt64

def transactionFlow (entry : (Int64 × String) × List EffectRow) : Except ClassifyError NormalizedFlow := do
  let sides ← entry.2.foldlM (addEffect lib) ⟨[], false, false⟩
  pure
    { sourceNamespace := familyOf sides.credits sides.debits
      sourceId := "tx:" ++ (toString entry.1.1.toInt ++ ":" ++ entry.1.2)
      economicTimeMs := earliestOf entry.2
      legs := sides.legs
      fee := none }

/-- The order of the flows: by time, and by id at one time. -/
def Precedes (a b : NormalizedFlow) : Prop :=
  toLex (a.economicTimeMs.toNat, a.sourceId) ≤ toLex (b.economicTimeMs.toNat, b.sourceId)

instance : DecidableRel Precedes := fun _ _ => inferInstanceAs (Decidable (_ ≤ _))

instance : Std.Total Precedes := ⟨fun _ _ => le_total _ _⟩

instance : IsTrans NormalizedFlow Precedes := ⟨fun _ _ _ => le_trans⟩

def classify (rows : List EffectRow) : Except ClassifyError (List NormalizedFlow) := do
  let s ← rows.foldlM (classifyRow lib) ([], ∅)
  let transfers ← s.2.toList.mapM (transactionFlow lib)
  pure ((s.1 ++ transfers).insertionSort Precedes)

end Classify

section Stored

variable (lib : Decimals)

/-- A row of a known kind whose amount can be read. -/
structure EffectRow.Stored (row : EffectRow) : Prop where
  kind : row.kind = "transfer" ∨ row.kind = "gas" ∨ row.kind = "unexplained"
  readable : (lib.fromStr row.delta).isSome
  writesBack : Writes lib |amountOf lib row.delta|

def EffectRow.deltaOf (row : EffectRow) : ℚ := amountOf lib row.delta

def EffectRow.change (asset : String) (row : EffectRow) : ℚ :=
  if row.asset = asset then row.deltaOf lib else 0

def transfersOf (rows : List EffectRow) : List EffectRow := rows.filter (·.kind = "transfer")

def othersOf (rows : List EffectRow) : List EffectRow := rows.filter (·.kind ≠ "transfer")

/-- The flow of a row that is no transfer. -/
def effectFlow (row : EffectRow) : NormalizedFlow :=
  if row.kind = "gas" then gasFlow lib row (row.deltaOf lib) else unexplainedFlow lib row (row.deltaOf lib)

/-- The transactions that transfer something, each once. -/
def transactionsOf (rows : List EffectRow) : List (Int64 × String) :=
  ((transfersOf rows).map EffectRow.transaction).dedup

/-- The transfers of a transaction. -/
def effectsOf (rows : List EffectRow) (tx : Int64 × String) : List EffectRow :=
  (transfersOf rows).filter fun row => row.transaction = tx

/-- The flow of a transaction with these transfers. -/
def flowOf (tx : Int64 × String) (effects : List EffectRow) : NormalizedFlow where
  sourceNamespace := familyOf (effects.any fun e => !decide (e.deltaOf lib < 0))
    (effects.any fun e => decide (e.deltaOf lib < 0))
  sourceId := "tx:" ++ (toString tx.1.toInt ++ ":" ++ tx.2)
  economicTimeMs := earliestOf effects
  legs := effects.map fun e => leg lib e.asset (e.deltaOf lib)
  fee := none

/-- One flow for each transaction, and one for each row that is no transfer. -/
def flowsOf (rows : List EffectRow) : List NormalizedFlow :=
  (othersOf rows).map (effectFlow lib) ++
    (transactionsOf rows).map fun tx => flowOf lib tx (effectsOf rows tx)

variable {lib}

theorem amount_ok {row : EffectRow} (h : row.Stored lib) : amount lib row.delta = .ok (row.deltaOf lib) := by
  obtain ⟨d, hd⟩ := Option.isSome_iff_exists.1 h.readable
  unfold amount EffectRow.deltaOf amountOf
  rw [hd]
  rfl

theorem classifyRow_ok {row : EffectRow} (h : row.Stored lib) (s : List NormalizedFlow × Transactions) :
    classifyRow lib s row = .ok (if row.kind = "transfer" then (s.1, push EffectRow.transaction s.2 row)
      else (s.1 ++ [effectFlow lib row], s.2)) := by
  unfold classifyRow effectFlow
  rw [amount_ok h]
  change (if row.kind = "transfer" then pure _ else _) = _
  rcases h.kind with hkind | hkind | hkind
  · rw [hkind]
    rfl
  · rw [hkind]
    rfl
  · rw [hkind]
    rfl

/-- The first loop puts the transfers by their transactions and makes a flow of each other row. -/
theorem classifyRows_ok {rows : List EffectRow} (h : ∀ row ∈ rows, row.Stored lib)
    (s : List NormalizedFlow × Transactions) :
    rows.foldlM (classifyRow lib) s = .ok (s.1 ++ (othersOf rows).map (effectFlow lib),
      (transfersOf rows).foldl (push EffectRow.transaction) s.2) := by
  unfold othersOf transfersOf
  induction rows generalizing s with
  | nil => simp [pure, Except.pure]
  | cons row rows ih =>
    obtain ⟨hrow, hrows⟩ := List.forall_mem_cons.1 h
    rw [List.foldlM_cons, classifyRow_ok hrow]
    change rows.foldlM (classifyRow lib) _ = _
    rw [ih hrows]
    by_cases hkind : row.kind = "transfer"
    · simp [hkind]
    · simp [hkind]

theorem addEffects_ok {effects : List EffectRow} (h : ∀ row ∈ effects, row.Stored lib) (s : Sides) :
    effects.foldlM (addEffect lib) s =
      .ok ⟨s.legs ++ effects.map fun e => leg lib e.asset (e.deltaOf lib),
        s.credits || effects.any fun e => !decide (e.deltaOf lib < 0),
        s.debits || effects.any fun e => decide (e.deltaOf lib < 0)⟩ := by
  induction effects generalizing s with
  | nil => simp [pure, Except.pure]
  | cons effect effects ih =>
    obtain ⟨heffect, heffects⟩ := List.forall_mem_cons.1 h
    have hfirst : addEffect lib s effect = .ok ⟨s.legs ++ [leg lib effect.asset (effect.deltaOf lib)],
        s.credits || !decide (effect.deltaOf lib < 0), s.debits || decide (effect.deltaOf lib < 0)⟩ := by
      unfold addEffect
      rw [amount_ok heffect]
      rfl
    rw [List.foldlM_cons, hfirst]
    change effects.foldlM (addEffect lib) _ = _
    rw [ih heffects]
    simp [Bool.or_assoc]

theorem transactionFlow_ok {entry : (Int64 × String) × List EffectRow} (h : ∀ row ∈ entry.2, row.Stored lib) :
    transactionFlow lib entry = .ok (flowOf lib entry.1 entry.2) := by
  unfold transactionFlow flowOf
  rw [addEffects_ok h]
  simp [bind, Except.bind, pure, Except.pure]

theorem transactionFlows_ok {entries : List ((Int64 × String) × List EffectRow)}
    (h : ∀ entry ∈ entries, ∀ row ∈ entry.2, row.Stored lib) :
    entries.mapM (transactionFlow lib) = .ok (entries.map fun entry => flowOf lib entry.1 entry.2) := by
  rw [mapM_ok, List.forall₂_map_right_iff, List.forall₂_same]
  exact fun entry hentry => transactionFlow_ok (h entry hentry)

/-- The flows are those of the transactions and of the other rows, put in order. -/
theorem classify_ok {rows : List EffectRow} (h : ∀ row ∈ rows, row.Stored lib) :
    ∃ flows, classify lib rows = .ok flows ∧ flows.Perm (flowsOf lib rows) ∧ flows.Pairwise Precedes := by
  have hgroups : ((transfersOf rows).foldl (push EffectRow.transaction) (∅ : Transactions)).toList.Perm
      ((transactionsOf rows).map fun tx => (tx, effectsOf rows tx)) := perm_toList_groups _
  have hstored : ∀ entry ∈ ((transfersOf rows).foldl (push EffectRow.transaction) (∅ : Transactions)).toList,
      ∀ row ∈ entry.2, row.Stored lib := by
    intro entry hentry row hrow
    obtain ⟨tx, -, rfl⟩ := List.mem_map.1 (hgroups.subset hentry)
    exact h row (List.mem_of_mem_filter (List.mem_of_mem_filter hrow))
  refine ⟨((othersOf rows).map (effectFlow lib) ++
    ((transfersOf rows).foldl (push EffectRow.transaction) (∅ : Transactions)).toList.map
      fun entry => flowOf lib entry.1 entry.2).insertionSort Precedes, ?_, ?_, ?_⟩
  · unfold classify
    rw [classifyRows_ok h, bind_ok]
    refine ⟨_, rfl, ?_⟩
    rw [bind_ok]
    exact ⟨_, transactionFlows_ok hstored, rfl⟩
  · refine (List.perm_insertionSort Precedes _).trans (List.Perm.append_left _ ?_)
    have hflows := hgroups.map fun entry => flowOf lib entry.1 entry.2
    rw [List.map_map] at hflows
    exact hflows
  · exact List.pairwise_insertionSort Precedes _

end Stored

section Sums

variable {lib : Decimals} {asset : String}

theorem leg_change {row : EffectRow} (h : row.Stored lib) :
    (leg lib row.asset (row.deltaOf lib)).change lib asset = row.change lib asset :=
  signedLeg_change asset h.writesBack

theorem effectFlow_change {row : EffectRow} (h : row.Stored lib) :
    flowsChange lib asset [effectFlow lib row] = row.change lib asset := by
  rw [← leg_change h]
  unfold effectFlow
  split_ifs
  · simp [flowsChange, gasFlow]
  · simp [flowsChange, unexplainedFlow]

theorem flowOf_change {tx : Int64 × String} {effects : List EffectRow} (h : ∀ row ∈ effects, row.Stored lib) :
    flowsChange lib asset [flowOf lib tx effects] = (effects.map (EffectRow.change lib asset)).sum := by
  have hlegs : (effects.map fun e => leg lib e.asset (e.deltaOf lib)).map (AssetLeg.change lib asset) =
      effects.map (EffectRow.change lib asset) := by
    rw [List.map_map]
    exact List.map_congr_left fun row hrow => leg_change (h row hrow)
  simp [flowsChange, flowOf, ← hlegs]

theorem flowsChange_map {α : Type} {l : List α} {flow : α → NormalizedFlow} {change : α → ℚ}
    (h : ∀ a ∈ l, flowsChange lib asset [flow a] = change a) :
    flowsChange lib asset (l.map flow) = (l.map change).sum := by
  induction l with
  | nil => rfl
  | cons a l ih =>
    obtain ⟨ha, hl⟩ := List.forall_mem_cons.1 h
    rw [List.map_cons, ← List.singleton_append, flowsChange_append, ha, ih hl, List.map_cons, List.sum_cons]

/-- The effects of all transactions are the transfers. -/
theorem effectsOf_perm (rows : List EffectRow) :
    ((transactionsOf rows).flatMap (effectsOf rows)).Perm (transfersOf rows) :=
  perm_groups EffectRow.transaction (transfersOf rows)

theorem flowsOf_change {rows : List EffectRow} (h : ∀ row ∈ rows, row.Stored lib) :
    flowsChange lib asset (flowsOf lib rows) = (rows.map (EffectRow.change lib asset)).sum := by
  have hothers : flowsChange lib asset ((othersOf rows).map (effectFlow lib)) =
      ((othersOf rows).map (EffectRow.change lib asset)).sum :=
    flowsChange_map fun row hrow => effectFlow_change (h row (List.mem_of_mem_filter hrow))
  have htransfers : flowsChange lib asset ((transactionsOf rows).map fun tx => flowOf lib tx (effectsOf rows tx)) =
      ((transfersOf rows).map (EffectRow.change lib asset)).sum := by
    have heach : ∀ tx ∈ transactionsOf rows, flowsChange lib asset [flowOf lib tx (effectsOf rows tx)] =
        ((effectsOf rows tx).map (EffectRow.change lib asset)).sum := fun tx _ =>
      flowOf_change fun row hrow => h row (List.mem_of_mem_filter (List.mem_of_mem_filter hrow))
    rw [flowsChange_map heach, ← ((effectsOf_perm rows).map _).sum_eq, List.map_flatMap, List.flatMap,
      List.sum_flatten, List.map_map]
    rfl
  have hrows := List.filter_append_perm (fun row : EffectRow => decide (row.kind = "transfer")) rows
  rw [← (hrows.map _).sum_eq, List.map_append, List.sum_append]
  unfold flowsOf
  rw [flowsChange_append, hothers, htransfers, add_comm]
  simp [transfersOf, othersOf]

end Sums

section Ids

variable (lib : Decimals)

/-- Gas is paid once in a transaction, and what is unexplained has texts that can be told apart. -/
structure DistinctTexts (rows : List EffectRow) : Prop where
  gas : ((rows.filter (·.kind = "gas")).map EffectRow.transaction).Nodup
  unexplained : ((rows.filter (·.kind = "unexplained")).map fun row =>
    (row.chainId, row.txHash ++ ":" ++ row.asset)).Nodup

variable {lib}

theorem chainText_inj {c c' : Int64} {x y : String} :
    toString c.toInt ++ ":" ++ x = toString c'.toInt ++ ":" ++ y ↔ (c, x) = (c', y) := by
  constructor
  · intro h
    obtain ⟨hchain, hrest⟩ := append_colon_inj (colon_notMem_toString _) (colon_notMem_toString _) h
    rw [Int64.toInt_inj.1 (toString_inj hchain), hrest]
  · intro h
    rw [(Prod.mk.inj h).1, (Prod.mk.inj h).2]

theorem gas_ne_unexplained (x y : String) : "gas:" ++ x ≠ "unexplained:" ++ y := by
  intro h
  have := congrArg (fun s : String => s.toList.head?) h
  simp at this

theorem gas_ne_tx (x y : String) : "gas:" ++ x ≠ "tx:" ++ y := by
  intro h
  have := congrArg (fun s : String => s.toList.head?) h
  simp at this

theorem unexplained_ne_tx (x y : String) : "unexplained:" ++ x ≠ "tx:" ++ y := by
  intro h
  have := congrArg (fun s : String => s.toList.head?) h
  simp at this

theorem effectFlow_ne_flowOf (row : EffectRow) (tx : Int64 × String) (effects : List EffectRow) :
    (effectFlow lib row).sourceId ≠ (flowOf lib tx effects).sourceId := by
  unfold effectFlow
  split_ifs
  · exact gas_ne_tx _ _
  · exact unexplained_ne_tx _ _

theorem flowOf_sourceId_inj {tx tx' : Int64 × String} {effects effects' : List EffectRow}
    (h : (flowOf lib tx effects).sourceId = (flowOf lib tx' effects').sourceId) : tx = tx' := by
  have htext := chainText_inj.1 ((String.append_right_inj "tx:").1 h)
  exact htext

theorem effectFlow_sourceId_inj {row row' : EffectRow} (h : row.Stored lib) (h' : row'.Stored lib)
    (hkind : row.kind ≠ "transfer") (hkind' : row'.kind ≠ "transfer") :
    (effectFlow lib row).sourceId ≠ (effectFlow lib row').sourceId ↔
      (row.kind = "gas" → row'.kind = "gas" → row.transaction ≠ row'.transaction) ∧
        (row.kind = "unexplained" → row'.kind = "unexplained" →
          (row.chainId, row.txHash ++ ":" ++ row.asset) ≠ (row'.chainId, row'.txHash ++ ":" ++ row'.asset)) := by
  have hother : row.kind = "gas" ∨ row.kind = "unexplained" := h.kind.resolve_left hkind
  have hother' : row'.kind = "gas" ∨ row'.kind = "unexplained" := h'.kind.resolve_left hkind'
  unfold effectFlow
  rcases hother with hgas | hleft
  · rcases hother' with hgas' | hleft'
    · simp only [hgas, hgas', if_true, gasFlow, EffectRow.transaction]
      rw [Ne, String.append_right_inj, chainText_inj]
      simp
    · have hne := gas_ne_unexplained (toString row.chainId.toInt ++ ":" ++ row.txHash)
        (toString row'.chainId.toInt ++ ":" ++ (row'.txHash ++ ":" ++ row'.asset))
      simpa [hgas, hleft', gasFlow, unexplainedFlow] using hne
  · rcases hother' with hgas' | hleft'
    · have hne := (gas_ne_unexplained (toString row'.chainId.toInt ++ ":" ++ row'.txHash)
        (toString row.chainId.toInt ++ ":" ++ (row.txHash ++ ":" ++ row.asset))).symm
      simpa [hleft, hgas', gasFlow, unexplainedFlow] using hne
    · simp only [hleft, hleft', unexplainedFlow]
      simp only [String.reduceEq, if_false]
      rw [Ne, String.append_right_inj, chainText_inj]
      simp

theorem nodup_effectFlows_iff {rows : List EffectRow} (h : ∀ row ∈ rows, row.Stored lib) :
    (((othersOf rows).map (effectFlow lib)).map NormalizedFlow.sourceId).Nodup ↔ DistinctTexts rows := by
  have hboth : (∀ {row row' : EffectRow}, row ∈ rows → row' ∈ rows →
      ((row.kind ≠ "transfer" → row'.kind ≠ "transfer" →
        (effectFlow lib row).sourceId ≠ (effectFlow lib row').sourceId) ↔
        (row.kind = "gas" → row'.kind = "gas" → row.transaction ≠ row'.transaction) ∧
          (row.kind = "unexplained" → row'.kind = "unexplained" →
            (row.chainId, row.txHash ++ ":" ++ row.asset) ≠ (row'.chainId, row'.txHash ++ ":" ++ row'.asset)))) := by
    intro row row' hrow hrow'
    by_cases hkind : row.kind = "transfer"
    · simp [hkind]
    · by_cases hkind' : row'.kind = "transfer"
      · simp [hkind']
      · rw [← effectFlow_sourceId_inj (h row hrow) (h row' hrow') hkind hkind']
        simp [hkind, hkind']
  rw [List.map_map, List.Nodup, List.pairwise_map, othersOf, List.pairwise_filter]
  have hpairs := List.Pairwise.iff_of_mem hboth
  rw [List.pairwise_and_iff] at hpairs
  have hgas : ((rows.filter (·.kind = "gas")).map EffectRow.transaction).Nodup ↔
      rows.Pairwise fun row row' =>
        row.kind = "gas" → row'.kind = "gas" → row.transaction ≠ row'.transaction := by
    rw [List.Nodup, List.pairwise_map, List.pairwise_filter]
    simp only [decide_eq_true_eq]
  have hunexplained : ((rows.filter (·.kind = "unexplained")).map fun row =>
      (row.chainId, row.txHash ++ ":" ++ row.asset)).Nodup ↔
      rows.Pairwise fun row row' => row.kind = "unexplained" → row'.kind = "unexplained" →
        (row.chainId, row.txHash ++ ":" ++ row.asset) ≠ (row'.chainId, row'.txHash ++ ":" ++ row'.asset) := by
    rw [List.Nodup, List.pairwise_map, List.pairwise_filter]
    simp only [decide_eq_true_eq]
  rw [← hgas, ← hunexplained] at hpairs
  simp only [decide_eq_true_eq]
  refine hpairs.trans ⟨fun hdistinct => ⟨hdistinct.1, hdistinct.2⟩, fun hdistinct => ?_⟩
  exact ⟨hdistinct.gas, hdistinct.unexplained⟩

theorem nodup_sourceIds_iff {rows : List EffectRow} (h : ∀ row ∈ rows, row.Stored lib) :
    ((flowsOf lib rows).map NormalizedFlow.sourceId).Nodup ↔ DistinctTexts rows := by
  rw [← nodup_effectFlows_iff h, flowsOf, List.map_append, List.nodup_append]
  have htransfers : (((transactionsOf rows).map fun tx => flowOf lib tx (effectsOf rows tx)).map
      NormalizedFlow.sourceId).Nodup := by
    rw [List.map_map]
    exact (List.nodup_dedup _).map fun _ _ hid => flowOf_sourceId_inj hid
  refine and_iff_left ⟨htransfers, ?_⟩
  intro id hid id' hid'
  simp only [List.map_map, List.mem_map] at hid hid'
  obtain ⟨row, -, rfl⟩ := hid
  obtain ⟨tx, -, rfl⟩ := hid'
  exact effectFlow_ne_flowOf row tx _

end Ids

section Order

variable {lib : Decimals}

/-- A flow without the order of its legs. -/
def unordered (flow : NormalizedFlow) : FlowFamily × String × UInt64 × Multiset AssetLeg × Option AssetLeg :=
  (flow.sourceNamespace, flow.sourceId, flow.economicTimeMs, flow.legs, flow.fee)

theorem min?_perm {l l' : List ℤ} (h : l.Perm l') : l.min? = l'.min? := by
  rcases hmin : l'.min? with _ | least
  · rw [List.min?_eq_none_iff] at hmin ⊢
    exact List.Perm.eq_nil (hmin ▸ h)
  · rw [List.min?_eq_some_iff] at hmin ⊢
    exact ⟨h.symm.subset hmin.1, fun b hb => hmin.2 b (h.subset hb)⟩

theorem flowOf_perm {effects effects' : List EffectRow} (h : effects.Perm effects') (tx : Int64 × String) :
    unordered (flowOf lib tx effects) = unordered (flowOf lib tx effects') := by
  have hearliest : earliestOf effects = earliestOf effects' := by
    unfold earliestOf
    rw [min?_perm (h.map _)]
  have hlegs : ((effects.map fun e => leg lib e.asset (e.deltaOf lib) : List AssetLeg) : Multiset AssetLeg) =
      (effects'.map fun e => leg lib e.asset (e.deltaOf lib) : List AssetLeg) :=
    Multiset.coe_eq_coe.2 (h.map _)
  unfold unordered flowOf
  dsimp only
  rw [h.any_eq, h.any_eq, hearliest, hlegs]

theorem flowsOf_perm {rows rows' : List EffectRow} (h : rows.Perm rows') :
    ((flowsOf lib rows).map unordered).Perm ((flowsOf lib rows').map unordered) := by
  have hothers : (othersOf rows).Perm (othersOf rows') := h.filter _
  have htransfers : (transfersOf rows).Perm (transfersOf rows') := h.filter _
  have htransactions : (transactionsOf rows).Perm (transactionsOf rows') := (htransfers.map _).dedup
  unfold flowsOf
  rw [List.map_append, List.map_append, List.map_map, List.map_map, List.map_map, List.map_map]
  refine (hothers.map _).append ?_
  have hsame : (transactionsOf rows).map (unordered ∘ fun tx => flowOf lib tx (effectsOf rows tx)) =
      (transactionsOf rows).map (unordered ∘ fun tx => flowOf lib tx (effectsOf rows' tx)) :=
    List.map_congr_left fun tx _ => flowOf_perm (htransfers.filter _) tx
  rw [hsame]
  exact htransactions.map _

/-- Flows in order whose ids differ stand in one order only. -/
theorem map_unordered_eq {flows flows' : List NormalizedFlow} (h : (flows.map unordered).Perm (flows'.map unordered))
    (hflows : flows.Pairwise Precedes) (hflows' : flows'.Pairwise Precedes)
    (hids : (flows.map NormalizedFlow.sourceId).Nodup) : flows.map unordered = flows'.map unordered := by
  have hkey : ∀ flow ∈ flows, ∀ flow' ∈ flows', flow.sourceId = flow'.sourceId →
      unordered flow = unordered flow' := by
    intro flow hflow flow' hflow' hid
    obtain ⟨same, hsame, heq⟩ := List.mem_map.1 (h.symm.subset (List.mem_map_of_mem hflow'))
    have hsameId : same.sourceId = flow'.sourceId := congrArg (fun u => u.2.1) heq
    rw [List.inj_on_of_nodup_map hids hflow hsame (hid.trans hsameId.symm), heq]
  refine @List.Perm.eq_of_pairwise _ (fun u v => toLex (u.2.2.1.toNat, u.2.1) ≤ toLex (v.2.2.1.toNat, v.2.1)) _ _ ?_
    (List.pairwise_map.2 hflows) (List.pairwise_map.2 hflows') h
  rintro _ _ hu hv huv hvu
  obtain ⟨flow, hflow, rfl⟩ := List.mem_map.1 hu
  obtain ⟨flow', hflow', rfl⟩ := List.mem_map.1 hv
  have hboth := toLex_inj.1 (le_antisymm huv hvu)
  exact hkey flow hflow flow' hflow' (Prod.mk.inj hboth).2

end Order

section Family

variable (lib : Decimals)

/-- It received something, or it sent something. -/
def receives (effects : List EffectRow) : Prop := ∃ e ∈ effects, 0 < e.deltaOf lib

def sends (effects : List EffectRow) : Prop := ∃ e ∈ effects, e.deltaOf lib < 0

/-- A change of nothing counts as received, which matters where nothing else is. -/
def Decided (effects : List EffectRow) : Prop := receives lib effects ∨ ∀ e ∈ effects, e.deltaOf lib ≠ 0

variable {lib} {effects : List EffectRow} (tx : Int64 × String)

theorem any_debit : (effects.any fun e => decide (e.deltaOf lib < 0)) = true ↔ sends lib effects := by
  simp [sends]

theorem any_credit (h : Decided lib effects) :
    (effects.any fun e => !decide (e.deltaOf lib < 0)) = true ↔ receives lib effects := by
  simp only [List.any_eq_true, Bool.not_eq_true', decide_eq_false_iff_not, not_lt]
  constructor
  · rintro ⟨e, he, hnot⟩
    rcases h with hreceives | hnone
    · exact hreceives
    · exact ⟨e, he, lt_of_le_of_ne hnot (hnone e he).symm⟩
  · rintro ⟨e, he, hpos⟩
    exact ⟨e, he, hpos.le⟩

/-- What a transaction is, by whether it received and whether it sent. -/
theorem flowOf_family (h : Decided lib effects) (hsome : effects ≠ []) :
    ((flowOf lib tx effects).sourceNamespace = .convert ↔ receives lib effects ∧ sends lib effects) ∧
      ((flowOf lib tx effects).sourceNamespace = .deposit ↔ receives lib effects ∧ ¬ sends lib effects) ∧
      ((flowOf lib tx effects).sourceNamespace = .withdrawal ↔ sends lib effects ∧ ¬ receives lib effects) := by
  have hone : receives lib effects ∨ sends lib effects := by
    rcases h with hreceives | hnone
    · exact .inl hreceives
    · obtain ⟨e, he⟩ := List.exists_mem_of_ne_nil effects hsome
      rcases lt_or_gt_of_ne (hnone e he) with hneg | hpos
      · exact .inr ⟨e, he, hneg⟩
      · exact .inl ⟨e, he, hpos⟩
  have hcredit := any_credit h
  have hdebit := @any_debit lib effects
  unfold flowOf
  dsimp only
  generalize (effects.any fun e => !decide (e.deltaOf lib < 0)) = credits at hcredit
  generalize (effects.any fun e => decide (e.deltaOf lib < 0)) = debits at hdebit
  rw [← hcredit, ← hdebit] at hone ⊢
  cases credits with
  | false =>
    cases debits with
    | false => simp at hone
    | true => simp [familyOf]
  | true =>
    cases debits with
    | false => simp [familyOf]
    | true => simp [familyOf]

theorem effectsOf_ne_nil {rows : List EffectRow} {tx : Int64 × String} (h : tx ∈ transactionsOf rows) :
    effectsOf rows tx ≠ [] := by
  obtain ⟨row, hrow, rfl⟩ := List.mem_map.1 (List.mem_dedup.1 h)
  exact List.ne_nil_of_mem (List.mem_filter.2 ⟨hrow, decide_eq_true rfl⟩)

end Family

section Classified

variable (lib : Decimals)

/-- What is known of the flows of a wallet's effects. -/
structure Classified (rows : List EffectRow) (flows : List NormalizedFlow) : Prop where
  one_each : flows.Perm (flowsOf lib rows)
  ordered : flows.Pairwise Precedes
  sums : ∀ asset, flowsChange lib asset flows = (rows.map (EffectRow.change lib asset)).sum
  ids : (flows.map NormalizedFlow.sourceId).Nodup ↔ DistinctTexts rows
  any_order : ∀ rows', rows'.Perm rows → ∃ flows', classify lib rows' = .ok flows' ∧
    (flows.map unordered).Perm (flows'.map unordered) ∧
    (DistinctTexts rows → flows.map unordered = flows'.map unordered)
  family : ∀ tx ∈ transactionsOf rows, Decided lib (effectsOf rows tx) →
    ((flowOf lib tx (effectsOf rows tx)).sourceNamespace = .convert ↔
      receives lib (effectsOf rows tx) ∧ sends lib (effectsOf rows tx)) ∧
    ((flowOf lib tx (effectsOf rows tx)).sourceNamespace = .deposit ↔
      receives lib (effectsOf rows tx) ∧ ¬ sends lib (effectsOf rows tx)) ∧
    ((flowOf lib tx (effectsOf rows tx)).sourceNamespace = .withdrawal ↔
      sends lib (effectsOf rows tx) ∧ ¬ receives lib (effectsOf rows tx))

variable {lib}

theorem classify_classified {rows : List EffectRow} (h : ∀ row ∈ rows, row.Stored lib) :
    ∃ flows, classify lib rows = .ok flows ∧ Classified lib rows flows := by
  obtain ⟨flows, hflows, hperm, hordered⟩ := classify_ok h
  have hids : (flows.map NormalizedFlow.sourceId).Nodup ↔ DistinctTexts rows := by
    rw [← nodup_sourceIds_iff h]
    exact (hperm.map _).nodup_iff
  refine ⟨flows, hflows, hperm, hordered, fun asset => ?_, hids, fun rows' hrows' => ?_, fun tx htx hdecided => ?_⟩
  · rw [← flowsOf_change h]
    exact (hperm.map _).sum_eq
  · obtain ⟨flows', hflows', hperm', hordered'⟩ := classify_ok fun row hrow => h row (hrows'.subset hrow)
    have hsame : (flows.map unordered).Perm (flows'.map unordered) :=
      ((hperm.map _).trans (flowsOf_perm hrows'.symm)).trans (hperm'.map _).symm
    exact ⟨flows', hflows', hsame, fun hdistinct => map_unordered_eq hsame hordered hordered' (hids.2 hdistinct)⟩
  · exact flowOf_family tx hdecided (effectsOf_ne_nil htx)

/-- A swap with its gas, and a difference that nothing explains. -/
def swapRows : List EffectRow :=
  [⟨1, "0xs", "ethereum:0xusdc", "transfer", 3000, "-100"⟩,
    ⟨1, "0xs", "ethereum:native", "transfer", 3000, "99"⟩,
    ⟨1, "0xs", "ethereum:native", "gas", 3000, "-100"⟩,
    ⟨8453, "unexplained:900", "base:native", "unexplained", 5000, "1"⟩]

theorem classify_swap :
    ∃ flows, classify ledgerDecimals swapRows = .ok flows ∧ Classified ledgerDecimals swapRows flows := by
  refine classify_classified fun row hrow => ?_
  simp only [swapRows, List.mem_cons, List.not_mem_nil, or_false] at hrow
  rcases hrow with rfl | rfl | rfl | rfl
  · exact ⟨.inl rfl, by decide +kernel, by unfold Writes; decide +kernel⟩
  · exact ⟨.inl rfl, by decide +kernel, by unfold Writes; decide +kernel⟩
  · exact ⟨.inr (.inl rfl), by decide +kernel, by unfold Writes; decide +kernel⟩
  · exact ⟨.inr (.inr rfl), by decide +kernel, by unfold Writes; decide +kernel⟩

/-- A transaction that sends and changes another asset by nothing. -/
def zeroRows : List EffectRow :=
  [⟨1, "0xz", "ethereum:0xzero", "transfer", 1000, "0"⟩,
    ⟨1, "0xz", "ethereum:native", "transfer", 1000, "-100"⟩]

/-- Two gas rows of one transaction, in different assets. -/
def gasRows : List EffectRow :=
  [⟨1, "0xg", "ethereum:native", "gas", 1000, "-100"⟩, ⟨1, "0xg", "ethereum:0xusdc", "gas", 1000, "-100"⟩]

theorem zero_gas_and_order :
    ((classify ledgerDecimals zeroRows).toOption.map fun flows => flows.map (·.sourceNamespace)) = some [.convert] ∧
      ¬ (∃ row ∈ zeroRows, 0 < row.deltaOf ledgerDecimals) ∧
      (gasRows.map fun row => (row.chainId, row.txHash, row.asset, row.kind)).Nodup ∧
      ((classify ledgerDecimals gasRows).toOption.map fun flows => flows.map (·.sourceId)) =
        some ["gas:1:0xg", "gas:1:0xg"] ∧
      zeroRows.reverse.Perm zeroRows ∧
      (classify ledgerDecimals zeroRows.reverse).toOption ≠ (classify ledgerDecimals zeroRows).toOption := by
  refine ⟨by decide +kernel, by decide +kernel, by decide +kernel, by decide +kernel, List.reverse_perm _, ?_⟩
  decide +kernel

end Classified

end Linvesther.Worker.WalletFlows
