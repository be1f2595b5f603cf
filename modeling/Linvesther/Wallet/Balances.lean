import Linvesther.Base.Cursor
import Linvesther.Wallet.Sync

/-! The readings of a network over any run of syncs: they cover its blocks once each, and the balances
are the first ones plus what was kept since. -/

namespace Linvesther.Wallet

open Transaction

section Steps

variable {ReadError PriceError : Type} {lib : Lib} {chain : Chain} {address : String}
  {reader : ChainReader ReadError} {prices : PriceProvider PriceError}

/-- What a reading is as of, and what its effects come from. -/
structure ReadsAt (lib : Lib) (reader : ChainReader ReadError) (request : ReadRequest)
    (reading : Reading) : Prop where
  later : ∀ after, request.afterBlock = some after → after < reading.end_
  rows : ∃ range, rangeRows reader (lib.toLowercase request.address)
      (request.from_ reading.end_) reading.end_ = .ok range ∧
    reading.confirmed = (effectsOf lib request.chain (lib.toLowercase request.address)
      range.normal.rows range.internal.rows range.tokens.rows).list

theorem readChain_ok {request : ReadRequest} {reading : Reading}
    (h : readChain lib reader prices request = .ok (some reading)) :
    ReadsAt lib reader request reading := by
  simp only [readChain, bind_ok, mapError_ok] at h
  obtain ⟨head, -, h⟩ := h
  split_ifs at h with hnothing
  · simp [pure_ok] at h
  · simp only [bind_ok, mapError_ok, pure_ok, Option.some.injEq] at h
    obtain ⟨-, -, -, -, reading', hreading, rfl⟩ := h
    simp only [readAt, bind_ok, mapError_ok, pure_ok] at hreading
    obtain ⟨a, ha, priced, -, nativeRaw, -, balances, -, rfl⟩ := hreading
    refine ⟨fun after hafter => ?_, ?_⟩
    · rw [hafter] at hnothing
      simp only [Option.any_some, decide_eq_true_eq, not_le] at hnothing
      exact hnothing
    · simp only [askExplorer, bind_ok, pure_ok] at ha
      obtain ⟨range, hrange, recent, -, listed, -, rfl⟩ := ha
      exact ⟨range, hrange, rfl⟩

/-- What a sync that keeps a reading does to the rows. -/
structure Keeps (lib : Lib) (chain : Chain) (address : String) (rows rows' : ChainRows)
    (i : SyncInput ReadError PriceError) (reading : Reading) (differences : List (String × ℚ)) :
    Prop where
  reads : ReadsAt lib i.reader (rows.request chain address) reading
  differences_ : differencesOf reading (if rows.state.isNone then none else some rows.previous) =
    some differences
  state : rows'.state.map ChainState.syncedBlock = some reading.end_
  anchors : rows'.anchors = anchorRows chain reading
  effects : rows'.effects = (differences.map (unexplainedRow reading i.nowMs)).foldl insertEffect
    ((reading.confirmed.map Effect.row).foldl insertEffect rows.effects)

theorem syncChain_ok {rows rows' : ChainRows} {i : SyncInput ReadError PriceError}
    {reading : Reading} (h : syncChain lib chain address rows i = .ok (rows', reading)) :
    ∃ differences, Keeps lib chain address rows rows' i reading differences := by
  unfold syncChain at h
  rcases hread : readChain lib i.reader i.prices (rows.request chain address) with e | _ | reading'
  · simp [hread] at h
  · simp [hread] at h
  · simp only [hread, persist] at h
    rcases hdiff : differencesOf reading'
      (if rows.state.isNone then none else some rows.previous) with _ | differences
    · rw [hdiff] at h
      cases h
    · rw [hdiff] at h
      simp only [Option.map_some] at h
      split_ifs at h
      simp only [Except.ok.injEq, Prod.mk.injEq] at h
      obtain ⟨rfl, rfl⟩ := h
      exact ⟨differences, readChain_ok hread, hdiff, rfl, rfl, rfl⟩

end Steps

section Sums

/-- The effects that are kept of an asset, added up. -/
def total (effects : List EffectRow) (asset : String) : ℚ :=
  ((effects.filter fun e => e.asset = asset).map EffectRow.delta).sum

theorem total_append (l l' : List EffectRow) (asset : String) :
    total (l ++ l') asset = total l asset + total l' asset := by
  simp [total]

/-- New effects of different keys are all kept. -/
theorem foldl_insertEffect {new rows : List EffectRow} (hnodup : (new.map EffectRow.key).Nodup)
    (hfresh : ∀ e ∈ new, e.key ∉ rows.map EffectRow.key) :
    new.foldl insertEffect rows = rows ++ new := by
  induction new generalizing rows with
  | nil => simp
  | cons e new ih =>
    rw [List.map_cons, List.nodup_cons] at hnodup
    have hinsert : insertEffect rows e = rows ++ [e] := if_neg (hfresh e List.mem_cons_self)
    rw [List.foldl_cons, hinsert, ih hnodup.2 fun f hf => ?_]
    · simp
    · rw [List.map_append, List.mem_append, not_or, List.map_singleton, List.mem_singleton]
      refine ⟨hfresh f (List.mem_cons_of_mem _ hf), fun hsame => ?_⟩
      exact hnodup.1 (hsame ▸ List.mem_map_of_mem hf)

/-- The balance that is kept of an asset; an asset that is not followed has none. -/
def quantityOf (anchors : Std.TreeMap String AnchorRow) (asset : String) : ℚ :=
  (anchors[asset]?.map AnchorRow.quantity).getD 0

theorem quantityOf_anchorRows (chain : Chain) (reading : Reading) (asset : String) :
    quantityOf (anchorRows chain reading) asset = reading.anchor.getD asset 0 := by
  have hfold (assets : List String) (rows : Std.TreeMap String AnchorRow) :
      quantityOf (assets.foldl (fun rows asset =>
        rows.alter asset fun row => some (markUnrepresentable reading row)) rows) asset =
        quantityOf rows asset := by
    induction assets generalizing rows with
    | nil => rfl
    | cons a assets ih =>
      rw [List.foldl_cons, ih]
      unfold quantityOf
      rw [Std.TreeMap.getElem?_alter]
      simp only [Std.compare_eq_iff_eq]
      split_ifs with hsame
      · subst hsame
        rcases rows[a]? with _ | row
        · rfl
        · rfl
      · rfl
  unfold anchorRows
  dsimp only
  rw [hfold, quantityOf, Std.TreeMap.getElem?_map, Std.TreeMap.getD_eq_getD_getElem?]
  rcases reading.anchor[asset]? with _ | quantity
  · rfl
  · simp [anchorRow]

/-- No asset that is marked as unrepresentable is kept with a balance. -/
def ChainRows.Clean (rows : ChainRows) : Prop :=
  ∀ (asset : String) (row : AnchorRow), rows.anchors[asset]? = some row →
    row.unrepresentable = true → row.quantity = 0

/-- Then the balances of the last reading are those that the next one is compared with. -/
theorem getD_previous {rows : ChainRows} (hclean : rows.Clean) (asset : String) :
    (rows.previous.map fun _ p => p.1).getD asset 0 = quantityOf rows.anchors asset := by
  unfold ChainRows.previous quantityOf
  rw [Std.TreeMap.getD_eq_getD_getElem?, Std.TreeMap.getElem?_map, Std.TreeMap.getElem?_map,
    Std.TreeMap.getElem?_filter']
  rcases hrow : rows.anchors[asset]? with _ | row
  · rfl
  · rcases hmark : row.unrepresentable with _ | _
    · simp [Option.filter, hmark]
    · simp [Option.filter, hmark, hclean asset row hrow hmark]

/-- The tolerance of one asset. -/
def dust (decimals : ℕ) : ℚ := DUST_UNITS / 10 ^ decimals

theorem dust_nonneg (decimals : ℕ) : 0 ≤ dust decimals := by
  unfold dust DUST_UNITS
  positivity

theorem difference_eq_zero {previous anchor : Std.TreeMap String ℚ} {confirmed : List Effect}
    {asset : String} (hprevious : asset ∉ previous) (hanchor : asset ∉ anchor)
    (hconfirmed : asset ∉ confirmed.map Effect.asset) :
    difference previous confirmed anchor asset = 0 := by
  have hnone : (confirmed.filter fun e => e.asset = asset) = [] := by
    rw [List.filter_eq_nil_iff]
    intro e he hsame
    exact hconfirmed (List.mem_map.2 ⟨e, he, of_decide_eq_true hsame⟩)
  unfold difference
  rw [Std.TreeMap.getD_eq_fallback hprevious, Std.TreeMap.getD_eq_fallback hanchor, hnone]
  norm_num

theorem sum_filter_graph {l : List String} (hl : l.Nodup) (f : String → ℚ) (asset : String) :
    (((l.map fun a => (a, f a)).filter fun d => d.1 = asset).map Prod.snd).sum =
      if asset ∈ l then f asset else 0 := by
  induction l with
  | nil => simp
  | cons a l ih =>
    rw [List.nodup_cons] at hl
    rw [List.map_cons, List.filter_cons]
    by_cases hsame : a = asset
    · subst hsame
      rw [if_pos (decide_eq_true rfl), List.map_cons, List.sum_cons, ih hl.2, if_neg hl.1,
        if_pos List.mem_cons_self, add_zero]
    · rw [if_neg (by simp [hsame]), ih hl.2]
      simp [Ne.symm hsame]

/-- The recorded difference of an asset is the whole of it, or nothing where it is rounding. -/
theorem unexplained_some {previous anchor : Std.TreeMap String ℚ} {confirmed : List Effect}
    {decimals : String → ℕ} {differences : List (String × ℚ)}
    (h : unexplained previous confirmed anchor decimals = some differences) :
    (differences.map Prod.fst).Nodup ∧ ∀ asset,
      ((differences.filter fun d => d.1 = asset).map Prod.snd).sum =
        if dust (decimals asset) < |difference previous confirmed anchor asset| then
          difference previous confirmed anchor asset else 0 := by
  unfold unexplained at h
  dsimp only at h
  split_ifs at h
  rw [Option.some.injEq] at h
  subst h
  have hassets : (Std.TreeSet.ofList (previous.keys ++ anchor.keys ++
      confirmed.map Effect.asset)).toList.Nodup :=
    Std.TreeSet.distinct_toList.imp fun hne hsame => hne (Std.compare_eq_iff_eq.2 hsame)
  have hnodup := hassets.filter fun asset =>
    |difference previous confirmed anchor asset| > DUST_UNITS / 10 ^ decimals asset
  refine ⟨?_, fun asset => ?_⟩
  · have hfst : (Prod.fst ∘ fun asset => (asset, difference previous confirmed anchor asset)) =
      id := rfl
    rw [List.map_map, hfst, List.map_id]
    exact hnodup
  · rw [sum_filter_graph hnodup]
    simp only [List.mem_filter, decide_eq_true_eq, Std.TreeSet.mem_toList, Std.TreeSet.mem_ofList,
      List.contains_iff_mem, List.mem_append, Std.TreeMap.mem_keys]
    by_cases hasset : (asset ∈ previous ∨ asset ∈ anchor) ∨ asset ∈ confirmed.map Effect.asset
    · refine if_congr ?_ rfl rfl
      simp only [hasset, true_and, gt_iff_lt, dust]
    · have hzero : difference previous confirmed anchor asset = 0 :=
        difference_eq_zero (by tauto) (by tauto) (by tauto)
      rw [if_neg fun h => hasset h.1, hzero, ite_self]

end Sums

section Rows

/-- A row of the explorer's. -/
inductive Row where
  | normal (tx : NormalTx)
  | internal (tx : InternalTx)
  | token (t : TokenTransfer)
deriving DecidableEq

def Row.hash : Row → String
  | .normal tx => tx.hash
  | .internal tx => tx.hash
  | .token t => t.hash

def Row.block : Row → ℕ
  | .normal tx => tx.block
  | .internal tx => tx.block
  | .token t => t.block

def RangeRows.all (range : RangeRows) : List Row :=
  range.normal.rows.map .normal ++ range.internal.rows.map .internal ++ range.tokens.rows.map .token

theorem RangeRows.seenIn {range : RangeRows} {hash : String} {block : ℕ}
    (h : SeenIn range.normal.rows range.internal.rows range.tokens.rows hash block) :
    ∃ row ∈ range.all, row.hash = hash ∧ row.block = block := by
  unfold RangeRows.all
  rcases h with ⟨tx, htx, hhash, hblock⟩ | ⟨tx, htx, hhash, hblock⟩ | ⟨t, ht, hhash, hblock⟩
  · exact ⟨.normal tx, by simp [htx], hhash, hblock⟩
  · exact ⟨.internal tx, by simp [htx], hhash, hblock⟩
  · exact ⟨.token t, by simp [ht], hhash, hblock⟩

variable {ReadError : Type}

/-- An explorer answers with rows of the blocks it is asked for, and a transaction is in one block. -/
structure Faithful (blockOf : String → ℕ) (reader : ChainReader ReadError) : Prop where
  normal : ∀ address from_ end_ listing, reader.normalTxs address from_ end_ = .ok listing →
    ∀ tx ∈ listing.rows, (from_ ≤ tx.block ∧ tx.block ≤ end_) ∧ tx.block = blockOf tx.hash
  internal : ∀ address from_ end_ listing, reader.internalTxs address from_ end_ = .ok listing →
    ∀ tx ∈ listing.rows, (from_ ≤ tx.block ∧ tx.block ≤ end_) ∧ tx.block = blockOf tx.hash
  token : ∀ address from_ end_ listing, reader.tokenTransfers address from_ end_ = .ok listing →
    ∀ t ∈ listing.rows, (from_ ≤ t.block ∧ t.block ≤ end_) ∧ t.block = blockOf t.hash

variable {blockOf : String → ℕ} {reader : ChainReader ReadError}

theorem Faithful.rangeRows (h : Faithful blockOf reader) {address : String} {from_ end_ : ℕ}
    {range : RangeRows} (hrange : rangeRows reader address from_ end_ = .ok range) :
    ∀ row ∈ range.all, (from_ ≤ row.block ∧ row.block ≤ end_) ∧ row.block = blockOf row.hash := by
  unfold Wallet.rangeRows at hrange
  split_ifs at hrange
  · simp only [bind_ok, pure_ok] at hrange
    obtain ⟨normal, hnormal, internal, hinternal, tokens, htokens, rfl⟩ := hrange
    intro row hrow
    simp only [RangeRows.all, List.mem_append, List.mem_map] at hrow
    rcases hrow with (⟨tx, htx, rfl⟩ | ⟨tx, htx, rfl⟩) | ⟨t, ht, rfl⟩
    · exact h.normal _ _ _ _ hnormal tx htx
    · exact h.internal _ _ _ _ hinternal tx htx
    · exact h.token _ _ _ _ htokens t ht
  · rw [pure_ok] at hrange
    subst hrange
    intro row hrow
    cases hrow

end Rows

section Settled

variable {ReadError PriceError : Type} {lib : Lib} {chain : Chain} {address : String}
  {blockOf : String → ℕ}

/-- Every effect that is kept is of a block that was read, and its row is named after that block. -/
def ChainRows.Settled (blockOf : String → ℕ) (rows : ChainRows) : Prop :=
  ∀ e ∈ rows.effects, (∃ state, rows.state = some state ∧ e.block ≤ state.syncedBlock) ∧
    if e.kind = .unexplained then e.txHash = "unexplained:" ++ Nat.repr e.block
    else e.block = blockOf e.txHash

theorem Effect.row_kind (e : Effect) : e.row.kind ≠ .unexplained := by
  unfold Effect.row RowKind.of
  cases e.kind <;> simp

theorem nodup_row_key {confirmed : List Effect} (h : (confirmed.map Effect.key).Nodup) :
    ((confirmed.map Effect.row).map EffectRow.key).Nodup := by
  have hinjective : Function.Injective fun k : String × String × EffectKind =>
      (k.1, k.2.1, RowKind.of k.2.2) := by
    intro ⟨hash, asset, kind⟩ ⟨hash', asset', kind'⟩ heq
    simp only [Prod.mk.injEq] at heq ⊢
    refine ⟨heq.1, heq.2.1, ?_⟩
    have hkind := heq.2.2
    cases kind <;> cases kind' <;> first | rfl | cases hkind
  have hmap := h.map hinjective
  rw [List.map_map] at hmap ⊢
  exact hmap

theorem nodup_unexplained_key {differences : List (String × ℚ)} (reading : Reading) (nowMs : ℕ)
    (h : (differences.map Prod.fst).Nodup) :
    ((differences.map (unexplainedRow reading nowMs)).map EffectRow.key).Nodup := by
  have hinjective : Function.Injective fun asset : String =>
      ("unexplained:" ++ Nat.repr reading.end_, asset, RowKind.unexplained) := by
    intro asset asset' heq
    simp only [Prod.mk.injEq] at heq
    exact heq.2.1
  have hmap := h.map hinjective
  rw [List.map_map] at hmap ⊢
  exact hmap

variable {rows rows' : ChainRows} {i : SyncInput ReadError PriceError} {reading : Reading}
  {differences : List (String × ℚ)}

theorem Keeps.nodup (h : Keeps lib chain address rows rows' i reading differences) :
    (differences.map Prod.fst).Nodup := by
  have hdifferences := h.differences_
  unfold differencesOf at hdifferences
  split at hdifferences
  · rw [← Option.some.inj hdifferences]
    exact List.nodup_nil
  · exact (unexplained_some hdifferences).1

theorem Keeps.later (h : Keeps lib chain address rows rows' i reading differences)
    {state : ChainState} (hstate : rows.state = some state) :
    (rows.request chain address).from_ reading.end_ = state.syncedBlock + 1 ∧
      state.syncedBlock < reading.end_ := by
  have hafter : (rows.request chain address).afterBlock = some state.syncedBlock := by
    unfold ChainRows.request
    rw [hstate]
    rfl
  refine ⟨?_, h.reads.later _ hafter⟩
  unfold ReadRequest.from_
  rw [hafter]
  rfl

theorem Keeps.confirmed (h : Keeps lib chain address rows rows' i reading differences)
    (hfaithful : Faithful blockOf i.reader) :
    (reading.confirmed.map Effect.key).Nodup ∧ ∀ e ∈ reading.confirmed,
      ((rows.request chain address).from_ reading.end_ ≤ e.block ∧ e.block ≤ reading.end_) ∧
        e.block = blockOf e.txHash := by
  obtain ⟨range, hrange, hconfirmed⟩ := h.reads.rows
  have hfrom := effectsOf_from lib chain (lib.toLowercase address) range.normal.rows
    range.internal.rows range.tokens.rows
  rw [show reading.confirmed = (effectsOf lib chain (lib.toLowercase address) range.normal.rows
    range.internal.rows range.tokens.rows).list from hconfirmed]
  refine ⟨hfrom.nodup, fun e he => ?_⟩
  obtain ⟨row, hrow, hhash, hblock⟩ := RangeRows.seenIn (hfrom.seen e he)
  rw [← hhash, ← hblock]
  exact hfaithful.rangeRows hrange row hrow

/-- Everything that a reading counts is kept, after what was there. -/
theorem Keeps.appends (h : Keeps lib chain address rows rows' i reading differences)
    (hfaithful : Faithful blockOf i.reader) (hsettled : rows.Settled blockOf) :
    rows'.effects = rows.effects ++ reading.confirmed.map Effect.row ++
      differences.map (unexplainedRow reading i.nowMs) := by
  obtain ⟨hnodup, hnew⟩ := h.confirmed hfaithful
  have hconfirmed : (reading.confirmed.map Effect.row).foldl insertEffect rows.effects =
      rows.effects ++ reading.confirmed.map Effect.row := by
    refine foldl_insertEffect (nodup_row_key hnodup) fun e he hmem => ?_
    obtain ⟨e, hin, rfl⟩ := List.mem_map.1 he
    obtain ⟨f, hf, hkey⟩ := List.mem_map.1 hmem
    simp only [EffectRow.key, Prod.mk.injEq] at hkey
    obtain ⟨⟨state, hstate, hle⟩, hname⟩ := hsettled f hf
    rw [hkey.2.2, if_neg e.row_kind] at hname
    -- the same transaction would be in a block that was read before
    have hblock : f.block = e.block := by
      rw [hname, hkey.1, (hnew e hin).2]
      rfl
    have hafter := (hnew e hin).1.1
    rw [(h.later hstate).1] at hafter
    omega
  rw [h.effects, hconfirmed]
  refine foldl_insertEffect (nodup_unexplained_key reading i.nowMs h.nodup) fun e he hmem => ?_
  obtain ⟨d, -, rfl⟩ := List.mem_map.1 he
  obtain ⟨f, hf, hkey⟩ := List.mem_map.1 hmem
  simp only [EffectRow.key, unexplainedRow, Prod.mk.injEq] at hkey
  rcases List.mem_append.1 hf with hold | hconf
  · obtain ⟨⟨state, hstate, hle⟩, hname⟩ := hsettled f hold
    rw [if_pos hkey.2.2, hkey.1, String.append_right_inj, Nat.repr_inj] at hname
    have hlater := (h.later hstate).2
    omega
  · obtain ⟨e, -, rfl⟩ := List.mem_map.1 hconf
    exact e.row_kind hkey.2.2

theorem Keeps.settled (h : Keeps lib chain address rows rows' i reading differences)
    (hfaithful : Faithful blockOf i.reader) (hsettled : rows.Settled blockOf) :
    rows'.Settled blockOf := by
  obtain ⟨state', hstate', hsynced⟩ := Option.map_eq_some_iff.1 h.state
  intro e he
  rw [h.appends hfaithful hsettled, List.mem_append, List.mem_append] at he
  rcases he with (hold | hconf) | hdiff
  · obtain ⟨⟨state, hstate, hle⟩, hname⟩ := hsettled e hold
    have hlater := (h.later hstate).2
    exact ⟨⟨state', hstate', by omega⟩, hname⟩
  · obtain ⟨e, hin, rfl⟩ := List.mem_map.1 hconf
    obtain ⟨⟨-, hle⟩, hof⟩ := (h.confirmed hfaithful).2 e hin
    refine ⟨⟨state', hstate', ?_⟩, ?_⟩
    · rw [hsynced]
      exact hle
    · rw [if_neg e.row_kind]
      exact hof
  · obtain ⟨d, -, rfl⟩ := List.mem_map.1 hdiff
    have hkind : (unexplainedRow reading i.nowMs d).kind = .unexplained := rfl
    refine ⟨⟨state', hstate', hsynced.ge⟩, ?_⟩
    rw [if_pos hkind]
    rfl

end Settled

section Drift

variable {ReadError PriceError : Type} {lib : Lib} {chain : Chain} {address : String}
  {blockOf : String → ℕ} {rows rows' : ChainRows} {i : SyncInput ReadError PriceError}
  {reading : Reading} {differences : List (String × ℚ)}

/-- The balance that is kept of an asset, less its effects. -/
def drift (asset : String) (rows : ChainRows) : ℚ :=
  quantityOf rows.anchors asset - total rows.effects asset

theorem total_confirmed (confirmed : List Effect) (asset : String) :
    total (confirmed.map Effect.row) asset =
      ((confirmed.filter fun e => e.asset = asset).map Effect.delta).sum := by
  unfold total
  rw [List.filter_map, List.map_map]
  rfl

theorem total_differences (differences : List (String × ℚ)) (reading : Reading) (nowMs : ℕ)
    (asset : String) :
    total (differences.map (unexplainedRow reading nowMs)) asset =
      ((differences.filter fun d => d.1 = asset).map Prod.snd).sum := by
  unfold total
  rw [List.filter_map, List.map_map]
  rfl

/-- A later reading moves a balance by its effects and its difference, but for rounding. -/
theorem Keeps.drift_le (h : Keeps lib chain address rows rows' i reading differences)
    (hfaithful : Faithful blockOf i.reader) (hsettled : rows.Settled blockOf)
    (hlater : rows.state.isSome) (hclean : rows.Clean) (asset : String) :
    |drift asset rows' - drift asset rows| ≤ dust (decimalsOf reading rows.previous asset) := by
  have hdifferences := h.differences_
  rw [if_neg (by simp [Option.isNone_iff_eq_none, Option.isSome_iff_ne_none.1 hlater])] at hdifferences
  have hsum := (unexplained_some hdifferences).2 asset
  unfold drift
  rw [h.appends hfaithful hsettled, total_append, total_append, total_confirmed,
    total_differences, hsum, h.anchors, quantityOf_anchorRows, ← getD_previous hclean]
  unfold difference
  generalize reading.anchor.getD asset 0 = balance
  generalize (rows.previous.map fun _ p => p.1).getD asset 0 = before
  generalize ((reading.confirmed.filter fun e => e.asset = asset).map Effect.delta).sum = explained
  split_ifs with hmore
  · have hexact : balance - (total rows.effects asset + explained + (balance - before - explained)) -
        (before - total rows.effects asset) = 0 := by ring
    rw [hexact, abs_zero]
    exact dust_nonneg _
  · have hrest : balance - (total rows.effects asset + explained + 0) -
        (before - total rows.effects asset) = balance - before - explained := by ring
    rw [hrest]
    exact not_lt.1 hmore

/-- The first reading has no effects. -/
theorem Keeps.drift_first (h : Keeps lib chain address rows rows' i reading differences)
    (hfaithful : Faithful blockOf i.reader) (hsettled : rows.Settled blockOf)
    (hfirst : rows.state = none) (asset : String) :
    drift asset rows' = reading.anchor.getD asset 0 := by
  have hrows : rows.effects = [] := by
    refine List.eq_nil_iff_forall_not_mem.2 fun e he => ?_
    obtain ⟨⟨state, hstate, -⟩, -⟩ := hsettled e he
    rw [hfirst] at hstate
    cases hstate
  have hconfirmed : reading.confirmed = [] := by
    refine List.eq_nil_iff_forall_not_mem.2 fun e he => ?_
    obtain ⟨⟨hlo, hhi⟩, -⟩ := (h.confirmed hfaithful).2 e he
    unfold ReadRequest.from_ ChainRows.request at hlo
    rw [hfirst] at hlo
    simp only [Option.map_none, Option.getD_none] at hlo
    omega
  have hdifferences : differences = [] := by
    have hnone := h.differences_
    rw [hfirst] at hnone
    exact (Option.some.inj hnone).symm
  unfold drift
  rw [h.appends hfaithful hsettled, hrows, hconfirmed, hdifferences, h.anchors,
    quantityOf_anchorRows]
  simp [total]

end Drift

section Readings

variable {ReadError PriceError : Type}

/-- A reading that is kept, with the rows that it found. -/
abbrev Kept (ReadError PriceError : Type) : Type :=
  Accepted ChainRows (SyncInput ReadError PriceError) Reading

variable (lib : Lib) (chain : Chain) (address : String)

def firstBlock (a : Kept ReadError PriceError) : ℕ :=
  (a.pre.request chain address).from_ a.out.end_

def Covers (block : ℕ) (a : Kept ReadError PriceError) : Prop :=
  firstBlock chain address a ≤ block ∧ block ≤ a.out.end_

instance (block : ℕ) (a : Kept ReadError PriceError) : Decidable (Covers chain address block a) :=
  inferInstanceAs (Decidable (firstBlock chain address a ≤ block ∧ block ≤ a.out.end_))

/-- The rows that a reading counts. -/
def rowsRead (a : Kept ReadError PriceError) : List Row :=
  match rangeRows a.input.reader (lib.toLowercase address) (firstBlock chain address a) a.out.end_ with
  | .ok range => range.all
  | .error _ => []

def ChainRows.synced (rows : ChainRows) : ℕ := (rows.state.map ChainState.syncedBlock).getD 0

def tolerance (asset : String) (a : Kept ReadError PriceError) : ℚ :=
  dust (decimalsOf a.out a.pre.previous asset)

/-- The balance of each asset is the one of the first reading, plus all effects that are kept, within
the tolerance of each reading since. -/
def AddsUp (first : Kept ReadError PriceError) (later : List (Kept ReadError PriceError))
    (rows : ChainRows) : Prop :=
  ∀ asset, |quantityOf rows.anchors asset -
      (first.out.anchor.getD asset 0 + total rows.effects asset)| ≤
    (later.map (tolerance asset)).sum

/-- The readings of a run: each begins where the one before ended, and no block of theirs and no row is
in two of them. -/
structure ReadOnce (first : Kept ReadError PriceError) (later : List (Kept ReadError PriceError))
    (rows : ChainRows) : Prop where
  contiguous : (first :: later).IsChain fun a b =>
    firstBlock chain address b = a.out.end_ + 1 ∧ firstBlock chain address b ≤ b.out.end_
  blocks : ∀ block, (first :: later).countP (fun a => Covers chain address block a) =
    if first.out.end_ < block ∧ block ≤ rows.synced then 1 else 0
  once : ∀ row, (first :: later).countP (fun a => row ∈ rowsRead lib chain address a) ≤ 1
  all : ∀ row, first.out.end_ < row.block ∧ row.block ≤ rows.synced →
    (∀ a ∈ first :: later, Covers chain address row.block a → row ∈ rowsRead lib chain address a) →
    (first :: later).countP (fun a => row ∈ rowsRead lib chain address a) = 1

variable {lib chain address} {blockOf : String → ℕ} {inputs : List (SyncInput ReadError PriceError)}
  {first : Kept ReadError PriceError} {later : List (Kept ReadError PriceError)}

theorem covers_of_read {a : Kept ReadError PriceError} (hfaithful : Faithful blockOf a.input.reader)
    {row : Row} (h : row ∈ rowsRead lib chain address a) : Covers chain address row.block a := by
  unfold rowsRead at h
  split at h
  · rename_i range hrange
    exact (hfaithful.rangeRows hrange row h).1
  · cases h

theorem syncChain_later {rows rows' : ChainRows} {i : SyncInput ReadError PriceError}
    {reading : Reading} (h : syncChain lib chain address rows i = .ok (rows', reading)) :
    rows'.state.isSome ∧ rows'.synced = reading.end_ ∧ ∀ state, rows.state = some state →
      firstBlock chain address ⟨rows, i, reading⟩ = state.syncedBlock + 1 ∧
        state.syncedBlock < reading.end_ := by
  obtain ⟨differences, hkeeps⟩ := syncChain_ok h
  refine ⟨?_, ?_, fun state hstate => hkeeps.later hstate⟩
  · rw [← Option.isSome_map (f := ChainState.syncedBlock), hkeeps.state]
    rfl
  · unfold ChainRows.synced
    rw [hkeeps.state]
    rfl

theorem syncs_contiguous (rows : ChainRows) :
    (accepted (syncChain lib chain address) rows inputs).IsChain fun a b =>
      firstBlock chain address b = a.out.end_ + 1 ∧ firstBlock chain address b ≤ b.out.end_ := by
  refine accepted_isChain (fun s i s' o j s'' o' hcall hcall' => ?_) rows inputs
  obtain ⟨hsome, hend, -⟩ := syncChain_later hcall
  obtain ⟨state, hstate⟩ := Option.isSome_iff_exists.1 hsome
  obtain ⟨hfirst, hlt⟩ := (syncChain_later hcall').2.2 state hstate
  have hsynced : state.syncedBlock = o.end_ := by
    rw [← hend]
    unfold ChainRows.synced
    rw [hstate]
    rfl
  rw [hfirst, hsynced]
  rw [hsynced] at hlt
  exact ⟨rfl, hlt⟩

theorem syncs_cover {rows : ChainRows} (hsome : rows.state.isSome) (block : ℕ) :
    (accepted (syncChain lib chain address) rows inputs).countP
        (fun a => Covers chain address block a) =
      if rows.synced < block ∧ block ≤ (run (syncChain lib chain address) rows inputs).synced then 1
      else 0 := by
  have hstep (s : ChainRows) (i : SyncInput ReadError PriceError) (s' : ChainRows) (o : Reading)
      (hs : s.state.isSome = true) (hcall : syncChain lib chain address s i = .ok (s', o)) :
      s'.state.isSome = true ∧ s.synced ≤ s'.synced ∧ ∀ p, Covers chain address p ⟨s, i, o⟩ ↔
        s.synced < p ∧ p ≤ s'.synced := by
    obtain ⟨hsome', hend, hlater⟩ := syncChain_later hcall
    obtain ⟨state, hstate⟩ := Option.isSome_iff_exists.1 hs
    obtain ⟨hfirst, hlt⟩ := hlater state hstate
    have hsynced : s.synced = state.syncedBlock := by
      unfold ChainRows.synced
      rw [hstate]
      rfl
    refine ⟨hsome', ?_, fun p => ?_⟩
    · rw [hsynced, hend]
      exact hlt.le
    · unfold Covers
      rw [hfirst, hsynced, hend]
      exact Iff.rfl
  exact (accepted_covers hstep inputs hsome).2 block

theorem first_empty (hpre : first.pre = .init) (block : ℕ) : ¬ Covers chain address block first := by
  unfold Covers firstBlock ReadRequest.from_ ChainRows.request
  rw [hpre]
  simp only [ChainRows.init, Option.map_none, Option.getD_none]
  omega

theorem readings_read_once
    (h : accepted (syncChain lib chain address) .init inputs = first :: later)
    (hfaithful : ∀ a ∈ first :: later, Faithful blockOf a.input.reader) :
    ReadOnce lib chain address first later (run (syncChain lib chain address) .init inputs) := by
  obtain ⟨js, rows', hpre, hcall, hjs, hrun⟩ := accepted_cons h
  obtain ⟨hsome, hend, -⟩ := syncChain_later hcall
  have hblocks (block : ℕ) : (first :: later).countP (fun a => Covers chain address block a) =
      if first.out.end_ < block ∧
        block ≤ (run (syncChain lib chain address) .init inputs).synced then 1 else 0 := by
    rw [List.countP_cons_of_neg (by simpa using first_empty hpre block), ← hjs, syncs_cover hsome,
      hend, hrun]
  have hread (row : Row) (a : Kept ReadError PriceError) (ha : a ∈ first :: later)
      (hrow : decide (row ∈ rowsRead lib chain address a) = true) :
      decide (Covers chain address row.block a) = true :=
    decide_eq_true (covers_of_read (hfaithful a ha) (of_decide_eq_true hrow))
  refine ⟨?_, hblocks, fun row => ?_, fun row hin hanswers => ?_⟩
  · rw [← h]
    exact syncs_contiguous .init
  · refine (List.countP_mono_left (hread row)).trans ?_
    rw [hblocks]
    split_ifs <;> omega
  · have hone := hblocks row.block
    rw [if_pos hin] at hone
    rw [← hone]
    refine List.countP_congr fun a ha => ⟨hread row a ha, fun hcovers => ?_⟩
    exact decide_eq_true (hanswers a ha (of_decide_eq_true hcovers))

theorem readings_drift
    (h : accepted (syncChain lib chain address) .init inputs = first :: later)
    (hfaithful : ∀ a ∈ first :: later, Faithful blockOf a.input.reader)
    (hclean : ∀ a ∈ later, a.pre.Clean) :
    AddsUp first later (run (syncChain lib chain address) .init inputs) := by
  obtain ⟨js, rows', hpre, hcall, hjs, hrun⟩ := accepted_cons h
  obtain ⟨differences, hkeeps⟩ := syncChain_ok hcall
  have hsettled : ChainRows.init.Settled blockOf := by
    intro e he
    cases he
  have hfirst := hfaithful first List.mem_cons_self
  intro asset
  have hstep (rows : ChainRows) (i : SyncInput ReadError PriceError) (rows' : ChainRows)
      (reading : Reading) (hinv : rows.Settled blockOf ∧ rows.state.isSome = true)
      (hgood : Faithful blockOf i.reader ∧ rows.Clean)
      (hcall : syncChain lib chain address rows i = .ok (rows', reading)) :
      (rows'.Settled blockOf ∧ rows'.state.isSome = true) ∧
        |drift asset rows' - drift asset rows| ≤ tolerance asset ⟨rows, i, reading⟩ := by
    obtain ⟨differences, hkeeps⟩ := syncChain_ok hcall
    exact ⟨⟨hkeeps.settled hgood.1 hinv.1, (syncChain_later hcall).1⟩,
      hkeeps.drift_le hgood.1 hinv.1 hinv.2 hgood.2 asset⟩
  have hgood : ∀ a ∈ accepted (syncChain lib chain address) rows' js,
      Faithful blockOf a.input.reader ∧ a.pre.Clean := by
    intro a ha
    rw [hjs] at ha
    exact ⟨hfaithful a (List.mem_cons_of_mem _ ha), hclean a ha⟩
  have hdrift := run_drift hstep ⟨hkeeps.settled hfirst hsettled, (syncChain_later hcall).1⟩ hgood
  rw [hjs, ← hrun, hkeeps.drift_first hfirst hsettled rfl] at hdrift
  have hsame : quantityOf (run (syncChain lib chain address) .init inputs).anchors asset -
      (first.out.anchor.getD asset 0 +
        total (run (syncChain lib chain address) .init inputs).effects asset) =
      drift asset (run (syncChain lib chain address) .init inputs) -
        first.out.anchor.getD asset 0 := by
    unfold drift
    ring
  rw [hsame]
  exact hdrift

end Readings

section Example

/-- Of the amounts of the example, those that have no more digits than a decimal can hold. -/
def tokenLib : Lib where
  toLowercase := exampleLib.toLowercase
  fromStrExact text :=
    if text = "0.000000000000000000" then some 0
    else if text = "7.000000000000000000" then some 7 else none

def receivedAndSent : List TokenTransfer :=
  [⟨"0x1", 1050, 0, "0xMEME", "MEME", 18, "0xbbbb", "0xaaaa", "1000000000000000000000000000000"⟩,
   ⟨"0x2", 1060, 0, "0xMEME", "MEME", 18, "0xaaaa", "0xbbbb", "999999999993000000000000000000"⟩]

def tokenBlock (hash : String) : ℕ := if hash = "0x1" then 1050 else 1060

/-- An address that received a trillion of a token and sent on all of it but seven. -/
def tokenReader (head : ℕ) : ChainReader String where
  headBlock := .ok head
  indexedBlock := .ok head
  nativeBalanceAt _ _ := .ok "0"
  tokenBalancesAt _ contracts block := .ok (contracts.map fun _ =>
    some (if block < 1060 then "0" else "7000000000000000000"))
  tokens _ := .ok [⟨"0xMEME", "MEME", 18⟩]
  normalTxs _ _ _ := .ok .default
  internalTxs _ _ _ := .ok .default
  tokenTransfers _ from_ end_ := .ok
    ⟨receivedAndSent.filter fun t => from_ ≤ t.block ∧ t.block ≤ end_, false⟩
  length_tokenBalancesAt _ contracts _ balances h := by
    rw [← Except.ok.inj h, List.length_map]

def syncAt (head : ℕ) : SyncInput String String := ⟨tokenReader head, examplePrices, head, true⟩

theorem tokenReader_faithful (head : ℕ) : Faithful tokenBlock (tokenReader head) := by
  refine ⟨fun _ _ _ listing h => ?_, fun _ _ _ listing h => ?_, fun _ from_ end_ listing h => ?_⟩
  · cases h
    intro tx htx
    cases htx
  · cases h
    intro tx htx
    cases htx
  · cases h
    intro t ht
    rw [List.mem_filter, decide_eq_true_eq] at ht
    refine ⟨ht.2, ?_⟩
    have hblocks : ∀ t ∈ receivedAndSent, t.block = tokenBlock t.hash := by decide
    exact hblocks t ht.1

/-- The first reading, a sync with nothing new, and a reading with the two transfers. -/
def tokenSyncs : List (SyncInput String String) := [syncAt 1032, syncAt 1032, syncAt 1132]

theorem tokenSyncs_clean :
    (accepted (syncChain tokenLib ethereum "0xaaaa") .init tokenSyncs).length = 2 ∧
      ∀ a ∈ (accepted (syncChain tokenLib ethereum "0xaaaa") .init tokenSyncs).tail,
        ∀ p ∈ a.pre.anchors.toList, p.2.unrepresentable = true → p.2.quantity = 0 := by
  decide +kernel

/-- One more reading finds the same seven again, as a difference. -/
theorem marked_balance_counted_twice :
    (accepted (syncChain tokenLib ethereum "0xaaaa") .init (tokenSyncs ++ [syncAt 1232])).head?.map
        (fun a => a.out.anchor.getD "ethereum:0xmeme" 0) = some 0 ∧
      ((accepted (syncChain tokenLib ethereum "0xaaaa") .init
        (tokenSyncs ++ [syncAt 1232])).tail.map (tolerance "ethereum:0xmeme")).sum < 1 ∧
      quantityOf (run (syncChain tokenLib ethereum "0xaaaa") .init
        (tokenSyncs ++ [syncAt 1232])).anchors "ethereum:0xmeme" = 7 ∧
      total (run (syncChain tokenLib ethereum "0xaaaa") .init
        (tokenSyncs ++ [syncAt 1232])).effects "ethereum:0xmeme" = 14 := by
  decide +kernel

end Example

end Linvesther.Wallet
