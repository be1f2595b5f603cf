import Linvesther.Base.OrderedMap
import Linvesther.Worker.EarnRewards

/-! What is held in Simple Earn counts with the spot balances, one line an asset. A flexible position may be in spot as
well, under a token of its own, which is left out. -/

namespace Linvesther.Worker.Earn

open OrderedMap Transaction

section Positions

structure EarnPosition where
  kind : EarnKind
  asset : String
  amount : String
deriving DecidableEq

/-- What is read of a row; a field that is missing or is no text is `none`. -/
structure PositionRow where
  asset : Option String
  totalAmount : Option String
  amount : Option String
deriving DecidableEq

structure PositionBody where
  rows : Option (List PositionRow)
  total : Option ℕ

/-- The field that has the amount. -/
def PositionRow.amountText (row : PositionRow) : EarnKind → Option String
  | .flexible => row.totalAmount
  | .locked => row.amount

variable (lib : Decimals)

def parsePosition (kind : EarnKind) (row : PositionRow) : Except String EarnPosition :=
  match row.asset with
  | none => .error "a position has no asset"
  | some asset =>
    match (row.amountText kind).filter fun amount => (lib.fromStr amount).isSome with
    | none => .error ("a " ++ asset ++ " position has no readable amount")
    | some amount => .ok ⟨kind, asset, amount⟩

def parsePositions (kind : EarnKind) (body : PositionBody) : Except String (Page EarnPosition) :=
  match body.rows with
  | none => .error "no rows in the answer"
  | some rows => (rows.mapM (parsePosition lib kind)).map fun positions => ⟨positions, body.total.getD rows.length⟩

/-- `strip_prefix("LD")`. -/
def stripLegacy (asset : String) : Option String :=
  if ['L', 'D'].isPrefixOf asset.toList then some (String.ofList (asset.toList.drop 2)) else none

/-- A spot balance that is taken for a position. -/
def leftOut (positions : List EarnPosition) (balance : AccountBalance) : Bool :=
  (stripLegacy balance.asset).any fun underlying => positions.any fun p => p.asset = underlying

def readNumber (what asset text : String) : Except String ℚ :=
  match lib.fromStr text with
  | none => .error (asset ++ " " ++ what ++ " is not a number")
  | some x => .ok x

/-- Per asset, what is free and what is locked. -/
abbrev Lines := Std.TreeMap String (ℚ × ℚ)

def addSpot (positions : List EarnPosition) (byAsset : Lines) (balance : AccountBalance) : Except String Lines :=
  if leftOut positions balance then .ok byAsset
  else do
    let free ← readNumber lib "balance" balance.asset balance.free
    let locked ← readNumber lib "balance" balance.asset balance.locked
    pure (credit byAsset (balance.asset, (free, locked)))

def addPosition (byAsset : Lines) (position : EarnPosition) : Except String Lines := do
  let amount ← readNumber lib "position" position.asset position.amount
  pure (credit byAsset (position.asset, (0, amount)))

def withEarn (spot : List AccountBalance) (positions : List EarnPosition) : Except String (List AccountBalance) := do
  let byAsset ← spot.foldlM (addSpot lib positions) ∅
  let byAsset ← positions.foldlM (addPosition lib) byAsset
  pure (byAsset.toList.map fun line => ⟨line.1, lib.toString line.2.1, lib.toString line.2.2⟩)

end Positions

section Read

variable {lib : Decimals} {positions : List EarnPosition} {spot : List AccountBalance}

/-- Positions that were read are of the kind that was asked for and have amounts that can be added up. -/
theorem parsePositions_ok {kind : EarnKind} {body : PositionBody} {page : Page EarnPosition}
    (h : parsePositions lib kind body = .ok page) :
    ∀ p ∈ page.rows, p.kind = kind ∧ (lib.fromStr p.amount).isSome := by
  unfold parsePositions at h
  split at h
  · cases h
  · rename_i rows _
    rw [map_ok] at h
    obtain ⟨read, hread, rfl⟩ := h
    rw [mapM_ok] at hread
    intro p hp
    obtain ⟨row, -, hrow⟩ := (exists_of_forall₂ hread).2 p hp
    unfold parsePosition at hrow
    split at hrow
    · cases hrow
    · split at hrow
      · cases hrow
      · rename_i amount hamount
        cases hrow
        exact ⟨rfl, (Option.filter_eq_some_iff.1 hamount).2⟩

theorem stripLegacy_eq_some {asset underlying : String} :
    stripLegacy asset = some underlying ↔ asset = "LD" ++ underlying := by
  unfold stripLegacy
  rw [Option.ite_none_right_eq_some, List.isPrefixOf_iff_prefix, Option.some.injEq]
  constructor
  · rintro ⟨⟨rest, hrest⟩, rfl⟩
    apply String.ext
    rw [String.toList_append, ← hrest]
    simp
  · rintro rfl
    rw [String.toList_append]
    exact ⟨List.prefix_append _ _, String.ofList_toList⟩

theorem leftOut_iff {balance : AccountBalance} :
    leftOut positions balance = true ↔ ∃ p ∈ positions, balance.asset = "LD" ++ p.asset := by
  unfold leftOut
  rw [Option.any_eq_true]
  simp only [stripLegacy_eq_some, List.any_eq_true, decide_eq_true_eq]
  constructor
  · rintro ⟨underlying, hasset, p, hp, rfl⟩
    exact ⟨p, hp, hasset⟩
  · rintro ⟨p, hp, hasset⟩
    exact ⟨_, hasset, p, hp, rfl⟩

end Read

section Lines

variable {lib : Decimals} {positions : List EarnPosition} {spot : List AccountBalance}

def valueOf (lib : Decimals) (text : String) : ℚ := (lib.fromStr text).getD 0

/-- What is held of an asset. -/
def held {β : Type} (assetOf : β → String) (value : β → ℚ) (holdings : List β) (asset : String) : ℚ :=
  ((holdings.filter fun x => assetOf x = asset).map value).sum

/-- Amounts that can be read. -/
structure AllReadable (lib : Decimals) (spot : List AccountBalance) (positions : List EarnPosition) : Prop where
  spot : ∀ b ∈ spot, (lib.fromStr b.free).isSome ∧ (lib.fromStr b.locked).isSome
  positions : ∀ p ∈ positions, (lib.fromStr p.amount).isSome

def spotEntry (lib : Decimals) (b : AccountBalance) : String × ℚ × ℚ := (b.asset, valueOf lib b.free, valueOf lib b.locked)

def positionEntry (lib : Decimals) (p : EarnPosition) : String × ℚ × ℚ := (p.asset, 0, valueOf lib p.amount)

/-- What is added up: the spot balances that are not left out, and the positions as locked. -/
def entriesOf (lib : Decimals) (spot : List AccountBalance) (positions : List EarnPosition) : List (String × ℚ × ℚ) :=
  (spot.filter fun b => ¬ leftOut positions b).map (spotEntry lib) ++ positions.map (positionEntry lib)

theorem readNumber_readable {what asset text : String} (h : (lib.fromStr text).isSome) :
    readNumber lib what asset text = .ok (valueOf lib text) := by
  obtain ⟨x, hx⟩ := Option.isSome_iff_exists.1 h
  unfold readNumber valueOf
  rw [hx]
  rfl

theorem foldlM_addSpot (h : ∀ b ∈ spot, (lib.fromStr b.free).isSome ∧ (lib.fromStr b.locked).isSome) (byAsset : Lines) :
    spot.foldlM (addSpot lib positions) byAsset =
      .ok (((spot.filter fun b => ¬ leftOut positions b).map (spotEntry lib)).foldl credit byAsset) := by
  induction spot generalizing byAsset with
  | nil => rfl
  | cons b spot ih =>
    obtain ⟨⟨hfree, hlocked⟩, hrest⟩ := List.forall_mem_cons.1 h
    rw [List.foldlM_cons]
    unfold addSpot
    by_cases hleft : leftOut positions b = true
    · rw [if_pos hleft, List.filter_cons_of_neg (by simpa using hleft)]
      exact ih hrest byAsset
    · rw [if_neg hleft, List.filter_cons_of_pos (by simpa using hleft), readNumber_readable hfree,
        readNumber_readable hlocked]
      exact ih hrest _

theorem foldlM_addPosition (h : ∀ p ∈ positions, (lib.fromStr p.amount).isSome) (byAsset : Lines) :
    positions.foldlM (addPosition lib) byAsset =
      .ok ((positions.map (positionEntry lib)).foldl credit byAsset) := by
  induction positions generalizing byAsset with
  | nil => rfl
  | cons p positions ih =>
    obtain ⟨hamount, hrest⟩ := List.forall_mem_cons.1 h
    rw [List.foldlM_cons]
    unfold addPosition
    rw [readNumber_readable hamount]
    exact ih hrest _

/-- Amounts that can be read are added up per asset. -/
theorem withEarn_eq (h : AllReadable lib spot positions) :
    withEarn lib spot positions = .ok (((entriesOf lib spot positions).foldl credit (∅ : Lines)).toList.map fun line =>
      ⟨line.1, lib.toString line.2.1, lib.toString line.2.2⟩) := by
  unfold withEarn entriesOf
  rw [List.foldl_append, foldlM_addSpot h.spot]
  change (positions.foldlM (addPosition lib) _ >>= _) = _
  rw [foldlM_addPosition h.positions]
  rfl

theorem totalOf_map {β : Type} (assetOf : β → String) (f g : β → ℚ) (holdings : List β) (asset : String) :
    totalOf (holdings.map fun x => (assetOf x, (f x, g x))) asset =
      (held assetOf f holdings asset, held assetOf g holdings asset) := by
  unfold totalOf held
  induction holdings with
  | nil => rfl
  | cons x holdings ih =>
    by_cases hx : assetOf x = asset
    · simp only [List.map_cons, hx, decide_true, List.filter_cons_of_pos, List.sum_cons]
      rw [ih]
      rfl
    · simp only [List.map_cons, hx, decide_false, Bool.false_eq_true, not_false_eq_true, List.filter_cons_of_neg]
      exact ih

theorem totalOf_entriesOf (asset : String) : totalOf (entriesOf lib spot positions) asset =
    (held AccountBalance.asset (fun b => valueOf lib b.free) (spot.filter fun b => ¬ leftOut positions b) asset,
      held AccountBalance.asset (fun b => valueOf lib b.locked) (spot.filter fun b => ¬ leftOut positions b) asset +
        held EarnPosition.asset (fun p => valueOf lib p.amount) positions asset) := by
  have hsplit : totalOf (entriesOf lib spot positions) asset =
      totalOf ((spot.filter fun b => ¬ leftOut positions b).map (spotEntry lib)) asset +
        totalOf (positions.map (positionEntry lib)) asset := by
    unfold totalOf entriesOf
    rw [List.filter_append, List.map_append, List.sum_append]
  have hzero : held EarnPosition.asset (fun _ => 0) positions asset = 0 := by
    unfold held
    simp
  have hspot := totalOf_map AccountBalance.asset (fun b => valueOf lib b.free) (fun b => valueOf lib b.locked)
    (spot.filter fun b => ¬ leftOut positions b) asset
  have hpositions := totalOf_map EarnPosition.asset (fun _ => 0) (fun p => valueOf lib p.amount) positions asset
  unfold spotEntry positionEntry at hsplit
  rw [hsplit, hspot, hpositions, hzero, Prod.mk_add_mk, add_zero]

end Lines

section Conserved

/-- The token that stands for a flexible position. -/
def Legacy (positions : List EarnPosition) (asset : String) : Prop :=
  ∃ p ∈ positions, p.kind = .flexible ∧ asset = "LD" ++ p.asset

instance (positions : List EarnPosition) (asset : String) : Decidable (Legacy positions asset) :=
  inferInstanceAs (Decidable (∃ p ∈ positions, p.kind = .flexible ∧ asset = "LD" ++ p.asset))

/-- One line an asset, with its free spot balances free and its positions in the total; only tokens of flexible
positions are left out. -/
structure Conserves (lib : Decimals) (spot : List AccountBalance) (positions : List EarnPosition) : Prop where
  left : ∀ b ∈ spot, leftOut positions b = true ↔ Legacy positions b.asset
  lines : ∃ lines, withEarn lib spot positions = .ok lines ∧ (lines.map AccountBalance.asset).Nodup ∧
    (∀ asset, asset ∈ lines.map AccountBalance.asset ↔
      (∃ b ∈ spot, ¬ Legacy positions b.asset ∧ b.asset = asset) ∨ ∃ p ∈ positions, p.asset = asset) ∧
    ∀ line ∈ lines, ∃ free locked, line.free = lib.toString free ∧ line.locked = lib.toString locked ∧
      free = held AccountBalance.asset (fun b => valueOf lib b.free)
        (spot.filter fun b => ¬ Legacy positions b.asset) line.asset ∧
      free + locked = held AccountBalance.asset (fun b => valueOf lib b.free + valueOf lib b.locked)
          (spot.filter fun b => ¬ Legacy positions b.asset) line.asset +
        held EarnPosition.asset (fun p => valueOf lib p.amount) positions line.asset

variable {lib : Decimals} {positions : List EarnPosition} {spot : List AccountBalance}

theorem held_add {β : Type} (assetOf : β → String) (f g : β → ℚ) (holdings : List β) (asset : String) :
    held assetOf (fun x => f x + g x) holdings asset = held assetOf f holdings asset + held assetOf g holdings asset :=
  List.sum_map_add

/-- Holdings are conserved exactly if no spot balance is the `LD` token of an asset of which there are only locked
positions. -/
theorem withEarn_conserves_iff (h : AllReadable lib spot positions) :
    Conserves lib spot positions ↔ ∀ b ∈ spot, ∀ p ∈ positions, b.asset = "LD" ++ p.asset →
      ∃ p' ∈ positions, p'.kind = .flexible ∧ p'.asset = p.asset := by
  have hleft : (∀ b ∈ spot, leftOut positions b = true ↔ Legacy positions b.asset) ↔
      ∀ b ∈ spot, ∀ p ∈ positions, b.asset = "LD" ++ p.asset →
        ∃ p' ∈ positions, p'.kind = .flexible ∧ p'.asset = p.asset := by
    refine forall₂_congr fun b _ => ?_
    rw [leftOut_iff]
    constructor
    · intro hiff p hp hasset
      obtain ⟨p', hp', hkind, hasset'⟩ := hiff.1 ⟨p, hp, hasset⟩
      exact ⟨p', hp', hkind, (String.append_right_inj "LD").1 (hasset'.symm.trans hasset)⟩
    · intro hflexible
      refine ⟨fun ⟨p, hp, hasset⟩ => ?_, fun ⟨p, hp, _, hasset⟩ => ⟨p, hp, hasset⟩⟩
      obtain ⟨p', hp', hkind, hsame⟩ := hflexible p hp hasset
      exact ⟨p', hp', hkind, by rw [hsame, hasset]⟩
  rw [← hleft]
  refine ⟨fun hconserves => hconserves.left, fun hsame => ⟨hsame, _, withEarn_eq h, ?_, ?_, ?_⟩⟩
  · rw [List.map_map]
    exact nodup_keys _
  · intro asset
    rw [List.map_map]
    have hmem : asset ∈ ((entriesOf lib spot positions).foldl credit (∅ : Lines)).toList.map Prod.fst ↔
        asset ∈ (entriesOf lib spot positions).map Prod.fst := by
      constructor
      · intro hin
        obtain ⟨line, hline, rfl⟩ := List.mem_map.1 hin
        rw [mem_toList, getElem?_foldl_credit] at hline
        split_ifs at hline with hkey
        · exact hkey
        · simp at hline
      · intro hin
        refine List.mem_map.2 ⟨(asset, totalOf (entriesOf lib spot positions) asset), ?_, rfl⟩
        rw [mem_toList]
        dsimp only
        rw [getElem?_foldl_credit, if_pos hin]
        simp
    refine hmem.trans ?_
    unfold entriesOf
    rw [List.map_append, List.mem_append, List.map_map, List.map_map]
    refine or_congr ?_ (by simp [positionEntry])
    simp only [List.mem_map, List.mem_filter, Function.comp_apply, spotEntry, decide_eq_true_eq, and_assoc]
    refine exists_congr fun b => and_congr_right fun hb => ?_
    rw [hsame b hb]
  · intro line hline
    obtain ⟨entry, hentry, rfl⟩ := List.mem_map.1 hline
    rw [mem_toList, getElem?_foldl_credit] at hentry
    split_ifs at hentry with hkey
    · have htotal := Option.some.inj hentry
      have hkept : (spot.filter fun b => ¬ leftOut positions b) = spot.filter fun b => ¬ Legacy positions b.asset :=
        List.filter_congr fun b hb => by simp [hsame b hb]
      rw [Std.TreeMap.getD_emptyc, zero_add, totalOf_entriesOf, hkept] at htotal
      refine ⟨entry.2.1, entry.2.2, rfl, rfl, ?_, ?_⟩
      · rw [← htotal]
      · rw [held_add, ← htotal]
        ring
    · simp at hentry

/-- Of one asset a flexible position, with its token in spot. -/
theorem withEarn_conserves_flexible : Conserves digitDecimals [⟨"LDAXS", "1", "0"⟩] [⟨.flexible, "AXS", "1"⟩] := by
  refine (withEarn_conserves_iff ⟨?_, ?_⟩).2 ?_
  · decide +kernel
  · decide +kernel
  · decide +kernel

/-- A token whose asset is locked only is gone. -/
theorem locked_position_hides_balance :
    withEarn digitDecimals [⟨"LDAXS", "1", "0"⟩] [⟨.locked, "AXS", "1"⟩] = .ok [⟨"AXS", "0", "1"⟩] ∧
      ¬ Conserves digitDecimals [⟨"LDAXS", "1", "0"⟩] [⟨.locked, "AXS", "1"⟩] := by
  refine ⟨by decide +kernel, fun h => ?_⟩
  have hleft := (h.left ⟨"LDAXS", "1", "0"⟩ List.mem_cons_self).1 (by decide +kernel)
  exact absurd hleft (by decide +kernel)

end Conserved

end Linvesther.Worker.Earn
