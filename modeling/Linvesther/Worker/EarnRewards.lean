import Linvesther.Base.NumberedPages
import Linvesther.Base.Traverse
import Linvesther.Worker.History

/-! Rewards of Simple Earn: a listing is read page by page, and rewards of nothing are left out of a page before it is
decided whether to go on. -/

namespace Linvesther.Worker.Earn

open NumberedPages Transaction

section Rewards

def PAGE_SIZE : ℕ := 100

inductive EarnKind where
  | flexible
  | locked
deriving DecidableEq

/-- What is read of a row; a field that is missing or of another type is `none`. `positionId` is its JSON text. -/
structure RewardRow where
  asset : Option String
  time : Option UInt64
  type_ : Option String
  projectId : Option String
  rewards : Option String
  positionId : Option String
  amount : Option String
deriving DecidableEq

structure Body where
  rows : Option (List RewardRow)
  total : Option ℕ

structure Page (α : Type) where
  rows : List α
  total : ℕ

/-- The field that has the amount. -/
def RewardRow.amountText (row : RewardRow) : EarnKind → Option String
  | .flexible => row.rewards
  | .locked => row.amount

def RewardRow.sourceId (row : RewardRow) (asset : String) (time : UInt64) : EarnKind → String
  | .flexible =>
    "earn:flexible:" ++ row.type_.getD "" ++ ":" ++ row.projectId.getD "" ++ ":" ++ asset ++ ":" ++
      Nat.repr time.toNat
  | .locked => "earn:locked:" ++ row.positionId.getD "" ++ ":" ++ asset ++ ":" ++ Nat.repr time.toNat

variable (lib : Decimals)

/-- A reward of nothing is no flow. -/
def parseReward (kind : EarnKind) (row : RewardRow) : Except String (Option NormalizedFlow) :=
  match row.asset with
  | none => .error "a reward has no asset"
  | some asset =>
    match row.time with
    | none => .error "a reward has no time"
    | some time =>
      match (row.amountText kind).filter fun amount => (lib.fromStr amount).isSome with
      | none => .error ("a " ++ asset ++ " reward has no readable amount")
      | some amount =>
        if lib.fromStr amount = some 0 then .ok none
        else .ok (some
          { sourceNamespace := .dividend
            sourceId := row.sourceId asset time kind
            economicTimeMs := time
            legs := [⟨asset, amount, true⟩]
            fee := none })

def parseRewards (kind : EarnKind) (body : Body) : Except String (Page NormalizedFlow) :=
  match body.rows with
  | none => .error "no rows in the answer"
  | some rows => (rows.mapM (parseReward lib kind)).map fun flows =>
    ⟨flows.filterMap id, body.total.getD rows.length⟩

inductive LiveClientError where
  | request (reason : String)
  | earn (reason : String)
deriving DecidableEq

/-- The loop over the pages, from one on; `none` if it has not ended after that many turns. -/
def earnPages {α : Type} (path : String) (signedGet : ℕ → ℕ → Except LiveClientError Body)
    (parse : Body → Except String (Page α)) : ℕ → ℕ → List α → Option (Except LiveClientError (List α))
  | 0, _, _ => none
  | turns + 1, current, rows =>
    match signedGet current PAGE_SIZE with
    | .error e => some (.error e)
    | .ok body =>
      match parse body with
      | .error reason => some (.error (.earn (path ++ ": " ++ reason)))
      | .ok page =>
        if page.rows = [] ∨ page.total ≤ (rows ++ page.rows).length then some (.ok (rows ++ page.rows))
        else earnPages path signedGet parse turns (current + 1) (rows ++ page.rows)

/-- An exchange that serves the rows in pages of a fixed size, and says how many there are. -/
def serve (size : ℕ) (rows : List RewardRow) (current _asked : ℕ) : Except LiveClientError Body :=
  .ok ⟨some (pageAt size rows (current - 1)), some rows.length⟩

end Rewards

section Complete

variable {lib : Decimals} {kind : EarnKind} {rows : List RewardRow} {size : ℕ}

/-- A row of the exchange: it has an asset, a time and an amount. -/
def Readable (lib : Decimals) (kind : EarnKind) (row : RewardRow) : Prop :=
  ∃ asset time amount value, row.asset = some asset ∧ row.time = some time ∧
    row.amountText kind = some amount ∧ lib.fromStr amount = some value

def ZeroReward (lib : Decimals) (kind : EarnKind) (row : RewardRow) : Prop :=
  ∃ amount, row.amountText kind = some amount ∧ lib.fromStr amount = some 0

/-- The flow of a reward that is not zero. -/
def rewardOf (lib : Decimals) (kind : EarnKind) (row : RewardRow) : Option NormalizedFlow :=
  match parseReward lib kind row with
  | .ok flow => flow
  | .error _ => none

theorem parseReward_readable {row : RewardRow} (h : Readable lib kind row) :
    parseReward lib kind row = .ok (rewardOf lib kind row) ∧
      (rewardOf lib kind row = none ↔ ZeroReward lib kind row) := by
  obtain ⟨asset, time, amount, value, hasset, htime, hamount, hvalue⟩ := h
  unfold rewardOf parseReward ZeroReward
  rw [hasset, htime, hamount]
  simp only [Option.filter_some, hvalue, Option.isSome_some, if_true]
  by_cases hzero : value = 0
  · simp [hzero, hvalue]
  · simp [hzero, hvalue]

theorem mapM_parseReward (h : ∀ row ∈ rows, Readable lib kind row) :
    rows.mapM (parseReward lib kind) = .ok (rows.map (rewardOf lib kind)) := by
  induction rows with
  | nil => rfl
  | cons row rows ih =>
    obtain ⟨hrow, hrows⟩ := List.forall_mem_cons.1 h
    rw [List.mapM_cons, (parseReward_readable hrow).1, ih hrows]
    rfl

theorem parseRewards_served (h : ∀ row ∈ rows, Readable lib kind row) (current total : ℕ) :
    parseRewards lib kind ⟨some (pageAt size rows current), some total⟩ =
      .ok ⟨(pageAt size rows current).filterMap (rewardOf lib kind), total⟩ := by
  have hpage : ∀ row ∈ pageAt size rows current, Readable lib kind row := fun row hrow =>
    h row (List.mem_of_mem_drop (List.mem_of_mem_take hrow))
  unfold parseRewards
  dsimp only
  rw [mapM_parseReward hpage]
  simp [Except.map, List.filterMap_map]

/-- Over readable rows the loop collects what is left of each page. -/
theorem earnPages_served (h : ∀ row ∈ rows, Readable lib kind row) (path : String) (turns k : ℕ)
    (found : List NormalizedFlow) :
    earnPages path (serve size rows) (parseRewards lib kind) turns (k + 1) found =
      (collect (rewardOf lib kind) size rows turns k found).map .ok := by
  induction turns generalizing k found with
  | zero => rfl
  | succ turns ih =>
    unfold earnPages collect serve
    dsimp only
    rw [Nat.add_sub_cancel, parseRewards_served h]
    dsimp only
    split_ifs
    · rfl
    · exact ih (k + 1) _

/-- Reading ends; and it has returned the flow of every reward that is not zero, each once and in the order of the
listing, exactly if no page with nothing but zeros stands before a reward that is not zero. -/
theorem earn_pages_complete_iff (lib : Decimals) (kind : EarnKind) (path : String) {size : ℕ} (hsize : 0 < size)
    {rows : List RewardRow} (h : ∀ row ∈ rows, Readable lib kind row) :
    ∃ flows, (∀ turns, rows.length < turns →
        earnPages path (serve size rows) (parseRewards lib kind) turns 1 [] = some (.ok flows)) ∧
      (flows = rows.filterMap (rewardOf lib kind) ↔
        ∀ k, (∀ row ∈ pageAt size rows k, ZeroReward lib kind row) →
          ∀ row ∈ rows.drop (k * size), ZeroReward lib kind row) := by
  refine ⟨(rows.take (firstEmpty (rewardOf lib kind) hsize rows * size)).filterMap (rewardOf lib kind),
    fun turns hturns => ?_, ?_⟩
  · rw [earnPages_served h, collect_eq hsize hturns]
    rfl
  · have hnone (part : List RewardRow) (hpart : part ⊆ rows) :
        part.filterMap (rewardOf lib kind) = [] ↔ ∀ row ∈ part, ZeroReward lib kind row := by
      rw [List.filterMap_eq_nil_iff]
      exact forall₂_congr fun row hrow => (parseReward_readable (h row (hpart hrow))).2
    rw [take_firstEmpty_iff]
    refine forall_congr' fun k => ?_
    have hdrop : rows.drop (k * size) ⊆ rows := fun _ => List.mem_of_mem_drop
    have hpage : pageAt size rows k ⊆ rows := fun _ hrow => hdrop (List.mem_of_mem_take hrow)
    rw [hnone _ hpage, hnone _ hdrop]

/-- Numbers of one digit. -/
def digitDecimals : Decimals where
  fromStr s := if s = "0" then some 0 else if s = "1" then some 1 else none
  toString q := if q = 0 then "0" else "1"

def exampleReward (amount : String) : RewardRow :=
  ⟨some "AXS", some 1000, some "BONUS", some "AXS001", some amount, none, none⟩

def exampleRewards : List RewardRow := [exampleReward "1", exampleReward "0"]

theorem earn_pages_complete_two :
    ∃ flows, (∀ turns, exampleRewards.length < turns →
        earnPages "rewardsRecord" (serve 1 exampleRewards) (parseRewards digitDecimals .flexible) turns 1 [] =
          some (.ok flows)) ∧
      (flows = exampleRewards.filterMap (rewardOf digitDecimals .flexible) ↔
        ∀ k, (∀ row ∈ pageAt 1 exampleRewards k, ZeroReward digitDecimals .flexible row) →
          ∀ row ∈ exampleRewards.drop (k * 1), ZeroReward digitDecimals .flexible row) := by
  refine earn_pages_complete_iff digitDecimals .flexible "rewardsRecord" Nat.one_pos ?_
  intro row hrow
  unfold exampleRewards at hrow
  simp only [List.mem_cons, List.not_mem_nil, or_false] at hrow
  rcases hrow with rfl | rfl
  · exact ⟨"AXS", 1000, "1", 1, rfl, rfl, rfl, by decide⟩
  · exact ⟨"AXS", 1000, "0", 0, rfl, rfl, rfl, by decide⟩

/-- A page of zeros, and a reward behind it that is never read. -/
theorem reward_behind_zeros_lost :
    earnPages "rewardsRecord" (serve PAGE_SIZE (List.replicate 100 (exampleReward "0") ++ [exampleReward "1"]))
        (parseRewards digitDecimals .flexible) 102 1 [] = some (.ok []) ∧
      (List.replicate 100 (exampleReward "0") ++ [exampleReward "1"]).filterMap
        (rewardOf digitDecimals .flexible) ≠ [] := by
  decide +kernel

end Complete

end Linvesther.Worker.Earn
