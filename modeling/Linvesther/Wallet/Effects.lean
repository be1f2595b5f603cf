import Linvesther.Base.OrderedMap

/-! What each transaction did to an address's balances, from what an explorer says of it. -/

namespace Linvesther.Wallet

section Chains

/-- What is used of `String` and of `rust_decimal`; a decimal is taken as the number it is. -/
structure Lib where
  toLowercase : String → String
  fromStrExact : String → Option ℚ

variable (lib : Lib)

structure Chain where
  id : ℕ
  name : String
  nativeSymbol : String
  pricePrefix : String
  confirmations : ℕ
deriving DecidableEq

def Chain.nativeAsset (c : Chain) : String := c.name ++ ":native"

def Chain.tokenAsset (c : Chain) (contract : String) : String :=
  c.name ++ ":" ++ lib.toLowercase contract

def Chain.tokenPriceId (c : Chain) (contract : String) : String :=
  c.pricePrefix ++ ":" ++ lib.toLowercase contract

def NATIVE_DECIMALS : ℕ := 18

/-- The digits without the zeros before them; of zero one is left. -/
def significant (raw : List Char) : List Char :=
  let digits := raw.dropWhile (· = '0')
  if digits = [] then ['0'] else digits

/-- The digits with a point before the last of them. The comparison takes the number of digits as a `u32`, the subtraction
does not: where it goes below zero it panics, which is `none`. -/
def unitsText (digits : List Char) (decimals : ℕ) : Option (List Char) :=
  if decimals = 0 then some digits
  else if digits.length % 2 ^ 32 ≤ decimals then
    if digits.length ≤ decimals then
      some (['0', '.'] ++ List.replicate (decimals - digits.length) '0' ++ digits)
    else none
  else
    let split := digits.length - decimals
    some (digits.take split ++ ['.'] ++ digits.drop split)

/-- A number in the smallest unit as one of the asset's own unit. -/
def units (raw : String) (decimals : ℕ) : Option ℚ :=
  if raw.toList = [] ∨ ¬ raw.toList.all Char.isDigit then none
  else (unitsText (significant raw.toList) decimals).bind fun text => lib.fromStrExact (String.ofList text)

end Chains

section Rows

structure NormalTx where
  hash : String
  block : ℕ
  timeMs : ℕ
  src : String
  dst : String
  value : String
  gasUsed : String
  gasPrice : String
  failed : Bool
deriving DecidableEq

structure InternalTx where
  hash : String
  block : ℕ
  timeMs : ℕ
  src : String
  dst : String
  value : String
  failed : Bool
deriving DecidableEq

structure TokenTransfer where
  hash : String
  block : ℕ
  timeMs : ℕ
  contract : String
  symbol : String
  decimals : ℕ
  src : String
  dst : String
  value : String
deriving DecidableEq

structure HeldToken where
  contract : String
  symbol : String
  decimals : ℕ
deriving DecidableEq

structure Listing (α : Type) where
  rows : List α
  incomplete : Bool

def Listing.default {α : Type} : Listing α := ⟨[], false⟩

end Rows

section Effects

inductive EffectKind where
  | transfer
  | gas
deriving DecidableEq

def EffectKind.rank : EffectKind → ℕ
  | .transfer => 0
  | .gas => 1

/-- A change to one asset's balance caused by one transaction. -/
structure Effect where
  txHash : String
  block : ℕ
  timeMs : ℕ
  asset : String
  delta : ℚ
  kind : EffectKind
deriving DecidableEq

structure Effects where
  list : List Effect
  unrepresentable : Finset String

/-- What the sums are kept by. -/
def Effect.key (e : Effect) : String × String × EffectKind := (e.txHash, e.asset, e.kind)

/-- Adds to the sum of the effect's key, which keeps the block and time it was first seen with. -/
def addTo (e : Effect) : List Effect → List Effect
  | [] => [e]
  | first :: rest =>
    if first.key = e.key then { first with delta := first.delta + e.delta } :: rest
    else first :: addTo e rest

variable (lib : Lib)

/-- `parse::<u128>()`. -/
def parseU128 (text : String) : Option ℕ :=
  let digits := if text.toList.head? = some '+' then text.toList.tail else text.toList
  if digits ≠ [] ∧ digits.all Char.isDigit then
    let n := digits.foldl (fun n c => n * 10 + (c.toNat - '0'.toNat)) 0
    if n < 2 ^ 128 then some n else none
  else none

def gasFee (tx : NormalTx) : Option ℚ := do
  let used ← parseU128 tx.gasUsed
  let price ← parseU128 tx.gasPrice
  let wei := used * price
  if wei < 2 ^ 128 then units lib (toString wei) NATIVE_DECIMALS else none

def Effects.refuse (acc : Effects) (asset : String) : Effects :=
  { acc with unrepresentable := insert asset acc.unrepresentable }

def Effects.add (acc : Effects) (e : Effect) : Effects := { acc with list := addTo e acc.list }

/-- An amount of an asset that went from one address to another: a credit if it came to `me`, and a
debit if it came from there. -/
def Effects.move (acc : Effects) (me asset : String) (amount : Option ℚ) (hash : String)
    (block timeMs : ℕ) (src dst : String) : Effects :=
  match amount with
  | none => acc.refuse asset
  | some value =>
    let acc := if dst = me then acc.add ⟨hash, block, timeMs, asset, value, .transfer⟩ else acc
    if src = me then acc.add ⟨hash, block, timeMs, asset, -value, .transfer⟩ else acc

def addNormal (me native : String) (acc : Effects) (tx : NormalTx) : Effects :=
  let acc :=
    if tx.src = me then
      match gasFee lib tx with
      | some fee => acc.add ⟨tx.hash, tx.block, tx.timeMs, native, -fee, .gas⟩
      | none => acc.refuse native
    else acc
  if tx.failed then acc
  else acc.move me native (units lib tx.value NATIVE_DECIMALS) tx.hash tx.block tx.timeMs tx.src tx.dst

def addInternal (me native : String) (acc : Effects) (tx : InternalTx) : Effects :=
  if tx.failed then acc
  else acc.move me native (units lib tx.value NATIVE_DECIMALS) tx.hash tx.block tx.timeMs tx.src tx.dst

def addTransfer (chain : Chain) (me : String) (acc : Effects) (t : TokenTransfer) : Effects :=
  acc.move me (chain.tokenAsset lib t.contract) (units lib t.value t.decimals) t.hash t.block
    t.timeMs t.src t.dst

/-- The order of the effects: by block, transaction, asset and kind. -/
def Effect.le (a b : Effect) : Bool :=
  (compare a.block b.block).then ((compare a.txHash b.txHash).then
    ((compare a.asset b.asset).then (compare a.kind.rank b.kind.rank))) ≠ .gt

/-- The loops of `effects_of`, before what cancels out is left out. -/
def sumsOf (chain : Chain) (address : String) (normal : List NormalTx) (internal : List InternalTx)
    (tokens : List TokenTransfer) : Effects :=
  let me := lib.toLowercase address
  let native := chain.nativeAsset
  let acc := normal.foldl (addNormal lib me native) ⟨[], ∅⟩
  let acc := internal.foldl (addInternal lib me native) acc
  tokens.foldl (addTransfer lib chain me) acc

def effectsOf (chain : Chain) (address : String) (normal : List NormalTx)
    (internal : List InternalTx) (tokens : List TokenTransfer) : Effects :=
  let sums := sumsOf lib chain address normal internal tokens
  ⟨(sums.list.filter fun e => e.delta ≠ 0).mergeSort Effect.le, sums.unrepresentable⟩

end Effects

section Sources

variable {lib : Lib}

theorem mem_addTo {e f : Effect} {l : List Effect} (h : f ∈ addTo e l) :
    f.txHash = e.txHash ∧ f.block = e.block ∨
      ∃ g ∈ l, f.txHash = g.txHash ∧ f.block = g.block := by
  induction l with
  | nil =>
    rw [addTo, List.mem_singleton] at h
    exact .inl ⟨by rw [h], by rw [h]⟩
  | cons first rest ih =>
    unfold addTo at h
    split_ifs at h with hkey
    · rcases List.mem_cons.1 h with rfl | hrest
      · exact .inr ⟨first, List.mem_cons_self, rfl, rfl⟩
      · exact .inr ⟨f, List.mem_cons_of_mem _ hrest, rfl, rfl⟩
    · rcases List.mem_cons.1 h with rfl | hrest
      · exact .inr ⟨f, List.mem_cons_self, rfl, rfl⟩
      · rcases ih hrest with hnew | ⟨g, hg, hsame⟩
        · exact .inl hnew
        · exact .inr ⟨g, List.mem_cons_of_mem _ hg, hsame⟩

theorem map_key_addTo (e : Effect) (l : List Effect) :
    (addTo e l).map Effect.key =
      if e.key ∈ l.map Effect.key then l.map Effect.key else l.map Effect.key ++ [e.key] := by
  induction l with
  | nil => simp [addTo]
  | cons first rest ih =>
    unfold addTo
    by_cases hkey : first.key = e.key
    · rw [if_pos hkey, if_pos (by rw [List.map_cons, hkey]; exact List.mem_cons_self)]
      rfl
    · rw [if_neg hkey, List.map_cons, ih, List.map_cons]
      have hne : e.key ≠ first.key := Ne.symm hkey
      by_cases hrest : e.key ∈ rest.map Effect.key
      · rw [if_pos hrest, if_pos (List.mem_cons_of_mem _ hrest)]
      · rw [if_neg hrest, if_neg]
        · rfl
        · rw [List.mem_cons, not_or]
          exact ⟨hne, hrest⟩

/-- What the sums are made of: no two of one key, each with the transaction and the block of a row,
and nothing refused but the assets of the rows. -/
structure Effects.From (seen : String → ℕ → Prop) (assets : String → Prop) (acc : Effects) :
    Prop where
  nodup : (acc.list.map Effect.key).Nodup
  seen : ∀ e ∈ acc.list, seen e.txHash e.block
  refused : ∀ asset ∈ acc.unrepresentable, assets asset

variable {seen : String → ℕ → Prop} {assets : String → Prop} {acc : Effects}

theorem Effects.From.add (h : acc.From seen assets) {e : Effect} (he : seen e.txHash e.block) :
    (acc.add e).From seen assets := by
  refine ⟨?_, fun f hf => ?_, h.refused⟩
  · unfold Effects.add
    rw [map_key_addTo]
    split_ifs with hmem
    · exact h.nodup
    · rw [List.nodup_append]
      refine ⟨h.nodup, List.nodup_singleton _, fun k hk k' hk' => ?_⟩
      rw [List.mem_singleton] at hk'
      rintro rfl
      exact hmem (hk' ▸ hk)
  · rcases mem_addTo hf with ⟨hhash, hblock⟩ | ⟨g, hg, hhash, hblock⟩
    · rw [hhash, hblock]
      exact he
    · rw [hhash, hblock]
      exact h.seen g hg

theorem Effects.From.refuse (h : acc.From seen assets) {asset : String} (ha : assets asset) :
    (acc.refuse asset).From seen assets := by
  refine ⟨h.nodup, h.seen, fun a hmem => ?_⟩
  rcases Finset.mem_insert.1 hmem with rfl | hold
  · exact ha
  · exact h.refused a hold

theorem Effects.From.move (h : acc.From seen assets) {me asset hash src dst : String}
    {amount : Option ℚ} {block timeMs : ℕ} (hseen : seen hash block) (ha : assets asset) :
    (acc.move me asset amount hash block timeMs src dst).From seen assets := by
  unfold Effects.move
  rcases amount with _ | value
  · exact h.refuse ha
  · dsimp only
    have hcredit : (if dst = me then acc.add ⟨hash, block, timeMs, asset, value, .transfer⟩
        else acc).From seen assets := by
      split_ifs
      · exact h.add hseen
      · exact h
    by_cases hsrc : src = me
    · rw [if_pos hsrc]
      exact hcredit.add hseen
    · rw [if_neg hsrc]
      exact hcredit

theorem Effects.From.foldl {α : Type} {f : Effects → α → Effects} {rows : List α}
    (hstep : ∀ acc, ∀ r ∈ rows, acc.From seen assets → (f acc r).From seen assets)
    (h : acc.From seen assets) : (rows.foldl f acc).From seen assets := by
  induction rows generalizing acc with
  | nil => exact h
  | cons r rows ih =>
    exact ih (fun acc r' hr' => hstep acc r' (List.mem_cons_of_mem _ hr'))
      (hstep acc r List.mem_cons_self h)

theorem addNormal_from (h : acc.From seen assets) {me native : String} {tx : NormalTx}
    (hseen : seen tx.hash tx.block) (ha : assets native) :
    (addNormal lib me native acc tx).From seen assets := by
  have hgas : (if tx.src = me then
      match gasFee lib tx with
      | some fee => acc.add ⟨tx.hash, tx.block, tx.timeMs, native, -fee, .gas⟩
      | none => acc.refuse native
    else acc).From seen assets := by
    split_ifs
    · split
      · exact h.add hseen
      · exact h.refuse ha
    · exact h
  unfold addNormal
  by_cases hfailed : tx.failed = true
  · rw [if_pos hfailed]
    exact hgas
  · rw [if_neg hfailed]
    exact hgas.move hseen ha

/-- The transaction and the block of a row. -/
def SeenIn (normal : List NormalTx) (internal : List InternalTx) (tokens : List TokenTransfer)
    (hash : String) (block : ℕ) : Prop :=
  (∃ tx ∈ normal, tx.hash = hash ∧ tx.block = block) ∨
  (∃ tx ∈ internal, tx.hash = hash ∧ tx.block = block) ∨
  ∃ t ∈ tokens, t.hash = hash ∧ t.block = block

/-- The asset of a row. -/
def AssetOf (lib : Lib) (chain : Chain) (tokens : List TokenTransfer) (asset : String) : Prop :=
  asset = chain.nativeAsset ∨ ∃ t ∈ tokens, chain.tokenAsset lib t.contract = asset

variable (lib) in
theorem sumsOf_from (chain : Chain) (address : String) (normal : List NormalTx)
    (internal : List InternalTx) (tokens : List TokenTransfer) :
    (sumsOf lib chain address normal internal tokens).From (SeenIn normal internal tokens)
      (AssetOf lib chain tokens) := by
  unfold sumsOf
  dsimp only
  apply Effects.From.foldl
  · intro acc t ht h
    exact h.move (.inr (.inr ⟨t, ht, rfl, rfl⟩)) (.inr ⟨t, ht, rfl⟩)
  apply Effects.From.foldl
  · intro acc tx htx h
    unfold addInternal
    split_ifs
    · exact h
    · exact h.move (.inr (.inl ⟨tx, htx, rfl, rfl⟩)) (.inl rfl)
  apply Effects.From.foldl
  · intro acc tx htx h
    exact addNormal_from h (.inl ⟨tx, htx, rfl, rfl⟩) (.inl rfl)
  exact ⟨List.nodup_nil, by simp, by simp⟩

variable (lib) in
theorem effectsOf_from (chain : Chain) (address : String) (normal : List NormalTx)
    (internal : List InternalTx) (tokens : List TokenTransfer) :
    (effectsOf lib chain address normal internal tokens).From (SeenIn normal internal tokens)
      (AssetOf lib chain tokens) := by
  have h := sumsOf_from lib chain address normal internal tokens
  have hperm := List.mergeSort_perm
    ((sumsOf lib chain address normal internal tokens).list.filter fun e => e.delta ≠ 0) Effect.le
  refine ⟨?_, fun e he => ?_, h.refused⟩
  · exact ((hperm.map Effect.key).nodup_iff).2
      (h.nodup.sublist ((List.filter_sublist).map Effect.key))
  · exact h.seen e (List.mem_of_mem_filter (hperm.mem_iff.1 he))

end Sources

end Linvesther.Wallet
