import Linvesther.Base.Transaction
import Linvesther.Wallet.Effects

/-! One reading of an address on one network: the transfers since the last reading up to a final block,
and the balances as of that block. -/

namespace Linvesther.Wallet

open Transaction

section Reader

variable (ReadError PriceError : Type)

/-- An explorer and a node. A node answers for as many contracts as it is asked for. -/
structure ChainReader where
  headBlock : Except ReadError ℕ
  indexedBlock : Except ReadError ℕ
  nativeBalanceAt : String → ℕ → Except ReadError String
  tokenBalancesAt : String → List String → ℕ → Except ReadError (List (Option String))
  tokens : String → Except ReadError (List HeldToken)
  normalTxs : String → ℕ → ℕ → Except ReadError (Listing NormalTx)
  internalTxs : String → ℕ → ℕ → Except ReadError (Listing InternalTx)
  tokenTransfers : String → ℕ → ℕ → Except ReadError (Listing TokenTransfer)
  length_tokenBalancesAt : ∀ address contracts block balances,
    tokenBalancesAt address contracts block = .ok balances → balances.length = contracts.length

/-- Of the coins asked for, those that have a price. -/
structure PriceProvider where
  current : List String → Except PriceError (Finset String)

inductive SnapshotError where
  | read (e : ReadError)
  | price (e : PriceError)
  | explorerBehind (indexed needed : ℕ)

end Reader

section Reading

structure TokenMeta where
  contract : String
  symbol : String
  decimals : ℕ
deriving DecidableEq

structure ReadRequest where
  chain : Chain
  address : String
  afterBlock : Option ℕ
  knownAssets : Finset String

structure Reading where
  head : ℕ
  end_ : ℕ
  confirmed : List Effect
  anchor : Std.TreeMap String ℚ
  tokens : Std.TreeMap String TokenMeta
  transfersIncomplete : Bool
  unrepresentable : Finset String
  ignoredUnpriced : ℕ

/-- The explorer's rows of the blocks after the last reading. -/
structure RangeRows where
  normal : Listing NormalTx
  internal : Listing InternalTx
  tokens : Listing TokenTransfer

variable {ReadError PriceError : Type} (lib : Lib) (reader : ChainReader ReadError)
  (prices : PriceProvider PriceError)

def rangeRows (address : String) (from_ end_ : ℕ) : Except ReadError RangeRows :=
  if from_ ≤ end_ then do
    let normal ← reader.normalTxs address from_ end_
    let internal ← reader.internalTxs address from_ end_
    let tokens ← reader.tokenTransfers address from_ end_
    pure ⟨normal, internal, tokens⟩
  else pure ⟨.default, .default, .default⟩

/-- The transfers of the blocks that are not final yet. -/
def recentTokens (address : String) (end_ head : ℕ) : Except ReadError (List TokenTransfer) :=
  if end_ < head then do
    let listing ← reader.tokenTransfers address (end_ + 1) head
    pure listing.rows
  else pure []

/-- What the explorer says of the address: its transfers and the tokens it may hold. -/
structure Answers where
  range : RangeRows
  recent : List TokenTransfer
  listed : List HeldToken

def askExplorer (address : String) (from_ end_ head : ℕ) : Except ReadError Answers := do
  let range ← rangeRows reader address from_ end_
  let recent ← recentTokens reader address end_ head
  let listed ← reader.tokens address
  pure ⟨range, recent, listed⟩

/-- What is known about each token, from its transfers and then from the list. -/
def tokenMetas (chain : Chain) (a : Answers) : Std.TreeMap String TokenMeta :=
  let metas := (a.range.tokens.rows ++ a.recent).foldl (fun metas t =>
    metas.insertIfNew (chain.tokenAsset lib t.contract) ⟨t.contract, t.symbol, t.decimals⟩) ∅
  a.listed.foldl (fun metas t =>
    metas.insertIfNew (chain.tokenAsset lib t.contract) ⟨t.contract, t.symbol, t.decimals⟩) metas

def mustFollow (chain : Chain) (known : Finset String) (effects : Effects) (a : Answers) :
    Finset String :=
  known ∪ (effects.list.map Effect.asset).toFinset ∪
    ((a.range.tokens.rows ++ a.recent).map fun t => chain.tokenAsset lib t.contract).toFinset

/-- The ids of the coins among the unfollowed tokens that have a price. -/
def pricedOf (chain : Chain) (must : Finset String) (metas : Std.TreeMap String TokenMeta) :
    Except PriceError (Finset String) :=
  let unfollowed := (metas.toList.filter fun p => p.1 ∉ must).map fun p =>
    chain.tokenPriceId lib p.2.contract
  if unfollowed = [] then pure ∅ else prices.current unfollowed

/-- The tokens whose balance is read. -/
def followedOf (chain : Chain) (must priced : Finset String) (metas : Std.TreeMap String TokenMeta) :
    List (String × TokenMeta) :=
  metas.toList.filter fun p => p.1 ∈ must ∨ chain.tokenPriceId lib p.2.contract ∈ priced

/-- An asset with the balance that was read for it, if it can be represented. -/
def addBalance (acc : Std.TreeMap String ℚ × Finset String) (asset : String)
    (balance : Option ℚ) : Std.TreeMap String ℚ × Finset String :=
  match balance with
  | some balance => (acc.1.insert asset balance, acc.2)
  | none => (acc.1, insert asset acc.2)

/-- The balances, and the assets that have none that can be represented. -/
def anchorsOf (native : String) (nativeBalance : Option ℚ)
    (followed : List (String × TokenMeta)) (balances : List (Option String))
    (refused : Finset String) : Std.TreeMap String ℚ × Finset String :=
  (followed.zip balances).foldl (fun acc p => addBalance acc p.1.1
    (p.2.bind fun raw => units lib raw p.1.2.decimals)) (addBalance (∅, refused) native nativeBalance)

/-- The reading as of block `end_`. -/
def readAt (request : ReadRequest) (head end_ : ℕ) :
    Except (SnapshotError ReadError PriceError) Reading := do
  let chain := request.chain
  let address := lib.toLowercase request.address
  let from_ := (request.afterBlock.map (· + 1)).getD (end_ + 1)
  let a ← (askExplorer reader address from_ end_ head).mapError .read
  let effects := effectsOf lib chain address a.range.normal.rows a.range.internal.rows
    a.range.tokens.rows
  let metas := tokenMetas lib chain a
  let must := mustFollow lib chain request.knownAssets effects a
  let priced ← (pricedOf lib prices chain must metas).mapError .price
  let followed := followedOf lib chain must priced metas
  let nativeRaw ← (reader.nativeBalanceAt address end_).mapError .read
  let contracts := followed.map fun p => p.2.contract
  let balances ← (if contracts = [] then pure []
    else reader.tokenBalancesAt address contracts end_).mapError .read
  let anchors := anchorsOf lib chain.nativeAsset (units lib nativeRaw NATIVE_DECIMALS) followed
    balances effects.unrepresentable
  pure
    { head, end_
      confirmed := effects.list
      anchor := anchors.1
      tokens := metas.filter fun asset _ => asset ∈ followed.map Prod.fst
      transfersIncomplete := a.range.normal.incomplete || a.range.internal.incomplete ||
        a.range.tokens.incomplete
      unrepresentable := anchors.2
      ignoredUnpriced := metas.size - followed.length }

/-- The reading as of the newest final block, or `none` when no new block has become final. -/
def readChain (request : ReadRequest) :
    Except (SnapshotError ReadError PriceError) (Option Reading) := do
  let head ← reader.headBlock.mapError .read
  let end_ := head - request.chain.confirmations
  if request.afterBlock.any (fun after => end_ ≤ after) then pure none
  else do
    let indexed ← reader.indexedBlock.mapError .read
    revertIf (indexed < end_) (.explorerBehind indexed end_)
    let reading ← readAt lib reader prices request head end_
    pure (some reading)

def DUST_UNITS : ℚ := 10

/-- What the balances changed by that the transfers do not explain. -/
def difference (previous : Std.TreeMap String ℚ) (confirmed : List Effect)
    (anchor : Std.TreeMap String ℚ) (asset : String) : ℚ :=
  anchor.getD asset 0 - previous.getD asset 0 -
    ((confirmed.filter fun e => e.asset = asset).map Effect.delta).sum

/-- The differences above rounding. A decimal has no more than 28 places: one of more panics. -/
def unexplained (previous : Std.TreeMap String ℚ) (confirmed : List Effect)
    (anchor : Std.TreeMap String ℚ) (decimalsOf : String → ℕ) : Option (List (String × ℚ)) :=
  let assets := (Std.TreeSet.ofList (previous.keys ++ anchor.keys ++ confirmed.map Effect.asset)).toList
  if ∀ asset ∈ assets, decimalsOf asset ≤ 28 then
    some ((assets.filter fun asset =>
      |difference previous confirmed anchor asset| > DUST_UNITS / 10 ^ decimalsOf asset).map
        fun asset => (asset, difference previous confirmed anchor asset))
  else none

end Reading

section Followed

variable {ReadError PriceError : Type} {lib : Lib} {reader : ChainReader ReadError}
  {prices : PriceProvider PriceError}

/-- The explorer names the asset: in a transfer after the last reading, or in its list. -/
def Answers.Names (lib : Lib) (chain : Chain) (a : Answers) (asset : String) : Prop :=
  (∃ t ∈ a.range.tokens.rows ++ a.recent, chain.tokenAsset lib t.contract = asset) ∨
  ∃ t ∈ a.listed, chain.tokenAsset lib t.contract = asset

theorem mem_foldl_insertIfNew {α : Type} (key : α → String) (value : α → TokenMeta) (rows : List α)
    (metas : Std.TreeMap String TokenMeta) (asset : String) :
    asset ∈ rows.foldl (fun metas t => metas.insertIfNew (key t) (value t)) metas ↔
      asset ∈ metas ∨ ∃ t ∈ rows, key t = asset := by
  induction rows generalizing metas with
  | nil => simp
  | cons t rows ih =>
    rw [List.foldl_cons, ih, Std.TreeMap.mem_insertIfNew, Std.compare_eq_iff_eq]
    simp only [List.mem_cons, exists_eq_or_imp]
    tauto

theorem mem_tokenMetas (chain : Chain) (a : Answers) (asset : String) :
    asset ∈ tokenMetas lib chain a ↔ a.Names lib chain asset := by
  unfold tokenMetas Answers.Names
  dsimp only
  rw [mem_foldl_insertIfNew, mem_foldl_insertIfNew]
  simp

/-- A reading has the asset: with a balance or as one that cannot be represented. -/
def Has (anchors : Std.TreeMap String ℚ × Finset String) (asset : String) : Prop :=
  asset ∈ anchors.1 ∨ asset ∈ anchors.2

theorem has_addBalance (acc : Std.TreeMap String ℚ × Finset String) (asset : String)
    (balance : Option ℚ) (other : String) :
    Has (addBalance acc asset balance) other ↔ Has acc other ∨ other = asset := by
  unfold Has addBalance
  rcases balance with _ | balance
  · rw [Finset.mem_insert]
    tauto
  · rw [Std.TreeMap.mem_insert, Std.compare_eq_iff_eq, eq_comm]
    tauto

theorem has_anchorsOf {native : String} {nativeBalance : Option ℚ}
    {followed : List (String × TokenMeta)} {balances : List (Option String)}
    {refused : Finset String} (hlength : balances.length = followed.length) (asset : String) :
    Has (anchorsOf lib native nativeBalance followed balances refused) asset ↔
      asset = native ∨ asset ∈ refused ∨ asset ∈ followed.map Prod.fst := by
  have hfold (zipped : List ((String × TokenMeta) × Option String))
      (acc : Std.TreeMap String ℚ × Finset String) :
      Has (zipped.foldl (fun acc p => addBalance acc p.1.1
        (p.2.bind fun raw => units lib raw p.1.2.decimals)) acc) asset ↔
        Has acc asset ∨ asset ∈ zipped.map fun p => p.1.1 := by
    induction zipped generalizing acc with
    | nil => simp
    | cons p zipped ih =>
      rw [List.foldl_cons, ih, has_addBalance, List.map_cons, List.mem_cons]
      tauto
  have hzip : ((followed.zip balances).map fun p => p.1.1) = followed.map Prod.fst := by
    have hfst : (followed.zip balances).map Prod.fst = followed :=
      List.map_fst_zip hlength.ge
    conv_rhs => rw [← hfst]
    rw [List.map_map]
    rfl
  unfold anchorsOf
  rw [hfold, hzip, has_addBalance]
  simp only [Has, Std.TreeMap.not_mem_emptyc, false_or]
  tauto

theorem mem_followedOf {chain : Chain} {must priced : Finset String}
    {metas : Std.TreeMap String TokenMeta} {asset : String} (hmust : asset ∈ must) :
    asset ∈ (followedOf lib chain must priced metas).map Prod.fst ↔ asset ∈ metas := by
  unfold followedOf
  rw [List.mem_map, Std.TreeMap.mem_iff_isSome_getElem?, Option.isSome_iff_exists]
  constructor
  · rintro ⟨p, hp, rfl⟩
    exact ⟨p.2, OrderedMap.mem_toList.1 (List.mem_of_mem_filter hp)⟩
  · rintro ⟨tokenMeta, hmeta⟩
    refine ⟨(asset, tokenMeta), ?_, rfl⟩
    rw [List.mem_filter, decide_eq_true_eq]
    exact ⟨OrderedMap.mem_toList.2 hmeta, .inl hmust⟩

/-- The first block that a request asks for. -/
def ReadRequest.from_ (request : ReadRequest) (end_ : ℕ) : ℕ :=
  (request.afterBlock.map (· + 1)).getD (end_ + 1)

/-- Of the known assets a reading has the native one and those that the explorer names. -/
theorem readAt_has {request : ReadRequest} {head end_ : ℕ} {reading : Reading}
    (h : readAt lib reader prices request head end_ = .ok reading) :
    ∃ a, askExplorer reader (lib.toLowercase request.address) (request.from_ end_) end_ head =
        .ok a ∧
      ∀ asset ∈ request.knownAssets, Has (reading.anchor, reading.unrepresentable) asset ↔
        asset = request.chain.nativeAsset ∨ a.Names lib request.chain asset := by
  simp only [readAt, bind_ok, mapError_ok, pure_ok] at h
  obtain ⟨a, ha, priced, -, nativeRaw, -, balances, hbalances, rfl⟩ := h
  refine ⟨a, ha, fun asset hknown => ?_⟩
  have hlength : balances.length = (followedOf lib request.chain (mustFollow lib request.chain
      request.knownAssets (effectsOf lib request.chain (lib.toLowercase request.address)
        a.range.normal.rows a.range.internal.rows a.range.tokens.rows) a) priced
      (tokenMetas lib request.chain a)).length := by
    split_ifs at hbalances with hnone
    · rw [List.map_eq_nil_iff] at hnone
      rw [← (pure_ok _ _).1 hbalances, hnone]
      rfl
    · rw [reader.length_tokenBalancesAt _ _ _ _ hbalances, List.length_map]
  have hmust : asset ∈ mustFollow lib request.chain request.knownAssets
      (effectsOf lib request.chain (lib.toLowercase request.address)
        a.range.normal.rows a.range.internal.rows a.range.tokens.rows) a := by
    simp only [mustFollow, Finset.mem_union]
    exact .inl (.inl hknown)
  have hrefused := (effectsOf_from lib request.chain (lib.toLowercase request.address)
    a.range.normal.rows a.range.internal.rows a.range.tokens.rows).refused asset
  refine (has_anchorsOf hlength asset).trans ?_
  rw [mem_followedOf hmust, mem_tokenMetas]
  constructor
  · rintro (hnative | hrefused' | hnamed)
    · exact .inl hnative
    · rcases hrefused hrefused' with hnative | ⟨t, ht, hasset⟩
      · exact .inl hnative
      · exact .inr (.inl ⟨t, List.mem_append_left _ ht, hasset⟩)
    · exact .inr hnamed
  · rintro (hnative | hnamed)
    · exact .inl hnative
    · exact .inr (.inr hnamed)

end Followed

section KnownAssets

variable {ReadError PriceError : Type} {lib : Lib} {reader : ChainReader ReadError}
  {prices : PriceProvider PriceError}

/-- The explorer names the asset when it is asked for what is new since the last reading. -/
def Named (lib : Lib) (reader : ChainReader ReadError) (request : ReadRequest) (asset : String) :
    Prop :=
  ∃ head a, reader.headBlock = .ok head ∧
    askExplorer reader (lib.toLowercase request.address)
      (request.from_ (head - request.chain.confirmations)) (head - request.chain.confirmations)
      head = .ok a ∧
    a.Names lib request.chain asset

theorem readChain_has {request : ReadRequest} {reading : Reading}
    (h : readChain lib reader prices request = .ok (some reading)) {asset : String}
    (hknown : asset ∈ request.knownAssets) :
    Has (reading.anchor, reading.unrepresentable) asset ↔
      asset = request.chain.nativeAsset ∨ Named lib reader request asset := by
  simp only [readChain, bind_ok, mapError_ok] at h
  obtain ⟨head, hhead, h⟩ := h
  split_ifs at h with hnothing
  · simp [pure_ok] at h
  · simp only [bind_ok, mapError_ok, revertIf_ok, pure_ok, Option.some.injEq] at h
    obtain ⟨indexed, -, -, -, reading', hreading, rfl⟩ := h
    obtain ⟨a, ha, hhas⟩ := readAt_has hreading
    rw [hhas asset hknown]
    refine or_congr_right ⟨fun hnamed => ⟨head, a, hhead, ha, hnamed⟩, ?_⟩
    rintro ⟨head', a', hhead', ha', hnamed⟩
    rw [hhead, Except.ok.injEq] at hhead'
    subst hhead'
    rw [ha, Except.ok.injEq] at ha'
    rw [ha']
    exact hnamed

/-- A reading has every known asset if and only if the explorer names each of them but the native one. -/
theorem known_assets_kept_iff {request : ReadRequest} {reading : Reading}
    (h : readChain lib reader prices request = .ok (some reading)) :
    (∀ asset ∈ request.knownAssets, Has (reading.anchor, reading.unrepresentable) asset) ↔
      ∀ asset ∈ request.knownAssets, asset = request.chain.nativeAsset ∨
        Named lib reader request asset :=
  forall₂_congr fun _ hknown => readChain_has h hknown

end KnownAssets

section Example

def ethereum : Chain where
  id := 1
  name := "ethereum"
  nativeSymbol := "ETH"
  pricePrefix := "ethereum"
  confirmations := 32

def exampleLib : Lib where
  toLowercase text := String.ofList (text.toList.map Char.toLower)
  fromStrExact text :=
    if text = "0.000000000000000000" then some 0 else if text = "7.000000" then some 7 else none

/-- An address that holds seven of a token and nothing else, and has no transfers. -/
def exampleReader (listed : List HeldToken) : ChainReader String where
  headBlock := .ok 1000
  indexedBlock := .ok 1000
  nativeBalanceAt _ _ := .ok "0"
  tokenBalancesAt _ contracts _ := .ok (contracts.map fun _ => some "7000000")
  tokens _ := .ok listed
  normalTxs _ _ _ := .ok .default
  internalTxs _ _ _ := .ok .default
  tokenTransfers _ _ _ := .ok .default
  length_tokenBalancesAt _ contracts _ balances h := by
    rw [← Except.ok.inj h, List.length_map]

def examplePrices : PriceProvider String := ⟨fun _ => .ok ∅⟩

/-- The token was followed when the last reading was made, as of block 900. -/
def exampleRequest : ReadRequest where
  chain := ethereum
  address := "0xaaaa"
  afterBlock := some 900
  knownAssets := {"ethereum:0xold"}

/-- The reader answers everything it is asked. -/
theorem exampleReader_reads (listed : List HeldToken) :
    ∃ reading, readChain exampleLib (exampleReader listed) examplePrices exampleRequest =
      .ok (some reading) := by
  have hpriced (must : Finset String) (metas : Std.TreeMap String TokenMeta) :
      pricedOf exampleLib examplePrices exampleRequest.chain must metas = .ok ∅ := by
    unfold pricedOf
    dsimp only
    split_ifs <;> rfl
  have hbalances (contracts : List String) : ∃ balances, (if contracts = [] then pure []
      else (exampleReader listed).tokenBalancesAt "0xaaaa" contracts 968) = .ok balances := by
    split_ifs
    · exact ⟨[], rfl⟩
    · exact ⟨_, rfl⟩
  have hat : ∃ reading,
      readAt exampleLib (exampleReader listed) examplePrices exampleRequest 1000 968 =
        .ok reading := by
    simp only [readAt, bind_ok, mapError_ok, pure_ok]
    obtain ⟨balances, hok⟩ := hbalances _
    exact ⟨_, _, rfl, ∅, hpriced _ _, "0", rfl, balances, hok, rfl⟩
  obtain ⟨reading, hreading⟩ := hat
  refine ⟨reading, ?_⟩
  unfold readChain
  have hhead : (exampleReader listed).headBlock = .ok 1000 := rfl
  have hindexed : (exampleReader listed).indexedBlock = .ok 1000 := rfl
  simp only [bind_ok, mapError_ok]
  refine ⟨1000, hhead, ?_⟩
  rw [if_neg (by decide)]
  simp only [bind_ok, mapError_ok, revertIf_ok, pure_ok]
  exact ⟨1000, hindexed, (), by decide, reading, hreading, rfl⟩

/-- A token that is held and was followed, but that the explorer does not list, is not read. -/
theorem unlisted_asset_lost :
    ∃ reading, readChain exampleLib (exampleReader []) examplePrices exampleRequest =
        .ok (some reading) ∧
      "ethereum:0xold" ∈ exampleRequest.knownAssets ∧
      ¬ Has (reading.anchor, reading.unrepresentable) "ethereum:0xold" := by
  obtain ⟨reading, h⟩ := exampleReader_reads []
  refine ⟨reading, h, by decide, ?_⟩
  rw [readChain_has h (by decide)]
  rintro (hnative | ⟨head, a, hhead, ha, hnamed⟩)
  · exact absurd hnative (by decide)
  · cases hhead
    cases ha
    exact absurd hnamed (by simp [Answers.Names, Listing.default])

def oldToken : HeldToken := ⟨"0xOLD", "OLD", 6⟩

theorem known_assets_kept_iff_listed :
    ∃ reading, readChain exampleLib (exampleReader [oldToken]) examplePrices exampleRequest =
        .ok (some reading) ∧
      ∀ asset ∈ exampleRequest.knownAssets,
        Has (reading.anchor, reading.unrepresentable) asset := by
  obtain ⟨reading, h⟩ := exampleReader_reads [oldToken]
  refine ⟨reading, h, (known_assets_kept_iff h).2 fun asset hasset => .inr ?_⟩
  rw [Finset.mem_singleton.1 hasset]
  exact ⟨1000, _, rfl, rfl, .inr ⟨oldToken, List.mem_singleton.2 rfl, by decide⟩⟩

end Example

end Linvesther.Wallet
