import Linvesther.Base.Signed
import Linvesther.Wallet.Amounts
import Linvesther.Wallet.Snapshot

/-! `synthetic.rs`: balances of an address that are added up apart from its effects, in the smallest unit. -/

namespace Linvesther.Wallet

section Chain

/-- A chain with one address of interest. A contract opens with its symbol, its decimals and a balance. -/
structure SyntheticState where
  openingNativeWei : ℕ
  openingTokens : Std.TreeMap String (String × ℕ × ℕ)
  normal : List NormalTx
  internal : List InternalTx
  tokens : List TokenTransfer

/-- The result of an `i128` operation; one that leaves the range panics. -/
def i128 (x : ℤ) : Option ℤ := if Fits 128 x then some x else none

/-- `as i128`. -/
def asI128 (n : ℕ) : ℤ := (Signed.wrap 128 n).val

/-- `parse::<i128>()`. -/
def parseI128 (text : String) : Option ℤ :=
  let negative := text.toList.head? = some '-'
  let digits := if negative ∨ text.toList.head? = some '+' then text.toList.tail else text.toList
  if digits ≠ [] ∧ digits.all Char.isDigit then
    i128 (if negative then -Nat.ofDigitChars 10 digits 0 else Nat.ofDigitChars 10 digits 0)
  else none

/-- One amount that came to the address, or left it, or both. -/
def moved (address : String) (balance value : ℤ) (src dst : String) : Option ℤ := do
  let balance ← if dst = address then i128 (balance + value) else some balance
  if src = address then i128 (balance - value) else some balance

def nativeStep (address : String) (wei : ℤ) (tx : NormalTx) : Option ℤ := do
  let value ← if tx.failed then some 0 else parseI128 tx.value
  let wei ← moved address wei value tx.src tx.dst
  if tx.src = address then
    let used ← parseI128 tx.gasUsed
    let price ← parseI128 tx.gasPrice
    let fee ← i128 (used * price)
    i128 (wei - fee)
  else some wei

def internalStep (address : String) (wei : ℤ) (tx : InternalTx) : Option ℤ := do
  let value ← parseI128 tx.value
  moved address wei value tx.src tx.dst

def tokenStep (address : String) (amount : ℤ) (t : TokenTransfer) : Option ℤ := do
  let value ← parseI128 t.value
  moved address amount value t.src t.dst

def nativeAt (state : SyntheticState) (address : String) (head : ℕ) : Option ℕ := do
  let wei ← (state.normal.filter fun tx => tx.block ≤ head).foldlM (nativeStep address)
    (asI128 state.openingNativeWei)
  let wei ← (state.internal.filter fun tx => tx.block ≤ head ∧ !tx.failed).foldlM (internalStep address) wei
  some (max wei 0).toNat

def SyntheticState.openingToken (state : SyntheticState) (contract : String) : ℕ :=
  (state.openingTokens[contract]?.map fun t => t.2.2).getD 0

def tokenAt (state : SyntheticState) (address contract : String) (head : ℕ) : Option ℕ := do
  let amount ← (state.tokens.filter fun t => t.block ≤ head ∧ t.contract = contract).foldlM
    (tokenStep address) (asI128 (state.openingToken contract))
  some (max amount 0).toNat

end Chain

section Amounts

variable {lib : Lib}

/-- `from_str_exact` gives the number that is written, or nothing. -/
structure Lib.Exact (lib : Lib) : Prop where
  whole : ∀ digits : List Char, digits.all Char.isDigit → ∀ x,
    lib.fromStrExact (String.ofList digits) = some x → x = Nat.ofDigitChars 10 digits 0
  fraction : ∀ digits places : List Char, digits.all Char.isDigit → places.all Char.isDigit → ∀ x,
    lib.fromStrExact (String.ofList (digits ++ '.' :: places)) = some x →
      x = Nat.ofDigitChars 10 (digits ++ places) 0 / 10 ^ places.length

/-- The text with the point moved is read as the digits, shifted. -/
theorem shifted_some (hlib : lib.Exact) {digits : List Char} (hdigits : digits.all Char.isDigit)
    {decimals : ℕ} {x : ℚ}
    (h : (unitsText digits decimals).bind (fun text => lib.fromStrExact (String.ofList text)) = some x) :
    x = Nat.ofDigitChars 10 digits 0 / 10 ^ decimals := by
  unfold unitsText at h
  split_ifs at h with hzero hwrapped hsmall
  · rw [hlib.whole digits hdigits x h, hzero, pow_zero, div_one]
  · have hzeros : (List.replicate (decimals - digits.length) '0').all Char.isDigit := by simp
    have hplaces : (List.replicate (decimals - digits.length) '0' ++ digits).all Char.isDigit := by
      rw [List.all_append, hzeros, hdigits]
      rfl
    have hlength : (List.replicate (decimals - digits.length) '0' ++ digits).length = decimals := by
      rw [List.length_append, List.length_replicate]
      omega
    have hvalue := hlib.fraction ['0'] _ (by decide) hplaces x (by simpa using h)
    rw [hlength, List.cons_append, List.nil_append, Nat.ofDigitChars_cons, Nat.ofDigitChars_append] at hvalue
    simpa using hvalue
  · simp at h
  · have hsmall : decimals < digits.length := (not_le.1 hwrapped).trans_le (Nat.mod_le _ _)
    have hlength : (digits.drop (digits.length - decimals)).length = decimals := by
      rw [List.length_drop]
      omega
    have htake : (digits.take (digits.length - decimals)).all Char.isDigit := by
      rw [List.all_eq_true] at hdigits ⊢
      exact fun c hc => hdigits c (List.mem_of_mem_take hc)
    have hdrop : (digits.drop (digits.length - decimals)).all Char.isDigit := by
      rw [List.all_eq_true] at hdigits ⊢
      exact fun c hc => hdigits c (List.mem_of_mem_drop hc)
    have hvalue := hlib.fraction _ _ htake hdrop x (by simpa using h)
    rwa [hlength, List.take_append_drop] at hvalue

/-- An amount in its own unit is the whole number, shifted. -/
theorem units_some (hlib : lib.Exact) {raw : String} {decimals : ℕ} {x : ℚ}
    (h : units lib raw decimals = some x) :
    raw.toList ≠ [] ∧ raw.toList.all Char.isDigit ∧
      x = Nat.ofDigitChars 10 raw.toList 0 / 10 ^ decimals := by
  unfold units at h
  by_cases hraw : raw.toList = [] ∨ ¬ raw.toList.all Char.isDigit
  · rw [if_pos hraw] at h
    simp at h
  · rw [if_neg hraw] at h
    push Not at hraw
    refine ⟨hraw.1, hraw.2, ?_⟩
    rw [shifted_some hlib (all_significant hraw.2) h, ofDigitChars_significant]

theorem i128_some {x y : ℤ} (h : i128 x = some y) : y = x := by
  unfold i128 at h
  split_ifs at h
  exact (Option.some.inj h).symm

/-- Digits alone are read as their number. -/
theorem parseI128_digits {text : String} {x : ℤ} (hdigits : text.toList.all Char.isDigit)
    (h : parseI128 text = some x) : x = Nat.ofDigitChars 10 text.toList 0 := by
  have hsign : text.toList.head? ≠ some '-' ∧ text.toList.head? ≠ some '+' := by
    rw [List.all_eq_true] at hdigits
    constructor
    · intro hhead
      exact absurd (hdigits '-' (List.mem_of_mem_head? hhead)) (by decide)
    · intro hhead
      exact absurd (hdigits '+' (List.mem_of_mem_head? hhead)) (by decide)
  unfold parseI128 at h
  simp only [hsign.1, hsign.2, false_or, if_false] at h
  split_ifs at h
  exact i128_some h

theorem foldl_digits (digits : List Char) (n : ℕ) :
    digits.foldl (fun n c => n * 10 + (c.toNat - '0'.toNat)) n = Nat.ofDigitChars 10 digits n := by
  induction digits generalizing n with
  | nil => rfl
  | cons c digits ih => rw [List.foldl_cons, ih, Nat.ofDigitChars_cons, mul_comm]

/-- What both readings take is the same number to both. -/
theorem parseI128_of_parseU128 {text : String} {n : ℕ} {x : ℤ} (hn : parseU128 text = some n)
    (h : parseI128 text = some x) : x = n := by
  unfold parseU128 at hn
  by_cases hplus : text.toList.head? = some '+'
  · unfold parseI128 at h
    simp only [hplus, if_true, or_true] at h hn
    split_ifs at hn with hdigits hfits
    · rw [if_pos hdigits, if_neg (by decide)] at h
      rw [i128_some h, ← Option.some.inj hn, foldl_digits]
  · simp only [hplus, if_false] at hn
    split_ifs at hn with hdigits hfits
    · rw [parseI128_digits hdigits.2 h, ← Option.some.inj hn, foldl_digits]

end Amounts

section Sums

variable {lib : Lib} {asset : String}

/-- What the effects do to an asset. -/
def deltas (asset : String) (l : List Effect) : ℚ := ((l.filter fun e => e.asset = asset).map Effect.delta).sum

theorem deltas_cons (e : Effect) (l : List Effect) :
    deltas asset (e :: l) = (if e.asset = asset then e.delta else 0) + deltas asset l := by
  unfold deltas
  rw [List.filter_cons]
  by_cases h : e.asset = asset
  · simp [h]
  · simp [h]

theorem deltas_addTo (e : Effect) (l : List Effect) :
    deltas asset (addTo e l) = deltas asset l + if e.asset = asset then e.delta else 0 := by
  induction l with
  | nil =>
    rw [addTo, deltas_cons]
    simp [deltas]
  | cons first rest ih =>
    unfold addTo
    split_ifs with hkey hasset hasset
    · have hfirst : first.asset = asset := by
        have := congrArg (fun k => k.2.1) hkey
        exact this.trans hasset
      rw [deltas_cons, deltas_cons]
      simp only [hfirst, if_true]
      ring
    · have hfirst : first.asset ≠ asset := by
        have := congrArg (fun k => k.2.1) hkey
        exact fun h => hasset (this.symm.trans h)
      rw [deltas_cons, deltas_cons]
      simp only [hfirst, if_false]
      ring
    · rw [deltas_cons, deltas_cons, ih, if_pos hasset]
      ring
    · rw [deltas_cons, deltas_cons, ih, if_neg hasset]
      ring

/-- What cancels out adds nothing, and the order does not matter. -/
theorem deltas_effectsOf (chain : Chain) (address : String) (normal : List NormalTx)
    (internal : List InternalTx) (tokens : List TokenTransfer) :
    deltas asset (effectsOf lib chain address normal internal tokens).list =
      deltas asset (sumsOf lib chain address normal internal tokens).list := by
  have hfilter : ∀ l : List Effect, deltas asset (l.filter fun e => e.delta ≠ 0) = deltas asset l := by
    intro l
    induction l with
    | nil => rfl
    | cons e l ih =>
      rw [List.filter_cons]
      split_ifs with hdelta
      · rw [deltas_cons, deltas_cons, ih]
      · have hzero : e.delta = 0 := by simpa using hdelta
        rw [deltas_cons, ih, hzero, ite_self, zero_add]
  unfold effectsOf
  dsimp only
  rw [← hfilter (sumsOf lib chain address normal internal tokens).list]
  exact (((List.mergeSort_perm _ _).filter _).map _).sum_eq

end Sums

section Tracking

variable {lib : Lib} {asset : String} {decimals : ℕ} {opening balance balance' : ℤ} {acc : Effects}

/-- Unless the asset is refused, the balance is what it opened with and what the effects did, in the smallest unit. -/
def Tracks (asset : String) (decimals : ℕ) (opening : ℤ) (acc : Effects) (balance : ℤ) : Prop :=
  asset ∉ acc.unrepresentable → (balance : ℚ) = opening + deltas asset acc.list * 10 ^ decimals

theorem moved_some {address src dst : String} {value : ℤ}
    (h : moved address balance value src dst = some balance') :
    balance' = balance + (if dst = address then value else 0) - if src = address then value else 0 := by
  have hdebit : ∀ {b : ℤ}, (if src = address then i128 (b - value) else some b) = some balance' →
      balance' = b - if src = address then value else 0 := by
    intro b hb
    split_ifs at hb ⊢
    · exact i128_some hb
    · rw [← Option.some.inj hb, sub_zero]
  unfold moved at h
  by_cases hdst : dst = address
  · simp only [if_pos hdst, Option.bind_eq_bind, Option.bind_eq_some_iff] at h ⊢
    obtain ⟨credited, hcredited, h⟩ := h
    rw [hdebit h, i128_some hcredited]
  · simp only [if_neg hdst, Option.bind_eq_bind, Option.bind_some] at h ⊢
    rw [hdebit h, add_zero]

theorem deltas_move {me moving hash src dst : String} {value : ℚ} {block timeMs : ℕ} :
    deltas asset (acc.move me moving (some value) hash block timeMs src dst).list =
      deltas asset acc.list + if moving = asset then
        (if dst = me then value else 0) - (if src = me then value else 0) else 0 := by
  have hadd : ∀ (acc : Effects) (delta : ℚ),
      deltas asset (acc.add ⟨hash, block, timeMs, moving, delta, .transfer⟩).list =
        deltas asset acc.list + if moving = asset then delta else 0 := fun acc delta => deltas_addTo _ acc.list
  unfold Effects.move
  dsimp only
  by_cases hdst : dst = me
  · by_cases hsrc : src = me
    · simp only [if_pos hdst, if_pos hsrc, hadd]
      split_ifs <;> ring
    · simp only [if_pos hdst, if_neg hsrc, hadd, sub_zero]
  · by_cases hsrc : src = me
    · simp only [if_neg hdst, if_pos hsrc, hadd, zero_sub]
    · simp [if_neg hdst, if_neg hsrc]

theorem unrepresentable_move {me moving hash src dst : String} {value : ℚ} {block timeMs : ℕ} :
    (acc.move me moving (some value) hash block timeMs src dst).unrepresentable = acc.unrepresentable := by
  unfold Effects.move Effects.add
  dsimp only
  split_ifs <;> rfl

/-- A movement of another asset changes nothing. -/
theorem Tracks.move_other (h : Tracks asset decimals opening acc balance) {me moving hash src dst : String}
    {amount : Option ℚ} {block timeMs : ℕ} (hne : moving ≠ asset) :
    Tracks asset decimals opening (acc.move me moving amount hash block timeMs src dst) balance := by
  intro hmem
  cases amount with
  | none => exact h fun hold => hmem (Finset.mem_insert_of_mem hold)
  | some value =>
    rw [unrepresentable_move] at hmem
    rw [deltas_move, if_neg hne, add_zero]
    exact h hmem

/-- A movement of the asset is the same to both. -/
theorem Tracks.move (hlib : lib.Exact) (h : Tracks asset decimals opening acc balance)
    {me hash src dst raw : String} {block timeMs : ℕ} {value : ℤ} (hvalue : parseI128 raw = some value)
    (hmoved : balance' = balance + (if dst = me then value else 0) - if src = me then value else 0) :
    Tracks asset decimals opening
      (acc.move me asset (units lib raw decimals) hash block timeMs src dst) balance' := by
  intro hmem
  cases hunits : units lib raw decimals with
  | none =>
    rw [hunits] at hmem
    exact absurd (Finset.mem_insert_self asset _) hmem
  | some amount =>
    rw [hunits, unrepresentable_move] at hmem
    obtain ⟨-, hdigits, hamount⟩ := units_some hlib hunits
    have hscaled : amount * 10 ^ decimals = value := by
      rw [parseI128_digits hdigits hvalue, hamount]
      field_simp
      norm_cast
    rw [hmoved, deltas_move, if_pos rfl]
    push_cast
    rw [h hmem, ← hscaled]
    split_ifs <;> ring

theorem gasFee_some (hlib : lib.Exact) {tx : NormalTx} {fee : ℚ} (h : gasFee lib tx = some fee)
    {used price : ℤ} (hused : parseI128 tx.gasUsed = some used) (hprice : parseI128 tx.gasPrice = some price) :
    fee * 10 ^ NATIVE_DECIMALS = used * price := by
  unfold gasFee at h
  simp only [Option.bind_eq_bind, Option.bind_eq_some_iff] at h
  obtain ⟨used', hused', price', hprice', hunits⟩ := h
  split_ifs at hunits
  obtain ⟨-, -, hfee⟩ := units_some hlib hunits
  have htext : (toString (used' * price')).toList = Nat.toDigits 10 (used' * price') := Nat.toList_repr
  rw [htext, Nat.ofDigitChars_ten_toDigits] at hfee
  rw [parseI128_of_parseU128 hused' hused, parseI128_of_parseU128 hprice' hprice, hfee]
  field_simp
  norm_cast

theorem nativeStep_some {address : String} {tx : NormalTx} (h : nativeStep address balance tx = some balance') :
    ∃ value left, (if tx.failed then value = 0 else parseI128 tx.value = some value) ∧
      moved address balance value tx.src tx.dst = some left ∧
      if tx.src = address then
        ∃ used price, parseI128 tx.gasUsed = some used ∧ parseI128 tx.gasPrice = some price ∧
          balance' = left - used * price
      else balance' = left := by
  have hrest : ∀ {value : ℤ}, (do
      let wei ← moved address balance value tx.src tx.dst
      if tx.src = address then
        let used ← parseI128 tx.gasUsed
        let price ← parseI128 tx.gasPrice
        let fee ← i128 (used * price)
        i128 (wei - fee)
      else some wei) = some balance' →
      ∃ left, moved address balance value tx.src tx.dst = some left ∧
        if tx.src = address then
          ∃ used price, parseI128 tx.gasUsed = some used ∧ parseI128 tx.gasPrice = some price ∧
            balance' = left - used * price
        else balance' = left := by
    intro value hvalue
    rw [Option.bind_eq_bind, Option.bind_eq_some_iff] at hvalue
    obtain ⟨left, hleft, hgas⟩ := hvalue
    refine ⟨left, hleft, ?_⟩
    split_ifs at hgas ⊢
    · simp only [Option.bind_eq_some_iff] at hgas
      obtain ⟨used, hused, price, hprice, fee, hfee, hrest⟩ := hgas
      refine ⟨used, price, hused, hprice, ?_⟩
      rw [i128_some hrest, i128_some hfee]
    · exact (Option.some.inj hgas).symm
  unfold nativeStep at h
  by_cases hfailed : tx.failed = true
  · simp only [if_pos hfailed, Option.bind_eq_bind, Option.bind_some] at h ⊢
    exact ⟨0, by simpa using hrest h⟩
  · simp only [if_neg hfailed] at h ⊢
    obtain ⟨value, hvalue, h⟩ := Option.bind_eq_some_iff.1 h
    obtain ⟨left, hleft⟩ := hrest h
    exact ⟨value, left, hvalue, hleft⟩

/-- Gas that is paid is paid by both. -/
theorem Tracks.gas (hlib : lib.Exact) {native : String} {tx : NormalTx} {used price : ℤ}
    (h : Tracks native NATIVE_DECIMALS opening acc balance)
    (hused : parseI128 tx.gasUsed = some used) (hprice : parseI128 tx.gasPrice = some price) :
    Tracks native NATIVE_DECIMALS opening
      (match gasFee lib tx with
      | some fee => acc.add ⟨tx.hash, tx.block, tx.timeMs, native, -fee, .gas⟩
      | none => acc.refuse native) (balance - used * price) := by
  intro hmem
  cases hfee : gasFee lib tx with
  | none =>
    rw [hfee] at hmem
    exact absurd (Finset.mem_insert_self native _) hmem
  | some fee =>
    rw [hfee] at hmem
    have hpaid := gasFee_some hlib hfee hused hprice
    have hadd : deltas native (acc.add ⟨tx.hash, tx.block, tx.timeMs, native, -fee, .gas⟩).list =
        deltas native acc.list + if native = native then -fee else 0 := deltas_addTo _ acc.list
    rw [if_pos rfl] at hadd
    dsimp only
    rw [hadd]
    push_cast
    rw [h hmem, ← hpaid]
    ring

theorem Tracks.normal (hlib : lib.Exact) {native me : String} {tx : NormalTx}
    (h : Tracks native NATIVE_DECIMALS opening acc balance)
    (hstep : nativeStep me balance tx = some balance') :
    Tracks native NATIVE_DECIMALS opening (addNormal lib me native acc tx) balance' := by
  obtain ⟨value, left, hvalue, hleft, hgas⟩ := nativeStep_some hstep
  have hmoved := moved_some hleft
  -- the effects pay the gas before the value moves
  have hpaid : ∃ paid, Tracks native NATIVE_DECIMALS opening
      (if tx.src = me then
        match gasFee lib tx with
        | some fee => acc.add ⟨tx.hash, tx.block, tx.timeMs, native, -fee, .gas⟩
        | none => acc.refuse native
      else acc) paid ∧
      balance' = paid + (if tx.dst = me then value else 0) - if tx.src = me then value else 0 := by
    by_cases hsrc : tx.src = me
    · rw [if_pos hsrc] at hgas
      obtain ⟨used, price, hused, hprice, hrest⟩ := hgas
      rw [if_pos hsrc]
      refine ⟨balance - used * price, h.gas hlib hused hprice, ?_⟩
      rw [hrest, hmoved]
      ring
    · rw [if_neg hsrc] at hgas
      rw [if_neg hsrc]
      exact ⟨balance, h, by rw [hgas, hmoved]⟩
  obtain ⟨paid, htracks, hbalance⟩ := hpaid
  unfold addNormal
  by_cases hfailed : tx.failed = true
  · rw [if_pos hfailed]
    rw [if_pos hfailed] at hvalue
    rw [hvalue, ite_self, ite_self, add_zero, sub_zero] at hbalance
    rw [hbalance]
    exact htracks
  · rw [if_neg hfailed]
    rw [if_neg hfailed] at hvalue
    exact htracks.move hlib hvalue hbalance

theorem Tracks.normal_other {native me : String} {tx : NormalTx} (hne : native ≠ asset)
    (h : Tracks asset decimals opening acc balance) :
    Tracks asset decimals opening (addNormal lib me native acc tx) balance := by
  have hpaid : Tracks asset decimals opening
      (if tx.src = me then
        match gasFee lib tx with
        | some fee => acc.add ⟨tx.hash, tx.block, tx.timeMs, native, -fee, .gas⟩
        | none => acc.refuse native
      else acc) balance := by
    split_ifs
    · cases gasFee lib tx with
      | none => exact fun hmem => h fun hold => hmem (Finset.mem_insert_of_mem hold)
      | some fee =>
        intro hmem
        have hadd : deltas asset (acc.add ⟨tx.hash, tx.block, tx.timeMs, native, -fee, .gas⟩).list =
            deltas asset acc.list + if native = asset then -fee else 0 := deltas_addTo _ acc.list
        rw [if_neg hne, add_zero] at hadd
        dsimp only
        rw [hadd]
        exact h hmem
    · exact h
  unfold addNormal
  by_cases hfailed : tx.failed = true
  · rw [if_pos hfailed]
    exact hpaid
  · rw [if_neg hfailed]
    exact hpaid.move_other hne

theorem Tracks.internal (hlib : lib.Exact) {native me : String} {tx : InternalTx}
    (h : Tracks native NATIVE_DECIMALS opening acc balance)
    (hstep : (if !tx.failed then internalStep me balance tx else some balance) = some balance') :
    Tracks native NATIVE_DECIMALS opening (addInternal lib me native acc tx) balance' := by
  unfold addInternal
  by_cases hfailed : tx.failed = true
  · rw [if_pos hfailed]
    rw [hfailed] at hstep
    rw [← Option.some.inj hstep]
    exact h
  · rw [if_neg hfailed]
    rw [if_pos (by simpa using hfailed)] at hstep
    unfold internalStep at hstep
    rw [Option.bind_eq_bind, Option.bind_eq_some_iff] at hstep
    obtain ⟨value, hvalue, hmoved⟩ := hstep
    exact h.move hlib hvalue (moved_some hmoved)

theorem Tracks.internal_other {native me : String} {tx : InternalTx} (hne : native ≠ asset)
    (h : Tracks asset decimals opening acc balance) :
    Tracks asset decimals opening (addInternal lib me native acc tx) balance := by
  unfold addInternal
  split_ifs
  · exact h
  · exact h.move_other hne

theorem Tracks.token (hlib : lib.Exact) {chain : Chain} {me : String} {t : TokenTransfer}
    (hasset : chain.tokenAsset lib t.contract = asset) (hdecimals : t.decimals = decimals)
    (h : Tracks asset decimals opening acc balance) (hstep : tokenStep me balance t = some balance') :
    Tracks asset decimals opening (addTransfer lib chain me acc t) balance' := by
  unfold tokenStep at hstep
  rw [Option.bind_eq_bind, Option.bind_eq_some_iff] at hstep
  obtain ⟨value, hvalue, hmoved⟩ := hstep
  unfold addTransfer
  rw [hasset, hdecimals]
  exact h.move hlib hvalue (moved_some hmoved)

/-- What each row keeps is kept by all of them. -/
theorem Tracks.foldl {α : Type} {f : Effects → α → Effects} {g : ℤ → α → Option ℤ} {rows : List α}
    (hstep : ∀ r ∈ rows, ∀ {acc balance balance'}, Tracks asset decimals opening acc balance →
      g balance r = some balance' → Tracks asset decimals opening (f acc r) balance')
    (h : Tracks asset decimals opening acc balance) (hrows : rows.foldlM g balance = some balance') :
    Tracks asset decimals opening (rows.foldl f acc) balance' := by
  induction rows generalizing acc balance with
  | nil =>
    rw [List.foldlM_nil] at hrows
    rw [← Option.some.inj hrows]
    exact h
  | cons r rows ih =>
    rw [List.foldlM_cons, Option.bind_eq_bind, Option.bind_eq_some_iff] at hrows
    obtain ⟨middle, hfirst, hrest⟩ := hrows
    exact ih (fun r' hr' => hstep r' (List.mem_cons_of_mem _ hr')) (hstep r List.mem_cons_self h hfirst) hrest

/-- Rows that leave the asset alone leave the balance as it is. -/
theorem Tracks.foldl_other {α : Type} {f : Effects → α → Effects} {rows : List α}
    (hstep : ∀ r ∈ rows, ∀ {acc}, Tracks asset decimals opening acc balance →
      Tracks asset decimals opening (f acc r) balance)
    (h : Tracks asset decimals opening acc balance) :
    Tracks asset decimals opening (rows.foldl f acc) balance := by
  induction rows generalizing acc with
  | nil => exact h
  | cons r rows ih =>
    exact ih (fun r' hr' => hstep r' (List.mem_cons_of_mem _ hr')) (hstep r List.mem_cons_self h)

end Tracking

section Conservation

variable {lib : Lib} {chain : Chain} {state : SyntheticState} {address : String} {head : ℕ}

/-- The effects of what is in the chain's blocks up to `head`. -/
def effectsAt (lib : Lib) (chain : Chain) (state : SyntheticState) (address : String) (head : ℕ) : Effects :=
  effectsOf lib chain address (state.normal.filter fun tx => tx.block ≤ head)
    (state.internal.filter fun tx => tx.block ≤ head) (state.tokens.filter fun t => t.block ≤ head)

/-- A balance in the asset's own unit is what it opened with and the effects, but never below zero. -/
def AddsUpTo (opening balance decimals : ℕ) (sum : ℚ) : Prop :=
  (balance : ℚ) / 10 ^ decimals = max 0 ((opening : ℚ) / 10 ^ decimals + sum)

theorem asI128_eq {n : ℕ} (h : n < 2 ^ 127) : asI128 n = n := by
  have hfits : Fits 128 (n : ℤ) := by
    have : (n : ℤ) < 2 ^ 127 := by exact_mod_cast h
    unfold Fits
    constructor <;> linarith
  exact Signed.val_wrap hfits

theorem Tracks.addsUpTo {asset : String} {decimals opening : ℕ} {balance : ℤ} {acc : Effects}
    (h : Tracks asset decimals opening acc balance) (hmem : asset ∉ acc.unrepresentable) :
    AddsUpTo opening (max balance 0).toNat decimals (deltas asset acc.list) := by
  have hbalance := h hmem
  have hpos : (0 : ℚ) < 10 ^ decimals := by positivity
  have hcast : (((max balance 0).toNat : ℕ) : ℚ) = max (balance : ℚ) 0 := by
    have : (((max balance 0).toNat : ℕ) : ℤ) = max balance 0 := Int.toNat_of_nonneg (le_max_right _ _)
    exact_mod_cast congrArg (Int.cast : ℤ → ℚ) this
  have hsum : (opening : ℚ) / 10 ^ decimals + deltas asset acc.list = (balance : ℚ) / 10 ^ decimals := by
    rw [hbalance]
    field_simp
    norm_cast
  unfold AddsUpTo
  rw [hsum, hcast, ← max_div_div_right hpos.le, zero_div, max_comm]

theorem tracks_start {asset : String} {decimals opening : ℕ} :
    Tracks asset decimals opening ⟨[], ∅⟩ opening := by
  intro _
  simp [deltas]

theorem tokenAsset_ne_native {contract : String} (h : lib.toLowercase contract ≠ "native") :
    chain.nativeAsset ≠ chain.tokenAsset lib contract := by
  intro heq
  have hnative : chain.nativeAsset = chain.name ++ (":" ++ "native") := rfl
  unfold Chain.tokenAsset at heq
  rw [hnative, String.append_assoc] at heq
  have hchars := congrArg String.toList heq
  rw [String.toList_append, String.toList_append, String.toList_append, String.toList_append] at hchars
  exact h (String.toList_inj.1 (List.append_cancel_left (List.append_cancel_left hchars))).symm

theorem tokenAsset_injective {contract contract' : String}
    (h : chain.tokenAsset lib contract = chain.tokenAsset lib contract') :
    lib.toLowercase contract = lib.toLowercase contract' := by
  unfold Chain.tokenAsset at h
  have hchars := congrArg String.toList h
  rw [String.toList_append, String.toList_append, String.toList_append, String.toList_append] at hchars
  exact String.toList_inj.1 (List.append_cancel_left hchars)

/-- Addresses of contracts, as the explorer's rows have them: in lower case, and never the word of the native asset. -/
def ContractAddress (lib : Lib) (contract : String) : Prop :=
  lib.toLowercase contract = contract ∧ contract ≠ "native"

theorem ContractAddress.ne_native {contract : String} (h : ContractAddress lib contract) :
    chain.nativeAsset ≠ chain.tokenAsset lib contract :=
  tokenAsset_ne_native (by rw [h.1]; exact h.2)

theorem internal_unfailed (address : String) (head : ℕ) (rows : List InternalTx) (wei : ℤ) :
    (rows.filter fun tx => tx.block ≤ head ∧ !tx.failed).foldlM (internalStep address) wei =
      (rows.filter fun tx => tx.block ≤ head).foldlM
        (fun wei tx => if !tx.failed then internalStep address wei tx else some wei) wei := by
  rw [List.foldlM_filter, List.foldlM_filter]
  congr 1
  funext wei tx
  by_cases hblock : tx.block ≤ head <;> simp [hblock]

theorem tokens_of_contract (address contract : String) (head : ℕ) (rows : List TokenTransfer) (amount : ℤ) :
    (rows.filter fun t => t.block ≤ head ∧ t.contract = contract).foldlM (tokenStep address) amount =
      (rows.filter fun t => t.block ≤ head).foldlM
        (fun amount t => if t.contract = contract then tokenStep address amount t else some amount) amount := by
  rw [List.foldlM_filter, List.foldlM_filter]
  congr 1
  funext amount t
  by_cases hblock : t.block ≤ head <;> simp [hblock]

theorem native_conserved (hlib : lib.Exact) (hcontracts : ∀ t ∈ state.tokens, ContractAddress lib t.contract)
    (hopening : state.openingNativeWei < 2 ^ 127)
    (hmem : chain.nativeAsset ∉ (effectsAt lib chain state address head).unrepresentable) {balance : ℕ}
    (h : nativeAt state (lib.toLowercase address) head = some balance) :
    AddsUpTo state.openingNativeWei balance NATIVE_DECIMALS
      (deltas chain.nativeAsset (effectsAt lib chain state address head).list) := by
  unfold nativeAt at h
  simp only [Option.bind_eq_bind, Option.bind_eq_some_iff, Option.some.injEq] at h
  obtain ⟨sent, hnormal, wei, hinternal, rfl⟩ := h
  rw [asI128_eq hopening] at hnormal
  unfold effectsAt at hmem ⊢
  rw [deltas_effectsOf]
  have hstart : Tracks chain.nativeAsset NATIVE_DECIMALS state.openingNativeWei ⟨[], ∅⟩
      state.openingNativeWei := tracks_start
  have hsent := hstart.foldl (g := nativeStep (lib.toLowercase address))
    (fun _ _ _ _ _ h hstep => h.normal hlib hstep) hnormal
  have hinner := hsent.foldl (g := fun wei tx =>
      if !tx.failed then internalStep (lib.toLowercase address) wei tx else some wei)
    (fun _ _ _ _ _ h hstep => h.internal hlib hstep) ((internal_unfailed _ _ _ _).symm.trans hinternal)
  refine (hinner.foldl_other (f := addTransfer lib chain (lib.toLowercase address)) fun t ht acc h => ?_).addsUpTo hmem
  exact h.move_other (hcontracts t (List.mem_of_mem_filter ht)).ne_native.symm

/-- A token's balance, where all its transfers have the same number of decimals. -/
theorem token_conserved (hlib : lib.Exact) (hcontracts : ∀ t ∈ state.tokens, ContractAddress lib t.contract)
    {contract : String} (hcontract : ContractAddress lib contract) {decimals : ℕ}
    (hdecimals : ∀ t ∈ state.tokens, t.contract = contract → t.decimals = decimals)
    (hopening : state.openingToken contract < 2 ^ 127)
    (hmem : chain.tokenAsset lib contract ∉ (effectsAt lib chain state address head).unrepresentable)
    {balance : ℕ} (h : tokenAt state (lib.toLowercase address) contract head = some balance) :
    AddsUpTo (state.openingToken contract) balance decimals
      (deltas (chain.tokenAsset lib contract) (effectsAt lib chain state address head).list) := by
  unfold tokenAt at h
  simp only [Option.bind_eq_bind, Option.bind_eq_some_iff, Option.some.injEq] at h
  obtain ⟨amount, htokens, rfl⟩ := h
  rw [asI128_eq hopening, tokens_of_contract] at htokens
  unfold effectsAt at hmem ⊢
  rw [deltas_effectsOf]
  have hstart : Tracks (chain.tokenAsset lib contract) decimals (state.openingToken contract) ⟨[], ∅⟩
      (state.openingToken contract) := tracks_start
  -- ether and gas are another asset
  have hsent : Tracks (chain.tokenAsset lib contract) decimals (state.openingToken contract)
      ((state.normal.filter fun tx => tx.block ≤ head).foldl
        (addNormal lib (lib.toLowercase address) chain.nativeAsset) ⟨[], ∅⟩) (state.openingToken contract) :=
    hstart.foldl_other fun _ _ _ h => h.normal_other hcontract.ne_native
  have hinner : Tracks (chain.tokenAsset lib contract) decimals (state.openingToken contract)
      ((state.internal.filter fun tx => tx.block ≤ head).foldl
        (addInternal lib (lib.toLowercase address) chain.nativeAsset) _) (state.openingToken contract) :=
    hsent.foldl_other fun _ _ _ h => h.internal_other hcontract.ne_native
  refine (hinner.foldl (f := addTransfer lib chain (lib.toLowercase address)) (g := fun amount t =>
    if t.contract = contract then tokenStep (lib.toLowercase address) amount t else some amount)
    (fun t ht acc _ _ h hstep => ?_) htokens).addsUpTo hmem
  have htoken := List.mem_of_mem_filter ht
  by_cases hsame : t.contract = contract
  · rw [if_pos hsame] at hstep
    exact h.token hlib (by rw [hsame]) (hdecimals t htoken hsame) hstep
  · rw [if_neg hsame] at hstep
    rw [← Option.some.inj hstep]
    refine h.move_other fun heq => hsame ?_
    have := tokenAsset_injective heq
    rwa [(hcontracts t htoken).1, hcontract.1] at this

/-- The balances of the chain are what the effects make of the opening ones, for every asset that is not refused. -/
structure Conserved (lib : Lib) (chain : Chain) (state : SyntheticState) (address : String) (head : ℕ) : Prop where
  native : state.openingNativeWei < 2 ^ 127 →
    chain.nativeAsset ∉ (effectsAt lib chain state address head).unrepresentable →
    ∀ balance, nativeAt state (lib.toLowercase address) head = some balance →
      AddsUpTo state.openingNativeWei balance NATIVE_DECIMALS
        (deltas chain.nativeAsset (effectsAt lib chain state address head).list)
  token : ∀ contract decimals, ContractAddress lib contract →
    (∀ t ∈ state.tokens, t.contract = contract → t.decimals = decimals) →
    state.openingToken contract < 2 ^ 127 →
    chain.tokenAsset lib contract ∉ (effectsAt lib chain state address head).unrepresentable →
    ∀ balance, tokenAt state (lib.toLowercase address) contract head = some balance →
      AddsUpTo (state.openingToken contract) balance decimals
        (deltas (chain.tokenAsset lib contract) (effectsAt lib chain state address head).list)

end Conservation

section Example

/-- The text of a number with at most 28 places and 96 bits, as that number. -/
def exactText (text : String) : Option ℚ :=
  let digits := text.toList.takeWhile (· ≠ '.')
  let places := (text.toList.dropWhile (· ≠ '.')).tail
  let n := Nat.ofDigitChars 10 (digits ++ places) 0
  if places.length ≤ 28 ∧ n < 2 ^ 96 then some (n / 10 ^ places.length) else none

def exactLib : Lib := ⟨exampleLib.toLowercase, exactText⟩

theorem all_ne_point {digits : List Char} (h : digits.all Char.isDigit) : ∀ c ∈ digits, decide (c ≠ '.') = true := by
  rw [List.all_eq_true] at h
  intro c hc
  rw [decide_eq_true_eq]
  rintro rfl
  exact absurd (h '.' hc) (by decide)

theorem exact_exactLib : exactLib.Exact := by
  refine ⟨fun digits hdigits x h => ?_, fun digits places hdigits _ x h => ?_⟩
  · have hpoint := all_ne_point hdigits
    change exactText (String.ofList digits) = some x at h
    unfold exactText at h
    rw [String.toList_ofList, List.takeWhile_eq_self_iff.2 hpoint, List.dropWhile_eq_nil_iff.2 hpoint] at h
    simp only [List.tail_nil, List.append_nil, List.length_nil, pow_zero, div_one] at h
    split_ifs at h
    exact (Option.some.inj h).symm
  · have hpoint := all_ne_point hdigits
    change exactText (String.ofList (digits ++ '.' :: places)) = some x at h
    unfold exactText at h
    rw [String.toList_ofList, List.takeWhile_append_of_pos hpoint, List.dropWhile_append_of_pos hpoint] at h
    simp only [List.takeWhile_cons, List.dropWhile_cons, ne_eq, not_true, decide_false] at h
    simp only [Bool.false_eq_true, if_false, List.append_nil, List.tail_cons] at h
    split_ifs at h
    exact (Option.some.inj h).symm

/-- The address pays 100 of a token and gas, and receives 0.04 ether from the router. -/
def swapChain : SyntheticState where
  openingNativeWei := 1000000000000000000
  openingTokens := Std.TreeMap.ofList [("0xusdc", "USDC", 6, 250000000)]
  normal := [⟨"0xs", 20, 20000, "0xaaaa", "0xbbbb", "0", "21000", "10000000000", false⟩]
  internal := [⟨"0xs", 20, 20000, "0xbbbb", "0xaaaa", "40000000000000000", false⟩]
  tokens := [⟨"0xs", 20, 20000, "0xusdc", "USDC", 6, "0xaaaa", "0xbbbb", "100000000"⟩]

/-- An address that sends more than it has: one wei, and nothing to send. -/
def overdrawnChain : SyntheticState where
  openingNativeWei := 0
  openingTokens := ∅
  normal := [⟨"0x1", 1, 1000, "0xaaaa", "0xbbbb", "1", "21000", "0", false⟩]
  internal := []
  tokens := []

end Example

end Linvesther.Wallet
