import Linvesther.Domain.FifoMatching

/-! Fills of several assets in one queue of lots. No sale closes a buy of another asset exactly if each is filled by
what is open of its own asset and was bought before all that is open of the others. -/

namespace Linvesther.Domain

section Tagged

/-- An open lot, with its asset and the place of its buy among all fills. -/
structure AssetLot (α : Type) where
  asset : α
  place : ℕ
  qty : ℚ
  price : ℚ

/-- A round trip, with the asset that was bought and the one that was sold. -/
structure RoundTrip (α : Type) where
  bought : α
  sold : α
  trip : Match

variable {α : Type}

def AssetLot.lot (l : AssetLot α) : ℚ × ℚ := (l.qty, l.price)

/-- The round trips of one sale, and the lots that it leaves. -/
def assetSale (asset : α) (price : ℚ) : ℚ → List (AssetLot α) → List (RoundTrip α) × List (AssetLot α)
  | _, [] => ([], [])
  | remaining, l :: lots =>
    if remaining ≤ 0 then ([], l :: lots)
    else
      let matched := min remaining l.qty
      let found : RoundTrip α := ⟨l.asset, asset, ⟨l.price, price, matched⟩⟩
      if l.qty - matched = 0 then
        let rest := assetSale asset price (remaining - matched) lots
        (found :: rest.1, rest.2)
      else ([found], { l with qty := l.qty - matched } :: lots)

/-- The round trips of all fills, from a place and the lots that are open there. -/
def roundTrips : ℕ → List (AssetLot α) → List (α × Fill) → List (RoundTrip α)
  | _, _, [] => []
  | place, lots, (asset, fill) :: fills =>
    if fill.isBuy then roundTrips (place + 1) (lots ++ [⟨asset, place, fill.qty, fill.price⟩]) fills
    else
      (assetSale asset fill.price fill.qty lots).1 ++
        roundTrips (place + 1) (assetSale asset fill.price fill.qty lots).2 fills

theorem assetSale_cons (asset : α) (price remaining : ℚ) (l : AssetLot α) (lots : List (AssetLot α)) :
    assetSale asset price remaining (l :: lots) =
      if remaining ≤ 0 then ([], l :: lots)
      else if l.qty - min remaining l.qty = 0 then
        (⟨l.asset, asset, ⟨l.price, price, min remaining l.qty⟩⟩ ::
          (assetSale asset price (remaining - min remaining l.qty) lots).1,
          (assetSale asset price (remaining - min remaining l.qty) lots).2)
      else ([⟨l.asset, asset, ⟨l.price, price, min remaining l.qty⟩⟩],
        { l with qty := l.qty - min remaining l.qty } :: lots) :=
  rfl

theorem assetSale_trips (asset : α) (price remaining : ℚ) (lots : List (AssetLot α)) :
    (assetSale asset price remaining lots).1.map RoundTrip.trip = saleMatches price remaining (lots.map AssetLot.lot) := by
  induction lots generalizing remaining with
  | nil => rfl
  | cons l lots ih =>
    rw [assetSale_cons, List.map_cons, AssetLot.lot, saleMatches]
    dsimp only
    split_ifs
    · rfl
    · exact congrArg (List.cons _) (ih _)
    · rfl

theorem assetSale_lots (asset : α) (price remaining : ℚ) (lots : List (AssetLot α)) :
    (assetSale asset price remaining lots).2.map AssetLot.lot =
      (matchLots price remaining (lots.map AssetLot.lot)).openLots := by
  induction lots generalizing remaining with
  | nil => rfl
  | cons l lots ih =>
    rw [assetSale_cons, List.map_cons, AssetLot.lot, matchLots]
    dsimp only
    by_cases hover : remaining ≤ 0
    · rw [if_pos hover, if_pos hover]
      rfl
    · rw [if_neg hover, if_neg hover]
      by_cases hused : l.qty - min remaining l.qty = 0
      · rw [if_pos hused, if_pos hused]
        exact ih _
      · rw [if_neg hused, if_neg hused]
        rfl

/-- Without their assets they are what the queue of lots matches. -/
theorem roundTrips_trips (place : ℕ) (lots : List (AssetLot α)) (fills : List (α × Fill)) :
    (roundTrips place lots fills).map RoundTrip.trip =
      fillMatches (lots.map AssetLot.lot) (fills.map Prod.snd) := by
  induction fills generalizing place lots with
  | nil => rfl
  | cons f fills ih =>
    obtain ⟨asset, fill⟩ := f
    rw [roundTrips, List.map_cons, fillMatches_cons]
    split_ifs
    · rw [ih, List.map_append]
      rfl
    · rw [List.map_append, ih, assetSale_trips, assetSale_lots]

theorem assetSale_sold {asset : α} {price remaining : ℚ} {lots : List (AssetLot α)} {t : RoundTrip α}
    (h : t ∈ (assetSale asset price remaining lots).1) : t.sold = asset := by
  induction lots generalizing remaining with
  | nil => cases h
  | cons l lots ih =>
    rw [assetSale_cons] at h
    split_ifs at h
    · cases h
    · rcases List.mem_cons.1 h with rfl | hrest
      · rfl
      · exact ih hrest
    · rw [List.mem_singleton.1 h]

end Tagged

section Own

variable {α : Type} [DecidableEq α]

/-- What is open of each asset by its own fills. -/
abbrev Queues (α : Type) := α → List (AssetLot α)

/-- So much is filled by lots of places before one. -/
def FilledBefore (place : ℕ) : ℚ → List (AssetLot α) → Prop
  | remaining, [] => remaining ≤ 0
  | remaining, l :: lots =>
    0 < remaining → l.place < place ∧
      (l.qty - min remaining l.qty = 0 → FilledBefore place (remaining - min remaining l.qty) lots)

/-- Each sale is filled by what is open of its own asset and was bought before all that is open of the others. -/
def Apart : ℕ → Queues α → List (α × Fill) → Prop
  | _, _, [] => True
  | place, queues, (asset, fill) :: fills =>
    if fill.isBuy then
      Apart (place + 1)
        (Function.update queues asset (queues asset ++ [⟨asset, place, fill.qty, fill.price⟩])) fills
    else
      (∀ other ≠ asset, ∀ l ∈ queues other, FilledBefore l.place fill.qty (queues asset)) ∧
        Apart (place + 1) (Function.update queues asset (assetSale asset fill.price fill.qty (queues asset)).2) fills

/-- The own lots of each asset in one queue, in the order of their buys. -/
structure Merged (place : ℕ) (queues : Queues α) (lots : List (AssetLot α)) : Prop where
  own : ∀ asset, lots.filter (fun l => l.asset = asset) = queues asset
  ordered : lots.Pairwise fun a b => a.place < b.place
  before : ∀ l ∈ lots, l.place < place

variable {place : ℕ} {queues : Queues α} {lots : List (AssetLot α)} {asset : α} {price remaining : ℚ}

/-- A sale meets only lots of its asset exactly if it is filled by them before any other. -/
theorem assetSale_within_iff (hordered : lots.Pairwise fun a b => a.place < b.place) :
    (∀ t ∈ (assetSale asset price remaining lots).1, t.bought = asset) ↔
      ∀ l ∈ lots, l.asset ≠ asset → FilledBefore l.place remaining (lots.filter fun l => l.asset = asset) := by
  induction lots generalizing remaining with
  | nil => simp [assetSale]
  | cons l lots ih =>
    obtain ⟨hfirst, hrest⟩ := List.pairwise_cons.1 hordered
    rw [assetSale_cons]
    by_cases hover : remaining ≤ 0
    · have hnone (place : ℕ) : ∀ own : List (AssetLot α), FilledBefore place remaining own
        | [] => hover
        | _ :: _ => fun hpos => absurd hover (not_le.2 hpos)
      rw [if_pos hover]
      exact ⟨fun _ _ _ _ => hnone _ _, fun _ t ht => absurd ht List.not_mem_nil⟩
    · rw [if_neg hover]
      by_cases hown : l.asset = asset
      · rw [List.filter_cons_of_pos (by simpa using hown)]
        have hothers : (∀ l' ∈ l :: lots, l'.asset ≠ asset → FilledBefore l'.place remaining
              (l :: lots.filter fun l => l.asset = asset)) ↔
            ∀ l' ∈ lots, l'.asset ≠ asset → (l.qty - min remaining l.qty = 0 →
              FilledBefore l'.place (remaining - min remaining l.qty) (lots.filter fun l => l.asset = asset)) := by
          constructor
          · intro h l' hl' hne
            exact (h l' (List.mem_cons_of_mem _ hl') hne (not_le.1 hover)).2
          · intro h l' hl' hne hpos
            rcases List.mem_cons.1 hl' with rfl | hl'
            · exact absurd hown hne
            · exact ⟨hfirst l' hl', h l' hl' hne⟩
        rw [hothers]
        split_ifs with hused
        · rw [List.forall_mem_cons, and_iff_right hown, ih hrest]
          simp [hused]
        · rw [List.forall_mem_singleton]
          exact ⟨fun _ l' _ _ hzero => absurd hzero hused, fun _ => hown⟩
      · -- the first lot is of another asset, and there is more to sell
        refine ⟨fun h => absurd (h ⟨l.asset, asset, ⟨l.price, price, min remaining l.qty⟩⟩ ?_) hown,
          fun h => absurd (h l List.mem_cons_self hown) ?_⟩
        · split_ifs <;> exact List.mem_cons_self
        · rw [List.filter_cons_of_neg (by simpa using hown)]
          cases hfilter : lots.filter fun l => l.asset = asset with
          | nil => exact hover
          | cons own _ =>
            intro hfilled
            have hin : own ∈ lots := List.mem_of_mem_filter (hfilter ▸ List.mem_cons_self)
            exact absurd (hfilled (not_le.1 hover)).1 (not_lt.2 (hfirst own hin).le)

omit [DecidableEq α] in
theorem assetSale_nothing (h : remaining ≤ 0) : assetSale asset price remaining lots = ([], lots) := by
  cases lots with
  | nil => rfl
  | cons l lots => exact if_pos h

/-- A sale that meets only its own lots is one of them alone, and leaves those of the others. -/
theorem assetSale_own (h : ∀ t ∈ (assetSale asset price remaining lots).1, t.bought = asset) :
    (assetSale asset price remaining lots).1 =
        (assetSale asset price remaining (lots.filter fun l => l.asset = asset)).1 ∧
      ((assetSale asset price remaining lots).2.filter fun l => l.asset = asset) =
        (assetSale asset price remaining (lots.filter fun l => l.asset = asset)).2 ∧
      ∀ other ≠ asset, ((assetSale asset price remaining lots).2.filter fun l => l.asset = other) =
        lots.filter fun l => l.asset = other := by
  induction lots generalizing remaining with
  | nil => exact ⟨rfl, rfl, fun _ _ => rfl⟩
  | cons l lots ih =>
    by_cases hover : remaining ≤ 0
    · rw [assetSale_nothing hover, assetSale_nothing hover]
      exact ⟨rfl, rfl, fun _ _ => rfl⟩
    · rw [assetSale_cons, if_neg hover] at h
      have hown : l.asset = asset := by
        split_ifs at h <;> exact h _ List.mem_cons_self
      have hother {other : α} (hne : other ≠ asset) (rest : List (AssetLot α)) (qty : ℚ) :
          (({ l with qty } :: rest).filter fun l => l.asset = other) = rest.filter fun l => l.asset = other :=
        List.filter_cons_of_neg (by simpa [hown] using hne.symm)
      rw [List.filter_cons_of_pos (by simpa using hown), assetSale_cons, assetSale_cons, if_neg hover, if_neg hover]
      split_ifs at h ⊢ with hused
      · obtain ⟨hfound, hkept, hothers⟩ := ih (List.forall_mem_cons.1 h).2
        refine ⟨congrArg (List.cons _) hfound, hkept, fun other hne => ?_⟩
        rw [hother hne]
        exact hothers other hne
      · refine ⟨rfl, List.filter_cons_of_pos (by simpa using hown), fun other hne => ?_⟩
        rw [hother hne, hother hne]

omit [DecidableEq α] in
theorem assetSale_places : ((assetSale asset price remaining lots).2.map AssetLot.place).Sublist
    (lots.map AssetLot.place) := by
  induction lots generalizing remaining with
  | nil => exact .slnil
  | cons l lots ih =>
    rw [assetSale_cons]
    split_ifs
    · exact .refl _
    · exact ih.cons _
    · exact .refl _

theorem Merged.empty : Merged 0 (fun _ => []) ([] : List (AssetLot α)) := ⟨fun _ => rfl, .nil, by simp⟩

theorem Merged.buy (h : Merged place queues lots) (asset : α) (qty price : ℚ) :
    Merged (place + 1) (Function.update queues asset (queues asset ++ [⟨asset, place, qty, price⟩]))
      (lots ++ [⟨asset, place, qty, price⟩]) where
  own other := by
    rw [List.filter_append, h.own]
    by_cases hother : other = asset
    · subst hother
      simp
    · simp [Function.update_of_ne hother, Ne.symm hother]
  ordered := by
    refine List.pairwise_append.2 ⟨h.ordered, List.pairwise_singleton _ _, fun a ha b hb => ?_⟩
    rw [List.mem_singleton.1 hb]
    exact h.before a ha
  before l hl := by
    rcases List.mem_append.1 hl with hold | hnew
    · exact Nat.lt_succ_of_lt (h.before l hold)
    · rw [List.mem_singleton.1 hnew]
      exact Nat.lt_succ_self _

theorem Merged.sell (h : Merged place queues lots)
    (hwithin : ∀ t ∈ (assetSale asset price remaining lots).1, t.bought = asset) :
    Merged (place + 1) (Function.update queues asset (assetSale asset price remaining (queues asset)).2)
      (assetSale asset price remaining lots).2 := by
  obtain ⟨-, hkept, hothers⟩ := assetSale_own hwithin
  have hplaces : ((assetSale asset price remaining lots).2.map AssetLot.place).Sublist (lots.map AssetLot.place) :=
    assetSale_places
  refine ⟨fun other => ?_, ?_, fun l hl => ?_⟩
  · by_cases hother : other = asset
    · subst hother
      rw [hkept, h.own, Function.update_self]
    · rw [hothers other hother, h.own, Function.update_of_ne hother]
  · have hordered := List.pairwise_map.2 h.ordered
    exact List.pairwise_map.1 (hordered.sublist hplaces)
  · obtain ⟨l', hl', hplace⟩ := List.mem_map.1 (hplaces.subset (List.mem_map_of_mem hl))
    rw [← hplace]
    exact Nat.lt_succ_of_lt (h.before l' hl')

theorem Merged.within_iff (h : Merged place queues lots) :
    (∀ t ∈ (assetSale asset price remaining lots).1, t.bought = asset) ↔
      ∀ other ≠ asset, ∀ l ∈ queues other, FilledBefore l.place remaining (queues asset) := by
  rw [assetSale_within_iff h.ordered, h.own]
  constructor
  · intro hlots other hne l hl
    rw [← h.own, List.mem_filter, decide_eq_true_eq] at hl
    exact hlots l hl.1 fun heq => hne (hl.2.symm.trans heq)
  · intro hqueues l hl hne
    refine hqueues l.asset hne l ?_
    rw [← h.own]
    exact List.mem_filter.2 ⟨hl, decide_eq_true rfl⟩

/-- No sale closes a buy of another asset exactly if each is filled by its own before the others. -/
theorem roundTrips_within_iff (h : Merged place queues lots) (fills : List (α × Fill)) :
    (∀ t ∈ roundTrips place lots fills, t.bought = t.sold) ↔ Apart place queues fills := by
  induction fills generalizing place queues lots with
  | nil => simp [roundTrips, Apart]
  | cons f fills ih =>
    obtain ⟨asset, fill⟩ := f
    unfold roundTrips Apart
    split_ifs
    · exact ih (h.buy asset fill.qty fill.price)
    · have hsold : (∀ t ∈ (assetSale asset fill.price fill.qty lots).1, t.bought = t.sold) ↔
          ∀ t ∈ (assetSale asset fill.price fill.qty lots).1, t.bought = asset :=
        forall₂_congr fun t ht => by rw [assetSale_sold ht]
      rw [List.forall_mem_append, hsold, h.within_iff]
      refine and_congr_right fun hfilled => ?_
      exact ih (h.sell (h.within_iff.2 hfilled))

/-- Then the round trips of each asset are those of its own fills. -/
theorem roundTrips_own (h : Merged place queues lots) {fills : List (α × Fill)} (hapart : Apart place queues fills)
    (asset : α) : ((roundTrips place lots fills).filter fun t => t.sold = asset).map RoundTrip.trip =
      fillMatches ((queues asset).map AssetLot.lot) ((fills.filter fun f => f.1 = asset).map Prod.snd) := by
  induction fills generalizing place queues lots with
  | nil => rfl
  | cons f fills ih =>
    obtain ⟨sold, fill⟩ := f
    unfold roundTrips
    unfold Apart at hapart
    split_ifs at hapart ⊢ with hbuy
    · rw [ih (h.buy sold fill.qty fill.price) hapart]
      by_cases hown : sold = asset
      · subst hown
        rw [List.filter_cons_of_pos (by simp), List.map_cons, fillMatches_cons, if_pos hbuy, Function.update_self,
          List.map_append]
        rfl
      · rw [List.filter_cons_of_neg (by simpa using hown), Function.update_of_ne (Ne.symm hown)]
    · obtain ⟨hfilled, hrest⟩ := hapart
      have hwithin : ∀ t ∈ (assetSale sold fill.price fill.qty lots).1, t.bought = sold := h.within_iff.2 hfilled
      rw [List.filter_append, List.map_append, ih (h.sell hwithin) hrest]
      by_cases hown : sold = asset
      · subst hown
        obtain ⟨hfound, -, -⟩ := assetSale_own hwithin
        rw [List.filter_eq_self.2 fun t ht => by simpa using assetSale_sold ht, List.filter_cons_of_pos (by simp),
          List.map_cons, fillMatches_cons, if_neg hbuy, Function.update_self, hfound, h.own, assetSale_trips,
          assetSale_lots]
      · rw [List.filter_eq_nil_iff.2 fun t ht => by simpa [assetSale_sold ht] using hown,
          List.filter_cons_of_neg (by simpa using hown), Function.update_of_ne (Ne.symm hown)]
        rfl

end Own

end Linvesther.Domain
