import Linvesther.Worker.Holdings

/-! Deposits and withdrawals are not returns: with constant prices and nothing but them, what an account is
worth moves from one checkpoint to the next by what flowed. -/

namespace Linvesther.Worker

open Transaction Domain

section Timeline

theorem before_total (a b : TimelineEvent) : before a b ∨ before b a := by
  cases a <;> cases b <;> simp only [before] <;> omega

theorem before_trans {a b c : TimelineEvent} (hab : before a b) (hbc : before b c) : before a c := by
  cases a <;> cases b <;> cases c <;> simp only [before] at * <;> omega

instance : Std.Total before := ⟨before_total⟩

instance : IsTrans TimelineEvent before := ⟨fun _ _ _ => before_trans⟩

/-- What an event brings in by a time. -/
def flowIn (timeMs : ℕ) : TimelineEvent → ℚ
  | .flow t amount => if t ≤ timeMs then amount else 0
  | .valuation _ _ => 0

def flowsUpTo (timeMs : ℕ) (events : List TimelineEvent) : ℚ := (events.map (flowIn timeMs)).sum

theorem flowsUpTo_cons (timeMs : ℕ) (event : TimelineEvent) (events : List TimelineEvent) :
    flowsUpTo timeMs (event :: events) = flowIn timeMs event + flowsUpTo timeMs events := by
  simp [flowsUpTo]

/-- In order of time the events are neutral if each valuation is the value before them and all flows by
then. -/
theorem neutral_iff {events : List TimelineEvent} (hsorted : events.Pairwise before) (v : ℚ) :
    Neutral v events ↔ ∀ t nav, .valuation t nav ∈ events → nav = v + flowsUpTo t events := by
  induction events generalizing v with
  | nil => simp [Neutral]
  | cons event events ih =>
    rw [List.pairwise_cons] at hsorted
    obtain ⟨hfirst, hrest⟩ := hsorted
    cases event with
    | flow t amount =>
      rw [Neutral, ih hrest]
      constructor
      · intro h t' nav hmem
        have hin : TimelineEvent.valuation t' nav ∈ events := by simpa using hmem
        have hle : t ≤ t' := hfirst _ hin
        rw [h t' nav hin, flowsUpTo_cons, flowIn, if_pos hle, add_assoc]
      · intro h t' nav hin
        have hle : t ≤ t' := hfirst _ hin
        rw [h t' nav (List.mem_cons_of_mem _ hin), flowsUpTo_cons, flowIn, if_pos hle, add_assoc]
    | valuation t nav =>
      have hcons (t' : ℕ) : flowsUpTo t' (.valuation t nav :: events) = flowsUpTo t' events := by
        rw [flowsUpTo_cons, flowIn, zero_add]
      -- a flow after the valuation is later than it
      have hzero : flowsUpTo t events = 0 := by
        refine List.sum_eq_zero fun x hx => ?_
        obtain ⟨event, hevent, rfl⟩ := List.mem_map.1 hx
        cases event with
        | valuation t' nav' => rfl
        | flow t' amount => exact if_neg (not_le.2 (hfirst _ hevent))
      rw [Neutral, ih hrest]
      constructor
      · rintro ⟨hnav, h⟩ t' nav' hmem
        rw [hcons]
        rcases List.mem_cons.1 hmem with heq | hin
        · simp only [TimelineEvent.valuation.injEq] at heq
          rw [heq.1, heq.2, hzero, hnav, add_zero]
        · exact h t' nav' hin
      · intro h
        refine ⟨?_, fun t' nav' hin => ?_⟩
        · rw [h t nav List.mem_cons_self, hcons, hzero, add_zero]
        · rw [h t' nav' (List.mem_cons_of_mem _ hin), hcons]

end Timeline

section Returns

variable {dailyNav : List DailyNav} {flows : List PricedFlow}

/-- What has flowed in by a time. -/
def flowSum (timeMs : ℕ) (flows : List PricedFlow) : ℚ :=
  ((flows.filter fun f => f.timeMs ≤ timeMs).map PricedFlow.netAmount).sum

theorem timelineOf_perm (dailyNav : List DailyNav) (flows : List PricedFlow) :
    (timelineOf dailyNav flows).Perm ((dailyNav.map fun d => .valuation d.dayStartMs d.nav) ++
      flows.map fun f => .flow f.timeMs f.netAmount) :=
  List.perm_insertionSort _ _

theorem valuation_mem_timelineOf {t : ℕ} {nav : ℚ} :
    .valuation t nav ∈ timelineOf dailyNav flows ↔ (⟨t, nav⟩ : DailyNav) ∈ dailyNav := by
  rw [(timelineOf_perm dailyNav flows).mem_iff, List.mem_append]
  constructor
  · rintro (h | h)
    · obtain ⟨d, hd, heq⟩ := List.mem_map.1 h
      rw [TimelineEvent.valuation.injEq] at heq
      rwa [← heq.1, ← heq.2]
    · obtain ⟨f, -, heq⟩ := List.mem_map.1 h
      cases heq
  · intro h
    exact .inl (List.mem_map.2 ⟨_, h, rfl⟩)

theorem flow_mem_timelineOf {t : ℕ} {amount : ℚ} (h : .flow t amount ∈ timelineOf dailyNav flows) :
    ∃ f ∈ flows, f.timeMs = t := by
  rw [(timelineOf_perm dailyNav flows).mem_iff, List.mem_append] at h
  rcases h with h | h
  · obtain ⟨d, -, heq⟩ := List.mem_map.1 h
    cases heq
  · obtain ⟨f, hf, heq⟩ := List.mem_map.1 h
    rw [TimelineEvent.flow.injEq] at heq
    exact ⟨f, hf, heq.1⟩

theorem countP_timelineOf (dailyNav : List DailyNav) (flows : List PricedFlow) :
    (timelineOf dailyNav flows).countP TimelineEvent.isValuation = dailyNav.length := by
  have hvaluations : (dailyNav.map fun d => TimelineEvent.valuation d.dayStartMs d.nav).countP
      TimelineEvent.isValuation = dailyNav.length := by
    rw [List.countP_map, ← List.countP_true]
    rfl
  have hflows : (flows.map fun f => TimelineEvent.flow f.timeMs f.netAmount).countP
      TimelineEvent.isValuation = 0 := by
    rw [List.countP_map, List.countP_eq_zero]
    exact fun _ _ hfalse => Bool.false_ne_true hfalse
  rw [(timelineOf_perm dailyNav flows).countP_eq, List.countP_append, hvaluations, hflows, add_zero]

theorem flowsUpTo_timelineOf (dailyNav : List DailyNav) (flows : List PricedFlow) (t : ℕ) :
    flowsUpTo t (timelineOf dailyNav flows) = flowSum t flows := by
  have hperm := ((timelineOf_perm dailyNav flows).map (flowIn t)).sum_eq
  have hvaluations : ((dailyNav.map fun d => TimelineEvent.valuation d.dayStartMs d.nav).map
      (flowIn t)).sum = 0 := by
    rw [List.map_map]
    refine List.sum_eq_zero fun x hx => ?_
    obtain ⟨d, -, rfl⟩ := List.mem_map.1 hx
    rfl
  have hflows (flows : List PricedFlow) : ((flows.map fun f => TimelineEvent.flow f.timeMs
      f.netAmount).map (flowIn t)).sum = flowSum t flows := by
    induction flows with
    | nil => rfl
    | cons f flows ih =>
      rw [List.map_cons, List.map_cons, List.sum_cons, ih, flowIn]
      unfold flowSum
      by_cases h : f.timeMs ≤ t
      · rw [if_pos h, List.filter_cons_of_pos (by simpa using h), List.map_cons, List.sum_cons]
      · rw [if_neg h, List.filter_cons_of_neg (by simpa using h), zero_add]
  unfold flowsUpTo
  rw [hperm, List.map_append, List.sum_append, hvaluations, zero_add, hflows]

theorem flowSum_first {t : ℕ} (hafter : ∀ f ∈ flows, t ≤ f.timeMs)
    (hnone : ∀ f ∈ flows, f.timeMs ≠ t) : flowSum t flows = 0 := by
  unfold flowSum
  rw [List.filter_eq_nil_iff.2 fun f hf hle => ?_]
  · rfl
  · exact hnone f hf (le_antisymm (of_decide_eq_true hle) (hafter f hf))

/-- In the timeline the first checkpoint leads, unless a flow has its very time. -/
theorem timelineOf_head {first : DailyNav} {rest : List DailyNav}
    (hlater : ∀ d ∈ rest, first.dayStartMs < d.dayStartMs)
    (hflows : ∀ f ∈ flows, first.dayStartMs ≤ f.timeMs) :
    (∃ t amount tail, timelineOf (first :: rest) flows = .flow t amount :: tail ∧
        ∃ f ∈ flows, f.timeMs = first.dayStartMs) ∨
      ∃ tail, timelineOf (first :: rest) flows = .valuation first.dayStartMs first.nav :: tail ∧
        ∀ f ∈ flows, f.timeMs ≠ first.dayStartMs := by
  have hsorted : (timelineOf (first :: rest) flows).Pairwise before :=
    List.pairwise_insertionSort before _
  have hfirst : .valuation first.dayStartMs first.nav ∈ timelineOf (first :: rest) flows :=
    valuation_mem_timelineOf.2 List.mem_cons_self
  have hvaluation (t : ℕ) (nav : ℚ) : .valuation t nav ∈ timelineOf (first :: rest) flows ↔
      (⟨t, nav⟩ : DailyNav) ∈ first :: rest := valuation_mem_timelineOf
  have hflow (t : ℕ) (amount : ℚ) (hin : .flow t amount ∈ timelineOf (first :: rest) flows) :=
    flow_mem_timelineOf hin
  have hpriced (f : PricedFlow) (hf : f ∈ flows) :
      .flow f.timeMs f.netAmount ∈ timelineOf (first :: rest) flows := by
    rw [(timelineOf_perm _ _).mem_iff]
    exact List.mem_append_right _ (List.mem_map.2 ⟨f, hf, rfl⟩)
  rcases htimeline : timelineOf (first :: rest) flows with _ | ⟨head, tail⟩
  · rw [htimeline] at hfirst
    cases hfirst
  rw [htimeline] at hsorted hfirst hvaluation hflow hpriced
  rw [List.pairwise_cons] at hsorted
  cases head with
  | flow t amount =>
    have hin : .valuation first.dayStartMs first.nav ∈ tail := by simpa using hfirst
    have hle : t ≤ first.dayStartMs := hsorted.1 _ hin
    obtain ⟨f, hf, htime⟩ := hflow t amount List.mem_cons_self
    exact .inl ⟨t, amount, tail, rfl, f, hf, le_antisymm (htime ▸ hle) (hflows f hf)⟩
  | valuation t nav =>
    have hhead : (⟨t, nav⟩ : DailyNav) = first := by
      rcases List.mem_cons.1 ((hvaluation t nav).1 List.mem_cons_self) with heq | hrest
      · exact heq
      · have hlt := hlater _ hrest
        rcases List.mem_cons.1 hfirst with heq | hin
        · rw [TimelineEvent.valuation.injEq] at heq
          exact absurd hlt (by rw [heq.1]; exact lt_irrefl _)
        · have hle : t ≤ first.dayStartMs := hsorted.1 _ hin
          exact absurd hlt (not_lt.2 hle)
    subst hhead
    refine .inr ⟨tail, rfl, fun f hf heq => ?_⟩
    have hin : .flow f.timeMs f.netAmount ∈ tail := by simpa using hpriced f hf
    have hlt : t < f.timeMs := hsorted.1 _ hin
    exact absurd heq hlt.ne'

/-- Returns of zero, one for each checkpoint after the first: no flow comes at the first checkpoint, and
each value is the first one and what has flowed in since. -/
theorem computeTwr_timelineOf {first : DailyNav} {rest : List DailyNav} {twr : TwrResult}
    (hlater : ∀ d ∈ rest, first.dayStartMs < d.dayStartMs)
    (hflows : ∀ f ∈ flows, first.dayStartMs ≤ f.timeMs)
    (h : computeTwr (timelineOf (first :: rest) flows) = .ok twr) :
    (twr.subReturns.length = rest.length ∧ ∀ r ∈ twr.subReturns, r = 0) ↔
      (∀ f ∈ flows, f.timeMs ≠ first.dayStartMs) ∧
        ∀ d ∈ first :: rest, d.nav = first.nav + flowSum d.dayStartMs flows := by
  have hsorted : (timelineOf (first :: rest) flows).Pairwise before :=
    List.pairwise_insertionSort before _
  have hcount := countP_timelineOf (first :: rest) flows
  have hvaluation (t : ℕ) (nav : ℚ) : .valuation t nav ∈ timelineOf (first :: rest) flows ↔
      (⟨t, nav⟩ : DailyNav) ∈ first :: rest := valuation_mem_timelineOf
  have hsum (t : ℕ) := flowsUpTo_timelineOf (first :: rest) flows t
  rw [List.length_cons] at hcount
  rcases timelineOf_head hlater hflows with ⟨t, amount, tail, htimeline, f, hf, htime⟩ |
    ⟨tail, htimeline, hnone⟩
  · -- a flow at the first checkpoint: the valuation there closes a return of its own
    rw [htimeline] at h hcount
    have hlength := computeTwr_flow h
    rw [List.countP_cons_of_neg (by simp [TimelineEvent.isValuation])] at hcount
    constructor
    · rintro ⟨hlen, -⟩
      omega
    · rintro ⟨hnone, -⟩
      exact absurd htime (hnone f hf)
  · rw [htimeline] at h hsorted hcount hvaluation hsum
    rw [List.pairwise_cons] at hsorted
    obtain ⟨hlength, hzero⟩ := computeTwr_valuation h
    rw [List.countP_cons_of_pos rfl, Nat.add_right_cancel_iff] at hcount
    have hempty := flowSum_first hflows hnone
    rw [hlength, hcount, hzero, neutral_iff hsorted.2]
    constructor
    · rintro ⟨-, h⟩
      refine ⟨hnone, fun d hd => ?_⟩
      rcases List.mem_cons.1 ((hvaluation d.dayStartMs d.nav).2 hd) with heq | hin
      · rw [TimelineEvent.valuation.injEq] at heq
        rw [heq.1, heq.2, hempty, add_zero]
      · rw [h _ _ hin, ← hsum, flowsUpTo_cons, flowIn, zero_add]
    · rintro ⟨-, h⟩
      refine ⟨rfl, fun t' nav' hin => ?_⟩
      have hd := h ⟨t', nav'⟩ ((hvaluation t' nav').1 (List.mem_cons_of_mem _ hin))
      dsimp only at hd
      rw [hd, ← hsum, flowsUpTo_cons, flowIn, zero_add]

end Returns

section Checkpoints

theorem mem_dayStarts {nowMs turns t cut : ℕ} (h : cut ∈ dayStarts nowMs turns t) :
    t ≤ cut ∧ cut < nowMs := by
  induction turns generalizing t with
  | zero => cases h
  | succ turns ih =>
    unfold dayStarts at h
    split_ifs at h with hlt
    · rcases List.mem_cons.1 h with rfl | hrest
      · exact ⟨le_rfl, hlt⟩
      · have hlater := ih hrest
        exact ⟨by omega, hlater.2⟩
    · cases h

/-- The first checkpoint is the connection, and the others come after it. -/
theorem checkpoints_cons (sinceMs nowMs : ℕ) :
    ∃ rest, checkpoints sinceMs nowMs = sinceMs :: rest ∧ ∀ cut ∈ rest, sinceMs < cut ∧ cut ≤ nowMs := by
  have hday (cut : ℕ) (h : cut ∈ dayStarts nowMs nowMs ((sinceMs / DAY_MS + 1) * DAY_MS)) :
      sinceMs < cut ∧ cut ≤ nowMs := by
    obtain ⟨hle, hlt⟩ := mem_dayStarts h
    have hnext : sinceMs < (sinceMs / DAY_MS + 1) * DAY_MS :=
      Nat.lt_mul_of_div_lt (Nat.lt_succ_self _) (by decide)
    omega
  unfold checkpoints
  dsimp only
  split_ifs with hlast
  · refine ⟨_, rfl, fun cut hcut => ?_⟩
    rcases List.mem_append.1 hcut with h | h
    · exact hday cut h
    · rw [List.mem_singleton.1 h]
      exact ⟨hlast.2, le_rfl⟩
  · exact ⟨_, rfl, hday⟩

end Checkpoints

section Values

variable {lib : Decimals} {client : MarketData} {price : String → ℚ} {sinceMs nowMs : ℕ}

/-- From the connection until now each asset has one price. -/
def ConstantPrices (client : MarketData) (price : String → ℚ) (sinceMs nowMs : ℕ) : Prop :=
  ∀ asset timeMs r, sinceMs ≤ timeMs → timeMs ≤ nowMs →
    client.priceAtInstant asset timeMs = .ok r → r = price asset

def worth (client : MarketData) (price : String → ℚ) (asset : String) : ℚ :=
  if asset = client.quoteCurrency then 1 else price asset

theorem resolveHistoricalPrice_ok (hprices : ConstantPrices client price sinceMs nowMs)
    {asset : String} {timeMs : ℕ} {r : ℚ} (hsince : sinceMs ≤ timeMs) (hnow : timeMs ≤ nowMs)
    (h : resolveHistoricalPrice client asset timeMs = .ok r) : r = worth client price asset := by
  unfold resolveHistoricalPrice at h
  unfold worth
  split_ifs at h ⊢
  · exact (Except.ok.inj h).symm
  · rw [mapError_ok] at h
    exact hprices asset timeMs r hsince hnow h

/-- What moves come to at the prices. -/
def valueOf (worth : String → ℚ) (moves : List Move) : ℚ :=
  (moves.map fun m => m.2.delta * worth m.1).sum

theorem valueOf_append (worth : String → ℚ) (l l' : List Move) :
    valueOf worth (l ++ l') = valueOf worth l + valueOf worth l' := by
  simp [valueOf]

theorem priceLegs_ok (hprices : ConstantPrices client price sinceMs nowMs) {timeMs : ℕ}
    (hsince : sinceMs ≤ timeMs) (hnow : timeMs ≤ nowMs) {isFee : Bool} {legs : List AssetLeg}
    {priced : List (ℚ × List PnlEvent)} (h : legs.mapM (priceLeg lib client timeMs isFee) = .ok priced) :
    (priced.map Prod.fst).sum = valueOf (worth client price)
      (legs.map fun l => move timeMs l.asset (amountOf lib l.amount) l.isCredit) := by
  rw [mapM_ok] at h
  induction h with
  | nil => rfl
  | cons hfirst hrest ih =>
    rename_i leg v legs priced
    simp only [priceLeg, bind_ok, mapError_ok, pure_ok] at hfirst
    obtain ⟨amount, hamount, r, hr, rfl⟩ := hfirst
    rw [List.map_cons, List.sum_cons, ih, (parseDecimal_ok hamount).2.symm,
      resolveHistoricalPrice_ok hprices hsince hnow hr]
    unfold valueOf move
    rw [List.map_cons, List.map_cons, List.sum_cons]
    dsimp only
    split_ifs
    · rfl
    · rw [neg_mul]

theorem priceFlow_ok (hprices : ConstantPrices client price sinceMs nowMs) {f : NormalizedFlow}
    {priced : PricedFlow} (h : priceFlow lib client f = .ok priced) :
    priced.timeMs = f.economicTimeMs.toNat ∧
      (sinceMs ≤ f.economicTimeMs.toNat → f.economicTimeMs.toNat ≤ nowMs →
        priced.netAmount = valueOf (worth client price) (f.moves lib)) := by
  simp only [priceFlow, bind_ok, pure_ok] at h
  obtain ⟨legs, hlegs, fee, hfee, rfl⟩ := h
  refine ⟨rfl, fun hsince hnow => ?_⟩
  rw [List.map_append, List.sum_append, priceLegs_ok hprices hsince hnow hlegs,
    priceLegs_ok hprices hsince hnow hfee, ← valueOf_append, ← List.map_append]
  rfl

/-- The moves up to a time. -/
def upTo (timeMs : ℕ) (moves : List Move) : List Move :=
  moves.filter fun m => m.2.timeMs ≤ timeMs

theorem upTo_flow (cutMs : ℕ) (f : NormalizedFlow) :
    upTo cutMs (f.moves lib) = if f.economicTimeMs.toNat ≤ cutMs then f.moves lib else [] := by
  have htime : ∀ m ∈ f.moves lib, m.2.timeMs = f.economicTimeMs.toNat := by
    intro m hm
    obtain ⟨l, -, rfl⟩ := List.mem_map.1 hm
    rfl
  unfold upTo
  split_ifs with h
  · refine List.filter_eq_self.2 fun m hm => decide_eq_true ?_
    rw [htime m hm]
    exact h
  · refine List.filter_eq_nil_iff.2 fun m hm hle => h ?_
    rw [← htime m hm]
    exact of_decide_eq_true hle

/-- What has flowed in by a cut is what the moves by then come to. -/
theorem flowSum_eq (hprices : ConstantPrices client price sinceMs nowMs) {cutMs : ℕ}
    (hcut : cutMs ≤ nowMs) {flows : List NormalizedFlow} {priced : List PricedFlow}
    (hsince : ∀ f ∈ flows, sinceMs ≤ f.economicTimeMs.toNat)
    (h : flows.mapM (priceFlow lib client) = .ok priced) :
    flowSum cutMs priced =
      valueOf (worth client price) (upTo cutMs (flows.flatMap (NormalizedFlow.moves lib))) := by
  rw [mapM_ok] at h
  induction h with
  | nil => rfl
  | cons hfirst hrest ih =>
    rename_i f v flows priced
    obtain ⟨htime, hamount⟩ := priceFlow_ok hprices hfirst
    have hrest := ih fun f hf => hsince f (List.mem_cons_of_mem _ hf)
    have hmoves : upTo cutMs ((f :: flows).flatMap (NormalizedFlow.moves lib)) =
        upTo cutMs (f.moves lib) ++ upTo cutMs (flows.flatMap (NormalizedFlow.moves lib)) := by
      unfold upTo
      rw [List.flatMap_cons, List.filter_append]
    rw [hmoves, valueOf_append, ← hrest, upTo_flow, ← htime]
    unfold flowSum
    by_cases hle : v.timeMs ≤ cutMs
    · rw [if_pos hle, List.filter_cons_of_pos (by simpa using hle), List.map_cons, List.sum_cons,
        hamount (hsince f List.mem_cons_self) (by omega)]
    · rw [if_neg hle, List.filter_cons_of_neg (by simpa using hle)]
      simp [valueOf]

/-- A holding of nothing is worth nothing. -/
theorem sum_nonzero (quantities : List (String × ℚ)) (w : String → ℚ) :
    ((quantities.filter fun q => q.2 ≠ 0).map fun q => q.2 * w q.1).sum = (quantities.map fun q => q.2 * w q.1).sum := by
  induction quantities with
  | nil => rfl
  | cons q quantities ih =>
    rw [List.map_cons, List.sum_cons, ← ih]
    by_cases hq : q.2 = 0
    · rw [List.filter_cons_of_neg (by simpa using hq), hq, zero_mul, zero_add]
    · rw [List.filter_cons_of_pos (by simpa using hq), List.map_cons, List.sum_cons]

/-- A value is what is held at the prices. -/
theorem navOf_eq (hprices : ConstantPrices client price sinceMs nowMs) {cutMs : ℕ}
    (hsince : sinceMs ≤ cutMs) (hcut : cutMs ≤ nowMs) {quantities : List (String × ℚ)}
    {holdings : List Holding} (h : priceHoldings client cutMs quantities = .ok holdings) :
    navOf holdings = (quantities.map fun q => q.2 * worth client price q.1).sum := by
  unfold priceHoldings at h
  rw [mapM_ok] at h
  rw [← sum_nonzero]
  generalize quantities.filter (fun q => q.2 ≠ 0) = held at h
  unfold navOf
  induction h with
  | nil => rfl
  | cons hfirst hrest ih =>
    simp only [bind_ok, mapError_ok, pure_ok] at hfirst
    obtain ⟨r, hr, rfl⟩ := hfirst
    rw [List.map_cons, List.map_cons, List.sum_cons, List.sum_cons, ih,
      resolveHistoricalPrice_ok hprices hsince hcut hr]

/-- The moves of assets without repetition, asset by asset or all at once. -/
theorem sum_addedUp {assets : List String} (hnodup : assets.Nodup) (w : String → ℚ) (moves : List Move)
    (cutMs : ℕ) :
    (assets.map fun asset => addedUp (ofAsset asset moves) cutMs * w asset).sum =
      valueOf w ((upTo cutMs moves).filter fun m => m.1 ∈ assets) := by
  induction moves with
  | nil => simp [ofAsset, addedUp, upTo, valueOf]
  | cons m moves ih =>
    have hsplit (asset : String) : addedUp (ofAsset asset (m :: moves)) cutMs * w asset =
        (if m.1 = asset ∧ m.2.timeMs ≤ cutMs then m.2.delta * w asset else 0) +
          addedUp (ofAsset asset moves) cutMs * w asset := by
      unfold ofAsset
      by_cases hasset : m.1 = asset
      · rw [List.filter_cons_of_pos (by simpa using hasset), List.map_cons, addedUp_cons, add_mul]
        by_cases hle : m.2.timeMs ≤ cutMs
        · rw [if_pos hle, if_pos ⟨hasset, hle⟩]
        · rw [if_neg hle, if_neg fun h => hle h.2, zero_mul]
      · rw [List.filter_cons_of_neg (by simpa using hasset), if_neg fun h => hasset h.1, zero_add]
    have hone : (assets.map fun asset =>
        if m.1 = asset ∧ m.2.timeMs ≤ cutMs then m.2.delta * w asset else 0).sum =
        if m.1 ∈ assets ∧ m.2.timeMs ≤ cutMs then m.2.delta * w m.1 else 0 := by
      clear ih hsplit
      induction assets with
      | nil => simp
      | cons asset assets ih =>
        rw [List.nodup_cons] at hnodup
        rw [List.map_cons, List.sum_cons, ih hnodup.2]
        by_cases hasset : m.1 = asset
        · subst hasset
          have hout : ¬ (m.1 ∈ assets ∧ m.2.timeMs ≤ cutMs) := fun h => hnodup.1 h.1
          rw [if_neg hout, add_zero]
          simp
        · simp [hasset]
    simp only [hsplit, List.sum_map_add, hone, ih]
    unfold upTo valueOf
    by_cases hle : m.2.timeMs ≤ cutMs
    · rw [List.filter_cons_of_pos (by simpa using hle)]
      by_cases hasset : m.1 ∈ assets
      · rw [List.filter_cons_of_pos (by simpa using hasset), if_pos ⟨hasset, hle⟩, List.map_cons,
          List.sum_cons]
      · rw [List.filter_cons_of_neg (by simpa using hasset), if_neg fun h => hasset h.1, zero_add]
    · rw [List.filter_cons_of_neg (by simpa using hle), if_neg fun h => hle h.2, zero_add]

end Values

section Neutrality

variable {lib : Decimals} {client : MarketData} {catalog : SymbolAssets} {price : String → ℚ}
  {sinceMs nowMs : ℕ} {p : Prepared} {moves : List Move}

/-- A checkpoint's value: the quantities there at the prices of its time. -/
structure ValuedAt (client : MarketData) (p : Prepared) (nowMs cutMs : ℕ) (d : DailyNav) : Prop where
  day : d.dayStartMs = cutMs
  nav : ∃ quantities holdings, quantitiesAt cutMs nowMs p.currentBalances p.deltas = .ok quantities ∧
    priceHoldings client cutMs quantities = .ok holdings ∧ d.nav = navOf holdings

/-- From the connection to a cut the value moves by what the moves of the followed assets come to. -/
theorem nav_cut (hprices : ConstantPrices client price sinceMs nowMs)
    (hp : p.Of lib client catalog moves) (hlater : ∀ m ∈ moves, sinceMs < m.2.timeMs) {cutMs : ℕ}
    (hsince : sinceMs ≤ cutMs) (hcut : cutMs ≤ nowMs) {first d : DailyNav}
    (hfirst : ValuedAt client p nowMs sinceMs first) (hd : ValuedAt client p nowMs cutMs d) :
    d.nav = first.nav + valueOf (worth client price)
      ((upTo cutMs moves).filter fun m => m.1 ∈ p.currentBalances) := by
  obtain ⟨quantities₀, holdings₀, hquantities₀, hholdings₀, hnav₀⟩ := hfirst.nav
  obtain ⟨quantities, holdings, hquantities, hholdings, hnav⟩ := hd.nav
  have hopening (asset : String) : addedUp (p.deltas.getD asset []) sinceMs = 0 := by
    rw [addedUp_perm (hp.deltas asset)]
    unfold addedUp ofAsset
    rw [List.filter_eq_nil_iff.2 fun e he hle => ?_]
    · rfl
    · obtain ⟨m, hm, rfl⟩ := List.mem_map.1 he
      have hlt := hlater m (List.mem_of_mem_filter hm)
      exact absurd (of_decide_eq_true hle) (not_le.2 hlt)
  have hdelta (asset : String) : addedUp (p.deltas.getD asset []) cutMs =
      addedUp (ofAsset asset moves) cutMs := addedUp_perm (hp.deltas asset) cutMs
  have hkeys := sum_addedUp p.currentBalances.nodup_keys (worth client price) moves cutMs
  simp only [Std.TreeMap.mem_keys] at hkeys
  rw [hnav, hnav₀, navOf_eq hprices hsince hcut hholdings,
    navOf_eq hprices le_rfl (hsince.trans hcut) hholdings₀, quantitiesAt_ok hquantities,
    quantitiesAt_ok hquantities₀, ← hkeys, ← Std.TreeMap.map_fst_toList_eq_keys, List.map_map,
    List.map_map, List.map_map, ← List.sum_map_add]
  congr 1
  refine List.map_congr_left fun b _ => ?_
  simp only [Function.comp_apply, hopening, hdelta]
  ring

theorem valueOf_filter (w : String → ℚ) (l : List Move) (q : Move → Prop) [DecidablePred q] :
    valueOf w l = valueOf w (l.filter fun m => q m) + valueOf w (l.filter fun m => ¬ q m) := by
  induction l with
  | nil => simp [valueOf]
  | cons m l ih =>
    have hcons (l : List Move) : valueOf w (m :: l) = m.2.delta * w m.1 + valueOf w l := by
      simp [valueOf]
    by_cases hm : q m
    · rw [List.filter_cons_of_pos (by simpa using hm), List.filter_cons_of_neg (by simpa using hm),
        hcons, hcons, ih, add_assoc]
    · rw [List.filter_cons_of_neg (by simpa using hm), List.filter_cons_of_pos (by simpa using hm),
        hcons, hcons, ih]
      ring

/-- Each checkpoint with its value. -/
theorem valueCheckpoints_ok {v : Valued}
    (h : valueCheckpoints lib client p sinceMs nowMs = .ok v) :
    (p.flows.filter NormalizedFlow.isExternal).mapM (priceFlow lib client) = .ok v.flows ∧
      List.Forall₂ (ValuedAt client p nowMs) (checkpoints sinceMs nowMs)
        (dailyNavOf (checkpoints sinceMs nowMs) v.holdings) := by
  simp only [valueCheckpoints, bind_ok, pure_ok] at h
  obtain ⟨flows, hflows, quantities, hquantities, holdings, hholdings, rfl⟩ := h
  refine ⟨hflows, ?_⟩
  rw [mapM_ok] at hquantities hholdings
  dsimp only
  generalize checkpoints sinceMs nowMs = cuts at hquantities hholdings ⊢
  induction hquantities generalizing holdings with
  | nil => exact .nil
  | cons hfirst hrest ih =>
    rw [List.zip_cons_cons, List.forall₂_cons_left_iff] at hholdings
    obtain ⟨held, holdings, hheld, hholdings, rfl⟩ := hholdings
    exact .cons ⟨rfl, _, held, hfirst, hheld, rfl⟩ (ih holdings hholdings)

theorem prepare_flows {allTrades : List Trade} {allFlows : List NormalizedFlow}
    (h : prepare lib client allTrades allFlows sinceMs = .ok p) :
    p.flows = allFlows.filter fun f => sinceMs ≤ f.economicTimeMs.toNat := by
  simp only [prepare, bind_ok, pure_ok, mapError_ok] at h
  obtain ⟨-, -, -, -, -, -, -, -, -, -, -, -, rfl⟩ := h
  rfl

/-- The moves of assets that are touched and not followed: not reported, or out of scope. -/
def unfollowed (client : MarketData) (catalog : SymbolAssets) (moves : List Move) : List Move :=
  moves.filter fun m => ¬ (Reported client m.1 ∧ InScope client catalog m.1)

/-- At a cut the value has moved by all that flowed, if what is not followed comes to nothing. -/
theorem nav_cut_iff (hprices : ConstantPrices client price sinceMs nowMs)
    (hp : p.Of lib client catalog moves) (hlater : ∀ m ∈ moves, sinceMs < m.2.timeMs) {cutMs : ℕ}
    (hsince : sinceMs ≤ cutMs) (hcut : cutMs ≤ nowMs) {first d : DailyNav}
    (hfirst : ValuedAt client p nowMs sinceMs first) (hd : ValuedAt client p nowMs cutMs d) :
    d.nav = first.nav + valueOf (worth client price) (upTo cutMs moves) ↔
      valueOf (worth client price) (unfollowed client catalog (upTo cutMs moves)) = 0 := by
  have hfollowed : (upTo cutMs moves).filter (fun m => ¬ m.1 ∈ p.currentBalances) =
      unfollowed client catalog (upTo cutMs moves) := by
    refine List.filter_congr fun m hm => ?_
    have htouched := List.mem_map_of_mem (f := Prod.fst) (List.mem_of_mem_filter hm)
    rw [decide_eq_decide, hp.followed m.1 htouched]
  rw [nav_cut hprices hp hlater hsince hcut hfirst hd,
    valueOf_filter _ (upTo cutMs moves) fun m => m.1 ∈ p.currentBalances, hfollowed,
    add_right_inj, left_eq_add]

/-- Checkpoint by checkpoint: all values are the first one and what flowed, if by no checkpoint the moves
that are not followed come to something. -/
theorem navs_iff (hprices : ConstantPrices client price sinceMs nowMs)
    (hp : p.Of lib client catalog moves) (hlater : ∀ m ∈ moves, sinceMs < m.2.timeMs)
    {cuts : List ℕ} {first : DailyNav} {navs : List DailyNav}
    (hcuts : ∀ cut ∈ cuts, sinceMs ≤ cut ∧ cut ≤ nowMs)
    (hfirst : ValuedAt client p nowMs sinceMs first)
    (hnavs : List.Forall₂ (ValuedAt client p nowMs) cuts navs) :
    (∀ d ∈ navs, d.nav = first.nav + valueOf (worth client price) (upTo d.dayStartMs moves)) ↔
      ∀ cut ∈ cuts,
        valueOf (worth client price) (unfollowed client catalog (upTo cut moves)) = 0 := by
  induction hnavs with
  | nil => simp
  | cons hd hrest ih =>
    obtain ⟨hbounds, hcuts⟩ := List.forall_mem_cons.1 hcuts
    rw [List.forall_mem_cons, List.forall_mem_cons, ih hcuts, hd.day,
      nav_cut_iff hprices hp hlater hbounds.1 hbounds.2 hfirst hd]

/-- Without trades since the connection the moves are those of the deposits and withdrawals. -/
theorem movesSince_of_no_trades {allTrades : List Trade} {allFlows : List NormalizedFlow}
    (hnotrades : (allTrades.filter fun t => sinceMs ≤ t.timeMs.toNat) = []) :
    movesSince lib catalog allTrades allFlows sinceMs =
      (allFlows.filter fun f => sinceMs ≤ f.economicTimeMs.toNat).flatMap
        (NormalizedFlow.moves lib) := by
  unfold movesSince movesOf
  rw [hnotrades]
  rfl

/-- Priced, the flows since the connection keep their times. -/
theorem priced_times (hprices : ConstantPrices client price sinceMs nowMs)
    {allFlows : List NormalizedFlow} {priced : List PricedFlow}
    (h : (allFlows.filter fun f => sinceMs ≤ f.economicTimeMs.toNat).mapM (priceFlow lib client) =
      .ok priced) :
    (∀ f ∈ priced, sinceMs ≤ f.timeMs) ∧
      ((∀ f ∈ priced, f.timeMs ≠ sinceMs) ↔ ∀ f ∈ allFlows, f.economicTimeMs.toNat ≠ sinceMs) := by
  obtain ⟨hto, hfrom⟩ := exists_of_forall₂ (mapM_ok.1 h)
  refine ⟨fun f hf => ?_, ?_, ?_⟩
  · obtain ⟨flow, hflow, hprice⟩ := hfrom f hf
    rw [(priceFlow_ok hprices hprice).1]
    exact of_decide_eq_true (List.mem_filter.1 hflow).2
  · intro hall f hf heq
    obtain ⟨v, hin, hprice⟩ := hto f (List.mem_filter.2 ⟨hf, decide_eq_true heq.ge⟩)
    exact hall v hin ((priceFlow_ok hprices hprice).1.trans heq)
  · intro hall f hf heq
    obtain ⟨flow, hflow, hprice⟩ := hfrom f hf
    exact hall flow (List.mem_of_mem_filter hflow) ((priceFlow_ok hprices hprice).1.symm.trans heq)

end Neutrality

section Example

/-- Two of an asset that is worth ten come in. -/
def nicheDeposit (timeMs : UInt64) : NormalizedFlow where
  sourceNamespace := .deposit
  sourceId := "1"
  economicTimeMs := timeMs
  legs := [⟨"NICHE", "2", true⟩]
  fee := none

/-- The account had ten of the quote currency before. -/
def depositMarket : MarketData := nicheMarket [⟨"USDT", "10", "0"⟩, ⟨"NICHE", "2", "0"⟩]

def depositHistory (timeMs : UInt64) : Except HistoryError HistoryResult :=
  computeHistory exampleDecimals depositMarket [] [nicheDeposit timeMs] 1000 5000

theorem depositMarket_constant : ConstantPrices depositMarket (fun _ => 10) 1000 5000 := by
  intro asset timeMs r _ _ h
  exact (Except.ok.inj h).symm

theorem depositHistory_ok :
    (depositHistory 2000).toOption.isSome = true ∧
      (depositHistory 1000).toOption.map (fun r => (r.dailyNav.map DailyNav.nav, r.dailyReturns)) =
        some ([30, 30], [1 / 2, 0]) := by
  decide +kernel

end Example

end Linvesther.Worker
