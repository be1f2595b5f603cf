import Linvesther.Base.Spans
import Linvesther.Domain.WinRate

/-! The queue of open lots against what it stands for: the buys laid end to end, and the sales laid end to end
on the same line. -/

namespace Linvesther.Domain

open Spans

section Loop

/-- What the `while` of a sale keeps. -/
structure Sale where
  remaining : ℚ
  openLots : List (ℚ × ℚ)
  wins : ℕ
  closed : ℕ
deriving DecidableEq

/-- One round of the `while`; none where it ends. -/
def saleRound (price : ℚ) (s : Sale) : Option Sale :=
  if s.remaining > 0 then
    match s.openLots with
    | [] => none
    | (lotQty, lotPrice) :: lots =>
      let matched := min s.remaining lotQty
      let pnl := (price - lotPrice) * matched
      let remainingLot := lotQty - matched
      some ⟨s.remaining - matched, if remainingLot = 0 then lots else (remainingLot, lotPrice) :: lots,
        s.wins + if pnl > 0 then 1 else 0, s.closed + 1⟩
  else none

/-- The `while`, for at most so many rounds; none where these are not enough. -/
def saleLoop (price : ℚ) : ℕ → Sale → Option Sale
  | 0, _ => none
  | fuel + 1, s =>
    match saleRound price s with
    | none => some s
    | some s' => saleLoop price fuel s'

/-- Each round uses a lot up or ends the sale, whatever the quantities are. -/
theorem saleLoop_eq (price : ℚ) (lots : List (ℚ × ℚ)) (remaining : ℚ) (wins closed : ℕ) :
    ∃ left, saleLoop price (lots.length + 2) ⟨remaining, lots, wins, closed⟩ =
      some ⟨left, (matchLots price remaining lots).openLots, wins + (matchLots price remaining lots).wins,
        closed + (matchLots price remaining lots).closed⟩ := by
  induction lots generalizing remaining wins closed with
  | nil =>
    refine ⟨remaining, ?_⟩
    unfold saleLoop saleRound matchLots
    split_ifs <;> rfl
  | cons lot lots ih =>
    obtain ⟨lotQty, lotPrice⟩ := lot
    unfold saleLoop saleRound matchLots
    by_cases hover : remaining ≤ 0
    · simp only [if_pos hover, if_neg (not_lt.2 hover)]
      exact ⟨remaining, rfl⟩
    · simp only [if_neg hover, if_pos (not_le.1 hover)]
      by_cases hused : lotQty - min remaining lotQty = 0
      · simp only [if_pos hused]
        obtain ⟨left, hloop⟩ := ih (remaining - min remaining lotQty)
          (wins + if (price - lotPrice) * min remaining lotQty > 0 then 1 else 0) (closed + 1)
        refine ⟨left, hloop.trans ?_⟩
        simp only [Option.some.injEq, Sale.mk.injEq, true_and]
        omega
      · have hmin : min remaining lotQty = remaining := by
          refine min_eq_left (le_of_lt ?_)
          by_contra hle
          rw [min_eq_right (not_lt.1 hle), sub_self] at hused
          exact hused rfl
        simp only [if_neg hused]
        -- the sale has nothing left, so the next round is the last
        refine ⟨0, ?_⟩
        rw [hmin, sub_self]
        rfl

end Loop

section Matches

/-- A quantity bought at one price and sold at another. -/
structure Match where
  buyPrice : ℚ
  salePrice : ℚ
  qty : ℚ
deriving DecidableEq

def Match.isWin (m : Match) : Bool := (m.salePrice - m.buyPrice) * m.qty > 0

/-- What the rounds of one sale match. -/
def saleMatches (price : ℚ) : ℚ → List (ℚ × ℚ) → List Match
  | _, [] => []
  | remaining, (lotQty, lotPrice) :: lots =>
    if remaining ≤ 0 then []
    else
      let matched := min remaining lotQty
      ⟨lotPrice, price, matched⟩ ::
        if lotQty - matched = 0 then saleMatches price (remaining - matched) lots else []

/-- What the whole loop matches, from the open lots on. -/
def fillMatches : List (ℚ × ℚ) → List Fill → List Match
  | _, [] => []
  | lots, fill :: fills =>
    if fill.isBuy then fillMatches (lots ++ [(fill.qty, fill.price)]) fills
    else
      saleMatches fill.price fill.qty lots ++ fillMatches (matchLots fill.price fill.qty lots).openLots fills

theorem fillMatches_cons (lots : List (ℚ × ℚ)) (fill : Fill) (fills : List Fill) :
    fillMatches lots (fill :: fills) =
      if fill.isBuy then fillMatches (lots ++ [(fill.qty, fill.price)]) fills
      else saleMatches fill.price fill.qty lots ++
        fillMatches (matchLots fill.price fill.qty lots).openLots fills :=
  rfl

/-- What is reported for a list of matches. -/
def reportOf (found : List Match) : Option WinRateResult :=
  if found.length = 0 then none
  else some ⟨found.length, found.countP Match.isWin, (found.countP Match.isWin : ℕ) / (found.length : ℕ)⟩

theorem matchLots_counts (price remaining : ℚ) (lots : List (ℚ × ℚ)) :
    (matchLots price remaining lots).closed = (saleMatches price remaining lots).length ∧
      (matchLots price remaining lots).wins = (saleMatches price remaining lots).countP Match.isWin := by
  induction lots generalizing remaining with
  | nil => exact ⟨rfl, rfl⟩
  | cons lot lots ih =>
    obtain ⟨lotQty, lotPrice⟩ := lot
    unfold matchLots saleMatches
    dsimp only
    split_ifs with hover hused hwin hwin
    · exact ⟨rfl, rfl⟩
    · obtain ⟨hclosed, hwins⟩ := ih (remaining - min remaining lotQty)
      rw [List.length_cons, List.countP_cons_of_pos (by simpa [Match.isWin] using hwin), hclosed, hwins]
      exact ⟨rfl, rfl⟩
    · obtain ⟨hclosed, hwins⟩ := ih (remaining - min remaining lotQty)
      rw [List.length_cons, List.countP_cons_of_neg (by simpa [Match.isWin] using hwin), hclosed, hwins]
      exact ⟨rfl, rfl⟩
    · rw [List.countP_cons_of_pos (by simpa [Match.isWin] using hwin)]
      exact ⟨rfl, rfl⟩
    · rw [List.countP_cons_of_neg (by simpa [Match.isWin] using hwin)]
      exact ⟨rfl, rfl⟩

theorem foldl_winRateStep_counts (fills : List Fill) (s : WinRateState) :
    (fills.foldl winRateStep s).closed = s.closed + (fillMatches s.openLots fills).length ∧
      (fills.foldl winRateStep s).wins = s.wins + (fillMatches s.openLots fills).countP Match.isWin := by
  induction fills generalizing s with
  | nil => exact ⟨rfl, rfl⟩
  | cons fill fills ih =>
    rw [List.foldl_cons]
    obtain ⟨hclosed, hwins⟩ := ih (winRateStep s fill)
    rw [hclosed, hwins, fillMatches_cons]
    unfold winRateStep
    split_ifs
    · exact ⟨rfl, rfl⟩
    · obtain ⟨hsale, hsaleWins⟩ := matchLots_counts fill.price fill.qty s.openLots
      dsimp only
      rw [hsale, hsaleWins, List.length_append, List.countP_append]
      omega

/-- What is reported of fills in time order is counted from the matches. -/
theorem computeWinRate_eq_report {fills : List Fill} (hsorted : fills.Pairwise fun a b => a.timeMs ≤ b.timeMs) :
    computeWinRate fills = reportOf (fillMatches [] fills) := by
  have hsort : fills.insertionSort (fun a b => a.timeMs ≤ b.timeMs) = fills := hsorted.insertionSort_eq
  obtain ⟨hclosed, hwins⟩ := foldl_winRateStep_counts fills ⟨[], 0, 0⟩
  rw [Nat.zero_add] at hclosed hwins
  unfold computeWinRate reportOf
  rw [hsort]
  dsimp only
  rw [hclosed, hwins]

end Matches

section Line

/-- A fill on the line, from `start` on. One of no quantity, or less, takes nothing of it. -/
structure LaidFill where
  start : ℚ
  qty : ℚ
  price : ℚ

def LaidFill.span (f : LaidFill) : Span ℚ := ⟨f.start, f.start + max f.qty 0⟩

/-- The buys, end to end. -/
def boughtLine (bought : ℚ) : List Fill → List LaidFill
  | [] => []
  | fill :: fills =>
    if fill.isBuy then ⟨bought, fill.qty, fill.price⟩ :: boughtLine (bought + max fill.qty 0) fills
    else boughtLine bought fills

/-- The sales, end to end, each as far as what was bought before it goes. -/
def soldLine (bought sold : ℚ) : List Fill → List LaidFill
  | [] => []
  | fill :: fills =>
    if fill.isBuy then soldLine (bought + max fill.qty 0) sold fills
    else
      let upTo := max sold (min (sold + fill.qty) bought)
      ⟨sold, upTo - sold, fill.price⟩ :: soldLine bought upTo fills

/-- The piece of a buy that a sale from `start` to `stop` lies over. -/
def piece (price start stop : ℚ) (b : LaidFill) : Option Match :=
  let qty := min b.span.stop stop - max b.start start
  if 0 < qty then some ⟨b.price, price, qty⟩ else none

/-- All pieces, sale by sale. -/
def pieces (buys sales : List LaidFill) : List Match :=
  sales.flatMap fun s => buys.filterMap (piece s.price s.span.start s.span.stop)

/-- What the queue holds when the line is sold up to `sold`, as long as no buy of no quantity was reached. -/
def openAt (sold : ℚ) (buys : List LaidFill) : List (ℚ × ℚ) :=
  buys.filterMap fun b =>
    if b.qty ≤ 0 then some (b.qty, b.price)
    else if sold < b.span.stop then some (b.span.stop - max b.start sold, b.price) else none

/-- No sale wants more than what lies before a buy of no quantity, or less, that was made before it. -/
def Unreached (buys : List LaidFill) (bought sold : ℚ) : List Fill → Prop
  | [] => True
  | fill :: fills =>
    if fill.isBuy then
      Unreached (buys ++ [⟨bought, fill.qty, fill.price⟩]) (bought + max fill.qty 0) sold fills
    else
      (0 < fill.qty → ∀ b ∈ buys, b.qty ≤ 0 → sold + fill.qty ≤ b.start) ∧
        Unreached buys bought (max sold (min (sold + fill.qty) bought)) fills

def LaidFrom (c : ℚ) (buys : List LaidFill) : Prop := Laid c (buys.map LaidFill.span)

variable {price c s e : ℚ} {b : LaidFill} {buys : List LaidFill}

theorem span_stop_of_pos (h : 0 < b.qty) : b.span.stop = b.start + b.qty := by
  rw [LaidFill.span, max_eq_left h.le]

/-- A buy of some quantity is open for what lies beyond the position. -/
theorem openAt_cons (h : 0 < b.qty) (x : ℚ) : openAt x (b :: buys) =
    if x < b.span.stop then (b.span.stop - max b.start x, b.price) :: openAt x buys else openAt x buys := by
  unfold openAt
  rw [List.filterMap_cons, if_neg (not_le.2 h)]
  split_ifs <;> rfl

theorem LaidFrom.start_le (h : LaidFrom c buys) : ∀ b ∈ buys, c ≤ b.start := fun b hb =>
  (Laid.start_le h b.span (List.mem_map_of_mem hb)).1

/-- Positions before the row all leave it whole. -/
theorem openAt_before (h : LaidFrom c buys) (hs : s ≤ c) (he : e ≤ c) : openAt s buys = openAt e buys := by
  refine List.filterMap_congr fun b hb => ?_
  have hstart := h.start_le b hb
  split_ifs with hqty hlt hlt' hlt'
  · rfl
  · rw [max_eq_left (hs.trans hstart), max_eq_left (he.trans hstart)]
  · have := span_stop_of_pos (not_le.1 hqty)
    linarith [not_le.1 hqty]
  · have := span_stop_of_pos (not_le.1 hqty)
    linarith [not_le.1 hqty]
  · rfl

theorem piece_before (h : LaidFrom c buys) (hs : s ≤ c) : buys.filterMap (piece price s e) =
    buys.filterMap (piece price c e) := by
  refine List.filterMap_congr fun b hb => ?_
  have hstart := h.start_le b hb
  rw [piece, piece, max_eq_left (hs.trans hstart), max_eq_left hstart]

/-- A sale that ends before the row takes nothing of it. -/
theorem piece_none (h : LaidFrom c buys) (he : e ≤ c) : buys.filterMap (piece price s e) = [] := by
  refine List.filterMap_eq_nil_iff.2 fun b hb => ?_
  have hstart := h.start_le b hb
  have hmin := min_le_right b.span.stop e
  have hmax := le_max_left b.start s
  rw [piece]
  exact if_neg (by linarith)

/-- The `while` of a sale takes the pieces that lie under it, one by one, and leaves what is open beyond it. -/
theorem saleMatches_openAt (price : ℚ) (hlaid : LaidFrom c buys) (hc : c ≤ s) (hlt : s < e)
    (hempty : ∀ b ∈ buys, b.qty ≤ 0 → e ≤ b.start) :
    saleMatches price (e - s) (openAt s buys) = buys.filterMap (piece price s e) ∧
      (matchLots price (e - s) (openAt s buys)).openLots = openAt e buys := by
  induction buys generalizing c s with
  | nil => exact ⟨rfl, rfl⟩
  | cons b buys ih =>
    obtain ⟨hstart, hspan, hrest⟩ := hlaid
    have hstart' : b.start = c := hstart
    rw [List.forall_mem_cons] at hempty
    have hqty : 0 < b.qty := by
      by_contra hnot
      have := hempty.1 (not_lt.1 hnot)
      linarith
    have hstop := span_stop_of_pos hqty
    have hopen : ∀ x, openAt x (b :: buys) =
        if x < b.span.stop then (b.span.stop - max b.start x, b.price) :: openAt x buys else openAt x buys :=
      openAt_cons hqty
    rcases le_or_gt b.span.stop s with hused | hopened
    · -- the buy was used up before
      have hpiece : piece price s e b = none := by
        rw [piece]
        refine if_neg ?_
        linarith [min_le_left b.span.stop e, le_max_right b.start s]
      rw [hopen, if_neg (not_lt.2 hused), hopen, if_neg (by linarith), List.filterMap_cons, hpiece]
      exact ih hrest hused hlt hempty.2
    · have hmax : max b.start s = s := max_eq_right (by linarith)
      have hnot : ¬ e - s ≤ 0 := by linarith
      rw [hopen, if_pos hopened, hmax]
      unfold saleMatches matchLots
      simp only [if_neg hnot]
      rcases lt_or_ge e b.span.stop with hwithin | hbeyond
      · -- the sale ends within the buy
        have hmin : min (e - s) (b.span.stop - s) = e - s := min_eq_left (by linarith)
        have hleft : b.span.stop - s - (e - s) = b.span.stop - e := by ring
        have hpiece : piece price s e b = some ⟨b.price, price, e - s⟩ := by
          rw [piece, hmax, min_eq_right hwithin.le]
          exact if_pos (by linarith)
        have hne : ¬ b.span.stop - e = 0 := by linarith
        rw [hmin, hleft, if_neg hne, if_neg hne, List.filterMap_cons, hpiece, piece_none hrest hwithin.le, hopen,
          if_pos hwithin, max_eq_right (by linarith), openAt_before hrest hopened.le hwithin.le]
        exact ⟨rfl, rfl⟩
      · -- the buy is used up
        have hmin : min (e - s) (b.span.stop - s) = b.span.stop - s := min_eq_right (by linarith)
        have hleft : e - s - (b.span.stop - s) = e - b.span.stop := by ring
        have hpiece : piece price s e b = some ⟨b.price, price, b.span.stop - s⟩ := by
          rw [piece, hmax, min_eq_left hbeyond]
          exact if_pos (by linarith)
        have hzero : b.span.stop - s - (b.span.stop - s) = 0 := sub_self _
        rw [hmin, hleft, if_pos hzero, if_pos hzero, List.filterMap_cons, hpiece, hopen, if_neg (not_lt.2 hbeyond),
          piece_before hrest hopened.le, openAt_before hrest hopened.le (le_refl _)]
        rcases lt_or_eq_of_le hbeyond with hmore | hexact
        · obtain ⟨hmatches, hleftOpen⟩ := ih hrest (le_refl _) hmore hempty.2
          exact ⟨congrArg _ hmatches, hleftOpen⟩
        · have hover : e - b.span.stop = 0 := by linarith
          rw [hover, piece_none hrest hexact.ge, ← hexact]
          unfold saleMatches matchLots
          rcases openAt b.span.stop buys with - | ⟨lot, lots⟩
          · exact ⟨rfl, rfl⟩
          · simp

/-- A sale that wants more than lies before a buy of no quantity, or less, matches that one too. -/
theorem saleMatches_reaches (price : ℚ) (hlaid : LaidFrom c buys) (hc : c ≤ s) (hlt : s < e)
    (hreached : ∃ b ∈ buys, b.qty ≤ 0 ∧ b.start < e) : ∃ m ∈ saleMatches price (e - s) (openAt s buys), m.qty ≤ 0 := by
  induction buys generalizing c s with
  | nil =>
    obtain ⟨b, hb, -⟩ := hreached
    exact absurd hb List.not_mem_nil
  | cons b buys ih =>
    obtain ⟨hstart, hspan, hrest⟩ := hlaid
    have hstart' : b.start = c := hstart
    have hnot : ¬ e - s ≤ 0 := by linarith
    rcases le_or_gt b.qty 0 with hqty | hqty
    · have hopen : openAt s (b :: buys) = (b.qty, b.price) :: openAt s buys := by
        unfold openAt
        rw [List.filterMap_cons, if_pos hqty]
      rw [hopen, saleMatches]
      simp only [if_neg hnot]
      exact ⟨_, List.mem_cons_self, (min_le_right _ _).trans hqty⟩
    · have hstop := span_stop_of_pos hqty
      obtain ⟨b', hb', hqty', hlt'⟩ := hreached
      have hin : b' ∈ buys := by
        rcases List.mem_cons.1 hb' with rfl | hin
        · linarith
        · exact hin
      have hlater := LaidFrom.start_le hrest b' hin
      rw [openAt_cons hqty]
      split_ifs with hopened
      · have hmax : max b.start s = s := max_eq_right (by linarith)
        have hmin : min (e - s) (b.span.stop - s) = b.span.stop - s := min_eq_right (by linarith)
        have hleft : e - s - (b.span.stop - s) = e - b.span.stop := by ring
        have hzero : b.span.stop - s - (b.span.stop - s) = 0 := sub_self _
        rw [hmax, saleMatches]
        simp only [if_neg hnot]
        rw [hmin, hleft, if_pos hzero, openAt_before hrest hopened.le (le_refl _)]
        obtain ⟨m, hm, hmqty⟩ := ih hrest (le_refl _) (by linarith) ⟨b', hin, hqty', hlt'⟩
        exact ⟨m, List.mem_cons_of_mem _ hm, hmqty⟩
      · exact ih hrest (not_lt.1 hopened) hlt ⟨b', hin, hqty', hlt'⟩

/-- Nothing was bought beyond `bought`, so a sale goes no further. -/
theorem piece_upTo {bought : ℚ} (hb : b.span.stop ≤ bought) (hlt : s < e) (hs : s ≤ bought) :
    piece price s (max s (min e bought)) b = piece price s e b := by
  have hmin : min b.span.stop (min e bought) = min b.span.stop e := by
    rw [min_comm e, ← min_assoc, min_eq_left hb]
  rw [piece, piece, max_eq_right (le_min hlt.le hs), hmin]

theorem openAt_upTo {bought : ℚ} (hb : ∀ b ∈ buys, b.span.stop ≤ bought) (hlt : s < e) (hs : s ≤ bought) :
    openAt (max s (min e bought)) buys = openAt e buys := by
  rw [max_eq_right (le_min hlt.le hs)]
  rcases le_total e bought with hle | hle
  · rw [min_eq_left hle]
  · rw [min_eq_right hle]
    refine List.filterMap_congr fun b hin => ?_
    have hstop := hb b hin
    rw [if_neg (not_lt.2 hstop), if_neg (not_lt.2 (hstop.trans hle))]

theorem pieces_cons (buys : List LaidFill) (sale : LaidFill) (sales : List LaidFill) :
    pieces buys (sale :: sales) =
      buys.filterMap (piece sale.price sale.span.start sale.span.stop) ++ pieces buys sales :=
  List.flatMap_cons

theorem boughtLine_laid (bought : ℚ) (fills : List Fill) : LaidFrom bought (boughtLine bought fills) := by
  induction fills generalizing bought with
  | nil => trivial
  | cons fill fills ih =>
    unfold boughtLine
    split_ifs
    · exact ⟨rfl, le_add_of_nonneg_right (le_max_right _ _), ih _⟩
    · exact ih bought

/-- A sale lies on the line from where the sales before it end. -/
theorem soldLine_span (bought sold : ℚ) (qty price : ℚ) :
    (⟨sold, max sold (min (sold + qty) bought) - sold, price⟩ : LaidFill).span =
      ⟨sold, max sold (min (sold + qty) bought)⟩ := by
  have hle := le_max_left sold (min (sold + qty) bought)
  rw [LaidFill.span]
  dsimp only
  rw [max_eq_left (sub_nonneg.2 hle), add_sub_cancel]

theorem soldLine_laid (bought sold : ℚ) (fills : List Fill) : LaidFrom sold (soldLine bought sold fills) := by
  induction fills generalizing bought sold with
  | nil => trivial
  | cons fill fills ih =>
    unfold soldLine
    split_ifs
    · exact ih _ sold
    · rw [LaidFrom, List.map_cons, soldLine_span]
      exact ⟨rfl, le_max_left _ _, ih _ _⟩

/-- Nothing is sold beyond what is bought. -/
theorem soldLine_within {bought sold : ℚ} (hle : sold ≤ bought) (fills : List Fill) :
    ∀ sale ∈ soldLine bought sold fills,
      sale.span.stop ≤ stopOf bought ((boughtLine bought fills).map LaidFill.span) := by
  induction fills generalizing bought sold with
  | nil => exact fun sale hsale => absurd hsale List.not_mem_nil
  | cons fill fills ih =>
    unfold soldLine boughtLine
    split_ifs
    · exact ih (hle.trans (le_add_of_nonneg_right (le_max_right _ _)))
    · have hupTo : max sold (min (sold + fill.qty) bought) ≤ bought := max_le hle (min_le_right _ _)
      rw [List.forall_mem_cons, soldLine_span]
      exact ⟨hupTo.trans (Laid.le_stopOf (boughtLine_laid bought fills)).1, ih hupTo⟩

/-- The queue is what is open of the line. -/
structure QueueOf (lots : List (ℚ × ℚ)) (buys : List LaidFill) (bought sold : ℚ) : Prop where
  holds : lots = openAt sold buys
  laid : LaidFrom 0 buys
  total : stopOf 0 (buys.map LaidFill.span) = bought
  nonneg : 0 ≤ sold
  within : sold ≤ bought

variable {lots : List (ℚ × ℚ)} {bought sold : ℚ} {fill : Fill} {fills : List Fill}

theorem QueueOf.stop_le (h : QueueOf lots buys bought sold) : ∀ b ∈ buys, b.span.stop ≤ bought := by
  intro b hb
  rw [← h.total]
  exact (Laid.le_stopOf h.laid).2 b.span (List.mem_map_of_mem hb)

theorem QueueOf.buy (h : QueueOf lots buys bought sold) :
    QueueOf (lots ++ [(fill.qty, fill.price)]) (buys ++ [⟨bought, fill.qty, fill.price⟩])
      (bought + max fill.qty 0) sold := by
  refine ⟨?_, ?_, ?_, h.nonneg, h.within.trans (le_add_of_nonneg_right (le_max_right _ _))⟩
  · rw [h.holds, openAt, openAt, List.filterMap_append]
    congr 1
    by_cases hqty : fill.qty ≤ 0
    · simp [hqty]
    · have hstop : sold < bought + fill.qty := by linarith [h.within, not_le.1 hqty]
      have hmax : max fill.qty 0 = fill.qty := max_eq_left (not_le.1 hqty).le
      simp [hqty, LaidFill.span, hmax, hstop, max_eq_left h.within]
  · rw [LaidFrom, List.map_append]
    refine Laid.append h.laid ?_
    exact ⟨h.total.symm, le_add_of_nonneg_right (le_max_right _ _), trivial⟩
  · rw [List.map_append, stopOf_append]
    rfl

/-- A sale that reaches no buy of no quantity, or less, matches its pieces. -/
theorem QueueOf.sale (h : QueueOf lots buys bought sold)
    (hempty : 0 < fill.qty → ∀ b ∈ buys, b.qty ≤ 0 → sold + fill.qty ≤ b.start) :
    saleMatches fill.price fill.qty lots =
        buys.filterMap (piece fill.price sold (max sold (min (sold + fill.qty) bought))) ∧
      QueueOf (matchLots fill.price fill.qty lots).openLots buys bought
        (max sold (min (sold + fill.qty) bought)) := by
  have hsold : max sold (min (sold + fill.qty) bought) ≤ bought := max_le h.within (min_le_right _ _)
  have hnonneg : 0 ≤ max sold (min (sold + fill.qty) bought) := h.nonneg.trans (le_max_left _ _)
  rcases le_or_gt fill.qty 0 with hqty | hqty
  · have hsame : max sold (min (sold + fill.qty) bought) = sold :=
      max_eq_left ((min_le_left _ _).trans (by linarith))
    have hnone : buys.filterMap (piece fill.price sold sold) = [] := by
      refine List.filterMap_eq_nil_iff.2 fun b _ => ?_
      rw [piece]
      exact if_neg (by linarith [min_le_right b.span.stop sold, le_max_right b.start sold])
    have hstays : saleMatches fill.price fill.qty lots = [] ∧
        (matchLots fill.price fill.qty lots).openLots = lots := by
      unfold saleMatches matchLots
      rcases lots with - | ⟨lot, lots⟩
      · exact ⟨rfl, rfl⟩
      · simp [hqty]
    rw [hsame, hnone]
    exact ⟨hstays.1, hstays.2.trans h.holds, h.laid, h.total, h.nonneg, h.within⟩
  · have hlt : sold < sold + fill.qty := by linarith
    obtain ⟨hmatches, hopen⟩ := saleMatches_openAt fill.price h.laid h.nonneg hlt (hempty hqty)
    rw [add_sub_cancel_left, ← h.holds] at hmatches hopen
    refine ⟨?_, ?_, h.laid, h.total, hnonneg, hsold⟩
    · rw [hmatches]
      exact List.filterMap_congr fun b hb => (piece_upTo (h.stop_le b hb) hlt h.within).symm
    · rw [hopen, openAt_upTo h.stop_le hlt h.within]

theorem fillMatches_eq_pieces (h : QueueOf lots buys bought sold) (hunreached : Unreached buys bought sold fills) :
    fillMatches lots fills = pieces (buys ++ boughtLine bought fills) (soldLine bought sold fills) := by
  induction fills generalizing lots buys bought sold with
  | nil => rfl
  | cons fill fills ih =>
    rw [fillMatches_cons]
    unfold boughtLine soldLine
    unfold Unreached at hunreached
    split_ifs at hunreached ⊢
    · rw [ih h.buy hunreached, List.append_assoc, List.singleton_append]
    · obtain ⟨hmatches, hnext⟩ := h.sale hunreached.1
      -- what is bought later lies beyond this sale
      have hlater : (boughtLine bought fills).filterMap
          (piece fill.price sold (max sold (min (sold + fill.qty) bought))) = [] :=
        piece_none (boughtLine_laid bought fills) hnext.within
      rw [hmatches, ih hnext hunreached.2, pieces_cons, soldLine_span, List.filterMap_append, hlater,
        List.append_nil]

theorem pos_of_mem_pieces {sales : List LaidFill} {m : Match} (hm : m ∈ pieces buys sales) : 0 < m.qty := by
  obtain ⟨sale, -, hin⟩ := List.mem_flatMap.1 hm
  obtain ⟨b, -, hpiece⟩ := List.mem_filterMap.1 hin
  rw [piece] at hpiece
  split_ifs at hpiece with hqty
  rw [Option.some.injEq] at hpiece
  rw [← hpiece]
  exact hqty

theorem fillMatches_reaches (h : QueueOf lots buys bought sold) (hreached : ¬ Unreached buys bought sold fills) :
    ∃ m ∈ fillMatches lots fills, m.qty ≤ 0 := by
  induction fills generalizing lots buys bought sold with
  | nil => exact absurd trivial hreached
  | cons fill fills ih =>
    rw [fillMatches_cons]
    unfold Unreached at hreached
    split_ifs at hreached ⊢
    · exact ih h.buy hreached
    · by_cases hempty : 0 < fill.qty → ∀ b ∈ buys, b.qty ≤ 0 → sold + fill.qty ≤ b.start
      · obtain ⟨m, hm, hqty⟩ := ih (h.sale hempty).2 fun hrest => hreached ⟨hempty, hrest⟩
        exact ⟨m, List.mem_append_right _ hm, hqty⟩
      · push Not at hempty
        obtain ⟨hpos, b, hb, hqty, hlt⟩ := hempty
        obtain ⟨m, hm, hmqty⟩ := saleMatches_reaches fill.price h.laid h.nonneg
          (show sold < sold + fill.qty by linarith) ⟨b, hb, hqty, hlt⟩
        rw [add_sub_cancel_left, ← h.holds] at hm
        exact ⟨m, List.mem_append_left _ hm, hmqty⟩

theorem queueOf_nil : QueueOf [] [] 0 0 := ⟨rfl, trivial, rfl, le_refl _, le_refl _⟩

/-- The quantities of the pieces are what the spans share. -/
theorem piece_qty (price : ℚ) (sale : Span ℚ) (b : LaidFill) :
    ((piece price sale.start sale.stop b).elim 0 Match.qty) = shared b.span sale := by
  rw [shared_comm, shared, piece]
  show _ = max 0 (min b.span.stop sale.stop - max b.start sale.start)
  split_ifs with hqty
  · exact (max_eq_right hqty.le).symm
  · exact (max_eq_left (not_lt.1 hqty)).symm

/-- The quantity of all pieces under a sale. -/
def saleQuantity (buys : List LaidFill) (sale : LaidFill) : ℚ :=
  (buys.map fun b => (piece sale.price sale.span.start sale.span.stop b).elim 0 Match.qty).sum

/-- The quantity of all pieces of a buy. -/
def lotQuantity (sales : List LaidFill) (b : LaidFill) : ℚ :=
  (sales.map fun sale => (piece sale.price sale.span.start sale.span.stop b).elim 0 Match.qty).sum

theorem LaidFill.start_le_stop (f : LaidFill) : f.span.start ≤ f.span.stop :=
  le_add_of_nonneg_right (le_max_right _ _)

/-- A sale is matched for all that it takes of the line: its quantity, or what is open of what was bought. -/
theorem saleQuantity_eq (fills : List Fill) :
    ∀ sale ∈ soldLine 0 0 fills, saleQuantity (boughtLine 0 fills) sale = max sale.qty 0 := by
  intro sale hsale
  have hstart : 0 ≤ sale.span.start := (soldLine_laid 0 0 fills).start_le sale hsale
  have htotal := Laid.sum_shared_eq (boughtLine_laid 0 fills) sale.start_le_stop hstart
    (soldLine_within (le_refl 0) fills sale hsale)
  simp only [saleQuantity, piece_qty]
  rw [List.map_map] at htotal
  exact htotal.trans (add_sub_cancel_left _ _)

/-- No lot is consumed beyond its quantity. -/
theorem lotQuantity_le (fills : List Fill) (b : LaidFill) : lotQuantity (soldLine 0 0 fills) b ≤ max b.qty 0 := by
  have htotal := Laid.sum_shared_le (soldLine_laid 0 0 fills) b.start_le_stop
  simp only [lotQuantity, piece_qty, shared_comm b.span]
  rw [List.map_map] at htotal
  exact htotal.trans (add_sub_cancel_left _ _).le

/-- Two lots, sold over three sales of which the last wants more than there is. -/
def soldLots : List Fill := [⟨0, 2, 10, true⟩, ⟨1, 3, 20, true⟩, ⟨2, 1, 12, false⟩, ⟨3, 3, 15, false⟩, ⟨4, 9, 30, false⟩]

/-- A buy of no quantity, a buy and a sale of one at a profit. -/
def emptyLot : List Fill := [⟨0, 0, 5, true⟩, ⟨1, 1, 10, true⟩, ⟨2, 1, 12, false⟩]

end Line

end Linvesther.Domain
