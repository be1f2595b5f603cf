import Linvesther.Base.Numbering
import Linvesther.Worker.IbkrTrades

/-! Reports over periods that overlap: a trade is told from another of its day and symbol by its place in the report
that it came in. -/

namespace Linvesther.Worker.Ibkr

open FirstWins Numbering

section Reports

/-- The first and the last day of a report. -/
abbrev Period := ℤ × ℤ

/-- A trade as it is stored, without its place. -/
def TradeRow.trade (row : TradeRow) : ℤ × String × Bool × ℚ × ℚ :=
  (row.tradeDate, row.symbol, row.isBuy, row.quantity, row.price)

variable (parseReportDate : String → Option ℤ) (sinceDate : ℤ)

def covers (period : Period) (trade : TradeRecord) : Bool :=
  (parseReportDate trade.tradeDate).any fun date => period.1 ≤ date ∧ date ≤ period.2

/-- The report of a period lists its trades in the order that all reports have. -/
def report (trades : List TradeRecord) (period : Period) : List TradeRecord :=
  trades.filter (covers parseReportDate period)

def syncReports (trades : List TradeRecord) (periods : List Period) : List TradeRow :=
  periods.foldl (fun rows period =>
    syncTrades parseReportDate sinceDate rows (report parseReportDate trades period)) []

/-- The trades since the connection that some report lists. -/
def listed (trades : List TradeRecord) (periods : List Period) : List (ℤ × String × Bool × ℚ × ℚ) :=
  (trades.filter fun trade => periods.any fun period => covers parseReportDate period trade).filterMap fun trade =>
    (keptDate parseReportDate sinceDate trade.tradeDate).map fun date =>
      (date, trade.symbol, trade.isBuy, trade.quantity, trade.price)

/-- How many trades of the report come before the one at a place of the whole list. -/
def place (trades : List TradeRecord) (period : Period) (i : ℕ) : ℕ :=
  (trades.take i).countP (covers parseReportDate period)

/-- What is stored are the trades that were listed, each once. -/
def EachOnce (trades : List TradeRecord) (periods : List Period) : Prop :=
  ((syncReports parseReportDate sinceDate trades periods).map TradeRow.trade).Perm
    (listed parseReportDate sinceDate trades periods)

/-- A trade since the connection has the same place in all reports that list it. -/
def SamePlace (trades : List TradeRecord) (periods : List Period) : Prop :=
  ∀ period ∈ periods, ∀ period' ∈ periods, ∀ x ∈ trades.zipIdx,
    (keptDate parseReportDate sinceDate x.1.tradeDate).isSome → covers parseReportDate period x.1 →
      covers parseReportDate period' x.1 →
        place parseReportDate trades period x.2 = place parseReportDate trades period' x.2

end Reports

section Offered

variable {parseReportDate : String → Option ℤ} {sinceDate : ℤ} {trades : List TradeRecord} {periods : List Period}
  {period period' : Period}

/-- The row that a report has for a trade of the whole list. -/
def rowOf (parseReportDate : String → Option ℤ) (sinceDate : ℤ) (trades : List TradeRecord) (period : Period)
    (x : TradeRecord × ℕ) : Option TradeRow :=
  (keptDate parseReportDate sinceDate x.1.tradeDate).map fun date =>
    ⟨date, x.1.symbol, x.1.isBuy, x.1.quantity, x.1.price, Int32.ofNat (place parseReportDate trades period x.2)⟩

/-- The rows that a report has. -/
def offered (parseReportDate : String → Option ℤ) (sinceDate : ℤ) (trades : List TradeRecord) (period : Period) :
    List TradeRow :=
  (trades.zipIdx.filter fun x => covers parseReportDate period x.1).filterMap
    (rowOf parseReportDate sinceDate trades period)

theorem mem_offered {row : TradeRow} : row ∈ offered parseReportDate sinceDate trades period ↔
    ∃ x ∈ trades.zipIdx, covers parseReportDate period x.1 = true ∧
      rowOf parseReportDate sinceDate trades period x = some row := by
  unfold offered
  simp only [List.mem_filterMap, List.mem_filter, and_assoc]

theorem syncTrades_eq (rows : List TradeRow) :
    syncTrades parseReportDate sinceDate rows (report parseReportDate trades period) =
      insertAll TradeRow.key rows (offered parseReportDate sinceDate trades period) := by
  have hstep (rows : List TradeRow) (entry : TradeRecord × ℕ) : storeTrade parseReportDate sinceDate rows entry =
      ((keptDate parseReportDate sinceDate entry.1.tradeDate).map fun date => ⟨date, entry.1.symbol, entry.1.isBuy,
        entry.1.quantity, entry.1.price, Int32.ofNat entry.2⟩).elim rows (insertNew TradeRow.key rows) := by
    unfold storeTrade
    cases keptDate parseReportDate sinceDate entry.1.tradeDate <;> rfl
  unfold syncTrades report offered
  rw [foldl_insertNew hstep, zipIdx_filter _ trades 0 0, List.filterMap_map]
  refine congrArg _ (List.filterMap_congr fun x _ => ?_)
  simp [rowOf, place]

theorem syncReports_eq : syncReports parseReportDate sinceDate trades periods =
    insertAll TradeRow.key [] (periods.flatMap (offered parseReportDate sinceDate trades)) := by
  have hfold (rows : List TradeRow) : periods.foldl (fun rows period =>
        syncTrades parseReportDate sinceDate rows (report parseReportDate trades period)) rows =
      insertAll TradeRow.key rows (periods.flatMap (offered parseReportDate sinceDate trades)) := by
    induction periods generalizing rows with
    | nil => rfl
    | cons period periods ih => rw [List.foldl_cons, ih, syncTrades_eq, List.flatMap_cons, insertAll_append]
  exact hfold []

theorem covers_iff {trade : TradeRecord} {date : ℤ}
    (h : keptDate parseReportDate sinceDate trade.tradeDate = some date) :
    covers parseReportDate period trade = true ↔ period.1 ≤ date ∧ date ≤ period.2 := by
  have hparse : parseReportDate trade.tradeDate = some date := by
    unfold keptDate at h
    cases hdate : parseReportDate trade.tradeDate with
    | none => simp [hdate] at h
    | some date' =>
      rw [hdate] at h
      simp only [Option.bind_eq_bind, Option.bind_some] at h
      split_ifs at h
      rw [← Option.some.inj h]
  unfold covers
  rw [hparse, Option.any_some, decide_eq_true_eq]

theorem place_lt_length {x : TradeRecord × ℕ} (hx : x ∈ trades.zipIdx) (h : covers parseReportDate period x.1 = true) :
    place parseReportDate trades period x.2 < (report parseReportDate trades period).length := by
  unfold report
  rw [← List.countP_eq_length_filter]
  exact countP_take_lt_countP (List.mem_zipIdx_iff_getElem?.1 hx) h

theorem place_lt_place {x y : TradeRecord × ℕ} (hx : x ∈ trades.zipIdx)
    (h : covers parseReportDate period x.1 = true) (hlt : x.2 < y.2) :
    place parseReportDate trades period x.2 < place parseReportDate trades period y.2 :=
  countP_take_lt (List.mem_zipIdx_iff_getElem?.1 hx) h hlt

theorem zipIdx_inj {x y : TradeRecord × ℕ} (hx : x ∈ trades.zipIdx) (hy : y ∈ trades.zipIdx) (h : x.2 = y.2) :
    x = y := by
  have hx' := List.mem_zipIdx_iff_getElem?.1 hx
  rw [h, List.mem_zipIdx_iff_getElem?.1 hy, Option.some.injEq] at hx'
  exact Prod.ext hx'.symm h

/-- Of one report, trades of different places have different ones. -/
theorem eq_of_place_eq {x y : TradeRecord × ℕ} (hx : x ∈ trades.zipIdx) (hy : y ∈ trades.zipIdx)
    (hcx : covers parseReportDate period x.1 = true) (hcy : covers parseReportDate period y.1 = true)
    (h : place parseReportDate trades period x.2 = place parseReportDate trades period y.2) : x = y := by
  refine zipIdx_inj hx hy ?_
  rcases Nat.lt_trichotomy x.2 y.2 with hlt | heq | hgt
  · exact absurd h (place_lt_place hx hcx hlt).ne
  · exact heq
  · exact absurd h (place_lt_place hy hcy hgt).ne'

/-- The column tells places apart that an `i32` has. -/
theorem ofNat_inj {a b : ℕ} (ha : a < 2 ^ 32) (hb : b < 2 ^ 32) (h : Int32.ofNat a = Int32.ofNat b) : a = b := by
  have hbits := congrArg (fun i => i.toBitVec.toNat) h
  rwa [Int32.toBitVec_ofNat', Int32.toBitVec_ofNat', BitVec.toNat_ofNat, BitVec.toNat_ofNat, Nat.mod_eq_of_lt ha,
    Nat.mod_eq_of_lt hb] at hbits

end Offered

section Main

variable {parseReportDate : String → Option ℤ} {sinceDate : ℤ} {trades : List TradeRecord} {periods : List Period}

/-- Rows of one key come from one trade, where it has the same place in all reports. -/
theorem same_trade_of_key (hshort : ∀ period ∈ periods, (report parseReportDate trades period).length ≤ 2 ^ 32)
    (hsame : SamePlace parseReportDate sinceDate trades periods) {period period' : Period} (hp : period ∈ periods)
    (hp' : period' ∈ periods) {x y : TradeRecord × ℕ} (hx : x ∈ trades.zipIdx) (hy : y ∈ trades.zipIdx)
    (hcx : covers parseReportDate period x.1 = true) (hcy : covers parseReportDate period' y.1 = true)
    {row row' : TradeRow} (hrow : rowOf parseReportDate sinceDate trades period x = some row)
    (hrow' : rowOf parseReportDate sinceDate trades period' y = some row') (hkey : row.key = row'.key) : x = y := by
  obtain ⟨date, hdate, rfl⟩ := Option.map_eq_some_iff.1 hrow
  obtain ⟨date', hdate', rfl⟩ := Option.map_eq_some_iff.1 hrow'
  obtain ⟨rfl, -, hplace⟩ : date = date' ∧ x.1.symbol = y.1.symbol ∧
      Int32.ofNat (place parseReportDate trades period x.2) =
        Int32.ofNat (place parseReportDate trades period' y.2) := by
    simpa [TradeRow.key] using hkey
  -- a report has all trades of a day
  have hcy' : covers parseReportDate period y.1 = true := (covers_iff hdate').2 ((covers_iff hdate).1 hcx)
  rw [hsame period' hp' period hp y hy (Option.isSome_of_eq_some hdate') hcy hcy'] at hplace
  refine eq_of_place_eq hx hy hcx hcy' (ofNat_inj ?_ ?_ hplace)
  · exact (place_lt_length hx hcx).trans_le (hshort period hp)
  · exact (place_lt_length hy hcy').trans_le (hshort period hp)

theorem rowOf_congr {period period' : Period} {x : TradeRecord × ℕ}
    (h : place parseReportDate trades period x.2 = place parseReportDate trades period' x.2) :
    rowOf parseReportDate sinceDate trades period x = rowOf parseReportDate sinceDate trades period' x := by
  unfold rowOf
  rw [h]

/-- The row of the first report that lists a trade. -/
def firstRow (parseReportDate : String → Option ℤ) (sinceDate : ℤ) (trades : List TradeRecord) (periods : List Period)
    (x : TradeRecord × ℕ) : Option TradeRow :=
  (periods.find? fun period => covers parseReportDate period x.1).bind fun period =>
    rowOf parseReportDate sinceDate trades period x

theorem firstRow_eq_some {x : TradeRecord × ℕ} {row : TradeRow}
    (h : firstRow parseReportDate sinceDate trades periods x = some row) : ∃ period ∈ periods,
      covers parseReportDate period x.1 = true ∧ rowOf parseReportDate sinceDate trades period x = some row := by
  obtain ⟨period, hfind, hrow⟩ := Option.bind_eq_some_iff.1 h
  have hcovers := List.find?_some hfind
  exact ⟨period, List.mem_of_find?_eq_some hfind, hcovers, hrow⟩

theorem firstRow_of_not_listed {x : TradeRecord × ℕ}
    (h : (periods.any fun period => covers parseReportDate period x.1) = false) :
    firstRow parseReportDate sinceDate trades periods x = none := by
  unfold firstRow
  rw [List.find?_eq_none.2 (List.any_eq_false.1 h), Option.bind_none]

/-- Where places do not change, every report that lists a trade has the row that the first has. -/
theorem SamePlace.firstRow_eq (hsame : SamePlace parseReportDate sinceDate trades periods) {period : Period}
    (hp : period ∈ periods) {x : TradeRecord × ℕ} (hx : x ∈ trades.zipIdx)
    (hcx : covers parseReportDate period x.1 = true) :
    firstRow parseReportDate sinceDate trades periods x = rowOf parseReportDate sinceDate trades period x := by
  unfold firstRow
  cases hfind : periods.find? fun period => covers parseReportDate period x.1 with
  | none => exact absurd hcx (List.find?_eq_none.1 hfind period hp)
  | some period' =>
    have hcx' := List.find?_some hfind
    have hp' := List.mem_of_find?_eq_some hfind
    rw [Option.bind_some]
    cases hdate : keptDate parseReportDate sinceDate x.1.tradeDate with
    | none => simp [rowOf, hdate]
    | some date => exact rowOf_congr (hsame period' hp' period hp x hx (by simp [hdate]) hcx' hcx)

theorem nodup_firstRows (hshort : ∀ period ∈ periods, (report parseReportDate trades period).length ≤ 2 ^ 32)
    (hsame : SamePlace parseReportDate sinceDate trades periods) :
    (trades.zipIdx.filterMap (firstRow parseReportDate sinceDate trades periods)).Nodup := by
  have hplaces : trades.zipIdx.Nodup :=
    List.Nodup.of_map Prod.snd (by rw [List.zipIdx_map_snd]; exact List.nodup_range')
  refine List.pairwise_filterMap.2 (hplaces.imp_of_mem fun {x y} hx hy hne row hrow row' hrow' heq => hne ?_)
  obtain ⟨period, hp, hcx, hrow⟩ := firstRow_eq_some hrow
  obtain ⟨period', hp', hcy, hrow'⟩ := firstRow_eq_some hrow'
  exact same_trade_of_key hshort hsame hp hp' hx hy hcx hcy hrow hrow' (congrArg TradeRow.key heq)

/-- Where places do not change, the first rows are what is stored. -/
theorem perm_firstRows (hshort : ∀ period ∈ periods, (report parseReportDate trades period).length ≤ 2 ^ 32)
    (hsame : SamePlace parseReportDate sinceDate trades periods) :
    (syncReports parseReportDate sinceDate trades periods).Perm
      (trades.zipIdx.filterMap (firstRow parseReportDate sinceDate trades periods)) := by
  have hinj : ∀ row ∈ periods.flatMap (offered parseReportDate sinceDate trades),
      ∀ row' ∈ periods.flatMap (offered parseReportDate sinceDate trades), row.key = row'.key → row = row' := by
    intro row hrow row' hrow' hkey
    obtain ⟨period, hp, hrow⟩ := List.mem_flatMap.1 hrow
    obtain ⟨period', hp', hrow'⟩ := List.mem_flatMap.1 hrow'
    obtain ⟨x, hx, hcx, hrow⟩ := mem_offered.1 hrow
    obtain ⟨y, hy, hcy, hrow'⟩ := mem_offered.1 hrow'
    obtain rfl := same_trade_of_key hshort hsame hp hp' hx hy hcx hcy hrow hrow' hkey
    rw [← hsame.firstRow_eq hp hx hcx, hsame.firstRow_eq hp' hx hcy, hrow'] at hrow
    exact (Option.some.inj hrow).symm
  rw [syncReports_eq]
  refine (perm_insertAll hinj).trans ?_
  rw [List.perm_ext_iff_of_nodup (List.nodup_dedup _) (nodup_firstRows hshort hsame)]
  intro row
  rw [List.mem_dedup, List.mem_flatMap, List.mem_filterMap]
  constructor
  · rintro ⟨period, hp, hrow⟩
    obtain ⟨x, hx, hcx, hrow⟩ := mem_offered.1 hrow
    exact ⟨x, hx, (hsame.firstRow_eq hp hx hcx).trans hrow⟩
  · rintro ⟨x, hx, hrow⟩
    obtain ⟨period, hp, hcx, hrow⟩ := firstRow_eq_some hrow
    exact ⟨period, hp, mem_offered.2 ⟨x, hx, hcx, hrow⟩⟩

theorem eachOnce_of_samePlace
    (hshort : ∀ period ∈ periods, (report parseReportDate trades period).length ≤ 2 ^ 32)
    (hsame : SamePlace parseReportDate sinceDate trades periods) :
    EachOnce parseReportDate sinceDate trades periods := by
  refine ((perm_firstRows hshort hsame).map TradeRow.trade).trans (List.Perm.of_eq ?_)
  unfold listed
  conv_rhs => rw [List.filterMap_filter, ← List.zipIdx_map_fst 0 trades, List.filterMap_map]
  rw [List.map_filterMap]
  refine List.filterMap_congr fun x hx => ?_
  cases hany : periods.any fun period => covers parseReportDate period x.1 with
  | true =>
    obtain ⟨period, hp, hcx⟩ := List.any_eq_true.1 hany
    rw [hsame.firstRow_eq hp hx hcx, rowOf, Option.map_map, Function.comp_apply, if_pos hany]
    rfl
  | false =>
    rw [firstRow_of_not_listed hany, Function.comp_apply, hany]
    rfl

/-- The trades of a day and a symbol, with their places in the whole list. -/
def ofDay (parseReportDate : String → Option ℤ) (sinceDate : ℤ) (trades : List TradeRecord) (date : ℤ)
    (symbol : String) : List (TradeRecord × ℕ) :=
  trades.zipIdx.filter fun y => keptDate parseReportDate sinceDate y.1.tradeDate = some date ∧ y.1.symbol = symbol

theorem mem_ofDay {date : ℤ} {symbol : String} {y : TradeRecord × ℕ} :
    y ∈ ofDay parseReportDate sinceDate trades date symbol ↔ y ∈ trades.zipIdx ∧
      keptDate parseReportDate sinceDate y.1.tradeDate = some date ∧ y.1.symbol = symbol := by
  unfold ofDay
  rw [List.mem_filter, decide_eq_true_eq]

theorem length_ofDay (date : ℤ) (symbol : String) : (ofDay parseReportDate sinceDate trades date symbol).length =
    trades.countP fun trade =>
      keptDate parseReportDate sinceDate trade.tradeDate = some date ∧ trade.symbol = symbol := by
  conv_rhs => rw [← List.zipIdx_map_fst 0 trades, List.countP_map, List.countP_eq_length_filter]
  rfl

section Day

variable {period : Period} {date : ℤ} {symbol : String}

/-- A report that has a day has all its trades. -/
theorem covers_of_ofDay (hday : period.1 ≤ date ∧ date ≤ period.2) {y : TradeRecord × ℕ}
    (hy : y ∈ ofDay parseReportDate sinceDate trades date symbol) : covers parseReportDate period y.1 = true :=
  (covers_iff (mem_ofDay.1 hy).2.1).2 hday

theorem place_lt_of_ofDay (hshort : (report parseReportDate trades period).length ≤ 2 ^ 32)
    (hday : period.1 ≤ date ∧ date ≤ period.2) {y : TradeRecord × ℕ}
    (hy : y ∈ ofDay parseReportDate sinceDate trades date symbol) :
    place parseReportDate trades period y.2 < 2 ^ 32 :=
  (place_lt_length (mem_ofDay.1 hy).1 (covers_of_ofDay hday hy)).trans_le hshort

theorem ofDay_ascending (hday : period.1 ≤ date ∧ date ≤ period.2) :
    (ofDay parseReportDate sinceDate trades date symbol).Pairwise fun a b =>
      place parseReportDate trades period a.2 < place parseReportDate trades period b.2 := by
  have hplaces : trades.zipIdx.Pairwise fun a b => a.2 < b.2 := by
    have hrange := @List.pairwise_lt_range' 0 trades.length 1
    rw [← List.zipIdx_map_snd, List.pairwise_map] at hrange
    exact hrange (by decide)
  refine (hplaces.filter _).imp_of_mem fun {a b} ha _ hlt => ?_
  exact place_lt_place (mem_ofDay.1 ha).1 (covers_of_ofDay hday ha) hlt

theorem nodup_ordinals (hshort : (report parseReportDate trades period).length ≤ 2 ^ 32)
    (hday : period.1 ≤ date ∧ date ≤ period.2) :
    ((ofDay parseReportDate sinceDate trades date symbol).map fun y =>
      Int32.ofNat (place parseReportDate trades period y.2)).Nodup := by
  refine List.pairwise_map.2 ((ofDay_ascending hday).imp_of_mem fun {a b} ha hb hlt heq => ?_)
  exact absurd (ofNat_inj (place_lt_of_ofDay hshort hday ha) (place_lt_of_ofDay hshort hday hb) heq) hlt.ne

end Day

/-- The rows that are stored of a day and a symbol. -/
def storedOfDay (parseReportDate : String → Option ℤ) (sinceDate : ℤ) (trades : List TradeRecord)
    (periods : List Period) (date : ℤ) (symbol : String) : List TradeRow :=
  (syncReports parseReportDate sinceDate trades periods).filter fun row => row.tradeDate = date ∧ row.symbol = symbol

/-- Under the place that a report has for a trade there is a row. -/
theorem ordinal_mem_storedOfDay {period : Period} {date : ℤ} {symbol : String} (hp : period ∈ periods)
    (hday : period.1 ≤ date ∧ date ≤ period.2) {y : TradeRecord × ℕ}
    (hy : y ∈ ofDay parseReportDate sinceDate trades date symbol) :
    Int32.ofNat (place parseReportDate trades period y.2) ∈
      (storedOfDay parseReportDate sinceDate trades periods date symbol).map TradeRow.ordinal := by
  obtain ⟨hin, hdate, hsymbol⟩ := mem_ofDay.1 hy
  have hoffered : (⟨date, y.1.symbol, y.1.isBuy, y.1.quantity, y.1.price,
      Int32.ofNat (place parseReportDate trades period y.2)⟩ : TradeRow) ∈
        periods.flatMap (offered parseReportDate sinceDate trades) := by
    refine List.mem_flatMap.2 ⟨period, hp, mem_offered.2 ⟨y, hin, covers_of_ofDay hday hy, ?_⟩⟩
    rw [rowOf, hdate, Option.map_some]
  have hkey := mem_keys_insertAll.2 (.inr (List.mem_map_of_mem hoffered) : _ ∈ ([] : List TradeRow).map TradeRow.key ∨ _)
  rw [← syncReports_eq] at hkey
  obtain ⟨row, hrow, heq⟩ := List.mem_map.1 hkey
  obtain ⟨hrowDate, hrowSymbol, hordinal⟩ : row.tradeDate = date ∧ row.symbol = y.1.symbol ∧
      row.ordinal = Int32.ofNat (place parseReportDate trades period y.2) := by
    simpa [TradeRow.key] using heq
  refine List.mem_map.2 ⟨row, List.mem_filter.2 ⟨hrow, ?_⟩, hordinal⟩
  exact decide_eq_true ⟨hrowDate, hrowSymbol.trans hsymbol⟩

theorem length_storedOfDay_le (honce : EachOnce parseReportDate sinceDate trades periods) (date : ℤ)
    (symbol : String) : (storedOfDay parseReportDate sinceDate trades periods date symbol).length ≤
      (ofDay parseReportDate sinceDate trades date symbol).length := by
  have hrows : (storedOfDay parseReportDate sinceDate trades periods date symbol).length =
      ((syncReports parseReportDate sinceDate trades periods).map TradeRow.trade).countP
        fun t => t.1 = date ∧ t.2.1 = symbol := by
    rw [List.countP_map, List.countP_eq_length_filter]
    rfl
  rw [hrows, honce.countP_eq, length_ofDay, listed, List.countP_filterMap]
  refine (List.countP_mono_left fun trade _ htrade => ?_).trans List.filter_sublist.countP_le
  cases hkeptDate : keptDate parseReportDate sinceDate trade.tradeDate with
  | none => simp [hkeptDate] at htrade
  | some date' =>
    rw [hkeptDate] at htrade
    simpa using htrade

/-- Two reports fill the places of a day in one order, so where there are no more rows than trades, the places
are the same. -/
theorem samePlace_of_eachOnce
    (hshort : ∀ period ∈ periods, (report parseReportDate trades period).length ≤ 2 ^ 32)
    (honce : EachOnce parseReportDate sinceDate trades periods) :
    SamePlace parseReportDate sinceDate trades periods := by
  intro period hp period' hp' x hx hkept hcx hcx'
  obtain ⟨date, hdate⟩ := Option.isSome_iff_exists.1 hkept
  have hday := (covers_iff hdate).1 hcx
  have hday' := (covers_iff hdate).1 hcx'
  refine eq_of_filled (ofDay_ascending hday) (ofDay_ascending hday') (fun a ha b hb => ?_)
    (nodup_ordinals (hshort period hp) hday) (nodup_ordinals (hshort period' hp') hday') ?_
    (fun y => ordinal_mem_storedOfDay hp hday) (fun y => ordinal_mem_storedOfDay hp' hday') x
    (mem_ofDay.2 ⟨hx, hdate, rfl⟩)
  · exact ofNat_inj (place_lt_of_ofDay (hshort period hp) hday ha) (place_lt_of_ofDay (hshort period' hp') hday' hb)
  · rw [List.length_map]
    exact length_storedOfDay_le honce date x.1.symbol

/-- After any reports each trade that was listed is stored once exactly if it had the same place in all of them. -/
theorem eachOnce_iff (hshort : ∀ period ∈ periods, (report parseReportDate trades period).length ≤ 2 ^ 32) :
    EachOnce parseReportDate sinceDate trades periods ↔ SamePlace parseReportDate sinceDate trades periods :=
  ⟨samePlace_of_eachOnce hshort, eachOnce_of_samePlace hshort⟩

/-- A trade on each of two days. -/
def twoDays : List TradeRecord := [⟨"20260102", "AAPL", true, 1, 10⟩, ⟨"20260103", "AAPL", false, 1, 20⟩]

/-- Two reports from the first day on. -/
theorem eachOnce_twoDays : EachOnce january 0 twoDays [(1, 1), (1, 2)] := by
  refine (eachOnce_iff (by decide +kernel)).2 ?_
  unfold SamePlace
  decide +kernel

/-- The second report begins a day later, so that the second trade comes first in it, and is stored again. -/
theorem later_report_repeats : (listed january 0 twoDays [(1, 2), (2, 2)]).length = 2 ∧
    (syncReports january 0 twoDays [(1, 2), (2, 2)]).length = 3 ∧
      ¬ EachOnce january 0 twoDays [(1, 2), (2, 2)] := by
  have hlisted : (listed january 0 twoDays [(1, 2), (2, 2)]).length = 2 := by decide +kernel
  have hstored : (syncReports january 0 twoDays [(1, 2), (2, 2)]).length = 3 := by decide +kernel
  refine ⟨hlisted, hstored, fun h => ?_⟩
  have hlength := h.length_eq
  rw [List.length_map, hstored, hlisted] at hlength
  cases hlength

end Main

end Linvesther.Worker.Ibkr
