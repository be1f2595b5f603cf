import Mathlib

/-! `connector-conformance/`: four checks that a connector has to pass. They look at some of what it answers; what they do
not look at is named here, and a connector that passes is sound just where it does not cheat there. -/

namespace Linvesther.Collector.ConnectorConformance

section Contract

inductive Side where
  | buy | sell
deriving DecidableEq

structure LedgerEvent where
  id : String
  economicTimeMs : ℤ
  symbol : String
  side : Side
deriving DecidableEq

structure Page where
  items : List LedgerEvent
  complete : Bool
deriving DecidableEq

/-- A connector, which answers a window and a filter always alike. -/
structure ConnectorContract where
  registeredAt : ℤ
  fetchEvents : ℤ → ℤ → Option String → Page

end Contract

section Suite

structure ConformanceFailure where
  check : String
  reason : String
deriving DecidableEq

structure ConformanceReport where
  passed : List String
  failures : List ConformanceFailure
deriving DecidableEq

def ok (report : ConformanceReport) (check : String) : ConformanceReport :=
  { report with passed := report.passed ++ [check] }

def fail (report : ConformanceReport) (check reason : String) : ConformanceReport :=
  { report with failures := report.failures ++ [⟨check, reason⟩] }

/-- Each check ends in `ok` or in `fail`. -/
def record (check : String) (good : Bool) (reason : String) (report : ConformanceReport) : ConformanceReport :=
  if good then ok report check else fail report check reason

variable (connector : ConnectorContract) (windowStartMs windowEndMs : ℤ)

def fullWindow : Page := connector.fetchEvents windowStartMs windowEndMs none

def backdated : List LedgerEvent :=
  (fullWindow connector windowStartMs windowEndMs).items.filter fun event => event.economicTimeMs < connector.registeredAt

def symbols : List String := ((fullWindow connector windowStartMs windowEndMs).items.map LedgerEvent.symbol).eraseDups

def filtered (symbol : String) : Page := connector.fetchEvents windowStartMs windowEndMs (some symbol)

/-- `Math.floor` of the half. -/
def midpoint (windowStartMs windowEndMs : ℤ) : ℤ := windowStartMs + (windowEndMs - windowStartMs) / 2

def firstHalf : Page := connector.fetchEvents windowStartMs (midpoint windowStartMs windowEndMs) none

def secondHalf : Page := connector.fetchEvents (midpoint windowStartMs windowEndMs) windowEndMs none

def pagedItems : List LedgerEvent :=
  (firstHalf connector windowStartMs windowEndMs).items ++ (secondHalf connector windowStartMs windowEndMs).items

def missing : List String :=
  ((fullWindow connector windowStartMs windowEndMs).items.map LedgerEvent.id).eraseDups.filter fun id =>
    id ∉ (pagedItems connector windowStartMs windowEndMs).map LedgerEvent.id

def checkFilter (report : ConformanceReport) : ConformanceReport :=
  match (symbols connector windowStartMs windowEndMs).head? with
  | none => ok report "filter_honored"
  | some targetSymbol =>
    record "filter_honored"
      ((filtered connector windowStartMs windowEndMs targetSymbol).items.all fun event => event.symbol = targetSymbol)
      ("filtering by symbol=" ++ targetSymbol ++ " returned event(s) for a different symbol") report

def runConformanceSuite : ConformanceReport :=
  let report := record "full_window_complete" (fullWindow connector windowStartMs windowEndMs).complete
    "connector reported the full requested window as incomplete" ⟨[], []⟩
  let backdatedEvents := backdated connector windowStartMs windowEndMs
  let report := record "no_backdated_events" (backdatedEvents.length = 0)
    (Nat.repr backdatedEvents.length ++
      " event(s) with economicTimeMs before registeredAt were returned as eligible history") report
  let report := checkFilter connector windowStartMs windowEndMs report
  let missingIds := missing connector windowStartMs windowEndMs
  record "no_missing_page"
    ((firstHalf connector windowStartMs windowEndMs).complete && (secondHalf connector windowStartMs windowEndMs).complete &&
      missingIds.length = 0)
    ("paginated fetch is missing " ++ Nat.repr missingIds.length ++
      " event(s) present in the full-window fetch, or reported a page as incomplete") report

def isFullyConformant (report : ConformanceReport) : Bool := report.failures.length = 0

end Suite

section Soundness

variable (connector : ConnectorContract) (windowStartMs windowEndMs : ℤ)

/-- What the checks are named for. -/
structure Sound : Prop where
  filters : ∀ e ∈ (fullWindow connector windowStartMs windowEndMs).items,
    (filtered connector windowStartMs windowEndMs e.symbol).items.Perm
      ((fullWindow connector windowStartMs windowEndMs).items.filter fun f => f.symbol = e.symbol)
  pages : ∀ e, e ∈ pagedItems connector windowStartMs windowEndMs ↔
    e ∈ (fullWindow connector windowStartMs windowEndMs).items
  once : (pagedItems connector windowStartMs windowEndMs).Nodup
  dated : ∀ e ∈ (fullWindow connector windowStartMs windowEndMs).items, connector.registeredAt ≤ e.economicTimeMs
  datedFiltered : ∀ e ∈ (fullWindow connector windowStartMs windowEndMs).items,
    ∀ f ∈ (filtered connector windowStartMs windowEndMs e.symbol).items, connector.registeredAt ≤ f.economicTimeMs
  datedPages : ∀ e ∈ pagedItems connector windowStartMs windowEndMs, connector.registeredAt ≤ e.economicTimeMs

/-- What the suite looks at. -/
structure Checked : Prop where
  complete : (fullWindow connector windowStartMs windowEndMs).complete = true
  dated : ∀ e ∈ (fullWindow connector windowStartMs windowEndMs).items, connector.registeredAt ≤ e.economicTimeMs
  firstSymbol : ∀ e ∈ (fullWindow connector windowStartMs windowEndMs).items.head?,
    ∀ f ∈ (filtered connector windowStartMs windowEndMs e.symbol).items, f.symbol = e.symbol
  halves : (firstHalf connector windowStartMs windowEndMs).complete = true ∧
    (secondHalf connector windowStartMs windowEndMs).complete = true
  ids : ∀ e ∈ (fullWindow connector windowStartMs windowEndMs).items,
    ∃ f ∈ pagedItems connector windowStartMs windowEndMs, f.id = e.id

/-- That a connector is honest where the suite does not look. -/
structure HonestUnseen : Prop where
  /-- The filter of the first event's symbol neither loses nor repeats nor invents events of that symbol. -/
  firstSymbol : ∀ e ∈ (fullWindow connector windowStartMs windowEndMs).items.head?, ∀ f, f.symbol = e.symbol →
    (filtered connector windowStartMs windowEndMs e.symbol).items.count f =
      (fullWindow connector windowStartMs windowEndMs).items.count f
  /-- The filter of any other symbol is honored. -/
  otherSymbols : ∀ e ∈ (fullWindow connector windowStartMs windowEndMs).items,
    (∀ first ∈ (fullWindow connector windowStartMs windowEndMs).items.head?, e.symbol ≠ first.symbol) →
      (filtered connector windowStartMs windowEndMs e.symbol).items.Perm
        ((fullWindow connector windowStartMs windowEndMs).items.filter fun f => f.symbol = e.symbol)
  /-- The halves bring nothing that is not in the full window, and nothing twice. -/
  nothingNew : ∀ e ∈ pagedItems connector windowStartMs windowEndMs,
    e ∈ (fullWindow connector windowStartMs windowEndMs).items
  once : (pagedItems connector windowStartMs windowEndMs).Nodup
  /-- An event whose id comes in the halves comes there as it is. -/
  sameEvent : ∀ e ∈ (fullWindow connector windowStartMs windowEndMs).items,
    ∀ f ∈ pagedItems connector windowStartMs windowEndMs, f.id = e.id → e ∈ pagedItems connector windowStartMs windowEndMs

variable {connector : ConnectorContract} {windowStartMs windowEndMs : ℤ}

theorem failures_record {check : String} {good : Bool} {reason : String} {report : ConformanceReport} :
    (record check good reason report).failures = [] ↔ report.failures = [] ∧ good = true := by
  unfold record
  split_ifs with hgood
  · exact (and_iff_left hgood).symm
  · exact iff_of_false (by simp [fail]) fun h => hgood h.2

theorem head?_symbols : (symbols connector windowStartMs windowEndMs).head? =
    (fullWindow connector windowStartMs windowEndMs).items.head?.map LedgerEvent.symbol := by
  unfold symbols
  cases (fullWindow connector windowStartMs windowEndMs).items with
  | nil => rfl
  | cons e rest => rw [List.map_cons, List.eraseDups_cons, List.head?_cons, List.head?_cons, Option.map_some]

theorem failures_checkFilter {report : ConformanceReport} :
    (checkFilter connector windowStartMs windowEndMs report).failures = [] ↔ report.failures = [] ∧
      ∀ e ∈ (fullWindow connector windowStartMs windowEndMs).items.head?,
        ∀ f ∈ (filtered connector windowStartMs windowEndMs e.symbol).items, f.symbol = e.symbol := by
  unfold checkFilter
  rw [head?_symbols]
  cases (fullWindow connector windowStartMs windowEndMs).items.head? with
  | none => simp [ok]
  | some e =>
    rw [Option.map_some, failures_record]
    simp

theorem missing_nil_iff : (missing connector windowStartMs windowEndMs).length = 0 ↔
    ∀ e ∈ (fullWindow connector windowStartMs windowEndMs).items,
      ∃ f ∈ pagedItems connector windowStartMs windowEndMs, f.id = e.id := by
  unfold missing
  rw [List.length_eq_zero_iff, List.filter_eq_nil_iff]
  simp [List.mem_eraseDups]

/-- The report has no failure just where all that the suite looks at is right. -/
theorem failures_nil_iff : (runConformanceSuite connector windowStartMs windowEndMs).failures = [] ↔
    Checked connector windowStartMs windowEndMs := by
  unfold runConformanceSuite
  dsimp only
  rw [failures_record, failures_checkFilter, failures_record, failures_record]
  simp only [Bool.and_eq_true, decide_eq_true_eq, missing_nil_iff, true_and]
  have hdated : (backdated connector windowStartMs windowEndMs).length = 0 ↔
      ∀ e ∈ (fullWindow connector windowStartMs windowEndMs).items, connector.registeredAt ≤ e.economicTimeMs := by
    unfold backdated
    rw [List.length_eq_zero_iff, List.filter_eq_nil_iff]
    simp
  rw [hdated]
  exact ⟨fun ⟨⟨⟨hcomplete, hdated⟩, hfirst⟩, hhalves, hids⟩ => ⟨hcomplete, hdated, hfirst, hhalves, hids⟩,
    fun h => ⟨⟨⟨h.complete, h.dated⟩, h.firstSymbol⟩, h.halves, h.ids⟩⟩

theorem count_ofSymbol {items : List LedgerEvent} {symbol : String} {f : LedgerEvent} (hf : f.symbol = symbol) :
    (items.filter fun e => e.symbol = symbol).count f = items.count f := by
  apply List.count_filter
  exact decide_eq_true hf

theorem Sound.honest (h : Sound connector windowStartMs windowEndMs) : HonestUnseen connector windowStartMs windowEndMs where
  firstSymbol e he f hf := by
    rw [(h.filters e (List.mem_of_head? he)).count_eq, count_ofSymbol hf]
  otherSymbols e he _ := h.filters e he
  nothingNew e he := (h.pages e).1 he
  once := h.once
  sameEvent e he _ _ _ := (h.pages e).2 he

/-- What the suite looks at and what it does not look at together. -/
theorem Checked.sound (h : Checked connector windowStartMs windowEndMs)
    (hunseen : HonestUnseen connector windowStartMs windowEndMs) : Sound connector windowStartMs windowEndMs := by
  have hfilters : ∀ e ∈ (fullWindow connector windowStartMs windowEndMs).items,
      (filtered connector windowStartMs windowEndMs e.symbol).items.Perm
        ((fullWindow connector windowStartMs windowEndMs).items.filter fun f => f.symbol = e.symbol) := by
    intro e he
    by_cases hother : ∀ first ∈ (fullWindow connector windowStartMs windowEndMs).items.head?, e.symbol ≠ first.symbol
    · exact hunseen.otherSymbols e he hother
    · push Not at hother
      obtain ⟨first, hfirst, hsame⟩ := hother
      rw [hsame, List.perm_iff_count]
      intro f
      by_cases hf : f.symbol = first.symbol
      · rw [hunseen.firstSymbol first hfirst f hf, count_ofSymbol hf]
      · rw [List.count_eq_zero.2 fun hmem => hf (h.firstSymbol first hfirst f hmem), List.count_eq_zero.2]
        exact fun hmem => hf (of_decide_eq_true (List.mem_filter.1 hmem).2)
  have hpages : ∀ e, e ∈ pagedItems connector windowStartMs windowEndMs ↔
      e ∈ (fullWindow connector windowStartMs windowEndMs).items := by
    refine fun e => ⟨hunseen.nothingNew e, fun he => ?_⟩
    obtain ⟨f, hf, hid⟩ := h.ids e he
    exact hunseen.sameEvent e he f hf hid
  refine ⟨hfilters, hpages, hunseen.once, h.dated, fun e he f hf => ?_, fun e he => h.dated e ((hpages e).1 he)⟩
  exact h.dated f (List.mem_filter.1 ((hfilters e he).mem_iff.1 hf)).1

/-- Exactly when passing the suite proves what its checks are named for. -/
theorem conformance_iff (connector : ConnectorContract) (windowStartMs windowEndMs : ℤ) :
    ((runConformanceSuite connector windowStartMs windowEndMs).failures = [] → Sound connector windowStartMs windowEndMs) ↔
      ¬ Checked connector windowStartMs windowEndMs ∨ HonestUnseen connector windowStartMs windowEndMs := by
  rw [failures_nil_iff]
  constructor
  · intro h
    exact or_iff_not_imp_left.2 fun hchecked => (h (not_not.1 hchecked)).honest
  · exact fun h hchecked => hchecked.sound (h.resolve_left (not_not.2 hchecked))

def bitcoinBuy : LedgerEvent := ⟨"evt-1", 1000, "BTCUSDT", .buy⟩

def etherSell : LedgerEvent := ⟨"evt-2", 2000, "ETHUSDT", .sell⟩

/-- A connector that ignores the filter for every symbol but that of its first event. -/
def ignoresLaterFilters : ConnectorContract where
  registeredAt := 500
  fetchEvents sinceMs untilMs filter :=
    ⟨[bitcoinBuy, etherSell].filter fun e =>
      sinceMs ≤ e.economicTimeMs ∧ e.economicTimeMs < untilMs ∧ (filter = some "BTCUSDT" → e.symbol = "BTCUSDT"), true⟩

theorem ignoresLaterFilters_passes :
    (runConformanceSuite ignoresLaterFilters 0 5000).failures = [] ∧ ¬ Sound ignoresLaterFilters 0 5000 := by
  refine ⟨by decide +kernel, fun h => ?_⟩
  have hperm := h.filters etherSell (by decide +kernel)
  exact absurd hperm.length_eq (by decide +kernel)

end Soundness

end Linvesther.Collector.ConnectorConformance
