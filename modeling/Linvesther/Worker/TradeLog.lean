import Linvesther.Base.Paging
import Linvesther.Worker.History

/-! `trade_log.rs`: the trades already collected, narrowed and in a stable order, a page at a time. The order
is on time, symbol and id together, as two trades can share a millisecond. -/

namespace Linvesther.Worker

open Paging Transaction

section Log

/-- Where a previous page stopped. -/
structure Cursor where
  timeMs : UInt64
  id : UInt64
  symbol : String
deriving DecidableEq

abbrev OrderKey := ℕ ×ₗ String ×ₗ ℕ

def Cursor.orderKey (c : Cursor) : OrderKey := toLex (c.timeMs.toNat, toLex (c.symbol, c.id.toNat))

def Trade.orderKey (t : Trade) : OrderKey := toLex (t.timeMs.toNat, toLex (t.symbol, t.id.toNat))

/-- `<time_ms>:<id>:<symbol>`. -/
def Cursor.encode (c : Cursor) : String :=
  Nat.repr c.timeMs.toNat ++ ":" ++ Nat.repr c.id.toNat ++ ":" ++ c.symbol

def withoutSign : List Char → List Char
  | '+' :: rest => rest
  | text => text

/-- `str::parse` for `u64`: a sign may stand in front. -/
def parseU64 (text : List Char) : Option UInt64 :=
  let digits := withoutSign text
  if digits = [] then none
  else if digits.all Char.isDigit then
    let n := Nat.ofDigitChars 10 digits 0
    if n < 2 ^ 64 then some (UInt64.ofNat n) else none
  else none

def splitOnce (text : List Char) : List Char × Option (List Char) :=
  (text.takeWhile (· ≠ ':'), (text.dropWhile (· ≠ ':')).tail?)

def Cursor.parse (text : String) : Option Cursor := do
  let (first, rest) := splitOnce text.toList
  let timeMs ← parseU64 first
  let (second, rest) := splitOnce (← rest)
  let id ← parseU64 second
  let symbol ← rest
  if symbol = [] then none else some ⟨timeMs, id, String.ofList symbol⟩

def Cursor.of (t : Trade) : Cursor := ⟨t.timeMs, t.id, t.symbol⟩

def MAX_PAGE : ℕ := 500

def DEFAULT_PAGE : ℕ := 100

structure TradeQuery where
  symbol : Option String
  sinceMs : Option UInt64
  untilMs : Option UInt64
  after : Option Cursor
  limit : ℕ
deriving DecidableEq

def TradeQuery.check (query : TradeQuery) : Except String Unit :=
  if query.limit = 0 ∨ MAX_PAGE < query.limit then
    .error ("limit must be between 1 and " ++ Nat.repr MAX_PAGE)
  else
    match query.sinceMs, query.untilMs with
    | some since, some until_ =>
      if until_.toNat < since.toNat then .error "sinceMs must not be after untilMs" else .ok ()
    | _, _ => .ok ()

def eqIgnoreAsciiCase (a b : String) : Bool :=
  a.toList.map Char.toLower = b.toList.map Char.toLower

/-- What a caller asked for, wherever the page begins. -/
def TradeQuery.wants (query : TradeQuery) (t : Trade) : Bool :=
  query.symbol.all (eqIgnoreAsciiCase t.symbol) && query.sinceMs.all (·.toNat ≤ t.timeMs.toNat) &&
    query.untilMs.all (t.timeMs.toNat ≤ ·.toNat)

def matchesQuery (t : Trade) (query : TradeQuery) : Bool :=
  query.wants t && query.after.all fun after => after.orderKey < t.orderKey

structure TradePage where
  trades : List Trade
  next : Option Cursor

def page (trades : List Trade) (query : TradeQuery) : TradePage :=
  let matching := (trades.filter (matchesQuery · query)).insertionSort fun a b => a.orderKey ≤ b.orderKey
  let front := matching.take query.limit
  ⟨front, if query.limit < matching.length then front.getLast?.map Cursor.of else none⟩

/-- The page after a cursor, for a query that passes the check. -/
def pageAfter (trades : List Trade) (query : TradeQuery) (after : Option Cursor) :
    Option (List Trade × Option Cursor) :=
  let query := { query with after }
  match query.check with
  | .error _ => none
  | .ok () => some ((page trades query).trades, (page trades query).next)

/-- What `run_trades` answers to a request whose cursor is a text. -/
def runTrades (trades : List Trade) (query : TradeQuery) :
    Option String → Option (List Trade × Option String) :=
  throughText Cursor.encode Cursor.parse (pageAfter trades query)

end Log

section Pages

variable {trades : List Trade} {query : TradeQuery}

theorem orderKey_injective : Function.Injective Cursor.orderKey := by
  intro c c' h
  unfold Cursor.orderKey at h
  rw [toLex_inj, Prod.mk.injEq, toLex_inj, Prod.mk.injEq, UInt64.toNat_inj, UInt64.toNat_inj] at h
  obtain ⟨htime, hsymbol, hid⟩ := h
  cases c
  cases c'
  simp_all

/-- Cursors are in the order of the keys they hold. -/
instance : LinearOrder Cursor := LinearOrder.lift' Cursor.orderKey orderKey_injective

theorem Cursor.lt_iff {c c' : Cursor} : c < c' ↔ c.orderKey < c'.orderKey := Iff.rfl

theorem matchesQuery_iff {t : Trade} {after : Option Cursor} :
    matchesQuery t { query with after } = (decide (Beyond Cursor.of after t) && query.wants t) := by
  have hafter : (after.all fun k => k.orderKey < t.orderKey) = decide (Beyond Cursor.of after t) := by
    cases after with
    | none => exact (decide_eq_true (beyond_none t)).symm
    | some k => exact decide_eq_decide.2 (@beyond_some _ _ _ Cursor.of k t).symm
  rw [Bool.and_comm, ← hafter]
  rfl

/-- All that a query wants, in the declared order. -/
def selection (trades : List Trade) (query : TradeQuery) : List Trade :=
  (trades.filter query.wants).insertionSort fun a b => a.orderKey ≤ b.orderKey

instance : Std.Total fun a b : Trade => a.orderKey ≤ b.orderKey := ⟨fun _ _ => le_total _ _⟩

instance : IsTrans Trade fun a b => a.orderKey ≤ b.orderKey := ⟨fun _ _ _ => le_trans⟩

theorem selection_perm (trades : List Trade) (query : TradeQuery) :
    (selection trades query).Perm (trades.filter query.wants) :=
  List.perm_insertionSort _ _

/-- With distinct keys the order is strict. -/
theorem selection_sorted (query : TradeQuery) (hunique : (trades.map Trade.orderKey).Nodup) :
    (selection trades query).Pairwise fun a b => Cursor.of a < Cursor.of b := by
  have hsorted : (selection trades query).Pairwise fun a b => a.orderKey ≤ b.orderKey :=
    List.pairwise_insertionSort _ _
  have hdistinct : (selection trades query).Pairwise fun a b => a.orderKey ≠ b.orderKey := by
    have hnodup := hunique.sublist (List.filter_sublist (p := query.wants).map Trade.orderKey)
    exact List.pairwise_map.1 (((selection_perm trades query).map Trade.orderKey).nodup_iff.2 hnodup)
  refine (hsorted.and hdistinct).imp fun {a b} h => ?_
  rw [Cursor.lt_iff]
  exact lt_of_le_of_ne h.1 h.2

/-- Narrowing to what lies after a cursor and sorting come to the same in either order. -/
theorem matching_eq (hunique : (trades.map Trade.orderKey).Nodup) (after : Option Cursor) :
    (trades.filter (matchesQuery · { query with after })).insertionSort
        (fun a b => a.orderKey ≤ b.orderKey) =
      (selection trades query).filter fun t => Beyond Cursor.of after t := by
  have hsorted := (selection_sorted query hunique).filter fun t => Beyond Cursor.of after t
  refine @List.Perm.eq_of_pairwise _ (fun a b : Trade => a.orderKey ≤ b.orderKey) _ _ ?_
    (List.pairwise_insertionSort _ _) (hsorted.imp le_of_lt) ?_
  · intro a b ha hb hab hba
    rw [List.mem_insertionSort] at ha
    have hin := List.mem_of_mem_filter ha
    have hin' := List.mem_of_mem_filter ((selection_perm trades query).subset
      (List.mem_of_mem_filter hb))
    exact List.inj_on_of_nodup_map hunique hin hin' (le_antisymm hab hba)
  · refine (List.perm_insertionSort _ _).trans ?_
    refine List.Perm.trans ?_ ((selection_perm trades query).filter _).symm
    rw [List.filter_filter]
    refine List.Perm.of_eq (List.filter_congr fun t _ => ?_)
    exact matchesQuery_iff

theorem pageAfter_eq (hunique : (trades.map Trade.orderKey).Nodup) (hcheck : query.check = .ok ())
    (after : Option Cursor) :
    pageAfter trades query after = some (pageOf Cursor.of query.limit
      ((selection trades query).filter fun t => Beyond Cursor.of after t)) := by
  have hcheck' : ({ query with after } : TradeQuery).check = .ok () := hcheck
  unfold pageAfter
  dsimp only
  rw [hcheck']
  dsimp only
  unfold page pageOf
  rw [matching_eq hunique after]

theorem limit_pos (hcheck : query.check = .ok ()) : 0 < query.limit := by
  unfold TradeQuery.check at hcheck
  split_ifs at hcheck with h
  omega

/-- Following the cursors from the start, the pages end, and put together they are the trades that the query
wants, each once and in the declared order. -/
theorem follow_pages (hunique : (trades.map Trade.orderKey).Nodup) (hcheck : query.check = .ok ()) :
    ∃ pages : List (List Trade),
      (∀ turns, trades.length < turns → follow (pageAfter trades query) turns none = some pages) ∧
      pages.flatten.Perm (trades.filter query.wants) ∧
      pages.flatten.Pairwise (fun a b => a.orderKey < b.orderKey) ∧
      ∀ p ∈ pages, p.length ≤ query.limit := by
  have hall : (selection trades query).filter (fun t => Beyond Cursor.of none t) =
      selection trades query :=
    List.filter_eq_self.2 fun t _ => decide_eq_true (beyond_none t)
  have hfew : (selection trades query).length ≤ trades.length := by
    rw [(selection_perm trades query).length_eq]
    exact List.length_filter_le _ _
  have hsorted := selection_sorted query hunique
  have hturns : ((selection trades query).filter fun t => Beyond Cursor.of none t).length <
      trades.length + 1 := by
    rw [hall]
    omega
  obtain ⟨pages, hpages, hflatten, hlengths⟩ := follow_pageOf (limit_pos hcheck) hsorted hturns
  simp only [← pageAfter_eq hunique hcheck] at hpages
  rw [hall] at hflatten
  refine ⟨pages, fun turns hlt => follow_mono hlt hpages, ?_, ?_, hlengths⟩
  · rw [hflatten]
    exact selection_perm trades query
  · rw [hflatten]
    exact hsorted

end Pages

section Text

theorem isDigit_toDigits (n : ℕ) : (Nat.toDigits 10 n).all Char.isDigit = true :=
  List.all_eq_true.2 fun _ hc => Nat.isDigit_of_mem_toDigits (by decide) (by decide) hc

theorem withoutSign_digits {text : List Char} (h : text.all Char.isDigit = true) :
    withoutSign text = text := by
  unfold withoutSign
  split
  · cases h
  · rfl

/-- A number in decimal reads back. -/
theorem parseU64_repr (n : UInt64) : parseU64 (Nat.repr n.toNat).toList = some n := by
  have hdigits := isDigit_toDigits n.toNat
  unfold parseU64
  dsimp only
  rw [Nat.toList_repr, withoutSign_digits hdigits, if_neg Nat.toDigits_ne_nil, if_pos hdigits,
    Nat.ofDigitChars_ten_toDigits, if_pos n.toNat_lt, UInt64.ofNat_toNat]

theorem splitOnce_eq {l r : List Char} (h : ':' ∉ l) : splitOnce (l ++ ':' :: r) = (l, some r) := by
  have hcolon : ∀ c ∈ l, decide (c ≠ ':') = true := by
    intro c hc
    refine decide_eq_true ?_
    rintro rfl
    exact h hc
  unfold splitOnce
  rw [List.takeWhile_append_of_pos hcolon, List.dropWhile_append_of_pos hcolon]
  simp

theorem splitOnce_append {l r : List Char} (h : l.all Char.isDigit = true) :
    splitOnce (l ++ ':' :: r) = (l, some r) := by
  apply splitOnce_eq
  intro hcolon
  have hdigit := List.all_eq_true.1 h ':' hcolon
  cases hdigit

/-- A cursor reads back from its text, also with a colon in its symbol. -/
theorem parse_encode {c : Cursor} (h : c.symbol ≠ "") : Cursor.parse c.encode = some c := by
  have htext : c.encode.toList = (Nat.repr c.timeMs.toNat).toList ++
      ':' :: ((Nat.repr c.id.toNat).toList ++ ':' :: c.symbol.toList) := by
    unfold Cursor.encode
    simp
  have hdigits (n : ℕ) : (Nat.repr n).toList.all Char.isDigit = true := by
    rw [Nat.toList_repr]
    exact isDigit_toDigits n
  have hsymbol : c.symbol.toList ≠ [] := fun hnil => h (String.toList_eq_nil_iff.1 hnil)
  unfold Cursor.parse
  rw [htext, splitOnce_append (hdigits _)]
  simp only [Option.bind_eq_bind, parseU64_repr, Option.bind_some, splitOnce_append (hdigits _),
    if_neg hsymbol, String.ofList_toList]

/-- Read through the texts of its cursors a log whose symbols are not empty is the same log. -/
theorem follow_runTrades {trades : List Trade} {query : TradeQuery}
    (hsymbols : ∀ t ∈ trades, t.symbol ≠ "") (turns : ℕ) :
    follow (runTrades trades query) turns none = follow (pageAfter trades query) turns none := by
  refine @follow_throughText _ _ _ _ _ _ (fun c => c.symbol ≠ "") (fun c hc => parse_encode hc) ?_ _
    none (by simp)
  intro after front c hpage
  unfold pageAfter at hpage
  dsimp only at hpage
  split at hpage
  · cases hpage
  · rw [Option.some.injEq, Prod.mk.injEq] at hpage
    have hnext := hpage.2
    unfold page at hnext
    dsimp only at hnext
    split_ifs at hnext
    obtain ⟨t, hlast, rfl⟩ := Option.map_eq_some_iff.1 hnext
    have hin := List.mem_of_mem_take (List.mem_of_getLast? hlast)
    rw [List.mem_insertionSort] at hin
    exact hsymbols t (List.mem_of_mem_filter hin)

end Text

section Spelling

/-- A number without a sign and without a zero in front of another digit. -/
def Plain (text : List Char) : Prop := text.head? ≠ some '+' ∧ (text.head? = some '0' → text.length = 1)

instance (text : List Char) : Decidable (Plain text) := inferInstanceAs (Decidable (_ ∧ _))

/-- What the log asks of a text before it is a cursor: two numbers and a symbol. -/
def Readable (time id symbol : List Char) : Prop :=
  (parseU64 time).isSome ∧ (parseU64 id).isSome ∧ symbol ≠ []

variable {text : List Char} {n : UInt64}

theorem splitOnce_some {l rest : List Char} (h : splitOnce text = (l, some rest)) :
    ':' ∉ l ∧ text = l ++ ':' :: rest := by
  unfold splitOnce at h
  rw [Prod.mk.injEq] at h
  obtain ⟨hl, hrest⟩ := h
  have hsplit := List.takeWhile_append_dropWhile (p := (· ≠ ':')) (l := text)
  refine ⟨fun hin => ?_, ?_⟩
  · rw [← hl] at hin
    have := List.mem_takeWhile_imp hin
    simp at this
  · cases hdrop : text.dropWhile (· ≠ ':') with
    | nil =>
      rw [hdrop] at hrest
      cases hrest
    | cons c tail =>
      have hc := List.head?_dropWhile_not (· ≠ ':') text
      rw [hdrop] at hrest hc hsplit
      rw [List.tail?_cons, Option.some.injEq] at hrest
      have hcolon : c = ':' := by simpa using hc
      rw [← hsplit, hl, hrest, hcolon]

theorem digitChar_sub {c : Char} (h : c.isDigit = true) : c.toNat - 48 < 10 ∧ Nat.digitChar (c.toNat - 48) = c := by
  have hrange : 48 ≤ c.toNat ∧ c.toNat ≤ 57 := by
    simpa [Char.isDigit, UInt32.le_iff_toNat_le] using h
  have hchars : ∀ d < 10, Nat.digitChar d = Char.ofNat (48 + d) := by decide
  refine ⟨by omega, ?_⟩
  rw [hchars _ (by omega), Nat.add_sub_cancel' hrange.1, Char.ofNat_toNat]

/-- Digits behind a number that is not zero are its last digits. -/
theorem toDigits_ofDigitChars {l : List Char} (h : ∀ c ∈ l, c.isDigit = true) {v : ℕ} (hv : 0 < v) :
    Nat.toDigits 10 (Nat.ofDigitChars 10 l v) = Nat.toDigits 10 v ++ l := by
  induction l generalizing v with
  | nil => simp
  | cons c l ih =>
    obtain ⟨hc, hl⟩ := List.forall_mem_cons.1 h
    obtain ⟨hlt, hchar⟩ := digitChar_sub hc
    rw [Nat.ofDigitChars_cons, ih hl (Nat.add_pos_left (Nat.mul_pos (by decide) hv) _)]
    change Nat.toDigits 10 (10 * v + (c.toNat - 48)) ++ l = _
    rw [← Nat.toDigits_append_toDigits (by decide) hv hlt, Nat.toDigits_of_lt_base hlt, hchar]
    simp

/-- The digits of a number do not begin with a zero, unless it is zero. -/
theorem head_toDigits (n : ℕ) : (Nat.toDigits 10 n).head? = some '0' → n = 0 := by
  induction n using Nat.strong_induction_on with
  | _ n ih =>
    intro hhead
    rw [Nat.toDigits_eq_if (by decide)] at hhead
    split_ifs at hhead with hlt
    · have hchars : ∀ d < 10, Nat.digitChar d = '0' → d = 0 := by decide
      exact hchars n hlt (Option.some.inj hhead)
    · rw [List.head?_append_of_ne_nil _ Nat.toDigits_ne_nil] at hhead
      have := ih (n / 10) (by omega) hhead
      omega

theorem plain_toDigits (n : ℕ) : Plain (Nat.toDigits 10 n) := by
  constructor
  · intro hhead
    have hdigit := List.all_eq_true.1 (isDigit_toDigits n) '+' (List.mem_of_head? hhead)
    cases hdigit
  · intro hhead
    rw [head_toDigits n hhead]
    rfl

/-- Digits without a needless zero are those of their number. -/
theorem toDigits_of_plain (h : ∀ c ∈ text, c.isDigit = true) (hne : text ≠ []) (hplain : Plain text) :
    Nat.toDigits 10 (Nat.ofDigitChars 10 text 0) = text := by
  cases text with
  | nil => exact absurd rfl hne
  | cons c l =>
    obtain ⟨hc, hl⟩ := List.forall_mem_cons.1 h
    obtain ⟨hlt, hchar⟩ := digitChar_sub hc
    by_cases hzero : c = '0'
    · subst hzero
      have hlength := hplain.2 rfl
      cases l with
      | nil => rfl
      | cons d l => simp at hlength
    · have hpos : 0 < c.toNat - 48 := by
        refine Nat.pos_of_ne_zero fun h0 => hzero ?_
        rw [← hchar, h0]
        rfl
      have hfirst : 10 * 0 + (c.toNat - '0'.toNat) = c.toNat - 48 := by simp
      rw [Nat.ofDigitChars_cons, hfirst, toDigits_ofDigitChars hl hpos, Nat.toDigits_of_lt_base hlt, hchar]
      rfl

theorem repr_parseU64 (h : parseU64 text = some n) : (Nat.repr n.toNat).toList = text ↔ Plain text := by
  rw [Nat.toList_repr]
  constructor
  · intro heq
    rw [← heq]
    exact plain_toDigits _
  · intro hplain
    have hsign : withoutSign text = text := by
      unfold withoutSign
      split
      · exact absurd rfl hplain.1
      · rfl
    unfold parseU64 at h
    dsimp only at h
    rw [hsign] at h
    split_ifs at h with hempty hdigits hlt
    cases h
    rw [UInt64.toNat_ofNat_of_lt' hlt]
    exact toDigits_of_plain (List.all_eq_true.1 hdigits) hempty hplain

theorem parse_eq_some {text : String} {c : Cursor} : Cursor.parse text = some c ↔
    ∃ time id symbol, text.toList = time ++ ':' :: (id ++ ':' :: symbol) ∧ ':' ∉ time ∧ ':' ∉ id ∧
      parseU64 time = some c.timeMs ∧ parseU64 id = some c.id ∧ symbol ≠ [] ∧ c.symbol = String.ofList symbol := by
  constructor
  · intro h
    unfold Cursor.parse at h
    rcases hfirst : splitOnce text.toList with ⟨time, _ | rest⟩
    · simp [hfirst] at h
    · rcases hsecond : splitOnce rest with ⟨id, _ | symbol⟩
      · simp [hfirst, hsecond] at h
      · simp only [hfirst, hsecond, Option.bind_eq_bind, Option.bind_eq_some_iff, Option.some.injEq,
          exists_eq_left'] at h
        obtain ⟨timeMs, htime, number, hid, h⟩ := h
        split_ifs at h with hsymbol
        cases h
        obtain ⟨htimeColon, htext⟩ := splitOnce_some hfirst
        obtain ⟨hidColon, hrest⟩ := splitOnce_some hsecond
        rw [hrest] at htext
        exact ⟨time, id, symbol, htext, htimeColon, hidColon, htime, hid, hsymbol, rfl⟩
  · rintro ⟨time, id, symbol, htext, htimeColon, hidColon, htime, hid, hsymbol, hc⟩
    unfold Cursor.parse
    rw [htext, splitOnce_eq htimeColon]
    simp only [Option.bind_eq_bind, htime, Option.bind_some, splitOnce_eq hidColon, hid, if_neg hsymbol, ← hc]

theorem encode_toList (c : Cursor) : c.encode.toList =
    (Nat.repr c.timeMs.toNat).toList ++ ':' :: ((Nat.repr c.id.toNat).toList ++ ':' :: c.symbol.toList) := by
  unfold Cursor.encode
  simp

/-- Two texts cut at their first colon are the same if the parts are. -/
theorem chars_colon_inj {l l' r r' : List Char} (hl : ':' ∉ l) (hl' : ':' ∉ l') :
    l ++ ':' :: r = l' ++ ':' :: r' ↔ l = l' ∧ r = r' := by
  constructor
  · intro h
    have hsplit := congrArg splitOnce h
    rw [splitOnce_eq hl, splitOnce_eq hl', Prod.mk.injEq, Option.some.injEq] at hsplit
    exact hsplit
  · rintro ⟨rfl, rfl⟩
    rfl

theorem colon_notMem_repr (n : ℕ) : ':' ∉ (Nat.repr n).toList := by
  intro hin
  rw [Nat.toList_repr] at hin
  cases List.all_eq_true.1 (isDigit_toDigits n) ':' hin

/-- Every cursor reads back from its text, and a text that is read is that of its cursor exactly if its numbers have
no sign and no needless zero. -/
theorem cursor_codec_iff (c : Cursor) (text : String) : (c.symbol ≠ "" → Cursor.parse c.encode = some c) ∧
    ((∀ c, Cursor.parse text = some c → c.encode = text) ↔
      ∀ time id symbol, text.toList = time ++ ':' :: (id ++ ':' :: symbol) → ':' ∉ time → ':' ∉ id →
        Readable time id symbol → Plain time ∧ Plain id) := by
  refine ⟨fun hc => parse_encode hc, fun h time id symbol htext htimeColon hidColon hread => ?_, fun h c hparse => ?_⟩
  · obtain ⟨htime, hid, hsymbol⟩ := hread
    obtain ⟨timeMs, htime⟩ := Option.isSome_iff_exists.1 htime
    obtain ⟨number, hid⟩ := Option.isSome_iff_exists.1 hid
    have hparse : Cursor.parse text = some ⟨timeMs, number, String.ofList symbol⟩ :=
      parse_eq_some.2 ⟨time, id, symbol, htext, htimeColon, hidColon, htime, hid, hsymbol, rfl⟩
    have hencode := congrArg String.toList (h _ hparse)
    rw [encode_toList, htext, chars_colon_inj (colon_notMem_repr _) htimeColon,
      chars_colon_inj (colon_notMem_repr _) hidColon] at hencode
    exact ⟨(repr_parseU64 htime).1 hencode.1, (repr_parseU64 hid).1 hencode.2.1⟩
  · obtain ⟨time, id, symbol, htext, htimeColon, hidColon, htime, hid, hsymbol, hc⟩ := parse_eq_some.1 hparse
    obtain ⟨htimePlain, hidPlain⟩ := h time id symbol htext htimeColon hidColon
      ⟨Option.isSome_of_eq_some htime, Option.isSome_of_eq_some hid, hsymbol⟩
    apply String.ext
    rw [encode_toList, htext, (repr_parseU64 htime).2 htimePlain, (repr_parseU64 hid).2 hidPlain, hc,
      String.toList_ofList]

theorem parse_signed_number :
    Cursor.parse "+5:007:BTCUSDT" = some ⟨5, 7, "BTCUSDT"⟩ ∧
      (⟨5, 7, "BTCUSDT"⟩ : Cursor).encode ≠ "+5:007:BTCUSDT" := by
  decide +kernel

end Spelling

section Example

/-- Three trades of one millisecond, two of them with the same number. -/
def exampleLog : List Trade :=
  [⟨"ETHUSDT", 7, "10", "1", "0", "USDT", 1000, true⟩, ⟨"BTCUSDT", 8, "20", "1", "0", "USDT", 1000, true⟩,
    ⟨"BTCUSDT", 7, "20", "1", "0", "USDT", 1000, false⟩, ⟨"BTCUSDT", 9, "30", "1", "0", "USDT", 900, true⟩]

/-- Two to a page, from one time on. -/
def exampleQuery : TradeQuery := ⟨none, some 1000, none, none, 2⟩

theorem follow_pages_example :
    ∃ pages : List (List Trade),
      (∀ turns, exampleLog.length < turns →
        follow (pageAfter exampleLog exampleQuery) turns none = some pages) ∧
      pages.flatten.Perm (exampleLog.filter exampleQuery.wants) ∧
      pages.flatten.Pairwise (fun a b => a.orderKey < b.orderKey) ∧
      ∀ p ∈ pages, p.length ≤ exampleQuery.limit :=
  follow_pages (by decide) (by decide)

example : (follow (runTrades exampleLog exampleQuery) 3 none).map (·.map (·.map Trade.id)) =
    some [[7, 8], [7]] := by
  decide +kernel

end Example

end Linvesther.Worker
