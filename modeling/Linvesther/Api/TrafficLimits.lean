import Linvesther.Base.FixedWindow
import Linvesther.Base.PathPattern
import Linvesther.Api.AuthStores

/-! `security/trafficLimits.ts` and `auth/rateLimiter.ts`: the policies look at the target as it was sent,
the router at the path it reads in it. -/

namespace Linvesther.Api.Traffic

open PathPattern

section RateLimiter

/-- The windows of one limiter: the `Map` in memory, the rows of its bucket in the database. -/
abbrev Windows := Std.TreeMap String Window Ord.compare

def SWEEP_THRESHOLD : ℕ := 10000

/-- Forgets windows that have ended. -/
def sweep (windowMs now : ℤ) (windows : Windows) : Windows :=
  windows.filter fun _ entry => ¬ windowMs ≤ now - entry.windowStart

/-- `allow` of the limiter in memory. -/
def RateLimiter.allow (maxPerWindow : ℚ) (windowMs : ℤ) (key : String) (now : ℤ) (windows : Windows) :
    Bool × Windows :=
  let windows := if SWEEP_THRESHOLD ≤ windows.size then sweep windowMs now windows else windows
  match windows[key]? with
  | none => (true, windows.insert key ⟨1, now⟩)
  | some entry =>
    if windowMs ≤ now - entry.windowStart then (true, windows.insert key ⟨1, now⟩)
    else if maxPerWindow ≤ entry.count then (false, windows)
    else (true, windows.insert key { entry with count := entry.count + 1 })

/-- The row an insert leaves: a new window when the last one has ended, otherwise one more. -/
def PostgresRateLimiter.upsert (windowMs now : ℤ) : Option Window → Window
  | none => ⟨1, now⟩
  | some row =>
    if row.windowStart ≤ now - windowMs then ⟨1, now⟩ else { row with count := row.count + 1 }

/-- `allow` of the limiter in the database; `clears` is the draw that clears ended windows. -/
def PostgresRateLimiter.allow (maxPerWindow : ℚ) (windowMs : ℤ) (key : String) (now : ℤ) (clears : Bool)
    (rows : Windows) : Bool × Windows :=
  let row := upsert windowMs now rows[key]?
  let rows := rows.insert key row
  (row.count ≤ maxPerWindow, if clears then sweep windowMs now rows else rows)

def allow (storage : Storage) (maxPerWindow : ℚ) (windowMs : ℤ) (key : String) (now : ℤ) (clears : Bool)
    (windows : Windows) : Bool × Windows :=
  match storage with
  | .memory => RateLimiter.allow maxPerWindow windowMs key now windows
  | .postgres => PostgresRateLimiter.allow maxPerWindow windowMs key now clears windows

theorem getElem?_sweep (windowMs now : ℤ) (windows : Windows) (key : String) :
    (sweep windowMs now windows)[key]? =
      windows[key]?.filter fun entry => ¬ windowMs ≤ now - entry.windowStart :=
  Std.TreeMap.getElem?_filter'

/-- A window that a sweep takes away has ended. -/
theorem sweep_cases (windowMs now : ℤ) (windows : Windows) (key : String) :
    (sweep windowMs now windows)[key]? = windows[key]? ∨
      (sweep windowMs now windows)[key]? = none ∧
        ∀ entry ∈ windows[key]?, entry.windowStart + windowMs ≤ now := by
  rw [getElem?_sweep]
  rcases windows[key]? with _ | entry
  · exact Or.inl rfl
  · by_cases hended : windowMs ≤ now - entry.windowStart
    · refine Or.inr ⟨by simp [Option.filter, hended], ?_⟩
      intro entry' hentry
      obtain rfl := Option.some.inj hentry
      omega
    · exact Or.inl (by simp [Option.filter, hended])

theorem RateLimiter.move_allow (maxPerWindow : ℚ) (windowMs : ℤ) (key : String) (now : ℤ)
    (windows : Windows) :
    Window.Move maxPerWindow windowMs now windows[key]?
      (RateLimiter.allow maxPerWindow windowMs key now windows).1
      (RateLimiter.allow maxPerWindow windowMs key now windows).2[key]? := by
  unfold RateLimiter.allow
  generalize hswept : (if SWEEP_THRESHOLD ≤ windows.size then sweep windowMs now windows else windows) = swept
  have hcases : swept[key]? = windows[key]? ∨
      swept[key]? = none ∧ ∀ entry ∈ windows[key]?, entry.windowStart + windowMs ≤ now := by
    subst hswept
    split_ifs
    · exact sweep_cases windowMs now windows key
    · exact Or.inl rfl
  dsimp only
  rcases hentry : swept[key]? with _ | entry
  · -- no window, or one that has been swept
    rw [Std.TreeMap.getElem?_insert_self]
    refine .opens ?_ true
    intro entry hbefore
    rcases hcases with hsame | ⟨-, hended⟩
    · rw [← hsame, hentry] at hbefore
      cases hbefore
    · exact hended entry hbefore
  · have hbefore : windows[key]? = some entry := by
      rcases hcases with hsame | ⟨hnone, -⟩
      · rw [← hsame, hentry]
      · rw [hentry] at hnone
        cases hnone
    rw [hbefore]
    dsimp only
    split_ifs with hended hfull
    · rw [Std.TreeMap.getElem?_insert_self]
      refine .opens ?_ true
      intro entry' hentry'
      obtain rfl := Option.some.inj hentry'
      omega
    · rw [hentry]
      exact .refuses entry.count le_rfl
    · rw [Std.TreeMap.getElem?_insert_self]
      exact .counts (by omega) (lt_of_not_ge hfull)

theorem PostgresRateLimiter.move_upsert (maxPerWindow : ℚ) (windowMs now : ℤ) (before : Option Window) :
    Window.Move maxPerWindow windowMs now before ((upsert windowMs now before).count ≤ maxPerWindow)
      (some (upsert windowMs now before)) := by
  cases before with
  | none => exact .opens (by simp) _
  | some row =>
    rw [upsert]
    split_ifs with hended
    · refine .opens ?_ _
      intro entry hentry
      obtain rfl := Option.some.inj hentry
      omega
    · by_cases hroom : ((row.count + 1 : ℕ) : ℚ) ≤ maxPerWindow
      · rw [decide_eq_true hroom]
        refine .counts (by omega) ?_
        calc (row.count : ℚ) < (row.count + 1 : ℕ) := by exact_mod_cast Nat.lt_succ_self _
          _ ≤ maxPerWindow := hroom
      · rw [decide_eq_false hroom]
        exact .refuses _ (Nat.le_succ _)

/-- The row that was just written has not ended. -/
theorem PostgresRateLimiter.upsert_running {windowMs : ℤ} (hspan : 0 < windowMs) (now : ℤ)
    (before : Option Window) : ¬ windowMs ≤ now - (upsert windowMs now before).windowStart := by
  cases before with
  | none =>
    rw [upsert]
    dsimp only
    omega
  | some row =>
    rw [upsert]
    split_ifs with hended
    · dsimp only
      omega
    · dsimp only
      omega

theorem PostgresRateLimiter.move_allow {maxPerWindow : ℚ} {windowMs : ℤ} (hspan : 0 < windowMs)
    (key : String) (now : ℤ) (clears : Bool) (rows : Windows) :
    Window.Move maxPerWindow windowMs now rows[key]?
      (PostgresRateLimiter.allow maxPerWindow windowMs key now clears rows).1
      (PostgresRateLimiter.allow maxPerWindow windowMs key now clears rows).2[key]? := by
  have hkept : (PostgresRateLimiter.allow maxPerWindow windowMs key now clears rows).2[key]? =
      some (upsert windowMs now rows[key]?) := by
    unfold PostgresRateLimiter.allow
    dsimp only
    split_ifs
    · rw [getElem?_sweep, Std.TreeMap.getElem?_insert_self]
      simp [Option.filter, upsert_running hspan]
    · exact Std.TreeMap.getElem?_insert_self
  rw [hkept]
  exact move_upsert maxPerWindow windowMs now rows[key]?

/-- Either limiter counts in fixed windows. -/
theorem move_allow (storage : Storage) (maxPerWindow : ℚ) {windowMs : ℤ} (hspan : 0 < windowMs)
    (key : String) (now : ℤ) (clears : Bool) (windows : Windows) :
    Window.Move maxPerWindow windowMs now windows[key]?
      (allow storage maxPerWindow windowMs key now clears windows).1
      (allow storage maxPerWindow windowMs key now clears windows).2[key]? := by
  cases storage with
  | memory => exact RateLimiter.move_allow maxPerWindow windowMs key now windows
  | postgres => exact PostgresRateLimiter.move_allow hspan key now clears windows

end RateLimiter

structure Request where
  method : String
  /-- The target as it was sent. -/
  url : String
  ip : String
  /-- The token after `Bearer`, where the header has one that is not too long. -/
  bearerToken : Option String
  /-- The clock and the draw when the policy is counted, and when the budget is. -/
  now : ℤ
  clears : Bool
  budgetNow : ℤ
  budgetClears : Bool

/-- A path as its characters. -/
abbrev Path := List Char

/-- `request.url.split("?")[0]`. -/
def Request.path (r : Request) : Path := r.url.toList.takeWhile (· ≠ '?')

structure Policy where
  name : String
  matchesRequest : String → Path → Bool
  max : ℚ
  windowMs : ℤ
  clientKey : Option (Request → String)

def READ_ONLY_PREFIX : String := "/mcp"

def readOnlyTrafficKey (readOnlyTokenDigest : String → String) (r : Request) : String :=
  match r.bearerToken with
  | none => "address:" ++ r.ip
  | some presented => "token:" ++ readOnlyTokenDigest presented

def CONNECT : PathPattern :=
  text "/accounts/" ++ nonSlash ++ text "/" ++
      (text "binance" ||| text "coinbase" ||| text "kraken" ||| text "ibkr" ||| text "wallet") ++
      text "-connection" ++ done |||
    text "/accounts/" ++ nonSlash ++ text "/wallet-challenge" ++ done

def RELAY : PathPattern :=
  text "/" ++ (text "identities" ||| text "tracks") ++ (text "/" ||| done) |||
    text "/accounts/" ++ nonSlash ++ text "/" ++ (text "activate" ||| text "remove") ++
      (text "-challenge" ||| text "") ++ done |||
    text "/profile/identity"

/-- `path.startsWith(head)`. -/
def startsWith (head : String) (path : Path) : Bool := (text head).test path

def DEFAULT_POLICIES (readOnlyTokenDigest : String → String) : List Policy := [
  { name := "sign-in",
    matchesRequest := fun m p => m = "POST" ∧ startsWith "/auth/" p ∧ p ≠ "/auth/signout".toList,
    max := 30, windowMs := 60000, clientKey := none },
  { name := "connect",
    matchesRequest := fun m p => m = "POST" ∧ CONNECT.test p,
    max := 10, windowMs := 10 * 60000, clientKey := none },
  { name := "relay",
    matchesRequest := fun m p => m ≠ "GET" ∧ RELAY.test p,
    max := 30, windowMs := 60 * 60000, clientKey := none },
  { name := "public",
    matchesRequest := fun _ p => startsWith "/public/" p,
    max := 120, windowMs := 60000, clientKey := none },
  { name := "read-only-api",
    matchesRequest := fun _ p => p = READ_ONLY_PREFIX.toList ∨ startsWith (READ_ONLY_PREFIX ++ "/") p,
    max := 60, windowMs := 60000, clientKey := some (readOnlyTrafficKey readOnlyTokenDigest) },
  { name := "api-tokens",
    matchesRequest := fun m p => m ≠ "GET" ∧ (p = "/api-tokens".toList ∨ startsWith "/api-tokens/" p),
    max := 20, windowMs := 60000, clientKey := none },
  { name := "other", matchesRequest := fun _ _ => true, max := 600, windowMs := 60000, clientKey := none }]

def DEFAULT_RELAY_BUDGET_PER_HOUR : ℚ := 300

structure Options where
  storage : Storage
  relayBudgetPerHour : Option ℚ
  limitMultiplier : Option ℚ
  readOnlyTokenDigest : String → String

def Options.scale (options : Options) : ℚ :=
  match options.limitMultiplier with
  | some limitMultiplier => if 0 < limitMultiplier then limitMultiplier else 1
  | none => 1

def Options.relayBudget (options : Options) : ℚ :=
  options.relayBudgetPerHour.getD DEFAULT_RELAY_BUDGET_PER_HOUR * options.scale

def BUDGET_WINDOW_MS : ℤ := 60 * 60000

/-- The routes under `/identities` and `/tracks`, and the others that broadcast. -/
inductive Route where
  | createIdentity | confirmChallenge | confirm | trackChallenge | createTrack
  | accountChallenge | registerAccount | declareEra | addMember | recordTransfer
  | activate | remove | setProfile
deriving DecidableEq

inductive Event where
  | charged (limiter key : String) (allowed : Bool)
  | handled (route : Route)
deriving DecidableEq

inductive Refusal where
  | rateLimited (retryAfter : ℤ)
  | relayBudgetExhausted (retryAfter : ℤ)
deriving DecidableEq

/-- The windows of every limiter: one for each policy, and the budget's. -/
structure Limits where
  policies : String → Windows
  relayBudget : Windows

structure Hooked where
  refusal : Option Refusal
  log : List Event
  limits : Limits

/-- The `onRequest` hook. -/
def onRequest (options : Options) (limits : Limits) (r : Request) : Hooked :=
  if r.method = "OPTIONS" then ⟨none, [], limits⟩
  else
    let spendsGas : Bool := r.method ≠ "GET" ∧ RELAY.test r.path
    match (DEFAULT_POLICIES options.readOnlyTokenDigest).find? (·.matchesRequest r.method r.path) with
    | none => ⟨none, [], limits⟩
    | some policy =>
      let client := (policy.clientKey.map (· r)).getD r.ip
      let key := policy.name ++ ":" ++ client
      let counted := allow options.storage (policy.max * options.scale) policy.windowMs key r.now r.clears
        (limits.policies policy.name)
      let limits := { limits with policies := Function.update limits.policies policy.name counted.2 }
      let log := [.charged policy.name key counted.1]
      if counted.1 = false then ⟨some (.rateLimited ((policy.windowMs + 999) / 1000)), log, limits⟩
      else if spendsGas then
        let spent := allow options.storage options.relayBudget BUDGET_WINDOW_MS "all" r.budgetNow
          r.budgetClears limits.relayBudget
        let limits := { limits with relayBudget := spent.2 }
        let log := log ++ [.charged "relay-budget" "all" spent.1]
        if spent.1 = false then ⟨some (.relayBudgetExhausted 3600), log, limits⟩ else ⟨none, log, limits⟩
      else ⟨none, log, limits⟩

/-- A parameter of a route: what lies between two slashes. -/
def param : PathPattern := nonSlash ||| text ""

def Route.method : Route → String
  | .setProfile => "PUT"
  | _ => "POST"

def Route.pattern : Route → PathPattern
  | .createIdentity => text "/identities" ++ done
  | .confirmChallenge => text "/identities/" ++ param ++ text "/confirm-challenge" ++ done
  | .confirm => text "/identities/" ++ param ++ text "/confirm" ++ done
  | .trackChallenge => text "/identities/" ++ param ++ text "/tracks/challenge" ++ done
  | .createTrack => text "/identities/" ++ param ++ text "/tracks" ++ done
  | .accountChallenge => text "/tracks/" ++ param ++ text "/accounts/challenge" ++ done
  | .registerAccount => text "/tracks/" ++ param ++ text "/accounts" ++ done
  | .declareEra => text "/tracks/" ++ param ++ text "/eras" ++ done
  | .addMember => text "/tracks/" ++ param ++ text "/members" ++ done
  | .recordTransfer => text "/tracks/" ++ param ++ text "/transfers" ++ done
  | .activate => text "/accounts/" ++ param ++ text "/activate" ++ done
  | .remove => text "/accounts/" ++ param ++ text "/remove" ++ done
  | .setProfile => text "/profile/identity" ++ done

def routes : List Route := [.createIdentity, .confirmChallenge, .confirm, .trackChallenge, .createTrack,
  .accountChallenge, .registerAccount, .declareEra, .addMember, .recordTransfer, .activate, .remove,
  .setProfile]

/-- The route of a request; `router` gives the path the router reads in a target. -/
def dispatch (router : String → Path) (r : Request) : Option Route :=
  routes.find? fun route => route.method = r.method ∧ route.pattern.test (router r.url)

structure Served where
  log : List Event
  limits : Limits

/-- The hook, and the handler where it refuses nothing. -/
def serve (options : Options) (router : String → Path) (limits : Limits) (r : Request) : Served :=
  let hooked := onRequest options limits r
  match hooked.refusal, dispatch router r with
  | none, some route => ⟨hooked.log ++ [.handled route], hooked.limits⟩
  | _, _ => ⟨hooked.log, hooked.limits⟩

section Paths

theorem startsWith_iff {head : String} {path : Path} :
    startsWith head path = true ↔ ∃ r, path = head.toList ++ r := by
  rw [startsWith, test_iff]
  simp only [mem_rests_text]

/-- No path that pays for gas is a sign-in. -/
theorem not_startsWith_auth {path : Path} (h : RELAY.test path = true) :
    startsWith "/auth/" path = false := by
  by_contra hauth
  rw [Bool.not_eq_false, startsWith_iff] at hauth
  obtain ⟨r, rfl⟩ := hauth
  cases h

/-- The words after an account that pay for gas. -/
def relayWords : List Path :=
  ["activate".toList, "activate-challenge".toList, "remove".toList, "remove-challenge".toList]

theorem relay_account {account word : Path} (hslash : '/' ∉ account) :
    RELAY.test ("/accounts/".toList ++ (account ++ '/' :: word)) = true ↔
      account ≠ [] ∧ word ∈ relayWords := by
  rw [test_iff]
  constructor
  · intro ⟨r, hr⟩
    simp [RELAY] at hr
    obtain ⟨⟨tail, ⟨mid, ⟨front, hne, hfront, heq⟩, hmid⟩, htail⟩, -⟩ := hr
    obtain ⟨rfl, rfl⟩ := nonSlash_inj hslash hfront heq
    refine ⟨hne, ?_⟩
    rcases hmid with rfl | rfl <;> rcases htail with rfl | rfl <;> decide
  · intro ⟨hne, hword⟩
    refine ⟨[], ?_⟩
    simp [RELAY]
    have hfront : ∃ front, ¬front = [] ∧ '/' ∉ front ∧ account ++ '/' :: word = front ++ '/' :: word :=
      ⟨account, hne, hslash, rfl⟩
    simp only [relayWords, List.mem_cons, List.not_mem_nil, or_false] at hword
    rcases hword with h | h | h | h
    · exact ⟨[], ⟨word, hfront, Or.inl h⟩, Or.inr rfl⟩
    · exact ⟨"-challenge".toList, ⟨word, hfront, Or.inl h⟩, Or.inl rfl⟩
    · exact ⟨[], ⟨word, hfront, Or.inr h⟩, Or.inr rfl⟩
    · exact ⟨"-challenge".toList, ⟨word, hfront, Or.inr h⟩, Or.inl rfl⟩

theorem connect_account {path : Path} (h : CONNECT.test path = true) :
    ∃ account word, '/' ∉ account ∧ path = "/accounts/".toList ++ (account ++ '/' :: word) ∧
      word ∉ relayWords := by
  rw [test_iff] at h
  obtain ⟨r, hr⟩ := h
  simp [CONNECT] at hr
  rcases hr with ⟨⟨word, ⟨account, hpath, -, hslash⟩, hword⟩, -⟩ | ⟨⟨account, hpath, -, hslash⟩, -⟩
  · refine ⟨account, word, hslash, hpath, ?_⟩
    rcases hword with (((rfl | rfl) | rfl) | rfl) | rfl <;> decide
  · exact ⟨account, "wallet-challenge".toList, hslash, hpath, by decide⟩

/-- No path that pays for gas is a connection. -/
theorem not_connect {path : Path} (h : RELAY.test path = true) : CONNECT.test path = false := by
  by_contra hconnect
  rw [Bool.not_eq_false] at hconnect
  obtain ⟨account, word, hslash, rfl, hword⟩ := connect_account hconnect
  exact hword ((relay_account hslash).1 h).2

theorem relay_identities {path r : Path} (h : path = "/identities/".toList ++ r) :
    RELAY.test path = true := by
  subst h
  rw [test_iff]
  exact ⟨r, by simp [RELAY]⟩

theorem relay_tracks {path r : Path} (h : path = "/tracks/".toList ++ r) : RELAY.test path = true := by
  subst h
  rw [test_iff]
  exact ⟨r, by simp [RELAY]⟩

theorem mem_rests_param {s r : Path} :
    r ∈ param.rests s ↔ ∃ front, '/' ∉ front ∧ s = front ++ r := by
  rw [param, mem_rests_either, mem_rests_nonSlash, mem_rests_text]
  constructor
  · intro h
    rcases h with ⟨front, -, hslash, rfl⟩ | rfl
    · exact ⟨front, hslash, rfl⟩
    · exact ⟨[], by simp, rfl⟩
  · intro ⟨front, hslash, hs⟩
    by_cases hne : front = []
    · subst hne
      exact Or.inr hs
    · exact Or.inl ⟨front, hne, hslash, hs⟩

/-- A path of one parameter between two texts. -/
theorem test_param {head tail : String} {path : Path}
    (h : (text head ++ param ++ text tail ++ done).test path = true) :
    ∃ front, '/' ∉ front ∧ path = head.toList ++ (front ++ tail.toList) := by
  rw [test_iff] at h
  obtain ⟨r, hr⟩ := h
  simp only [mem_rests_andThen, mem_rests_text, mem_rests_done, mem_rests_param] at hr
  obtain ⟨-, ⟨_, ⟨_, rfl, front, hslash, rfl⟩, rfl⟩, rfl, -⟩ := hr
  exact ⟨front, hslash, by simp⟩

/-- The paths of an account that has no name. -/
def nameless : List Path := ["/accounts//activate".toList, "/accounts//remove".toList]

theorem relay_iff_of_ne {path : Path} (h : RELAY.test path = true) (hne : path[1]? ≠ some 'a') :
    RELAY.test path = true ↔ path ∉ nameless := by
  refine ⟨fun _ hmem => ?_, fun _ => h⟩
  simp only [nameless, List.mem_cons, List.not_mem_nil, or_false] at hmem
  rcases hmem with rfl | rfl
  · exact hne rfl
  · exact hne rfl

theorem relay_iff_of_account {front word : Path} (hslash : '/' ∉ front)
    (hword : word = "activate".toList ∨ word = "remove".toList) :
    RELAY.test ("/accounts/".toList ++ (front ++ '/' :: word)) = true ↔
      "/accounts/".toList ++ (front ++ '/' :: word) ∉ nameless := by
  have hrelay : word ∈ relayWords := by
    rcases hword with rfl | rfl <;> decide
  have hnameless : "/accounts/".toList ++ (front ++ '/' :: word) ∈ nameless ↔ front = [] := by
    constructor
    · intro hmem
      simp only [nameless, List.mem_cons, List.not_mem_nil, or_false] at hmem
      have heq : ∃ w, front ++ '/' :: word = [] ++ '/' :: w := by
        rcases hmem with h | h
        · exact ⟨"activate".toList, List.append_cancel_left h⟩
        · exact ⟨"remove".toList, List.append_cancel_left h⟩
      obtain ⟨w, hw⟩ := heq
      exact (nonSlash_inj hslash (by simp) hw).1
    · intro h
      subst h
      rcases hword with rfl | rfl <;> decide
  rw [relay_account hslash, and_iff_left hrelay, hnameless]

/-- A path that spells out one of the routes pays for gas, but for an account without a name. -/
theorem relay_of_route {route : Route} {path : Path} (h : route.pattern.test path = true) :
    RELAY.test path = true ↔ path ∉ nameless := by
  cases route with
  | createIdentity =>
    rw [test_iff] at h
    obtain ⟨r, hr⟩ := h
    simp only [Route.pattern, mem_rests_andThen, mem_rests_text, mem_rests_done] at hr
    obtain ⟨-, rfl, rfl, -⟩ := hr
    exact relay_iff_of_ne rfl (by decide)
  | setProfile =>
    rw [test_iff] at h
    obtain ⟨r, hr⟩ := h
    simp only [Route.pattern, mem_rests_andThen, mem_rests_text, mem_rests_done] at hr
    obtain ⟨-, rfl, rfl, -⟩ := hr
    exact relay_iff_of_ne rfl (by decide)
  | activate =>
    obtain ⟨front, hslash, rfl⟩ := test_param h
    exact relay_iff_of_account hslash (Or.inl rfl)
  | remove =>
    obtain ⟨front, hslash, rfl⟩ := test_param h
    exact relay_iff_of_account hslash (Or.inr rfl)
  | confirmChallenge | confirm | trackChallenge | createTrack =>
    obtain ⟨front, -, hpath⟩ := test_param h
    exact relay_iff_of_ne (relay_identities hpath) (by simp [hpath])
  | accountChallenge | registerAccount | declareEra | addMember | recordTransfer =>
    obtain ⟨front, -, hpath⟩ := test_param h
    exact relay_iff_of_ne (relay_tracks hpath) (by simp [hpath])

end Paths

section Charges

variable {options : Options} {router : String → Path} {limits : Limits} {r : Request} {route : Route}

/-- The handler ran after the request had been counted against its client and against the budget. -/
def Charged (r : Request) (route : Route) (log : List Event) : Prop :=
  ∃ before after, log = before ++ .handled route :: after ∧
    .charged "relay" ("relay:" ++ r.ip) true ∈ before ∧ .charged "relay-budget" "all" true ∈ before

/-- What was counted for a request that is let through. -/
structure LetThrough (options : Options) (r : Request) (policy : Policy) (log : List Event) : Prop where
  found : (DEFAULT_POLICIES options.readOnlyTokenDigest).find? (·.matchesRequest r.method r.path) =
    some policy
  log_eq : log =
    .charged policy.name (policy.name ++ ":" ++ (policy.clientKey.map (· r)).getD r.ip) true ::
      if r.method ≠ "GET" ∧ RELAY.test r.path then [.charged "relay-budget" "all" true] else []

theorem exists_policy (options : Options) (r : Request) : ∃ policy,
    (DEFAULT_POLICIES options.readOnlyTokenDigest).find? (·.matchesRequest r.method r.path) =
      some policy := by
  refine Option.isSome_iff_exists.1 (List.find?_isSome.2 ⟨_, List.mem_of_getLast? rfl, rfl⟩)

theorem policy_names (digest : String → String) : (DEFAULT_POLICIES digest).map Policy.name =
    ["sign-in", "connect", "relay", "public", "read-only-api", "api-tokens", "other"] := rfl

/-- No policy shares its limiter with the budget. -/
theorem name_ne_budget {policy : Policy} {digest : String → String} (h : policy ∈ DEFAULT_POLICIES digest) :
    policy.name ≠ "relay-budget" := by
  have hmem : policy.name ∈ (DEFAULT_POLICIES digest).map Policy.name := List.mem_map_of_mem h
  rw [policy_names] at hmem
  intro hname
  rw [hname] at hmem
  revert hmem
  decide

theorem onRequest_letThrough (hmethod : r.method ≠ "OPTIONS")
    (h : (onRequest options limits r).refusal = none) :
    ∃ policy, LetThrough options r policy (onRequest options limits r).log := by
  obtain ⟨policy, hpolicy⟩ := exists_policy options r
  refine ⟨policy, hpolicy, ?_⟩
  unfold onRequest at h ⊢
  rw [if_neg hmethod] at h ⊢
  rw [hpolicy] at h ⊢
  dsimp only at h ⊢
  by_cases hgas : r.method ≠ "GET" ∧ RELAY.test r.path = true
  · rw [if_pos hgas]
    simp only [decide_eq_true hgas, if_true] at h ⊢
    split_ifs at h ⊢ with hcounted hspent
    rw [Bool.not_eq_false] at hcounted hspent
    rw [hcounted, hspent]
    rfl
  · rw [if_neg hgas]
    simp only [decide_eq_false hgas, Bool.false_eq_true, if_false] at h ⊢
    split_ifs at h ⊢ with hcounted
    rw [Bool.not_eq_false] at hcounted
    rw [hcounted]

/-- Requests that pay for gas are counted under the relay policy. -/
theorem find_relay (digest : String → String) (hmethod : r.method ≠ "GET") (h : RELAY.test r.path = true) :
    ∃ policy, (DEFAULT_POLICIES digest).find? (·.matchesRequest r.method r.path) = some policy ∧
      policy.name = "relay" ∧ policy.clientKey = none := by
  have hauth := not_startsWith_auth h
  have hconnect := not_connect h
  refine ⟨⟨"relay", fun m p => m ≠ "GET" ∧ RELAY.test p, 30, 60 * 60000, none⟩, ?_, rfl, rfl⟩
  rw [DEFAULT_POLICIES, List.find?_cons_of_neg, List.find?_cons_of_neg, List.find?_cons_of_pos]
  · exact decide_eq_true ⟨hmethod, h⟩
  · intro hmatch
    have hfound := (of_decide_eq_true hmatch).2
    rw [hconnect] at hfound
    cases hfound
  · intro hmatch
    have hfound := (of_decide_eq_true hmatch).2.1
    rw [hauth] at hfound
    cases hfound

/-- What the hook does to the budget's window. -/
theorem onRequest_budget (options : Options) (limits : Limits) (r : Request) :
    Window.Move options.relayBudget BUDGET_WINDOW_MS r.budgetNow limits.relayBudget["all"]?
      (.charged "relay-budget" "all" true ∈ (onRequest options limits r).log)
      (onRequest options limits r).limits.relayBudget["all"]? := by
  obtain ⟨policy, hpolicy⟩ := exists_policy options r
  have hname := name_ne_budget (List.mem_of_find?_eq_some hpolicy)
  unfold onRequest
  by_cases hmethod : r.method = "OPTIONS"
  · rw [if_pos hmethod, decide_eq_false List.not_mem_nil]
    exact .idle _
  · rw [if_neg hmethod, hpolicy]
    dsimp only
    split_ifs with hcounted hgas hspent
    · simpa [Ne.symm hname] using Window.Move.idle _
    · have hmove := move_allow options.storage options.relayBudget
        (show 0 < BUDGET_WINDOW_MS by decide) "all" r.budgetNow r.budgetClears limits.relayBudget
      rw [hspent] at hmove
      simpa [Ne.symm hname, hspent] using hmove
    · have hmove := move_allow options.storage options.relayBudget
        (show 0 < BUDGET_WINDOW_MS by decide) "all" r.budgetNow r.budgetClears limits.relayBudget
      rw [Bool.not_eq_false] at hspent
      rw [hspent] at hmove
      simpa [Ne.symm hname, hspent] using hmove
    · simpa [Ne.symm hname] using Window.Move.idle _

/-- The handler runs for a request that the hook lets through and the router sends there. -/
theorem handled_iff : .handled route ∈ (serve options router limits r).log ↔
    (onRequest options limits r).refusal = none ∧ dispatch router r = some route := by
  have hhook : ∀ route, .handled route ∉ (onRequest options limits r).log := by
    intro route
    unfold onRequest
    split_ifs
    · simp
    · split
      · simp
      · dsimp only
        split_ifs <;> simp
  unfold serve
  dsimp only
  rcases hrefusal : (onRequest options limits r).refusal with _ | refusal
  · rcases hdispatch : dispatch router r with _ | served
    · simp [hhook]
    · simp [hhook, eq_comm]
  · simp [hhook]

theorem serve_limits : (serve options router limits r).limits = (onRequest options limits r).limits := by
  unfold serve
  dsimp only
  split <;> rfl

theorem budget_mem_serve : .charged "relay-budget" "all" true ∈ (serve options router limits r).log ↔
    .charged "relay-budget" "all" true ∈ (onRequest options limits r).log := by
  unfold serve
  dsimp only
  split <;> simp

theorem method_of_dispatch (h : dispatch router r = some route) :
    r.method ≠ "OPTIONS" ∧ r.method ≠ "GET" := by
  have hroute := List.find?_some h
  rw [decide_eq_true_eq] at hroute
  rw [← hroute.1]
  cases route <;> decide

/-- A request whose handler runs has been charged just if the target as it was sent pays for gas. -/
theorem charged_iff (h : .handled route ∈ (serve options router limits r).log) :
    Charged r route (serve options router limits r).log ↔ RELAY.test r.path = true := by
  obtain ⟨hnone, hdispatch⟩ := handled_iff.1 h
  obtain ⟨hoptions, hget⟩ := method_of_dispatch hdispatch
  obtain ⟨policy, hthrough⟩ := onRequest_letThrough hoptions hnone
  have hname := name_ne_budget (List.mem_of_find?_eq_some hthrough.found)
  constructor
  · rintro ⟨before, after, hlog, -, hbudget⟩
    have hmem : .charged "relay-budget" "all" true ∈ (serve options router limits r).log := by
      rw [hlog]
      exact List.mem_append_left _ hbudget
    rw [budget_mem_serve, hthrough.log_eq] at hmem
    by_contra hrelay
    rw [if_neg fun hgas => hrelay hgas.2] at hmem
    simp [Ne.symm hname] at hmem
  · intro hrelay
    obtain ⟨relay, hfound, hrelayName, hkey⟩ := find_relay options.readOnlyTokenDigest hget hrelay
    obtain rfl := Option.some.inj (hthrough.found.symm.trans hfound)
    have hlog := hthrough.log_eq
    rw [if_pos ⟨hget, hrelay⟩, hrelayName, hkey] at hlog
    refine ⟨(onRequest options limits r).log, [], ?_, ?_, ?_⟩
    · simp [serve, hnone, hdispatch]
    · rw [hlog]
      exact List.mem_cons_self
    · rw [hlog]
      exact List.mem_cons_of_mem _ List.mem_cons_self

end Charges

section Budget

variable {options : Options} {router : String → Path}

/-- Requests in turn, each with what serving it did. -/
def serveAll (options : Options) (router : String → Path) : Limits → List Request → List (Request × Served)
  | _, [] => []
  | limits, r :: rest =>
    let served := serve options router limits r
    (r, served) :: serveAll options router served.limits rest

/-- The window of the budget that a request leaves. -/
def Served.hour (served : Served) : Option Window := served.limits.relayBudget["all"]?

/-- The handler of one of the routes ran. -/
def Served.pays (served : Served) : Bool :=
  served.log.any fun e => match e with
    | .handled _ => true
    | .charged .. => false

/-- The actions paid for in the hour that began at a time. -/
def paidIn (start : ℤ) (run : List (Request × Served)) : List (Request × Served) :=
  run.filter fun o => o.2.pays ∧ o.2.hour.map Window.windowStart = some start

/-- In a run the operator pays for no more actions an hour than the budget has. -/
structure WithinBudget (options : Options) (run : List (Request × Served)) : Prop where
  paid_le : ∀ start, (paidIn start run).length ≤ max 1 ⌈options.relayBudget⌉₊
  in_hour : ∀ o ∈ run, o.2.pays → ∃ w ∈ o.2.hour, o.1.budgetNow < w.windowStart + BUDGET_WINDOW_MS
  apart : run.Pairwise fun a b => Window.Follows BUDGET_WINDOW_MS a.2.hour b.2.hour

/-- What a request is in the history of the budget's limiter. -/
def moment (o : Request × Served) : Window.Moment :=
  ⟨o.1.budgetNow, .charged "relay-budget" "all" true ∈ o.2.log, o.2.hour⟩

theorem moves_serveAll (options : Options) (router : String → Path) (limits : Limits)
    (requests : List Request) :
    Window.Moves options.relayBudget BUDGET_WINDOW_MS limits.relayBudget["all"]?
      ((serveAll options router limits requests).map moment) := by
  induction requests generalizing limits with
  | nil => trivial
  | cons r rest ih =>
    refine ⟨?_, ih _⟩
    have hmove := onRequest_budget options limits r
    rw [← @serve_limits options router] at hmove
    simpa only [moment, Served.hour, budget_mem_serve] using hmove

theorem pays_iff {served : Served} : served.pays = true ↔ ∃ route, .handled route ∈ served.log := by
  rw [Served.pays, List.any_eq_true]
  constructor
  · intro ⟨e, he, hpays⟩
    cases e with
    | charged => cases hpays
    | handled route => exact ⟨route, he⟩
  · intro ⟨route, hmem⟩
    exact ⟨_, hmem, rfl⟩

theorem mem_serveAll {limits : Limits} {requests : List Request} {o : Request × Served}
    (h : o ∈ serveAll options router limits requests) :
    o.1 ∈ requests ∧ ∃ limits', o.2 = serve options router limits' o.1 := by
  induction requests generalizing limits with
  | nil => cases h
  | cons r rest ih =>
    rcases List.mem_cons.1 h with rfl | hrest
    · exact ⟨List.mem_cons_self, limits, rfl⟩
    · obtain ⟨hmem, hserve⟩ := ih hrest
      exact ⟨List.mem_cons_of_mem _ hmem, hserve⟩

/-- Where every target that reaches a route pays for gas as it was sent, what is paid for was counted. -/
theorem budget_of_pays {limits : Limits} {requests : List Request}
    (hspelled : ∀ r ∈ requests, dispatch router r ≠ none → RELAY.test r.path = true)
    {o : Request × Served} (ho : o ∈ serveAll options router limits requests) (hpays : o.2.pays = true) :
    .charged "relay-budget" "all" true ∈ o.2.log := by
  obtain ⟨hmem, limits', hserve⟩ := mem_serveAll ho
  obtain ⟨route, hroute⟩ := pays_iff.1 hpays
  rw [hserve] at hroute ⊢
  have hdispatch := (handled_iff.1 hroute).2
  have hrelay := hspelled o.1 hmem (by simp [hdispatch])
  obtain ⟨before, after, hlog, -, hbudget⟩ := (charged_iff hroute).2 hrelay
  rw [hlog]
  exact List.mem_append_left _ hbudget

theorem withinBudget_serveAll {limits : Limits} {requests : List Request}
    (hspelled : ∀ r ∈ requests, dispatch router r ≠ none → RELAY.test r.path = true) :
    WithinBudget options (serveAll options router limits requests) := by
  have hspan : 0 < BUDGET_WINDOW_MS := by decide
  have hmoves := moves_serveAll options router limits requests
  constructor
  · intro start
    have hle : (paidIn start (serveAll options router limits requests)).length ≤
        (Window.through start ((serveAll options router limits requests).map moment)).length := by
      rw [paidIn, Window.through, ← List.countP_eq_length_filter, ← List.countP_eq_length_filter,
        List.countP_map]
      refine List.countP_mono_left fun o ho hpaid => ?_
      obtain ⟨hpays, hhour⟩ := of_decide_eq_true hpaid
      exact decide_eq_true ⟨decide_eq_true (budget_of_pays hspelled ho hpays), hhour⟩
    exact hle.trans (Window.through_le hspan hmoves start)
  · intro o ho hpays
    have hallowed : (moment o).allowed = true := decide_eq_true (budget_of_pays hspelled ho hpays)
    exact hmoves.running hspan (List.mem_map_of_mem ho) hallowed
  · have hapart := hmoves.pairwise hspan
    rw [List.pairwise_map] at hapart
    exact hapart

end Budget

section Spellings

def hexDigit? (c : Char) : Option ℕ :=
  if '0' ≤ c ∧ c ≤ '9' then some (c.toNat - '0'.toNat)
  else if 'a' ≤ c ∧ c ≤ 'f' then some (c.toNat - 'a'.toNat + 10)
  else if 'A' ≤ c ∧ c ≤ 'F' then some (c.toNat - 'A'.toNat + 10)
  else none

/-- The characters that stay encoded in a path. -/
def reserved : List Char := "#$&+,/:;=?@".toList

/-- Percent-decoding of a path, one byte a character. -/
def decodePath : List Char → Path
  | '%' :: a :: b :: rest =>
    match hexDigit? a, hexDigit? b with
    | some high, some low =>
      let c := Char.ofNat (16 * high + low)
      if c ∈ reserved then '%' :: a :: b :: decodePath rest else c :: decodePath rest
    | _, _ => '%' :: decodePath (a :: b :: rest)
  | c :: rest => c :: decodePath rest
  | [] => []

/-- A target without its scheme and host. -/
def originForm (target : List Char) : List Char :=
  if target.head? = some '/' then target
  else
    match "http://".toList.isPrefixOf? target <|> "https://".toList.isPrefixOf? target with
    | some rest => if '/' ∈ rest then rest.dropWhile (· ≠ '/') else target
    | none => target

/-- A router that reads the path of a target and decodes it. -/
def decodingRouter (target : String) : Path :=
  decodePath ((originForm target.toList).takeWhile fun c => c ≠ '?' ∧ c ≠ '#')

def sent (method url : String) : Request := ⟨method, url, "203.0.113.7", none, 0, false, 0, false⟩

def freshLimits : Limits := ⟨fun _ => ∅, ∅⟩

def oneAnHour : Options := ⟨.postgres, some 1, none, id⟩

def createOne : Request := sent "POST" "/identities?x=1"

end Spellings

end Linvesther.Api.Traffic
