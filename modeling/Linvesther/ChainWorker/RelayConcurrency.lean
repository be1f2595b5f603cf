import Linvesther.ChainWorker.Relayer

/-! `relay` as its calls interleave: between the lookup of a key and the save of its record a call waits
for the node up to five times, and the other calls that share the store go on meanwhile. -/

namespace Linvesther.ChainWorker

section Interleaving

variable {D : Type}

/-- The transactions of the relayer's account that the node knows, mined or pending, and the nonces below
which all are mined. -/
structure Node where
  confirmed : ℕ
  transactions : List (ℕ × Hex)
deriving DecidableEq

def Node.counts (node : Node) (nonce : ℕ) : Prop :=
  nonce < node.confirmed ∨ nonce ∈ node.transactions.map Prod.fst

instance (node : Node) (nonce : ℕ) : Decidable (node.counts nonce) :=
  inferInstanceAs (Decidable (_ ∨ _))

/-- The first nonce that the node does not count. -/
def Node.pendingNonce (node : Node) : ℕ :=
  ((List.range' node.confirmed (node.transactions.length + 1)).find? (¬ node.counts ·)).getD 0

def Node.knows (node : Node) (txHash : Hex) : Bool := txHash ∈ node.transactions.map Prod.snd

/-- A transaction takes the place of one with its nonce. -/
def Node.accept (node : Node) (nonce : ℕ) (txHash : Hex) : Node :=
  { node with transactions := (nonce, txHash) :: node.transactions.filter (·.1 ≠ nonce) }

/-- What a call waits for. -/
inductive Await where
  | getTransaction (existing : RelayRecord)
  | getBalance
  | getPendingNonce
  | sendTransaction (nonce : ℕ)
  /-- The node has taken the transaction, and its answer is on the way. -/
  | response (nonce : ℕ) (txHash : Hex)
deriving DecidableEq

/-- A call, with how long the log was when it looked its key up and when it was told a nonce. -/
structure RunningCall (D : Type) where
  request : RelayRequest D
  await : Await
  lookedUp : ℕ
  nonceRead : ℕ
deriving DecidableEq

inductive CallState (D : Type) where
  | idle
  | running (c : RunningCall D)
  | settled (result : Except RelayError Hex)

/-- What happened in order: no call reads it. -/
inductive RelayEvent (D : Type) where
  | sent (call : ℕ) (request : RelayRequest D) (nonce : ℕ) (txHash : Hex)
  | saved (call : ℕ)
  | unknown (txHash : Hex)
deriving DecidableEq

/-- The calls by a number of their own, what they share, and the log. -/
structure Relaying (D : Type) where
  calls : ℕ → CallState D
  records : String → Option RelayRecord
  node : Node
  log : List (RelayEvent D)

def Relaying.init (node : Node) : Relaying D := ⟨fun _ => .idle, fun _ => none, node, []⟩

/-- A call begins, the node changes, or it answers or fails the call that waits. What it answers besides
what it knows is its balance, or the hash of what it is sent. -/
inductive Move (D : Type) where
  | call (i : ℕ) (request : RelayRequest D)
  | node (node : Node)
  | answer (i : ℕ) (balance : ℕ) (txHash : Hex)
  | fail (i : ℕ)

def Relaying.set (s : Relaying D) (i : ℕ) (state : CallState D) : Relaying D :=
  { s with calls := Function.update s.calls i state }

/-- What `relay` does before it waits for the first time. -/
def Relaying.begin (s : Relaying D) (i : ℕ) (request : RelayRequest D) : Relaying D :=
  let await := match s.records request.dedupKey with
    | some existing => .getTransaction existing
    | none => .getBalance
  s.set i (.running ⟨request, await, s.log.length, s.log.length⟩)

/-- What a call does with an answer, up to where it waits again. -/
def Relaying.resume (minBalanceWei : ℕ) (s : Relaying D) (i : ℕ) (c : RunningCall D) (balance : ℕ)
    (txHash : Hex) : Relaying D :=
  match c.await with
  | .getTransaction existing =>
    if s.node.knows existing.txHash then s.set i (.settled (.ok existing.txHash))
    else
      { s.set i (.running { c with await := .getBalance }) with
        log := s.log ++ [.unknown existing.txHash] }
  | .getBalance =>
    if balance < minBalanceWei then s.set i (.settled (.error .relayerUnderfunded))
    else s.set i (.running { c with await := .getPendingNonce })
  | .getPendingNonce =>
    s.set i (.running { c with
      await := .sendTransaction s.node.pendingNonce, nonceRead := s.log.length })
  | .sendTransaction nonce =>
    { s.set i (.running { c with await := .response nonce txHash }) with
      node := s.node.accept nonce txHash
      log := s.log ++ [.sent i c.request nonce txHash] }
  | .response nonce txHash =>
    { s.set i (.settled (.ok txHash)) with
      records := Function.update s.records c.request.dedupKey (some ⟨nonce, txHash⟩)
      log := s.log ++ [.saved i] }

def Relaying.step (minBalanceWei : ℕ) (s : Relaying D) : Move D → Relaying D
  | .call i request =>
    match s.calls i with
    | .idle => s.begin i request
    | _ => s
  | .node node => { s with node }
  | .answer i balance txHash =>
    match s.calls i with
    | .running c => s.resume minBalanceWei i c balance txHash
    | _ => s
  | .fail i =>
    match s.calls i with
    | .running _ => s.set i (.settled (.error .rpc))
    | _ => s

def Relaying.run (minBalanceWei : ℕ) (s : Relaying D) (moves : List (Move D)) : Relaying D :=
  moves.foldl (Relaying.step minBalanceWei) s

def RelayEvent.isSent : RelayEvent D → Bool
  | .sent .. => true
  | _ => false

/-- What was sent under a key. -/
def RelayEvent.under (dedupKey : String) : RelayEvent D → Option RelayRecord
  | .sent _ request nonce txHash => if request.dedupKey = dedupKey then some ⟨nonce, txHash⟩ else none
  | _ => none

/-- All that was sent under the key has been saved. -/
def AllSaved (dedupKey : String) (log : List (RelayEvent D)) : Prop :=
  ∀ i request nonce txHash, .sent i request nonce txHash ∈ log → request.dedupKey = dedupKey →
    .saved i ∈ log

/-- A nonce is told by a node that counts all it was sent. A transaction is sent by a call that has seen
all that was sent under its key, and nothing was sent since it was told the nonce. -/
def Undisturbed (s : Relaying D) : Move D → Prop
  | .answer i _ _ =>
    match s.calls i with
    | .running c =>
      match c.await with
      | .getPendingNonce => ∀ call request nonce txHash,
          .sent call request nonce txHash ∈ s.log → s.node.counts nonce
      | .sendTransaction _ =>
        AllSaved c.request.dedupKey (s.log.take c.lookedUp) ∧
          (∀ e ∈ s.log.drop c.lookedUp, e.under c.request.dedupKey = none) ∧
          ∀ e ∈ s.log.drop c.nonceRead, e.isSent = false
      | _ => True
    | _ => True
  | _ => True

/-- No two requests are sent with one nonce, and what is sent under a key that was sent under before is
sent after the node was found not to know the one before. -/
structure Idempotent (log : List (RelayEvent D)) : Prop where
  nonces : ∀ (j k call call' : ℕ) (request request' : RelayRequest D) (nonce : ℕ) (txHash txHash' : Hex),
    log[j]? = some (.sent call request nonce txHash) →
    log[k]? = some (.sent call' request' nonce txHash') → request = request'
  keys : ∀ (j k call call' : ℕ) (request request' : RelayRequest D) (nonce nonce' : ℕ)
      (txHash txHash' : Hex), j < k →
    log[j]? = some (.sent call request nonce txHash) →
    log[k]? = some (.sent call' request' nonce' txHash') → request.dedupKey = request'.dedupKey →
    ∃ m, j < m ∧ m < k ∧ log[m]? = some (.unknown txHash)

end Interleaving

section Log

variable {D : Type} {log : List (RelayEvent D)} {e : RelayEvent D} {dedupKey : String}

/-- The last transaction that was sent under a key. -/
def lastSent (dedupKey : String) (log : List (RelayEvent D)) : Option RelayRecord :=
  (log.filterMap (RelayEvent.under dedupKey)).getLast?

theorem lastSent_append (log : List (RelayEvent D)) (e : RelayEvent D) (dedupKey : String) :
    lastSent dedupKey (log ++ [e]) = (e.under dedupKey).or (lastSent dedupKey log) := by
  rw [lastSent, List.filterMap_append, List.getLast?_append]
  cases h : e.under dedupKey <;> simp [h, lastSent]

theorem lastSent_of_drop {p : ℕ} (h : ∀ e ∈ log.drop p, e.under dedupKey = none) :
    lastSent dedupKey log = lastSent dedupKey (log.take p) := by
  rw [lastSent, lastSent, ← List.take_append_drop p log, List.filterMap_append,
    List.filterMap_eq_nil_iff.2 h, List.append_nil, List.take_append_drop]

/-- What is sent under a key comes before a place after which nothing is. -/
theorem lt_of_under {j n : ℕ} {e : RelayEvent D} (hj : log[j]? = some e) (hunder : e.under dedupKey ≠ none)
    (hsince : ∀ e ∈ log.drop n, e.under dedupKey = none) : j < n := by
  by_contra hle
  refine hunder (hsince e (List.mem_of_getElem? (i := j - n) ?_))
  rw [List.getElem?_drop, Nat.add_sub_cancel' (Nat.not_lt.1 hle), hj]

/-- The last one was sent no earlier than any other under the key. -/
theorem exists_lastSent {j call : ℕ} {request : RelayRequest D} {nonce : ℕ} {txHash : Hex}
    (h : log[j]? = some (.sent call request nonce txHash)) (hkey : request.dedupKey = dedupKey) :
    ∃ k call' request' nonce' txHash', j ≤ k ∧ log[k]? = some (.sent call' request' nonce' txHash') ∧
      request'.dedupKey = dedupKey ∧ lastSent dedupKey log = some ⟨nonce', txHash'⟩ := by
  induction log using List.reverseRecOn with
  | nil => simp at h
  | append_singleton log e ih =>
    rw [lastSent_append]
    have hearlier : j < log.length → e.under dedupKey = none → ∃ k call' request' nonce' txHash', j ≤ k ∧
        (log ++ [e])[k]? = some (.sent call' request' nonce' txHash') ∧ request'.dedupKey = dedupKey ∧
        (e.under dedupKey).or (lastSent dedupKey log) = some ⟨nonce', txHash'⟩ := by
      intro hj hunder
      rw [List.getElem?_append_left hj] at h
      obtain ⟨k, call', request', nonce', txHash', hjk, hk, hkey', hlast⟩ := ih h
      have hlt : k < log.length := (List.getElem?_eq_some_iff.1 hk).1
      refine ⟨k, call', request', nonce', txHash', hjk, ?_, hkey', by rw [hunder, hlast]; rfl⟩
      rw [List.getElem?_append_left hlt, hk]
    have hj : j < log.length ∨ j = log.length := by
      have := (List.getElem?_eq_some_iff.1 h).1
      rw [List.length_append, List.length_singleton] at this
      omega
    cases hunder : e.under dedupKey with
    | none =>
      refine hunder ▸ hearlier (hj.resolve_right ?_) hunder
      rintro rfl
      rw [List.getElem?_concat_length, Option.some.injEq] at h
      subst h
      simp [RelayEvent.under, hkey] at hunder
    | some r =>
      cases e with
      | saved call => cases hunder
      | unknown txHash => cases hunder
      | sent call' request' nonce' txHash' =>
        simp only [RelayEvent.under, Option.ite_none_right_eq_some, Option.some.injEq] at hunder
        obtain ⟨hkey', rfl⟩ := hunder
        exact ⟨log.length, call', request', nonce', txHash', by omega, List.getElem?_concat_length ..,
          hkey', rfl⟩

theorem AllSaved.of_append (h : AllSaved dedupKey (log ++ [e])) (hsaved : ∀ call, e ≠ .saved call) :
    AllSaved dedupKey log := by
  intro call request nonce txHash hsent hkey
  have hin := h call request nonce txHash (List.mem_append_left _ hsent) hkey
  rcases List.mem_append.1 hin with hold | hnew
  · exact hold
  · exact absurd (List.mem_singleton.1 hnew).symm (hsaved call)

theorem take_append_of_le {p : ℕ} (hp : p ≤ log.length) : (log ++ [e]).take p = log.take p :=
  List.take_append_of_le_length hp

end Log

section Alone

open Program

variable {D Log E : Type} {w : Relaying D} {i : ℕ} {minBalanceWei : ℕ} {a : Answers E}

/-- What a program returned or threw. -/
def outcome {σ α : Type} : EStateM.Result RelayError σ α → Except RelayError α
  | .ok a _ => .ok a
  | .error e _ => .error e

theorem broadcast_const (hup : a.up = true) (s : RelayState D Log) (request : RelayRequest D) :
    broadcast (fun _ => a) minBalanceWei request s =
      if a.balance < minBalanceWei then .error .relayerUnderfunded { s with clock := s.clock + 1 }
      else .ok a.txHash
        { s with
          clock := s.clock + 1 + 1 + 1
          sent := s.sent ++ [⟨a.txHash, request.to_, request.data, a.pendingNonce⟩]
          records := Function.update s.records request.dedupKey (some ⟨a.pendingNonce, a.txHash⟩) } := by
  rw [broadcast, bind_of_ok (ask_up hup _)]
  split_ifs
  · rfl
  · rw [bind_of_ok (ask_up hup _), bind_of_ok (ask_up hup _)]
    rfl

/-- A call that has settled is not resumed. -/
theorem run_settled {result : Except RelayError Hex} (h : w.calls i = .settled result) (balance : ℕ)
    (txHash : Hex) (n : ℕ) :
    w.run minBalanceWei (List.replicate n (.answer i balance txHash)) = w := by
  induction n with
  | zero => rfl
  | succ n ih =>
    rw [List.replicate_succ, Relaying.run, List.foldl_cons]
    simp only [Relaying.step, h]
    exact ih

/-- From the balance on, with no other call coming between. -/
theorem run_from_balance {request : RelayRequest D} {l m : ℕ} (balance : ℕ) (txHash : Hex)
    (h : w.calls i = .running ⟨request, .getBalance, l, m⟩) (n : ℕ) :
    let w' := w.run minBalanceWei (List.replicate (4 + n) (.answer i balance txHash))
    if balance < minBalanceWei then
      w'.records = w.records ∧ w'.calls i = .settled (.error .relayerUnderfunded)
    else
      w'.records =
          Function.update w.records request.dedupKey (some ⟨w.node.pendingNonce, txHash⟩) ∧
        w'.calls i = .settled (.ok txHash) := by
  have hsplit : w.run minBalanceWei (List.replicate (4 + n) (.answer i balance txHash)) =
      (w.run minBalanceWei (List.replicate 4 (.answer i balance txHash))).run minBalanceWei
        (List.replicate n (.answer i balance txHash)) := by
    rw [List.replicate_add, Relaying.run, List.foldl_append]
    rfl
  rw [hsplit]
  split_ifs with hlow
  · have hfour : (w.run minBalanceWei (List.replicate 4 (.answer i balance txHash))).records = w.records ∧
        (w.run minBalanceWei (List.replicate 4 (.answer i balance txHash))).calls i =
          .settled (.error .relayerUnderfunded) := by
      simp [Relaying.run, Relaying.step, Relaying.resume, Relaying.set, List.replicate, h, hlow]
    rwa [run_settled hfour.2]
  · have hfour : (w.run minBalanceWei (List.replicate 4 (.answer i balance txHash))).records =
          Function.update w.records request.dedupKey (some ⟨w.node.pendingNonce, txHash⟩) ∧
        (w.run minBalanceWei (List.replicate 4 (.answer i balance txHash))).calls i =
          .settled (.ok txHash) := by
      simp [Relaying.run, Relaying.step, Relaying.resume, Relaying.set, List.replicate, h, hlow]
    rwa [run_settled hfour.2]

/-- A call that no other comes between does what `relay` does. -/
theorem run_alone (hup : a.up = true) (s : RelayState D Log) (hrecords : w.records = s.records)
    (hidle : w.calls i = .idle) (hknows : a.knows = w.node.knows)
    (hnonce : a.pendingNonce = w.node.pendingNonce) (request : RelayRequest D) :
    let w' := w.run minBalanceWei (.call i request :: List.replicate 5 (.answer i a.balance a.txHash))
    let result := relay (fun _ => a) minBalanceWei request s
    w'.records = (final result).records ∧ w'.calls i = .settled (outcome result) := by
  intro w' result
  have hw' : w' = (w.begin i request).run minBalanceWei
      (List.replicate 5 (.answer i a.balance a.txHash)) := by
    simp only [w', Relaying.run, List.foldl_cons, Relaying.step, hidle]
  cases hr : s.records request.dedupKey with
  | none =>
    have hresult : result = broadcast (fun _ => a) minBalanceWei request s := by
      simp only [result, relay, bind, EStateM.bind, get, getThe, MonadStateOf.get, EStateM.get, hr]
    have hstart : (w.begin i request).calls i =
        .running ⟨request, .getBalance, w.log.length, w.log.length⟩ := by
      simp [Relaying.begin, Relaying.set, hrecords, hr]
    have hrun := @run_from_balance _ (w.begin i request) i minBalanceWei _ _ _ a.balance a.txHash hstart 1
    rw [hresult, broadcast_const hup, hw']
    dsimp only at hrun
    split_ifs at hrun ⊢
    · exact ⟨hrun.1.trans hrecords, hrun.2⟩
    · refine ⟨hrun.1.trans ?_, hrun.2⟩
      simp [Relaying.begin, Relaying.set, hrecords, hnonce, final]
  | some existing =>
    have hresult : result = if a.knows existing.txHash then
          .ok existing.txHash { s with clock := s.clock + 1 }
        else broadcast (fun _ => a) minBalanceWei request { s with clock := s.clock + 1 } := by
      simp only [result, relay, nextAnswers, bind, EStateM.bind, get, getThe, MonadStateOf.get, EStateM.get,
        hr, modify, modifyGet, MonadStateOf.modifyGet, EStateM.modifyGet, pure, EStateM.pure, hup,
        Bool.true_and]
      split_ifs <;> rfl
    have hstart : (w.begin i request).calls i =
        .running ⟨request, .getTransaction existing, w.log.length, w.log.length⟩ := by
      simp [Relaying.begin, Relaying.set, hrecords, hr]
    have hfirst : w' = ((w.begin i request).resume minBalanceWei i
        ⟨request, .getTransaction existing, w.log.length, w.log.length⟩ a.balance a.txHash).run
          minBalanceWei (List.replicate 4 (.answer i a.balance a.txHash)) := by
      rw [hw', List.replicate_succ, Relaying.run, List.foldl_cons]
      simp only [Relaying.step, hstart]
      rfl
    by_cases hknown : a.knows existing.txHash = true
    · have hsettled : ((w.begin i request).resume minBalanceWei i
          ⟨request, .getTransaction existing, w.log.length, w.log.length⟩ a.balance a.txHash) =
            (w.begin i request).set i (.settled (.ok existing.txHash)) := by
        rw [hknows] at hknown
        exact if_pos hknown
      have hdone : ((w.begin i request).set i (.settled (.ok existing.txHash))).calls i =
          .settled (.ok existing.txHash) := Function.update_self ..
      rw [hfirst, hsettled, run_settled hdone, hresult, if_pos hknown]
      exact ⟨hrecords, hdone⟩
    · have hunknown : ((w.begin i request).resume minBalanceWei i
          ⟨request, .getTransaction existing, w.log.length, w.log.length⟩ a.balance a.txHash) =
            { (w.begin i request).set i (.running ⟨request, .getBalance, w.log.length, w.log.length⟩) with
              log := (w.begin i request).log ++ [.unknown existing.txHash] } := by
        rw [hknows] at hknown
        exact if_neg hknown
      rw [hfirst, hunknown]
      have hrun := @run_from_balance _
        { (w.begin i request).set i (.running ⟨request, .getBalance, w.log.length, w.log.length⟩) with
          log := (w.begin i request).log ++ [.unknown existing.txHash] }
        i minBalanceWei request _ _ a.balance a.txHash (Function.update_self ..) 0
      rw [hresult, if_neg hknown, broadcast_const hup]
      dsimp only at hrun
      split_ifs at hrun ⊢
      · exact ⟨hrun.1.trans hrecords, hrun.2⟩
      · refine ⟨hrun.1.trans ?_, hrun.2⟩
        simp [Relaying.begin, Relaying.set, hrecords, hnonce, final]

end Alone

section Invariant

variable {D : Type} {s : Relaying D} {log : List (RelayEvent D)} {e : RelayEvent D} {i : ℕ}
  {c : RunningCall D}

/-- What a call found when it looked its key up, if all that was sent under it had been saved by then. -/
def Await.Found (dedupKey : String) (before since : List (RelayEvent D)) : Await → Prop
  | .getTransaction existing => lastSent dedupKey before = some existing
  | _ => ∀ r ∈ lastSent dedupKey before, .unknown r.txHash ∈ since

structure CallInv (log : List (RelayEvent D)) (i : ℕ) (c : RunningCall D) : Prop where
  lookedUp_le : c.lookedUp ≤ log.length
  nonceRead_le : c.nonceRead ≤ log.length
  unsaved : .saved i ∉ log
  found : AllSaved c.request.dedupKey (log.take c.lookedUp) →
    c.await.Found c.request.dedupKey (log.take c.lookedUp) (log.drop c.lookedUp)
  fresh : ∀ nonce, c.await = .sendTransaction nonce → ∀ call request txHash,
    .sent call request nonce txHash ∉ log.take c.nonceRead
  latest : ∀ nonce txHash, c.await = .response nonce txHash →
    .sent i c.request nonce txHash ∈ log ∧ lastSent c.request.dedupKey log = some ⟨nonce, txHash⟩
  own : ∀ request nonce txHash, .sent i request nonce txHash ∈ log →
    c.await = .response nonce txHash ∧ request = c.request

structure RelayInv (s : Relaying D) : Prop where
  calls : ∀ i c, s.calls i = .running c → CallInv s.log i c
  idle : ∀ i, s.calls i = .idle → .saved i ∉ s.log ∧
    ∀ request nonce txHash, .sent i request nonce txHash ∉ s.log
  records : ∀ dedupKey, AllSaved dedupKey s.log → s.records dedupKey = lastSent dedupKey s.log
  idempotent : Idempotent s.log

theorem Await.Found.append {dedupKey : String} {before since : List (RelayEvent D)} {await : Await}
    (h : await.Found dedupKey before since) (e : RelayEvent D) :
    await.Found dedupKey before (since ++ [e]) := by
  cases await with
  | getTransaction existing => exact h
  | getBalance => exact fun r hr => List.mem_append_left _ (h r hr)
  | getPendingNonce => exact fun r hr => List.mem_append_left _ (h r hr)
  | sendTransaction nonce => exact fun r hr => List.mem_append_left _ (h r hr)
  | response nonce txHash => exact fun r hr => List.mem_append_left _ (h r hr)

/-- What the other calls do leaves what a call knows. -/
theorem CallInv.append (h : CallInv log i c) (hsaved : e ≠ .saved i)
    (hsent : ∀ request nonce txHash, e ≠ .sent i request nonce txHash)
    (hunder : ∀ nonce txHash, c.await = .response nonce txHash → e.under c.request.dedupKey = none) :
    CallInv (log ++ [e]) i c := by
  have htake : (log ++ [e]).take c.lookedUp = log.take c.lookedUp := take_append_of_le h.lookedUp_le
  refine ⟨?_, ?_, ?_, fun hall => ?_, fun nonce hawait call request txHash hmem => ?_,
    fun nonce txHash hawait => ?_, fun request nonce txHash hmem => ?_⟩
  · rw [List.length_append]
    exact h.lookedUp_le.trans (Nat.le_add_right _ _)
  · rw [List.length_append]
    exact h.nonceRead_le.trans (Nat.le_add_right _ _)
  · intro hmem
    rcases List.mem_append.1 hmem with hold | hnew
    · exact h.unsaved hold
    · exact hsaved (List.mem_singleton.1 hnew).symm
  · rw [htake] at hall ⊢
    rw [List.drop_append_of_le_length h.lookedUp_le]
    exact (h.found hall).append e
  · rw [take_append_of_le h.nonceRead_le] at hmem
    exact h.fresh nonce hawait call request txHash hmem
  · obtain ⟨hmem, hlast⟩ := h.latest nonce txHash hawait
    refine ⟨List.mem_append_left _ hmem, ?_⟩
    rw [lastSent_append, hunder nonce txHash hawait]
    exact hlast
  · rcases List.mem_append.1 hmem with hold | hnew
    · exact h.own request nonce txHash hold
    · exact absurd (List.mem_singleton.1 hnew).symm (hsent request nonce txHash)

theorem Idempotent.append (h : Idempotent log) (he : e.isSent = false) : Idempotent (log ++ [e]) := by
  have hsent : ∀ (j call : ℕ) (request : RelayRequest D) (nonce : ℕ) (txHash : Hex),
      (log ++ [e])[j]? = some (.sent call request nonce txHash) →
        log[j]? = some (.sent call request nonce txHash) := by
    intro j call request nonce txHash hj
    rw [List.getElem?_append] at hj
    split_ifs at hj with hlt
    · exact hj
    · have hmem := List.mem_singleton.1 (List.mem_of_getElem? hj)
      subst hmem
      cases he
  refine ⟨fun j k call call' request request' nonce txHash txHash' hj hk =>
    h.nonces j k call call' request request' nonce txHash txHash' (hsent _ _ _ _ _ hj) (hsent _ _ _ _ _ hk),
    fun j k call call' request request' nonce nonce' txHash txHash' hjk hj hk hkey => ?_⟩
  obtain ⟨m, hjm, hmk, hm⟩ := h.keys j k call call' request request' nonce nonce' txHash txHash' hjk
    (hsent _ _ _ _ _ hj) (hsent _ _ _ _ _ hk) hkey
  refine ⟨m, hjm, hmk, ?_⟩
  rw [List.getElem?_append_left (List.getElem?_eq_some_iff.1 hm).1, hm]

/-- A property of the running calls, by cases on the one that has just moved. -/
theorem running_of_set {P : ℕ → RunningCall D → Prop} {state : CallState D}
    (hi : ∀ c, state = .running c → P i c) (hothers : ∀ j c, j ≠ i → s.calls j = .running c → P j c) :
    ∀ j c, (s.set i state).calls j = .running c → P j c := by
  intro j c hj
  rw [Relaying.set] at hj
  by_cases hij : j = i
  · subst hij
    exact hi c (by simpa only [Function.update_self] using hj)
  · exact hothers j c hij (by simpa only [Function.update_of_ne hij] using hj)

theorem idle_of_set {P : ℕ → Prop} {state : CallState D} (hstate : state ≠ .idle)
    (hothers : ∀ j, j ≠ i → s.calls j = .idle → P j) :
    ∀ j, (s.set i state).calls j = .idle → P j := by
  intro j hj
  rw [Relaying.set] at hj
  by_cases hij : j = i
  · subst hij
    exact absurd (by simpa only [Function.update_self] using hj) hstate
  · exact hothers j hij (by simpa only [Function.update_of_ne hij] using hj)

/-- A call moves and nothing is logged. -/
theorem RelayInv.set (h : RelayInv s) {state : CallState D} (hstate : state ≠ .idle)
    (hi : ∀ c, state = .running c → CallInv s.log i c) : RelayInv (s.set i state) :=
  ⟨running_of_set hi fun j c _ => h.calls j c, idle_of_set hstate fun j _ => h.idle j, h.records,
    h.idempotent⟩

/-- A call that starts knows what is recorded under its key. -/
theorem RelayInv.begin (h : RelayInv s) (hidle : s.calls i = .idle) (request : RelayRequest D) :
    RelayInv (s.begin i request) := by
  obtain ⟨hunsaved, hunsent⟩ := h.idle i hidle
  refine h.set nofun ?_
  rintro c ⟨⟩
  have htake : s.log.take s.log.length = s.log := List.take_length
  refine ⟨le_rfl, le_rfl, hunsaved, fun hall => ?_, fun nonce hawait => ?_, fun nonce txHash hawait => ?_,
    fun request nonce txHash hmem => absurd hmem (hunsent _ _ _)⟩
  · rw [htake] at hall ⊢
    have hrecord := h.records _ hall
    dsimp only at hrecord ⊢
    cases hfound : s.records request.dedupKey with
    | some existing => exact hrecord.symm.trans hfound
    | none =>
      rw [hfound] at hrecord
      intro r hr
      rw [← hrecord] at hr
      cases hr
  · dsimp only at hawait
    cases hfound : s.records request.dedupKey <;> rw [hfound] at hawait <;> cases hawait
  · dsimp only at hawait
    cases hfound : s.records request.dedupKey <;> rw [hfound] at hawait <;> cases hawait

/-- The node was found not to know what the call found recorded. -/
theorem RelayInv.unknown (h : RelayInv s) {existing : RelayRecord} (hi : s.calls i = .running c)
    (hawait : c.await = .getTransaction existing) :
    RelayInv { s.set i (.running { c with await := .getBalance }) with
      log := s.log ++ [.unknown existing.txHash] } := by
  have hc := h.calls i c hi
  refine ⟨running_of_set ?_ fun j c' hij hj => (h.calls j c' hj).append nofun nofun fun _ _ _ => rfl,
    idle_of_set nofun fun j hij hj => ?_, fun dedupKey hall => ?_, h.idempotent.append rfl⟩
  · rintro c' ⟨⟩
    have hsame := hc.append (e := .unknown existing.txHash) nofun nofun fun _ _ _ => rfl
    refine ⟨hsame.lookedUp_le, hsame.nonceRead_le, hsame.unsaved, fun hall => ?_, nofun, nofun,
      fun request nonce txHash hmem => ?_⟩
    · have hfound := hsame.found hall
      rw [hawait] at hfound
      intro r hr
      cases Option.some.inj (hfound.symm.trans hr)
      rw [List.drop_append_of_le_length hc.lookedUp_le]
      exact List.mem_append_right _ (List.mem_singleton_self _)
    · have hresponse := (hsame.own request nonce txHash hmem).1
      rw [hawait] at hresponse
      cases hresponse
  · obtain ⟨hunsaved, hunsent⟩ := h.idle j hj
    exact ⟨by simpa using hunsaved, fun request nonce txHash => by simpa using hunsent request nonce txHash⟩
  · rw [lastSent_append]
    exact h.records dedupKey (hall.of_append nofun)

/-- The answer to a transaction has come, and its record is kept. -/
theorem RelayInv.saved (h : RelayInv s) {nonce : ℕ} {txHash : Hex} (hi : s.calls i = .running c)
    (hawait : c.await = .response nonce txHash) :
    RelayInv { s.set i (.settled (.ok txHash)) with
      records := Function.update s.records c.request.dedupKey (some ⟨nonce, txHash⟩)
      log := s.log ++ [.saved i] } := by
  have hc := h.calls i c hi
  refine ⟨running_of_set nofun fun j c' hij hj => (h.calls j c' hj).append ?_ nofun fun _ _ _ => rfl,
    idle_of_set nofun fun j hij hj => ?_, fun dedupKey hall => ?_, h.idempotent.append rfl⟩
  · rintro ⟨⟩
    exact hij rfl
  · obtain ⟨hunsaved, hunsent⟩ := h.idle j hj
    exact ⟨by simpa [hij] using hunsaved, fun request nonce txHash => by simpa using hunsent request nonce txHash⟩
  · rw [lastSent_append]
    by_cases hkey : dedupKey = c.request.dedupKey
    · subst hkey
      exact (Function.update_self ..).trans (hc.latest nonce txHash hawait).2.symm
    · refine (Function.update_of_ne hkey ..).trans (h.records dedupKey ?_)
      intro call request nonce' txHash' hsent hunder
      rcases List.mem_append.1 (hall call request nonce' txHash' (List.mem_append_left _ hsent) hunder) with
        hold | hnew
      · exact hold
      · -- what this call sent was under its own key
        cases List.mem_singleton.1 hnew
        exact absurd ((hc.own request nonce' txHash' hsent).2 ▸ hunder).symm hkey

/-- Nothing that waits to be saved is under a key of which all was saved before. -/
theorem CallInv.key_ne {j : ℕ} {c' : RunningCall D} (h : CallInv log j c') {nonce : ℕ} {txHash : Hex}
    (hawait : c'.await = .response nonce txHash) {dedupKey : String} {p : ℕ}
    (hall : AllSaved dedupKey (log.take p)) (hsince : ∀ e ∈ log.drop p, e.under dedupKey = none) :
    dedupKey ≠ c'.request.dedupKey := by
  rintro rfl
  have hsent := (h.latest nonce txHash hawait).1
  rw [← List.take_append_drop p log] at hsent
  rcases List.mem_append.1 hsent with hbefore | hafter
  · exact h.unsaved (List.mem_of_mem_take (hall j c'.request nonce txHash hbefore rfl))
  · have := hsince _ hafter
    simp [RelayEvent.under] at this

/-- A transaction with a nonce that was not used before, under a key of which the last transaction was found
unknown. -/
theorem Idempotent.append_sent (h : Idempotent log) {nonce : ℕ} {txHash : Hex} {p : ℕ}
    (hfresh : ∀ call request txHash, .sent call request nonce txHash ∉ log)
    (hsince : ∀ e ∈ log.drop p, e.under c.request.dedupKey = none)
    (hunknown : ∀ r ∈ lastSent c.request.dedupKey log, .unknown r.txHash ∈ log.drop p) :
    Idempotent (log ++ [.sent i c.request nonce txHash]) := by
  have hcases : ∀ (j call : ℕ) (request : RelayRequest D) (nonce' : ℕ) (txHash' : Hex),
      (log ++ [.sent i c.request nonce txHash])[j]? = some (.sent call request nonce' txHash') →
        log[j]? = some (.sent call request nonce' txHash') ∨
          j = log.length ∧ request = c.request ∧ nonce' = nonce := by
    intro j call request nonce' txHash' hj
    rw [List.getElem?_append] at hj
    split_ifs at hj with hlt
    · exact .inl hj
    · have hlast := List.mem_singleton.1 (List.mem_of_getElem? hj)
      have hindex := (List.getElem?_eq_some_iff.1 hj).1
      rw [List.length_singleton] at hindex
      cases hlast
      exact .inr ⟨by omega, rfl, rfl⟩
  constructor
  · intro j k call call' request request' nonce' txHash₁ txHash₂ hj hk
    rcases hcases _ _ _ _ _ hj with hold | ⟨-, rfl, rfl⟩
    · rcases hcases _ _ _ _ _ hk with hold' | ⟨-, rfl, rfl⟩
      · exact h.nonces _ _ _ _ _ _ _ _ _ hold hold'
      · exact absurd (List.mem_of_getElem? hold) (hfresh _ _ _)
    · rcases hcases _ _ _ _ _ hk with hold' | ⟨-, rfl, -⟩
      · exact absurd (List.mem_of_getElem? hold') (hfresh _ _ _)
      · rfl
  · intro j k call call' request request' nonce' nonce'' txHash₁ txHash₂ hjk hj hk hkey
    have hgrow : ∀ m : ℕ, log[m]? = some (RelayEvent.unknown txHash₁) →
        (log ++ [.sent i c.request nonce txHash])[m]? = some (RelayEvent.unknown txHash₁) := by
      intro m hm
      rw [List.getElem?_append_left (List.getElem?_eq_some_iff.1 hm).1, hm]
    rcases hcases _ _ _ _ _ hj with hold | ⟨hlast, -, -⟩
    · rcases hcases _ _ _ _ _ hk with hold' | ⟨hlast, rfl, -⟩
      · obtain ⟨m, hjm, hmk, hm⟩ := h.keys _ _ _ _ _ _ _ _ _ _ hjk hold hold' hkey
        exact ⟨m, hjm, hmk, hgrow m hm⟩
      · -- the last one before was sent before the call looked the key up, and found unknown after
        obtain ⟨q, call₁, request₁, nonce₁, txHash', hjq, hq, hkey₁, hlastSent⟩ := exists_lastSent hold hkey
        have hqp : q < p := lt_of_under hq (by simp [RelayEvent.under, hkey₁]) hsince
        obtain ⟨d, hd⟩ := List.mem_iff_getElem?.1 (hunknown _ hlastSent)
        rw [List.getElem?_drop] at hd
        have hdlt := (List.getElem?_eq_some_iff.1 hd).1
        rcases Nat.eq_or_lt_of_le hjq with rfl | hlt
        · cases hold.symm.trans hq
          exact ⟨p + d, by omega, by omega, hgrow _ hd⟩
        · obtain ⟨m, hjm, hmq, hm⟩ := h.keys _ _ _ _ _ _ _ _ _ _ hlt hold hq (hkey.trans hkey₁.symm)
          exact ⟨m, hjm, by omega, hgrow m hm⟩
    · have hindex := (List.getElem?_eq_some_iff.1 hk).1
      rw [List.length_append, List.length_singleton] at hindex
      omega

/-- A transaction is handed to the node. -/
theorem RelayInv.sent (h : RelayInv s) {nonce : ℕ} {txHash : Hex} (node : Node)
    (hi : s.calls i = .running c) (hawait : c.await = .sendTransaction nonce)
    (hall : AllSaved c.request.dedupKey (s.log.take c.lookedUp))
    (hsince : ∀ e ∈ s.log.drop c.lookedUp, e.under c.request.dedupKey = none)
    (hnone : ∀ e ∈ s.log.drop c.nonceRead, e.isSent = false) :
    RelayInv { s.set i (.running { c with await := .response nonce txHash }) with
      node, log := s.log ++ [.sent i c.request nonce txHash] } := by
  have hc := h.calls i c hi
  have hfound := hc.found hall
  rw [hawait] at hfound
  have hunsent : ∀ request nonce txHash, .sent i request nonce txHash ∉ s.log := by
    intro request nonce' txHash' hmem
    have hresponse := (hc.own request nonce' txHash' hmem).1
    rw [hawait] at hresponse
    cases hresponse
  have hunder : RelayEvent.under c.request.dedupKey (.sent i c.request nonce txHash) =
      some ⟨nonce, txHash⟩ := if_pos rfl
  refine ⟨running_of_set ?_ fun j c' hij hj => ?_, idle_of_set nofun fun j hij hj => ?_,
    fun dedupKey hkept => ?_, h.idempotent.append_sent ?_ hsince ?_⟩
  · rintro c' ⟨⟩
    refine ⟨?_, ?_, by simpa using hc.unsaved, fun _ => ?_, nofun, fun nonce' txHash' hresponse => ?_,
      fun request nonce' txHash' hmem => ?_⟩
    · simp only [List.length_append]
      exact hc.lookedUp_le.trans (Nat.le_add_right _ _)
    · simp only [List.length_append]
      exact hc.nonceRead_le.trans (Nat.le_add_right _ _)
    · dsimp only
      rw [take_append_of_le hc.lookedUp_le, List.drop_append_of_le_length hc.lookedUp_le]
      exact fun r hr => List.mem_append_left _ (hfound r hr)
    · cases hresponse
      refine ⟨List.mem_append_right _ (List.mem_singleton_self _), ?_⟩
      dsimp only
      rw [lastSent_append, hunder]
      rfl
    · rcases List.mem_append.1 hmem with hold | hnew
      · exact absurd hold (hunsent _ _ _)
      · cases List.mem_singleton.1 hnew
        exact ⟨rfl, rfl⟩
  · refine (h.calls j c' hj).append nofun ?_ fun nonce' txHash' hresponse => ?_
    · rintro request nonce' txHash' ⟨⟩
      exact hij rfl
    · exact if_neg ((h.calls j c' hj).key_ne hresponse hall hsince)
  · obtain ⟨hunsaved, hidle⟩ := h.idle j hj
    exact ⟨by simpa using hunsaved, fun request nonce' txHash' => by
      simpa [hij] using hidle request nonce' txHash'⟩
  · by_cases hkey : c.request.dedupKey = dedupKey
    · subst hkey
      have hsaved := hkept i c.request nonce txHash (List.mem_append_right _ (List.mem_singleton_self _)) rfl
      exact absurd (by simpa using hsaved) hc.unsaved
    · rw [lastSent_append]
      have hother : RelayEvent.under dedupKey (.sent i c.request nonce txHash) = none := if_neg hkey
      rw [hother]
      exact h.records dedupKey (hkept.of_append nofun)
  · intro call request txHash' hmem
    rw [← List.take_append_drop c.nonceRead s.log] at hmem
    rcases List.mem_append.1 hmem with hbefore | hafter
    · exact hc.fresh nonce hawait call request txHash' hbefore
    · exact absurd (hnone _ hafter) (by simp [RelayEvent.isSent])
  · rw [lastSent_of_drop hsince]
    exact hfound

/-- A nonce that the node tells is none that it counts. -/
theorem Node.not_counts_pendingNonce (node : Node) : ¬ node.counts node.pendingNonce := by
  rw [Node.pendingNonce]
  cases hfind : (List.range' node.confirmed (node.transactions.length + 1)).find? (¬ node.counts ·) with
  | some nonce => simpa using List.find?_some hfind
  | none =>
    -- more numbers than transactions cannot all be taken
    rw [List.find?_eq_none] at hfind
    have hsubset : List.range' node.confirmed (node.transactions.length + 1) ⊆
        node.transactions.map Prod.fst := by
      intro n hn
      have hcounts : node.counts n := by simpa using hfind n hn
      rw [List.mem_range'_1] at hn
      exact hcounts.resolve_left (by omega)
    have hle := (List.nodup_range' (s := node.confirmed)).length_le_of_subset hsubset
    rw [List.length_range', List.length_map] at hle
    omega

/-- A call is told a nonce. -/
theorem RelayInv.told (h : RelayInv s) (hi : s.calls i = .running c) (hawait : c.await = .getPendingNonce)
    (hcounts : ∀ call request nonce txHash, .sent call request nonce txHash ∈ s.log → s.node.counts nonce) :
    RelayInv (s.set i (.running { c with
      await := .sendTransaction s.node.pendingNonce, nonceRead := s.log.length })) := by
  have hc := h.calls i c hi
  refine h.set nofun ?_
  rintro c' ⟨⟩
  refine ⟨hc.lookedUp_le, le_rfl, hc.unsaved, fun hall => ?_, fun nonce hsend call request txHash hmem => ?_,
    nofun, fun request nonce txHash hmem => ?_⟩
  · have hfound := hc.found hall
    rw [hawait] at hfound
    exact hfound
  · cases hsend
    exact s.node.not_counts_pendingNonce (hcounts _ _ _ _ (List.mem_of_mem_take hmem))
  · have hresponse := (hc.own request nonce txHash hmem).1
    rw [hawait] at hresponse
    cases hresponse

theorem RelayInv.resume (minBalanceWei : ℕ) (h : RelayInv s) (hi : s.calls i = .running c) (balance : ℕ)
    (txHash : Hex) (hundisturbed : Undisturbed s (.answer i balance txHash)) :
    RelayInv (s.resume minBalanceWei i c balance txHash) := by
  have hc := h.calls i c hi
  unfold Relaying.resume
  simp only [Undisturbed, hi] at hundisturbed
  cases hawait : c.await with
  | getTransaction existing =>
    dsimp only
    split_ifs
    · exact h.set nofun nofun
    · exact h.unknown hi hawait
  | getBalance =>
    dsimp only
    split_ifs
    · exact h.set nofun nofun
    · refine h.set nofun ?_
      rintro c' ⟨⟩
      refine ⟨hc.lookedUp_le, hc.nonceRead_le, hc.unsaved, fun hall => ?_, nofun, nofun,
        fun request nonce txHash' hmem => ?_⟩
      · have hfound := hc.found hall
        rw [hawait] at hfound
        exact hfound
      · have hresponse := (hc.own request nonce txHash' hmem).1
        rw [hawait] at hresponse
        cases hresponse
  | getPendingNonce =>
    rw [hawait] at hundisturbed
    exact h.told hi hawait hundisturbed
  | sendTransaction nonce =>
    rw [hawait] at hundisturbed
    exact h.sent _ hi hawait hundisturbed.1 hundisturbed.2.1 hundisturbed.2.2
  | response nonce txHash' => exact h.saved hi hawait

theorem RelayInv.step (minBalanceWei : ℕ) (h : RelayInv s) (move : Move D) (hundisturbed : Undisturbed s move) :
    RelayInv (s.step minBalanceWei move) := by
  cases move with
  | call i request =>
    rw [Relaying.step]
    cases hi : s.calls i with
    | idle => exact h.begin hi request
    | running c => exact h
    | settled result => exact h
  | node node => exact ⟨h.calls, h.idle, h.records, h.idempotent⟩
  | answer i balance txHash =>
    rw [Relaying.step]
    cases hi : s.calls i with
    | idle => exact h
    | running c => exact h.resume minBalanceWei hi balance txHash hundisturbed
    | settled result => exact h
  | fail i =>
    rw [Relaying.step]
    cases hi : s.calls i with
    | idle => exact h
    | running c => exact h.set nofun nofun
    | settled result => exact h

end Invariant

section Runs

variable {D : Type}

/-- In a run whose nonces are told by a node that counts all it was sent, and whose transactions are sent by
calls that have seen what was sent before, no nonce and no key is used twice. -/
theorem relay_idempotent (minBalanceWei : ℕ) (node : Node) (moves : List (Move D))
    (hundisturbed : ∀ n move, moves[n]? = some move →
      Undisturbed ((Relaying.init node).run minBalanceWei (moves.take n)) move) :
    Idempotent ((Relaying.init node).run minBalanceWei moves).log := by
  have hstart : RelayInv (Relaying.init node : Relaying D) :=
    ⟨nofun, fun _ _ => ⟨nofun, nofun⟩, fun _ _ => rfl, ⟨nofun, nofun⟩⟩
  have hrun : ∀ n, RelayInv ((Relaying.init node).run minBalanceWei (moves.take n)) := by
    intro n
    induction n with
    | zero => exact hstart
    | succ n ih =>
      rw [List.take_add_one]
      cases hmove : moves[n]? with
      | none => simpa using ih
      | some move =>
        rw [Relaying.run, List.foldl_append]
        exact ih.step minBalanceWei move (hundisturbed n move hmove)
  simpa using (hrun moves.length).idempotent

end Runs

section Example

def exampleRequest (dedupKey : String) : RelayRequest Unit := ⟨dedupKey, ⟨"0xa0", by decide⟩, ()⟩

def exampleHash (first : Bool) : Hex := if first then ⟨"0x01", by decide⟩ else ⟨"0x02", by decide⟩

/-- An answer of the node, which has enough balance. -/
def exampleAnswer (i : ℕ) (first : Bool) : Move Unit := .answer i 1 (exampleHash first)

/-- One call after the other for the same key. -/
def oneAfterTheOther : List (Move Unit) :=
  [.call 0 (exampleRequest "a"), exampleAnswer 0 true, exampleAnswer 0 true, exampleAnswer 0 true,
   exampleAnswer 0 true, .call 1 (exampleRequest "a"), exampleAnswer 1 false]

theorem relay_idempotent_in_turn :
    Idempotent ((Relaying.init ⟨5, []⟩).run 0 oneAfterTheOther).log ∧
      ((Relaying.init ⟨5, []⟩).run 0 oneAfterTheOther).log =
        [.sent 0 (exampleRequest "a") 5 (exampleHash true), .saved 0] := by
  refine ⟨relay_idempotent 0 ⟨5, []⟩ oneAfterTheOther fun n move h => ?_, by decide⟩
  match n, h with
  | 0, rfl => trivial
  | 1, rfl => trivial
  | 2, rfl => exact fun _ _ _ _ hmem => absurd hmem List.not_mem_nil
  | 3, rfl => exact ⟨fun _ _ _ _ hmem => absurd hmem List.not_mem_nil,
      fun _ hmem => absurd hmem List.not_mem_nil, fun _ hmem => absurd hmem List.not_mem_nil⟩
  | 4, rfl => trivial
  | 5, rfl => trivial
  | 6, rfl => trivial

/-- Two requests are told the nonce before either is sent. -/
def toldTogether : List (Move Unit) :=
  [.call 0 (exampleRequest "a"), .call 1 (exampleRequest "b"), exampleAnswer 0 true, exampleAnswer 1 false,
   exampleAnswer 0 true, exampleAnswer 1 false, exampleAnswer 0 true, exampleAnswer 1 false]

/-- A request is made again before the first call for its key has been answered. -/
def lookedUpTogether : List (Move Unit) :=
  [.call 0 (exampleRequest "a"), .call 1 (exampleRequest "a"), exampleAnswer 0 true, exampleAnswer 0 true,
   exampleAnswer 0 true, exampleAnswer 1 false, exampleAnswer 1 false, exampleAnswer 1 false]

/-- Calls that overlap send two requests with one nonce, and one request twice. -/
theorem overlapping_calls_repeat :
    (((Relaying.init ⟨5, []⟩).run 0 toldTogether).log =
      [.sent 0 (exampleRequest "a") 5 (exampleHash true), .sent 1 (exampleRequest "b") 5 (exampleHash false)] ∧
    ¬ Idempotent ((Relaying.init ⟨5, []⟩).run 0 toldTogether).log) ∧
    ((Relaying.init ⟨5, []⟩).run 0 lookedUpTogether).log =
      [.sent 0 (exampleRequest "a") 5 (exampleHash true), .sent 1 (exampleRequest "a") 6 (exampleHash false)] ∧
    ¬ Idempotent ((Relaying.init ⟨5, []⟩).run 0 lookedUpTogether).log := by
  refine ⟨⟨by decide, fun h => ?_⟩, by decide, fun h => ?_⟩
  · exact absurd (h.nonces 0 1 _ _ _ _ _ _ _ rfl rfl) (by decide)
  · obtain ⟨m, hm, hm', -⟩ := h.keys 0 1 _ _ _ _ _ _ _ _ (by decide) rfl rfl rfl
    omega

end Example

end Linvesther.ChainWorker
