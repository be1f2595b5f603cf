import Linvesther.Base.Program

/-! `relayer.ts` with the in-memory record store: what is broadcast under a key is looked up before
anything is sent under it again. -/

namespace Linvesther.ChainWorker

/-- A hex string. Being alphanumeric it never holds the `:` that the parts of a key are joined by. -/
structure Hex where
  text : String
  alphanum : text.toList.all Char.isAlphanum = true
deriving DecidableEq

def Hex.toLowerCase (h : Hex) : String := h.text.toLower

inductive CredentialMethod where
  | webauthn | vault
deriving DecidableEq

structure RelayRequest (D : Type) where
  dedupKey : String
  to_ : Hex
  data : D
deriving DecidableEq

structure RelayRecord where
  nonce : ℕ
  txHash : Hex
deriving DecidableEq

/-- A transaction as `sendTransaction` is given it; no request has a `value`. -/
structure SentTransaction (D : Type) where
  txHash : Hex
  to_ : Hex
  data : D
  nonce : ℕ
deriving DecidableEq

inductive RelayError where
  | rpc | relayerUnderfunded | encoding | missingEvent
  | transactionReverted (txHash : Hex)
deriving DecidableEq

/-- The records kept by key, and the transactions handed to the node. `Log` is what else a caller
keeps, and the clock counts the calls of the node. -/
structure RelayState (D Log : Type) where
  records : String → Option RelayRecord
  sent : List (SentTransaction D)
  log : Log
  clock : ℕ

section Relay

variable {D Log E : Type}

/-- What the node answers at the moment of one call. -/
structure Answers (E : Type) where
  up : Bool
  knows : Hex → Bool
  balance : ℕ
  pendingNonce : ℕ
  txHash : Hex
  /-- The status of a receipt, and the events of its logs. -/
  reverted : Hex → Bool
  events : Hex → List E
  predicted : CredentialMethod → Hex → Hex → Hex
  deployed : Hex → Bool
  chainId : ℕ
  now : Int

variable (answers : ℕ → Answers E)

def nextAnswers : EStateM RelayError (RelayState D Log) (Answers E) := do
  let s ← get
  modify fun s => { s with clock := s.clock + 1 }
  pure (answers s.clock)

/-- A call of the node that throws when it is down. -/
def ask {α : Type} (read : Answers E → α) : EStateM RelayError (RelayState D Log) α := do
  let a ← nextAnswers answers
  if a.up then pure (read a) else throw .rpc

variable (minBalanceWei : ℕ)

def broadcast (request : RelayRequest D) : EStateM RelayError (RelayState D Log) Hex := do
  let balance ← ask answers (·.balance)
  if balance < minBalanceWei then throw .relayerUnderfunded
  else do
    let nonce ← ask answers (·.pendingNonce)
    let txHash ← ask answers (·.txHash)
    modify fun s => { s with
      sent := s.sent ++ [⟨txHash, request.to_, request.data, nonce⟩]
      records := Function.update s.records request.dedupKey (some ⟨nonce, txHash⟩) }
    pure txHash

/-- The record of a transaction the node knows is the answer, whatever the request carries. -/
def relay (request : RelayRequest D) : EStateM RelayError (RelayState D Log) Hex := do
  let s ← get
  match s.records request.dedupKey with
  | some existing => do
    -- `getTransaction` answers `null` when the node is down
    let a ← nextAnswers answers
    if a.up && a.knows existing.txHash then pure existing.txHash
    else broadcast answers minBalanceWei request
  | none => broadcast answers minBalanceWei request

def waitForSuccessfulReceipt (hash : Hex) : EStateM RelayError (RelayState D Log) (List E) := do
  let receipt ← ask answers fun a => (a.reverted hash, a.events hash)
  if receipt.1 then throw (.transactionReverted hash) else pure receipt.2

end Relay

section Specifications

open Program

variable {D Log E : Type} {answers : ℕ → Answers E} {minBalanceWei : ℕ}
  {P : RelayState D Log → Prop} {F : RelayError → RelayState D Log → Prop}

/-- An assertion that does not look at the number of calls made. -/
def Unclocked (P : RelayState D Log → Prop) : Prop := ∀ s clock, P s → P { s with clock }

theorem nextAnswers_triple (hP : Unclocked P) :
    Triple P (nextAnswers answers) (fun a s => P s ∧ ∃ t, a = answers t) F :=
  fun s hs => ⟨hP s _ hs, s.clock, rfl⟩

theorem ask_triple {α : Type} {read : Answers E → α} (hP : Unclocked P)
    (hF : ∀ s, P s → F .rpc s) :
    Triple P (ask answers read) (fun r s => P s ∧ ∃ t, r = read (answers t)) F := by
  refine (nextAnswers_triple hP).bind fun a => .ite (fun _ => .pure ?_) fun _ => .throw fun s hs => ?_
  · rintro s ⟨hs, t, rfl⟩
    exact ⟨hs, t, rfl⟩
  · exact hF s hs.1

theorem broadcast_triple {request : RelayRequest D} {Q : Hex → RelayState D Log → Prop}
    (hP : Unclocked P) (hF : ∀ s e, (∀ h, e ≠ .transactionReverted h) → P s → F e s)
    (hsent : ∀ s txHash nonce, P s → Q txHash { s with
      sent := s.sent ++ [⟨txHash, request.to_, request.data, nonce⟩]
      records := Function.update s.records request.dedupKey (some ⟨nonce, txHash⟩) }) :
    Triple P (broadcast answers minBalanceWei request) Q F := by
  have hrpc : ∀ s, P s → F .rpc s := fun s => hF s .rpc (by simp)
  refine (ask_triple hP hrpc).bind fun balance => .ite
    (fun _ => .throw fun s hs => hF s _ (by simp) hs.1) fun _ => ?_
  refine Triple.bind (Q := fun _ s => P s) ((ask_triple hP hrpc).conseq (fun _ hs => hs.1)
    (fun _ _ hs => hs.1) fun _ _ hs => hs) fun nonce => ?_
  refine Triple.bind (Q := fun _ s => P s) ((ask_triple hP hrpc).conseq (fun _ hs => hs)
    (fun _ _ hs => hs.1) fun _ _ hs => hs) fun txHash => ?_
  exact Triple.bind (Q := fun _ s => Q txHash s) (.modify fun s hs => hsent s txHash nonce hs)
    fun _ => .pure fun s hs => hs

/-- A relayed request is answered by the record of its key or by a transaction of its own. -/
theorem relay_triple {request : RelayRequest D} {Q : Hex → RelayState D Log → Prop}
    (hP : Unclocked P) (hF : ∀ s e, (∀ h, e ≠ .transactionReverted h) → P s → F e s)
    (hrecord : ∀ s r, P s → s.records request.dedupKey = some r → Q r.txHash s)
    (hsent : ∀ s txHash nonce, P s → Q txHash { s with
      sent := s.sent ++ [⟨txHash, request.to_, request.data, nonce⟩]
      records := Function.update s.records request.dedupKey (some ⟨nonce, txHash⟩) }) :
    Triple P (relay answers minBalanceWei request) Q F := by
  refine Triple.bind (Q := fun r s => r = s ∧ P s) (.get fun s hs => ⟨rfl, hs⟩) fun s₀ => ?_
  cases hr : s₀.records request.dedupKey with
  | none =>
    exact (broadcast_triple hP hF hsent).conseq (fun _ hs => hs.2) (fun _ _ hs => hs)
      fun _ _ hs => hs
  | some existing =>
    refine Triple.bind (Q := fun _ s => P s ∧ s.records request.dedupKey = some existing)
      ((nextAnswers_triple (P := fun s => P s ∧ s.records request.dedupKey = some existing)
        fun s clock hs => ⟨hP s clock hs.1, hs.2⟩).conseq ?_ (fun _ _ hs => hs.1)
        fun _ _ hs => hs) fun a => .ite (fun _ => .pure ?_) fun _ => ?_
    · rintro s ⟨rfl, hs⟩
      exact ⟨hs, hr⟩
    · exact fun s hs => hrecord s existing hs.1 hs.2
    · exact (broadcast_triple hP hF hsent).conseq (fun _ hs => hs.1) (fun _ _ hs => hs)
        fun _ _ hs => hs

theorem waitForSuccessfulReceipt_triple {hash : Hex} (hP : Unclocked P)
    (hF : ∀ s e, e = .rpc ∨ e = .transactionReverted hash → P s → F e s) :
    Triple P (waitForSuccessfulReceipt answers hash)
      (fun events s => P s ∧ ∃ t, (answers t).reverted hash = false ∧
        events = (answers t).events hash) F := by
  refine (ask_triple hP fun s => hF s _ (.inl rfl)).bind fun receipt => .ite
    (fun _ => .throw fun s hs => hF s _ (.inr rfl) hs.1) fun hok => .pure ?_
  rintro s ⟨hs, t, rfl⟩
  exact ⟨hs, t, by simpa using hok, rfl⟩

end Specifications

section Broadcasts

open Program

variable {D Log E : Type} {answers : ℕ → Answers E} {minBalanceWei : ℕ}

theorem nextAnswers_eq (s : RelayState D Log) :
    nextAnswers answers s = .ok (answers s.clock) { s with clock := s.clock + 1 } :=
  rfl

theorem ask_up {α : Type} {s : RelayState D Log} (h : (answers s.clock).up = true)
    (read : Answers E → α) :
    ask answers read s = .ok (read (answers s.clock)) { s with clock := s.clock + 1 } := by
  rw [ask, bind_of_ok (nextAnswers_eq s), if_pos h]
  rfl

theorem ask_down {α : Type} {s : RelayState D Log} (h : ¬ (answers s.clock).up = true)
    (read : Answers E → α) : ask answers read s = .error .rpc { s with clock := s.clock + 1 } := by
  rw [ask, bind_of_ok (nextAnswers_eq s), if_neg h]
  rfl

theorem ask_sent {α : Type} (read : Answers E → α) (s : RelayState D Log) :
    (final (ask answers read s)).sent = s.sent := by
  by_cases h : (answers s.clock).up
  · rw [ask_up h]
    rfl
  · rw [ask_down h]
    rfl

theorem waitForSuccessfulReceipt_sent (hash : Hex) (s : RelayState D Log) :
    (final (waitForSuccessfulReceipt answers hash s)).sent = s.sent := by
  refine (final_bind (g := RelayState.sent) (fun receipt s => ?_) s).trans (ask_sent _ s)
  by_cases h : receipt.1
  · rw [if_pos h]
    rfl
  · rw [if_neg h]
    rfl

/-- The node takes a transaction in the three calls from `t` on. -/
def Takes (answers : ℕ → Answers E) (minBalanceWei t : ℕ) : Prop :=
  (answers t).up = true ∧ minBalanceWei ≤ (answers t).balance ∧ (answers (t + 1)).up = true ∧
    (answers (t + 2)).up = true

instance (answers : ℕ → Answers E) (minBalanceWei t : ℕ) :
    Decidable (Takes answers minBalanceWei t) :=
  inferInstanceAs (Decidable (_ ∧ _))

theorem broadcast_sent_ne (request : RelayRequest D) (s : RelayState D Log) :
    (final (broadcast answers minBalanceWei request s)).sent ≠ s.sent ↔
      Takes answers minBalanceWei s.clock := by
  rw [broadcast, Takes]
  by_cases h₀ : (answers s.clock).up
  · rw [bind_of_ok (ask_up h₀ _)]
    by_cases hbalance : (answers s.clock).balance < minBalanceWei
    · rw [if_pos hbalance]
      exact iff_of_false (fun h => h rfl) fun h => absurd h.2.1 (by omega)
    rw [if_neg hbalance]
    by_cases h₁ : (answers (s.clock + 1)).up
    · rw [bind_of_ok (ask_up (s := { s with clock := s.clock + 1 }) h₁ _)]
      by_cases h₂ : (answers (s.clock + 1 + 1)).up
      · rw [bind_of_ok (ask_up (s := { s with clock := s.clock + 1 + 1 }) h₂ _)]
        refine iff_of_true (fun h => ?_) ⟨h₀, by omega, h₁, h₂⟩
        have hsent : s.sent ++ [⟨(answers (s.clock + 1 + 1)).txHash, request.to_, request.data,
            (answers (s.clock + 1)).pendingNonce⟩] = s.sent := h
        simpa using congrArg List.length hsent
      · rw [bind_of_error (ask_down (s := { s with clock := s.clock + 1 + 1 }) h₂ _)]
        exact iff_of_false (fun h => h rfl) fun h => h₂ h.2.2.2
    · rw [bind_of_error (ask_down (s := { s with clock := s.clock + 1 }) h₁ _)]
      exact iff_of_false (fun h => h rfl) fun h => h₁ h.2.2.1
  · rw [bind_of_error (ask_down h₀ _)]
    exact iff_of_false (fun h => h rfl) fun h => h₀ h.1

/-- The record of a key that the node still knows, which is answered without sending anything. -/
def Recorded (answers : ℕ → Answers E) (s : RelayState D Log) (dedupKey : String) : Prop :=
  ∃ r ∈ s.records dedupKey, (answers s.clock).up = true ∧ (answers s.clock).knows r.txHash = true

instance (answers : ℕ → Answers E) (s : RelayState D Log) (dedupKey : String) :
    Decidable (Recorded answers s dedupKey) :=
  inferInstanceAs (Decidable (∃ r ∈ s.records dedupKey, _))

/-- A request is sent if its key has no such record and the node takes it. -/
theorem relay_sent_ne (request : RelayRequest D) (s : RelayState D Log) :
    (final (relay answers minBalanceWei request s)).sent ≠ s.sent ↔
      ¬ Recorded answers s request.dedupKey ∧ Takes answers minBalanceWei
        (if (s.records request.dedupKey).isSome then s.clock + 1 else s.clock) := by
  cases hr : s.records request.dedupKey with
  | none =>
    have hrelay : relay answers minBalanceWei request s = broadcast answers minBalanceWei request s := by
      simp [relay, bind, EStateM.bind, get, getThe, MonadStateOf.get, EStateM.get, hr]
    rw [hrelay, broadcast_sent_ne]
    simp [Recorded, hr]
  | some existing =>
    have hrelay : relay answers minBalanceWei request s =
        if (answers s.clock).up && (answers s.clock).knows existing.txHash then
          .ok existing.txHash { s with clock := s.clock + 1 }
        else broadcast answers minBalanceWei request { s with clock := s.clock + 1 } := by
      simp only [relay, nextAnswers, bind, EStateM.bind, get, getThe, MonadStateOf.get, EStateM.get,
        hr, modify, modifyGet, MonadStateOf.modifyGet, EStateM.modifyGet, pure, EStateM.pure]
      split_ifs <;> rfl
    have hrecorded : Recorded answers s request.dedupKey ↔
        ((answers s.clock).up && (answers s.clock).knows existing.txHash) = true := by
      simp [Recorded, hr]
    rw [hrelay, hrecorded, Option.isSome_some, if_pos rfl]
    by_cases hknown : ((answers s.clock).up && (answers s.clock).knows existing.txHash) = true
    · rw [if_pos hknown]
      exact iff_of_false (fun h => h rfl) fun h => h.1 hknown
    · rw [if_neg hknown]
      exact (broadcast_sent_ne request { s with clock := s.clock + 1 }).trans
        (and_iff_right hknown).symm

end Broadcasts

end Linvesther.ChainWorker
