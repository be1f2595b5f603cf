import Linvesther.Base.JoinedText
import Linvesther.ChainWorker.RelayFlow

/-! When a relayed command is never answered with another command's transaction: as long as commands
relayed under one key are the same in what the key leaves out. -/

namespace Linvesther.ChainWorker

open Program JoinedText

section Keys

theorem Hex.colon_notMem (h : Hex) : ':' ∉ h.text.toList := by
  intro hmem
  have := List.all_eq_true.1 h.alphanum ':' hmem
  revert this
  decide

theorem Hex.text_inj {h h' : Hex} : h.text = h'.text ↔ h = h' := by
  constructor
  · obtain ⟨_, _⟩ := h
    obtain ⟨_, _⟩ := h'
    rintro rfl
    rfl
  · rintro rfl
    rfl

theorem CredentialMethod.text_inj {m m' : CredentialMethod} : m.text = m'.text ↔ m = m' := by
  cases m <;> cases m' <;> decide

theorem Command.colon_notMem (c : Command) : ∀ p ∈ c.keyParts, ':' ∉ p.toList := by
  have hmethod : ∀ m : CredentialMethod, ':' ∉ m.text.toList := fun m => by cases m <;> decide
  cases c <;> simp [Command.keyParts, Hex.colon_notMem, hmethod] <;>
    exact colon_notMem_toString _

theorem Command.keyParts_eq {c c' : Command} (h : c.dedupKey = c'.dedupKey) :
    c.keyParts = c'.keyParts :=
  intercalate_inj c.colon_notMem c'.colon_notMem (by cases c <;> simp [Command.keyParts])
    (by cases c' <;> simp [Command.keyParts]) h

end Keys

/-- Commands under one key are the same in what the key leaves out. -/
def Command.Agrees : Command → Command → Prop
  | .propose identityId accountAddress deadline signature,
    .propose identityId' accountAddress' deadline' signature' =>
    identityId = identityId' →
      accountAddress = accountAddress' ∧ deadline = deadline' ∧ signature = signature'
  | .confirm c signature, .confirm c' signature' =>
    c.identityId = c'.identityId → c = c' ∧ signature = signature'
  | .createTrack c signature, .createTrack c' signature' =>
    c.identityId = c'.identityId → c.nonce = c'.nonce → c = c' ∧ signature = signature'
  | .registerAccount c signature, .registerAccount c' signature' =>
    c.trackId = c'.trackId → c.nonce = c'.nonce → c = c' ∧ signature = signature'
  | .activateAccount c signature, .activateAccount c' signature' =>
    c.accountId = c'.accountId → c.nonce = c'.nonce → c = c' ∧ signature = signature'
  | .removeAccount c signature, .removeAccount c' signature' =>
    c.accountId = c'.accountId → c.nonce = c'.nonce → c = c' ∧ signature = signature'
  | .setProfile c signature, .setProfile c' signature' =>
    c.identityId = c'.identityId → c.nonce = c'.nonce → signature = signature' → c = c'
  | _, _ => True

def Agreeing (commands : List Command) : Prop :=
  ∀ c ∈ commands, ∀ c' ∈ commands, c.Agrees c'

instance (c c' : Command) : Decidable (c.Agrees c') := by
  cases c <;> cases c' <;> unfold Command.Agrees <;> infer_instance

instance (commands : List Command) : Decidable (Agreeing commands) :=
  inferInstanceAs (Decidable (∀ c ∈ commands, ∀ c' ∈ commands, c.Agrees c'))

/-- Then a key is the key of one command only. -/
theorem Command.Agrees.eq {c c' : Command} (h : c.Agrees c') (hkey : c.dedupKey = c'.dedupKey) :
    c = c' := by
  have hparts := Command.keyParts_eq hkey
  -- commands of different kinds have different first parts
  cases c <;> cases c' <;> first
    | exact absurd (List.cons.inj hparts).1 (by decide)
    | simp_all [Command.keyParts, Command.Agrees, Hex.text_inj, CredentialMethod.text_inj]

section Flows

variable {D : Type} {deps : RelayFlowDeps D} {answers : ℕ → Answers (World.Event Hex Hex)}

/-- Two commands are relayed with one `to` and one `data`. -/
def SameTransaction (deps : RelayFlowDeps D) (c c' : Command) : Prop :=
  c.to_ deps = c'.to_ deps ∧ deps.encodeFunctionData c.call = deps.encodeFunctionData c'.call

/-- The requests made under one key are the same, over some commands. -/
def KeysDetermine (deps : RelayFlowDeps D) (commands : List Command) : Prop :=
  ∀ c ∈ commands, ∀ c' ∈ commands, c.dedupKey = c'.dedupKey → SameTransaction deps c c'

instance [DecidableEq D] (deps : RelayFlowDeps D) (c c' : Command) :
    Decidable (SameTransaction deps c c') :=
  inferInstanceAs (Decidable (c.to_ deps = c'.to_ deps ∧
    deps.encodeFunctionData c.call = deps.encodeFunctionData c'.call))

instance [DecidableEq D] (deps : RelayFlowDeps D) (commands : List Command) :
    Decidable (KeysDetermine deps commands) :=
  inferInstanceAs (Decidable (∀ c ∈ commands, ∀ c' ∈ commands,
    c.dedupKey = c'.dedupKey → SameTransaction deps c c'))

theorem Agreeing.keysDetermine {commands : List Command} (h : Agreeing commands) :
    KeysDetermine deps commands := by
  intro c hc c' hc' hkey
  rw [(h c hc c' hc').eq hkey]
  exact ⟨rfl, rfl⟩

/-- Where calldata tells its calls apart, commands that disagree break it. -/
theorem keysDetermine_iff_agreeing {commands : List Command}
    (hencoded : ∀ c ∈ commands, (deps.encodeFunctionData c.call).isSome)
    (hinj : ∀ x y data, deps.encodeFunctionData x = some data →
      deps.encodeFunctionData y = some data → x = y) :
    KeysDetermine deps commands ↔ Agreeing commands := by
  refine ⟨fun h c hc c' hc' => ?_, Agreeing.keysDetermine⟩
  have hcall : c.dedupKey = c'.dedupKey → c.to_ deps = c'.to_ deps ∧ c.call = c'.call := fun hkey => by
    obtain ⟨hto, hdata⟩ := h c hc c' hc' hkey
    obtain ⟨data, hsome⟩ := Option.isSome_iff_exists.1 (hencoded c hc)
    exact ⟨hto, hinj _ _ data hsome (hdata ▸ hsome)⟩
  cases c <;> cases c' <;> first
    | exact trivial
    | simp_all [Command.dedupKey, Command.Agrees, Command.keyParts, Command.call, Command.to_,
        ConfirmOwnerRotationChallenge.ext_iff, CreateTrackChallenge.ext_iff,
        RegisterAccountChallenge.ext_iff, ActivateAccountChallenge.ext_iff,
        RemoveAccountChallenge.ext_iff, SetProfileChallenge.ext_iff]

/-- One of the transactions has the hash and carries the command. -/
def Carried (deps : RelayFlowDeps D) (sent : List (SentTransaction D)) (h : Hex) (c : Command) :
    Prop :=
  ∃ tx ∈ sent, tx.txHash = h ∧ tx.to_ = c.to_ deps ∧ deps.encodeFunctionData c.call = some tx.data

theorem Carried.mono {sent sent' : List (SentTransaction D)} {h : Hex} {c : Command}
    (hc : Carried deps sent h c) (hsub : sent ⊆ sent') : Carried deps sent' h c := by
  obtain ⟨tx, htx, hcarries⟩ := hc
  exact ⟨tx, hsub htx, hcarries⟩

theorem Carried.congr {sent : List (SentTransaction D)} {h : Hex} {c c' : Command}
    (hc : Carried deps sent h c) (hsame : SameTransaction deps c c') : Carried deps sent h c' := by
  obtain ⟨tx, htx, hhash, hto, hdata⟩ := hc
  exact ⟨tx, htx, hhash, by rw [hto, hsame.1], by rw [← hsame.2, hdata]⟩

/-- Every record is of a command relayed under its key, and every transaction carries one. -/
structure RelayState.Sound (deps : RelayFlowDeps D) (s : RelayState D (List Command)) : Prop where
  recorded : ∀ key r, s.records key = some r →
    ∃ c ∈ s.log, c.dedupKey = key ∧ Carried deps s.sent r.txHash c
  sentOnly : ∀ tx ∈ s.sent, ∃ c ∈ s.log,
    tx.to_ = c.to_ deps ∧ deps.encodeFunctionData c.call = some tx.data

theorem RelayState.init_sound : (RelayState.init : RelayState D (List Command)).Sound deps :=
  ⟨nofun, nofun⟩

theorem RelayState.Sound.broadcast {s : RelayState D (List Command)} (hs : s.Sound deps)
    {c : Command} (hc : c ∈ s.log) {data : D} (hdata : deps.encodeFunctionData c.call = some data)
    (txHash : Hex) (nonce : ℕ) :
    let s' : RelayState D (List Command) := { s with
      sent := s.sent ++ [⟨txHash, c.to_ deps, data, nonce⟩]
      records := Function.update s.records c.dedupKey (some ⟨nonce, txHash⟩) }
    s'.Sound deps ∧ Carried deps s'.sent txHash c := by
  intro s'
  have hcarried : Carried deps s'.sent txHash c :=
    ⟨⟨txHash, c.to_ deps, data, nonce⟩, by simp [s'], rfl, rfl, hdata⟩
  refine ⟨⟨fun key r hr => ?_, fun tx htx => ?_⟩, hcarried⟩
  · by_cases hkey : key = c.dedupKey
    · subst hkey
      obtain rfl : (⟨nonce, txHash⟩ : RelayRecord) = r := by simpa [s'] using hr
      exact ⟨c, hc, rfl, hcarried⟩
    · obtain ⟨c₀, hc₀, hkey₀, hcarried₀⟩ := hs.recorded key r (by simpa [s', hkey] using hr)
      exact ⟨c₀, hc₀, hkey₀, hcarried₀.mono (by simp [s'])⟩
  · rcases List.mem_append.1 htx with htx | htx
    · exact hs.sentOnly tx htx
    · obtain rfl := List.mem_singleton.1 htx
      exact ⟨c, hc, rfl, hdata⟩

/-- A transaction of its own carried the command, and its receipt was a success. -/
def Done (deps : RelayFlowDeps D) (answers : ℕ → Answers (World.Event Hex Hex))
    (sent : List (SentTransaction D)) (c : Command) : Prop :=
  ∃ h, Carried deps sent h c ∧ ∃ t, (answers t).reverted h = false

/-- In the middle of a call that started from the commands `L` and the transactions `T`: the
commands `cs` have been relayed and waited for, and those of `rest` are being relayed. -/
structure Progress (deps : RelayFlowDeps D) (answers : ℕ → Answers (World.Event Hex Hex))
    (L : List Command) (T : List (SentTransaction D)) (cs rest : List Command)
    (s : RelayState D (List Command)) : Prop where
  sound : s.Sound deps
  log : s.log = L ++ cs ++ rest
  sent : T <+: s.sent
  done : Agreeing s.log → ∀ c ∈ cs, Done deps answers s.sent c

/-- A call that threw: if a revert made it throw, of a transaction of its own last command. -/
structure Thrown (deps : RelayFlowDeps D) (L : List Command) (T : List (SentTransaction D))
    (e : RelayError) (s : RelayState D (List Command)) : Prop where
  sound : s.Sound deps
  sent : T <+: s.sent
  reverted : ∀ h, e = .transactionReverted h → Agreeing s.log →
    ∃ cs c, s.log = L ++ cs ++ [c] ∧ Carried deps s.sent h c

variable {L cs rest : List Command} {T : List (SentTransaction D)} {c : Command} {h : Hex}

theorem Progress.unclocked : Unclocked (Progress deps answers L T cs rest) :=
  fun _ _ hs => ⟨⟨hs.sound.recorded, hs.sound.sentOnly⟩, hs.log, hs.sent, hs.done⟩

theorem Progress.thrown {s : RelayState D (List Command)}
    (hs : Progress deps answers L T cs rest s) {e : RelayError}
    (he : ∀ h, e ≠ .transactionReverted h) : Thrown deps L T e s :=
  ⟨hs.sound, hs.sent, fun h heq => absurd heq (he h)⟩

theorem Progress.relaying {s : RelayState D (List Command)}
    (hs : Progress deps answers L T cs [] s) (c : Command) :
    Progress deps answers L T cs [c] { s with log := s.log ++ [c] } := by
  refine ⟨⟨fun key r hr => ?_, fun tx htx => ?_⟩, by simp [hs.log], hs.sent, fun hagree => ?_⟩
  · obtain ⟨c₀, hc₀, h₀⟩ := hs.sound.recorded key r hr
    exact ⟨c₀, by simp [hc₀], h₀⟩
  · obtain ⟨c₀, hc₀, h₀⟩ := hs.sound.sentOnly tx htx
    exact ⟨c₀, by simp [hc₀], h₀⟩
  · exact hs.done fun c₀ h₀ c₁ h₁ => hagree c₀ (by simp [h₀]) c₁ (by simp [h₁])

/-- A command is answered, if the commands agree, with a transaction of its own. -/
theorem relayCommand_triple (c : Command) :
    Triple (Progress deps answers L T cs []) (relayCommand deps answers c)
      (fun h s => Progress deps answers L T cs [c] s ∧ (Agreeing s.log → Carried deps s.sent h c))
      (Thrown deps L T) := by
  rw [relayCommand]
  cases hdata : deps.encodeFunctionData c.call with
  | none =>
    simp only [Command.request, hdata, Option.map_none]
    exact .throw fun s hs => hs.thrown (by simp)
  | some data =>
    simp only [Command.request, hdata, Option.map_some]
    refine Triple.bind (Q := fun _ => Progress deps answers L T cs [c])
      (.modify fun s hs => hs.relaying c) fun _ => relay_triple Progress.unclocked
        (fun s e he hs => hs.thrown he) ?_ ?_
    · intro s r hs hr
      obtain ⟨c₀, hc₀, hkey, hcarried⟩ := hs.sound.recorded _ r hr
      refine ⟨hs, fun hagree => ?_⟩
      rwa [← (hagree c₀ hc₀ c (by simp [hs.log])).eq hkey]
    · intro s txHash nonce hs
      obtain ⟨hsound, hcarried⟩ := hs.sound.broadcast (by simp [hs.log]) hdata txHash nonce
      refine ⟨⟨hsound, hs.log, hs.sent.trans (List.prefix_append _ _), fun hagree c₀ hc₀ => ?_⟩,
        fun _ => hcarried⟩
      obtain ⟨h, hcarried₀, hreceipt⟩ := hs.done hagree c₀ hc₀
      exact ⟨h, hcarried₀.mono (List.subset_append_left _ _), hreceipt⟩

theorem waitForSuccessfulReceipt_done (c : Command) (h : Hex) :
    Triple (fun s => Progress deps answers L T cs [c] s ∧
        (Agreeing s.log → Carried deps s.sent h c))
      (waitForSuccessfulReceipt answers h) (fun _ => Progress deps answers L T (cs ++ [c]) [])
      (Thrown deps L T) := by
  refine (waitForSuccessfulReceipt_triple (fun s clock hs => ⟨hs.1.unclocked s clock, hs.2⟩)
    ?_).conseq (fun _ hs => hs) ?_ fun _ _ hs => hs
  · rintro s e (rfl | rfl) ⟨hs, hcarried⟩
    · exact hs.thrown (by simp)
    · refine ⟨hs.sound, hs.sent, fun h' heq hagree => ?_⟩
      cases heq
      exact ⟨cs, c, hs.log, hcarried hagree⟩
  · rintro events s ⟨⟨hs, hcarried⟩, t, hreceipt, -⟩
    refine ⟨hs.sound, by simp [hs.log], hs.sent, fun hagree c₀ hc₀ => ?_⟩
    rcases List.mem_append.1 hc₀ with hc₀ | hc₀
    · exact hs.done hagree c₀ hc₀
    · obtain rfl := List.mem_singleton.1 hc₀
      exact ⟨h, hcarried hagree, t, hreceipt⟩

theorem relayAndWait_done (c : Command) :
    Triple (Progress deps answers L T cs []) (relayAndWait deps answers c)
      (fun _ => Progress deps answers L T (cs ++ [c]) []) (Thrown deps L T) :=
  (relayCommand_triple c).bind fun h => (waitForSuccessfulReceipt_done c h).bind fun _ =>
    .pure fun _ hs => hs

theorem findEvent_done {α : Type} (events : List (World.Event Hex Hex))
    (read : DomainEvent Hex Hex → Option α) :
    Triple (Progress deps answers L T cs []) (findEvent events read)
      (fun _ => Progress deps answers L T cs []) (Thrown deps L T) := by
  rw [findEvent]
  split
  · exact .pure fun _ hs => hs
  · exact .throw fun _ hs => hs.thrown (by simp)

theorem relayAndFind_done (c : Command) (read : DomainEvent Hex Hex → Option Hex) :
    Triple (Progress deps answers L T cs []) (relayAndFind deps answers c read)
      (fun _ => Progress deps answers L T (cs ++ [c]) []) (Thrown deps L T) :=
  (relayCommand_triple c).bind fun h => (waitForSuccessfulReceipt_done c h).bind fun events =>
    findEvent_done events read

theorem ask_done {α : Type} (read : Answers (World.Event Hex Hex) → α) :
    Triple (Progress deps answers L T cs []) (ask answers read)
      (fun _ => Progress deps answers L T cs []) (Thrown deps L T) :=
  (ask_triple Progress.unclocked fun _ hs => hs.thrown (by simp)).conseq (fun _ hs => hs)
    (fun _ _ hs => hs.1) fun _ _ hs => hs

theorem nowDeadline_done :
    Triple (Progress deps answers L T cs []) (nowDeadline answers)
      (fun _ => Progress deps answers L T cs []) (Thrown deps L T) :=
  Triple.bind (Q := fun _ => Progress deps answers L T cs [])
    ((nextAnswers_triple Progress.unclocked).conseq (fun _ hs => hs) (fun _ _ hs => hs.1)
      fun _ _ hs => hs) fun _ => .pure fun _ hs => hs

theorem ensureAccountDeployed_done (method : CredentialMethod) (qx qy : Hex) :
    Triple (Progress deps answers L T [] []) (ensureAccountDeployed deps answers method qx qy)
      (fun _ s => ∃ cs, Progress deps answers L T cs [] s) (Thrown deps L T) := by
  refine (ask_done _).bind fun predicted => (ask_done _).bind fun deployed =>
    .ite (fun _ => .pure fun s hs => ⟨[], hs⟩) fun _ => ?_
  exact (relayCommand_triple _).bind fun h => (waitForSuccessfulReceipt_done _ h).bind fun _ =>
    .pure fun s hs => ⟨_, hs⟩

theorem startIdentityCreation_done (qx qy : Hex) (method : CredentialMethod) :
    Triple (Progress deps answers L T [] []) (startIdentityCreation deps answers qx qy method)
      (fun _ s => ∃ cs, Progress deps answers L T cs [] s) (Thrown deps L T) := by
  refine (ensureAccountDeployed_done method qx qy).bind fun accountAddress => ?_
  rintro s ⟨cs, hs⟩
  refine Triple.bind (@relayCommand_triple _ _ _ _ cs _ _) (fun createTxHash => ?_) s hs
  refine (waitForSuccessfulReceipt_done _ _).bind fun events => (findEvent_done events _).bind
    fun identityId => nowDeadline_done.bind fun deadline => (ask_done _).bind fun chainId => ?_
  exact (relayCommand_triple _).bind fun h => (waitForSuccessfulReceipt_done _ h).bind fun _ =>
    .pure fun s hs => ⟨_, hs⟩

/-- The signed command a call relays. -/
def FlowCall.command : FlowCall → Option Command
  | .startIdentityCreation .. => none
  | .confirmIdentityCreation c signature => some (.confirm c signature)
  | .createTrack c signature => some (.createTrack c signature)
  | .registerAccount c signature => some (.registerAccount c signature)
  | .activateAccount c signature => some (.activateAccount c signature)
  | .removeAccount c signature => some (.removeAccount c signature)
  | .setProfile c signature => some (.setProfile c signature)

/-- A call that returned has relayed its command and waited for it, or the commands of a new
identity. -/
theorem FlowCall.exec_done (call : FlowCall) :
    Triple (Progress deps answers L T [] []) (call.exec deps answers)
      (fun _ s => ∃ cs, Progress deps answers L T cs [] s ∧ ∀ c ∈ call.command, cs = [c])
      (Thrown deps L T) := by
  have hwait : ∀ c : Command, Triple (Progress deps answers L T [] [])
      (discard (relayAndWait deps answers c))
      (fun _ s => ∃ cs, Progress deps answers L T cs [] s ∧ ∀ c' ∈ some c, cs = [c'])
      (Thrown deps L T) := fun c =>
    (relayAndWait_done c).bind fun _ => .pure fun s hs => ⟨_, hs, by simp⟩
  have hfind : ∀ c read, Triple (Progress deps answers L T [] [])
      (discard (relayAndFind deps answers c read))
      (fun _ s => ∃ cs, Progress deps answers L T cs [] s ∧ ∀ c' ∈ some c, cs = [c'])
      (Thrown deps L T) := fun c read =>
    (relayAndFind_done c read).bind fun _ => .pure fun s hs => ⟨_, hs, by simp⟩
  cases call with
  | startIdentityCreation qx qy method =>
    exact (startIdentityCreation_done qx qy method).bind fun _ =>
      .pure fun s ⟨cs, hs⟩ => ⟨cs, hs, by simp [FlowCall.command]⟩
  | confirmIdentityCreation c signature => exact hwait _
  | createTrack c signature => exact hfind _ _
  | registerAccount c signature => exact hfind _ _
  | activateAccount c signature => exact hwait _
  | removeAccount c signature => exact hwait _
  | setProfile c signature => exact hwait _

theorem runFlows_sound (steps : List FlowStep) {s : RelayState D (List Command)}
    (hs : s.Sound deps) : (runFlows deps steps s).Sound deps := by
  induction steps generalizing s with
  | nil => exact hs
  | cons step steps ih =>
    refine ih (s := final (step.run deps s)) ?_
    have hstep := @FlowCall.exec_done _ deps step.answers s.log s.sent step.call { s with clock := 0 }
      ⟨⟨hs.recorded, hs.sentOnly⟩, by simp, List.prefix_rfl, by simp⟩
    rw [show step.call.exec deps step.answers { s with clock := 0 } = step.run deps s from rfl]
      at hstep
    cases hr : step.run deps s with
    | ok u s' =>
      rw [hr] at hstep
      obtain ⟨cs, hprogress, -⟩ := hstep
      exact hprogress.sound
    | error e s' =>
      rw [hr] at hstep
      exact hstep.sound

/-- After a call from `s` that ended in `s'`, the hash is of a transaction that carries the command,
sent in this very call unless one with its `to` and `data` was relayed before. -/
def CarriedNow (deps : RelayFlowDeps D) (s s' : RelayState D (List Command)) (h : Hex)
    (c : Command) : Prop :=
  Carried deps s'.sent h c ∧
    ((∀ c' ∈ s.log, ¬ SameTransaction deps c' c) → Carried deps (s'.sent.drop s.sent.length) h c)

theorem Carried.now {s s' : RelayState D (List Command)} (hs : s.Sound deps)
    (hsent : s.sent <+: s'.sent) (hc : Carried deps s'.sent h c) : CarriedNow deps s s' h c := by
  refine ⟨hc, fun hnew => ?_⟩
  obtain ⟨tx, htx, hhash, hto, hdata⟩ := hc
  obtain ⟨later, hlater⟩ := hsent
  rw [← hlater, List.mem_append] at htx
  rw [← hlater, List.drop_left]
  rcases htx with htx | htx
  · obtain ⟨c', hc', hto', hdata'⟩ := hs.sentOnly tx htx
    exact absurd ⟨by rw [← hto, hto'], by rw [hdata, hdata']⟩ (hnew c' hc')
  · exact ⟨tx, htx, hhash, hto, hdata⟩

/-- After any calls, while the commands relayed agree: a key is the key of one request; a call that
returns was carried by transactions of its own commands; and a call that throws for a revert throws
for a transaction of its own command. -/
theorem relay_never_swallows {steps : List FlowStep} {step : FlowStep}
    (hagree : Agreeing (runFlows deps (steps ++ [step]) .init).log) :
    let s := runFlows deps steps .init
    KeysDetermine deps (runFlows deps (steps ++ [step]) .init).log ∧
    match step.run deps s with
    | .ok _ s' => ∃ cs, s'.log = s.log ++ cs ∧ (∀ c ∈ step.call.command, cs = [c]) ∧
        ∀ c ∈ cs, ∃ h, CarriedNow deps s s' h c ∧ ∃ t, (step.answers t).reverted h = false
    | .error (.transactionReverted h) s' =>
        ∃ cs c, s'.log = s.log ++ cs ++ [c] ∧ CarriedNow deps s s' h c
    | .error _ _ => True := by
  intro s
  refine ⟨hagree.keysDetermine, ?_⟩
  have hs : s.Sound deps := runFlows_sound steps RelayState.init_sound
  have hlast : runFlows deps (steps ++ [step]) .init = final (step.run deps s) := by
    rw [runFlows, List.foldl_append]
    rfl
  rw [hlast] at hagree
  have hstep := @FlowCall.exec_done _ deps step.answers s.log s.sent step.call { s with clock := 0 }
    ⟨⟨hs.recorded, hs.sentOnly⟩, by simp, List.prefix_rfl, by simp⟩
  rw [show step.call.exec deps step.answers { s with clock := 0 } = step.run deps s from rfl]
    at hstep
  cases hr : step.run deps s with
  | ok u s' =>
    rw [hr] at hstep hagree
    obtain ⟨cs, hprogress, hcommand⟩ := hstep
    refine ⟨cs, by simpa using hprogress.log, hcommand, fun c hc => ?_⟩
    obtain ⟨h, hcarried, hreceipt⟩ := hprogress.done hagree c hc
    exact ⟨h, hcarried.now hs hprogress.sent, hreceipt⟩
  | error e s' =>
    rw [hr] at hstep hagree
    cases e with
    | transactionReverted h =>
      obtain ⟨cs, c, hlog, hcarried⟩ := hstep.reverted h rfl hagree
      exact ⟨cs, c, hlog, hcarried.now hs hstep.sent⟩
    | _ => trivial

end Flows

section GarbageSignature

/-- Identity 0x7 is created for the account 0x8, in three transactions. -/
def exampleStart : FlowStep where
  call := .startIdentityCreation ⟨"0x8", by decide⟩ ⟨"0x90", by decide⟩ .vault
  answers t := exampleAnswers (if t < 6 then ⟨"0xa1", by decide⟩
    else if t < 10 then ⟨"0xa2", by decide⟩ else ⟨"0xa3", by decide⟩)

def exampleChallenge : ConfirmOwnerRotationChallenge :=
  ⟨exampleIdentityId, ⟨"0x8", by decide⟩, 0, 0, 700⟩

def exampleSignature : Hex := ⟨"0x5", by decide⟩

def exampleConfirm : FlowStep where
  call := .confirmIdentityCreation exampleChallenge exampleSignature
  answers _ := exampleAnswers ⟨"0xb", by decide⟩

/-- Somebody confirms identity 0x7 with a signature that is none. -/
def exampleGarbage : FlowStep where
  call := .confirmIdentityCreation exampleChallenge ⟨"0x0", by decide⟩
  answers _ := exampleAnswers revertedHash

theorem relay_never_swallows_confirmation :
    let s : RelayState FunctionCall (List Command) := runFlows exampleDeps [exampleStart] .init
    let s' := final (exampleConfirm.run exampleDeps s)
    ∃ h, CarriedNow exampleDeps s s' h (.confirm exampleChallenge exampleSignature) := by
  intro s s'
  have hrun := (@relay_never_swallows _ exampleDeps [exampleStart] exampleConfirm
    (by decide)).2
  obtain ⟨u, s₁, hok⟩ := exists_of_returned (r := exampleConfirm.run exampleDeps s)
    (by decide)
  obtain rfl : s' = s₁ := congrArg final hok
  rw [show exampleConfirm.run exampleDeps (runFlows exampleDeps [exampleStart] .init) =
    .ok u s' from hok] at hrun
  obtain ⟨cs, -, hcs, hcarried⟩ := hrun
  obtain rfl := hcs _ rfl
  obtain ⟨h, hnow, -⟩ := hcarried _ (List.mem_singleton_self _)
  exact ⟨h, hnow⟩

theorem garbage_signature_blocks :
    let s : RelayState FunctionCall (List Command) :=
      runFlows exampleDeps [exampleStart, exampleGarbage] .init
    let s' := final (exampleConfirm.run exampleDeps s)
    thrown (exampleConfirm.run exampleDeps s) =
      some (.transactionReverted revertedHash) ∧
    s'.sent = s.sent ∧ ¬ KeysDetermine exampleDeps s'.log := by
  decide

end GarbageSignature

end Linvesther.ChainWorker
