import Linvesther.Contracts.CheckpointChain

/-! The checkpoint registry only appends: what is stored stays as it was stored, and the corrections of
a checkpoint form one list, newest first, that holds each published one. -/

namespace Linvesther.CheckpointRegistry

open Transaction BackChain

variable {A B : Type}

section Stored

/-- Correction ids are hashes of the target and a counter. -/
def correctionId (evm : Evm A B) (this : A) (targetCheckpointHash : B) (n : ℕ) : B :=
  evm.keccak256 (.encodePacked [.uint evm.chainid, .address this, .bytes32 targetCheckpointHash,
    .uint n])

/-- What every reachable state owes to its calls: corrections are numbered, a free slot has no
corrections, and nothing was verified on chain. -/
structure State.Sound [Zero B] (evm : Evm A B) (this : A) (s : State A B) : Prop where
  numbered : ∀ id, (s.corrections id).exists_ = true →
    ∃ target n, n < s.correctionCounter ∧ id = correctionId evm this target n
  unset : ∀ hash, (s.checkpoints hash).exists_ = false → (s.checkpoints hash).correctionHead = 0
  unverified : ∀ hash, (s.checkpoints hash).proofVerifiedOnChain = false

/-- Checkpoints stay, with their input and their anchoring, and corrections stay as they are. -/
structure State.Preserves (s s' : State A B) : Prop where
  checkpoint : ∀ hash, (s.checkpoints hash).exists_ = true →
    (s'.checkpoints hash).exists_ = true ∧
      (s'.checkpoints hash).input = (s.checkpoints hash).input ∧
      (s'.checkpoints hash).timing = (s.checkpoints hash).timing ∧
      (s'.checkpoints hash).anchoredAt = (s.checkpoints hash).anchoredAt
  correction : ∀ id, (s.corrections id).exists_ = true → s'.corrections id = s.corrections id

theorem State.Preserves.refl (s : State A B) : s.Preserves s :=
  ⟨fun _ h => ⟨h, rfl, rfl, rfl⟩, fun _ _ => rfl⟩

theorem State.Preserves.trans {s s' s'' : State A B} (h : s.Preserves s') (h' : s'.Preserves s'') :
    s.Preserves s'' where
  checkpoint hash hexists := by
    obtain ⟨hexists', hinput, htiming, hanchored⟩ := h.checkpoint hash hexists
    obtain ⟨hexists'', hinput', htiming', hanchored'⟩ := h'.checkpoint hash hexists'
    exact ⟨hexists'', hinput'.trans hinput, htiming'.trans htiming, hanchored'.trans hanchored⟩
  correction id hexists := by
    have hsame := h.correction id hexists
    rw [h'.correction id (by rw [hsame]; exact hexists), hsame]

/-- The target and the id of a published correction. -/
def Event.publishes : Event B → Option (B × B)
  | .correctionPublished id target _ _ => some (target, id)
  | _ => none

end Stored

section Calls

variable [DecidableEq B] [Zero B] {evm : Evm A B} {this : A}
  {identityRegistry : IdentityRegistry.State A B} {s s' : State A B} {b : Block A B} {sender : A}
  {c : Call B} {logs : List (Event B)}

/-- Every accepted call writes one checkpoint; of a stored one it keeps the input and the anchoring. -/
theorem call_checkpoints (hcall : call evm this identityRegistry s b sender c = .ok (s', logs)) :
    ∃ hash checkpoint, s'.checkpoints = Function.update s.checkpoints hash checkpoint ∧
      checkpoint.exists_ = true ∧
      ((s.checkpoints hash).proofVerifiedOnChain = false → checkpoint.proofVerifiedOnChain = false) ∧
      ((s.checkpoints hash).exists_ = true → checkpoint.input = (s.checkpoints hash).input ∧
        checkpoint.timing = (s.checkpoints hash).timing ∧
        checkpoint.anchoredAt = (s.checkpoints hash).anchoredAt) := by
  rcases c with input | checkpointHash | target
  · obtain ⟨hnew, -, -, -, -, rfl⟩ := appendCheckpoint_ok hcall
    exact ⟨input.checkpointHash, _, rfl, rfl, fun _ => rfl, fun h => by simp [hnew] at h⟩
  · obtain ⟨hexists, rfl⟩ := attachProof_ok hcall
    exact ⟨checkpointHash, _, rfl, hexists, fun h => h, fun _ => ⟨rfl, rfl, rfl⟩⟩
  · obtain ⟨hexists, rfl⟩ := publishCorrection_ok hcall
    exact ⟨target, _, rfl, hexists, fun h => h, fun _ => ⟨rfl, rfl, rfl⟩⟩

/-- A call that publishes a correction puts it in front of those of its target. -/
structure Publishes (evm : Evm A B) (this : A) (s s' : State A B) (target : B)
    (correction : Correction A B) : Prop where
  corrections : s'.corrections =
    Function.update s.corrections (correctionId evm this target s.correctionCounter) correction
  exists_ : correction.exists_ = true
  target_ : correction.targetCheckpointHash = target
  previous : correction.previousCorrectionHead = (s.checkpoints target).correctionHead
  next : s'.correctionCounter = s.correctionCounter + 1
  head : ∀ hash, (s'.checkpoints hash).correctionHead =
    if hash = target then correctionId evm this target s.correctionCounter
    else (s.checkpoints hash).correctionHead

/-- What an accepted call does to the corrections: nothing, or it publishes one. -/
theorem call_corrections (h : s.Sound evm this)
    (hcall : call evm this identityRegistry s b sender c = .ok (s', logs)) :
    (logs.filterMap Event.publishes = [] ∧ s'.corrections = s.corrections ∧
      s'.correctionCounter = s.correctionCounter ∧
      ∀ hash, (s'.checkpoints hash).correctionHead = (s.checkpoints hash).correctionHead) ∨
    ∃ target correction, logs.filterMap Event.publishes =
        [(target, correctionId evm this target s.correctionCounter)] ∧
      Publishes evm this s s' target correction := by
  rcases c with input | checkpointHash | target
  · obtain ⟨hnew, -, -, -, -, rfl⟩ := appendCheckpoint_ok hcall
    refine .inl ⟨?_, rfl, rfl, fun hash => ?_⟩
    · simp only [call, appendCheckpoint, bind_ok, revertIf_ok, pure_ok, Prod.mk.injEq] at hcall
      obtain ⟨-, -, owner, -, required, -, -, -, -, -, -, -, -, -, s₁, -, -, rfl⟩ := hcall
      rfl
    · rcases eq_or_ne hash input.checkpointHash with rfl | hne
      · simp only [Function.update_self]
        rw [h.unset _ hnew]
      · simp only [Function.update_of_ne hne]
  · obtain ⟨hexists, rfl⟩ := attachProof_ok hcall
    refine .inl ⟨?_, rfl, rfl, fun hash => ?_⟩
    · simp only [call, attachProof, bind_ok, revertIf_ok, pure_ok, Prod.mk.injEq] at hcall
      obtain ⟨-, -, owner, -, s₁, -, -, rfl⟩ := hcall
      rfl
    · rcases eq_or_ne hash checkpointHash with rfl | hne
      · simp only [Function.update_self]
      · simp only [Function.update_of_ne hne]
  · obtain ⟨hexists, rfl⟩ := publishCorrection_ok hcall
    refine .inr ⟨target, _, ?_, rfl, rfl, rfl, rfl, rfl, fun hash => ?_⟩
    · simp only [call, publishCorrection, bind_ok, revertIf_ok, checkedAdd_ok, pure_ok,
        Prod.mk.injEq] at hcall
      obtain ⟨-, -, counter, -, -, rfl⟩ := hcall
      rfl
    · rcases eq_or_ne hash target with rfl | hne
      · simp only [Function.update_self, if_true]
        rfl
      · simp only [Function.update_of_ne hne, if_neg hne]

omit [DecidableEq B] in
/-- The counter makes the next correction id a new one. -/
theorem State.Sound.fresh (hk : Function.Injective evm.keccak256) (h : s.Sound evm this)
    (target : B) : (s.corrections (correctionId evm this target s.correctionCounter)).exists_ = false := by
  by_contra hexists
  obtain ⟨target', n, hn, hid⟩ := h.numbered _ (Bool.of_not_eq_false hexists)
  have hargs := hk hid
  simp only [Preimage.encodePacked.injEq, List.cons.injEq, Word.uint.injEq] at hargs
  omega

theorem call_sound (h : s.Sound evm this)
    (hcall : call evm this identityRegistry s b sender c = .ok (s', logs)) : s'.Sound evm this := by
  obtain ⟨hash₀, checkpoint, hcheckpoints, hexists, hverified, -⟩ := call_checkpoints hcall
  refine ⟨fun id hid => ?_, fun hash hfree => ?_, fun hash => ?_⟩
  · rcases call_corrections h hcall with ⟨-, hcorrections, hcounter, -⟩ |
      ⟨target, correction, -, hpublishes⟩
    · rw [hcorrections] at hid
      rw [hcounter]
      exact h.numbered id hid
    · rw [hpublishes.corrections] at hid
      rw [hpublishes.next]
      by_cases hsame : id = correctionId evm this target s.correctionCounter
      · exact ⟨target, _, Nat.lt_succ_self _, hsame⟩
      · rw [Function.update_of_ne hsame] at hid
        obtain ⟨target', n, hn, heq⟩ := h.numbered id hid
        exact ⟨target', n, Nat.lt_succ_of_lt hn, heq⟩
  · rw [hcheckpoints, Function.update_apply] at hfree
    split_ifs at hfree with hhash
    · rw [hexists] at hfree
      cases hfree
    · have hhead : (s'.checkpoints hash).correctionHead = (s.checkpoints hash).correctionHead := by
        rw [hcheckpoints, Function.update_of_ne hhash]
      rw [hhead, h.unset hash hfree]
  · rw [hcheckpoints, Function.update_apply]
    split_ifs
    · exact hverified (h.unverified hash₀)
    · exact h.unverified hash

theorem call_preserves (hk : Function.Injective evm.keccak256) (h : s.Sound evm this)
    (hcall : call evm this identityRegistry s b sender c = .ok (s', logs)) : s.Preserves s' := by
  obtain ⟨hash₀, checkpoint, hcheckpoints, hexists, -, hsame⟩ := call_checkpoints hcall
  refine ⟨fun hash hstored => ?_, fun id hid => ?_⟩
  · rw [hcheckpoints, Function.update_apply]
    split_ifs with hhash
    · rw [hhash] at hstored ⊢
      exact ⟨hexists, hsame hstored⟩
    · exact ⟨hstored, rfl, rfl, rfl⟩
  · rcases call_corrections h hcall with ⟨-, hcorrections, -⟩ | ⟨target, correction, -, hpublishes⟩
    · rw [hcorrections]
    · have hne : id ≠ correctionId evm this target s.correctionCounter := by
        rintro rfl
        rw [h.fresh hk] at hid
        cases hid
      rw [hpublishes.corrections, Function.update_of_ne hne]

end Calls

section History

variable [DecidableEq A] [DecidableEq B] [Zero A] [Zero B] {evm : Evm A B} {at_ : Deployment A}

/-- The target and the id of a correction that the registry announced. -/
def announced : World.Event A B → Option (B × B)
  | .checkpoint e => e.publishes
  | _ => none

/-- The corrections of a checkpoint that an accepted transaction announced. -/
def publishedFor (hash : B) (logs : List (World.Event A B)) : List B :=
  (logs.filterMap announced).filterMap fun p => if p.1 = hash then some p.2 else none

/-- The corrections ever published for a checkpoint, in the order they were published. -/
def publishedCorrections (past : List (Accepted (World A B) (Tx A B) (List (World.Event A B))))
    (hash : B) : List B := past.flatMap fun a => publishedFor hash a.out

omit [DecidableEq A] [Zero A] [Zero B] in
theorem publishedCorrections_append
    (past : List (Accepted (World A B) (Tx A B) (List (World.Event A B))))
    (a : Accepted (World A B) (Tx A B) (List (World.Event A B))) (hash : B) :
    publishedCorrections (past ++ [a]) hash =
      publishedCorrections past hash ++ publishedFor hash a.out := by
  simp [publishedCorrections]

omit [DecidableEq A] [Zero A] [Zero B] in
theorem publishedFor_checkpoint (hash : B) (l : List (Event B)) :
    publishedFor hash (l.map (World.Event.checkpoint : Event B → World.Event A B)) =
      (l.filterMap Event.publishes).filterMap fun p => if p.1 = hash then some p.2 else none := by
  unfold publishedFor
  rw [List.filterMap_map]
  rfl

/-- The list of a checkpoint's corrections, from the newest down. -/
structure Enumerated (past : List (Accepted (World A B) (Tx A B) (List (World.Event A B))))
    (s : State A B) : Prop where
  trace : ∀ hash, Trace (fun id => (s.corrections id).previousCorrectionHead) 0
    (s.checkpoints hash).correctionHead (publishedCorrections past hash).reverse
  known : ∀ hash id, id ∈ publishedCorrections past hash ↔
    (s.corrections id).exists_ = true ∧ (s.corrections id).targetCheckpointHash = hash

omit [DecidableEq A] [Zero A] in
/-- A transaction that publishes nothing leaves the lists as they are. -/
theorem Enumerated.silent {a : Accepted (World A B) (Tx A B) (List (World.Event A B))}
    {past : List (Accepted (World A B) (Tx A B) (List (World.Event A B)))} {s s' : State A B}
    (h : Enumerated past s) (hout : ∀ hash, publishedFor hash a.out = [])
    (hcorrections : s'.corrections = s.corrections)
    (hhead : ∀ hash, (s'.checkpoints hash).correctionHead = (s.checkpoints hash).correctionHead) :
    Enumerated (past ++ [a]) s' where
  trace hash := by
    rw [publishedCorrections_append, hout, List.append_nil, hhead, hcorrections]
    exact h.trace hash
  known hash id := by
    rw [publishedCorrections_append, hout, List.append_nil, hcorrections]
    exact h.known hash id

omit [DecidableEq A] [Zero A] in
/-- A published correction comes in front of those of its target, and of no other checkpoint. -/
theorem Enumerated.publish {this : A} {a : Accepted (World A B) (Tx A B) (List (World.Event A B))}
    {past : List (Accepted (World A B) (Tx A B) (List (World.Event A B)))} {s s' : State A B}
    {target : B} {correction : Correction A B} (hk : Function.Injective evm.keccak256)
    (hzero : ∀ p, evm.keccak256 p ≠ 0) (hs : s.Sound evm this) (h : Enumerated past s)
    (hout : ∀ hash, publishedFor hash a.out =
      if target = hash then [correctionId evm this target s.correctionCounter] else [])
    (hpublishes : Publishes evm this s s' target correction) : Enumerated (past ++ [a]) s' := by
  have hfresh := hs.fresh hk target
  generalize hid : correctionId evm this target s.correctionCounter = id at hfresh hout
  have hcorrections := hpublishes.corrections
  rw [hid] at hcorrections
  -- the new id is in no list yet, so the old links stand
  have hnew : ∀ hash, ∀ c ∈ publishedCorrections past hash, c ≠ id := by
    rintro hash c hc rfl
    rw [((h.known hash c).1 hc).1] at hfresh
    cases hfresh
  have hsame : ∀ hash, ∀ c ∈ (publishedCorrections past hash).reverse,
      (s'.corrections c).previousCorrectionHead = (s.corrections c).previousCorrectionHead := by
    intro hash c hc
    rw [hcorrections, Function.update_of_ne (hnew hash c (List.mem_reverse.1 hc))]
  refine ⟨fun hash => ?_, fun hash c => ?_⟩
  · rw [publishedCorrections_append, hout, hpublishes.head]
    rcases eq_or_ne hash target with rfl | hne
    · rw [if_pos rfl, if_pos rfl, hid, List.reverse_append, List.reverse_singleton,
        List.singleton_append]
      refine (h.trace hash).push (hid ▸ hzero _) ?_ (hsame hash)
      rw [hcorrections, Function.update_self, hpublishes.previous]
    · rw [if_neg hne, if_neg hne.symm, List.append_nil]
      exact (h.trace hash).congr (hsame hash)
  · rw [publishedCorrections_append, hout, List.mem_append, hcorrections]
    rcases eq_or_ne c id with rfl | hne
    · have hold : c ∉ publishedCorrections past hash := fun hc => hnew hash c hc rfl
      rw [Function.update_self, hpublishes.exists_, hpublishes.target_]
      by_cases ht : target = hash <;> simp [ht, hold]
    · rw [Function.update_of_ne hne, ← h.known hash c]
      by_cases ht : target = hash <;> simp [ht, hne]

/-- A transaction keeps the registry sound and its lists complete. -/
theorem world_enumerated (hk : Function.Injective evm.keccak256)
    (hzero : ∀ p, evm.keccak256 p ≠ 0) {w w' : World A B} {tx : Tx A B}
    {logs : List (World.Event A B)}
    {past : List (Accepted (World A B) (Tx A B) (List (World.Event A B)))}
    (hs : w.checkpoint.Sound evm at_.checkpointRegistry) (h : Enumerated past w.checkpoint)
    (hcall : World.call evm at_ w tx = .ok (w', logs)) :
    Enumerated (past ++ [⟨w, tx, logs⟩]) w'.checkpoint := by
  rcases World.call_ok hcall with ⟨c, s, l, hc, hok, rfl, rfl⟩ | ⟨c, s, l, hc, hok, rfl, rfl⟩ |
    ⟨c, s, l, hc, hok, rfl, rfl⟩
  · exact h.silent (fun hash => by simp [publishedFor, announced]) rfl fun _ => rfl
  · exact h.silent (fun hash => by simp [publishedFor, announced]) rfl fun _ => rfl
  · rcases call_corrections hs hok with ⟨hsilent, hcorrections, -, hhead⟩ |
      ⟨target, correction, hlogs, hpublishes⟩
    · refine h.silent (fun hash => ?_) hcorrections hhead
      rw [publishedFor_checkpoint, hsilent, List.filterMap_nil]
    · refine h.publish hk hzero hs (fun hash => ?_) hpublishes
      rw [publishedFor_checkpoint, hlogs]
      by_cases ht : target = hash <;> simp [ht]

theorem world_sound {w w' : World A B} {tx : Tx A B} {logs : List (World.Event A B)}
    (hs : w.checkpoint.Sound evm at_.checkpointRegistry)
    (hcall : World.call evm at_ w tx = .ok (w', logs)) :
    w'.checkpoint.Sound evm at_.checkpointRegistry := by
  rcases World.call_ok hcall with ⟨c, s, l, hc, hok, rfl, rfl⟩ | ⟨c, s, l, hc, hok, rfl, rfl⟩ |
    ⟨c, s, l, hc, hok, rfl, rfl⟩
  · exact hs
  · exact hs
  · exact call_sound hs hok

theorem world_preserves (hk : Function.Injective evm.keccak256) {w w' : World A B} {tx : Tx A B}
    {logs : List (World.Event A B)} (hs : w.checkpoint.Sound evm at_.checkpointRegistry)
    (hcall : World.call evm at_ w tx = .ok (w', logs)) :
    w.checkpoint.Preserves w'.checkpoint := by
  rcases World.call_ok hcall with ⟨c, s, l, hc, hok, rfl, rfl⟩ | ⟨c, s, l, hc, hok, rfl, rfl⟩ |
    ⟨c, s, l, hc, hok, rfl, rfl⟩
  · exact .refl _
  · exact .refl _
  · exact call_preserves hk hs hok

omit [DecidableEq A] [DecidableEq B] in
theorem init_sound (evm : Evm A B) (this : A) : (State.init : State A B).Sound evm this :=
  ⟨fun _ h => by simp [State.init, noCorrection] at h, fun _ _ => rfl, fun _ => rfl⟩

omit [DecidableEq A] in
theorem init_enumerated : Enumerated [] (State.init : State A B) :=
  ⟨fun _ => .stop, fun _ _ => by simp [publishedCorrections, State.init, noCorrection]⟩

theorem run_sound (evm : Evm A B) (at_ : Deployment A) (txs : List (Tx A B)) :
    (World.run evm at_ .init txs).checkpoint.Sound evm at_.checkpointRegistry :=
  @run_invariant_all _ _ _ _ (World.call evm at_)
    (fun w => w.checkpoint.Sound evm at_.checkpointRegistry)
    (fun _ _ _ _ hs hc => world_sound hs hc) _ txs (init_sound evm at_.checkpointRegistry)

theorem run_preserves (hk : Function.Injective evm.keccak256) {w : World A B}
    (hs : w.checkpoint.Sound evm at_.checkpointRegistry) (txs : List (Tx A B)) :
    w.checkpoint.Preserves (World.run evm at_ w txs).checkpoint :=
  (@run_invariant_all _ _ _ _ (World.call evm at_)
    (fun w' => w'.checkpoint.Sound evm at_.checkpointRegistry ∧ w.checkpoint.Preserves w'.checkpoint)
    (fun _ _ _ _ h hc => ⟨world_sound h.1 hc, h.2.trans (world_preserves hk h.1 hc)⟩) _ txs
    ⟨hs, .refl _⟩).2

variable (at_) in
theorem run_enumerated (hk : Function.Injective evm.keccak256) (hzero : ∀ p, evm.keccak256 p ≠ 0)
    (txs : List (Tx A B)) :
    Enumerated (World.accepted evm at_ .init txs) (World.run evm at_ .init txs).checkpoint := by
  have hhistory := @accepted_history _ _ _ _ (World.call evm at_)
    (fun past w => w.checkpoint.Sound evm at_.checkpointRegistry ∧ Enumerated past w.checkpoint)
    (fun past w tx w' logs h hc => ⟨world_sound h.1 hc, world_enumerated hk hzero h.1 h.2 hc⟩)
    World.init [] txs ⟨init_sound evm _, init_enumerated⟩
  exact hhistory.2

/-- The registry only appends. Whatever it holds after some transactions it still holds after more of
them; nothing is verified on chain; and from a checkpoint's head down to zero come its corrections, each
once, the newest first. -/
theorem append_only (evm : Evm A B) (at_ : Deployment A) (hk : Function.Injective evm.keccak256)
    (hzero : ∀ p, evm.keccak256 p ≠ 0) (txs later : List (Tx A B)) :
    let s := (World.run evm at_ .init txs).checkpoint
    s.Preserves (World.run evm at_ .init (txs ++ later)).checkpoint ∧
    (∀ hash, (s.checkpoints hash).proofVerifiedOnChain = false) ∧
    ∀ hash,
      let published := (publishedCorrections (World.accepted evm at_ .init txs) hash).reverse
      Trace (fun id => (s.corrections id).previousCorrectionHead) 0
        (s.checkpoints hash).correctionHead published ∧
      published.Nodup ∧
      ∀ id, id ∈ published ↔
        (s.corrections id).exists_ = true ∧ (s.corrections id).targetCheckpointHash = hash := by
  intro s
  have hs := run_sound evm at_ txs
  have henumerated := run_enumerated at_ hk hzero txs
  refine ⟨?_, hs.unverified, fun hash => ?_⟩
  · have hrun : World.run evm at_ .init (txs ++ later) =
        World.run evm at_ (World.run evm at_ .init txs) later := run_append _ _ _ _
    rw [hrun]
    exact run_preserves hk hs later
  · intro published
    have htrace := henumerated.trace hash
    exact ⟨htrace, htrace.nodup, fun id => List.mem_reverse.trans (henumerated.known hash id)⟩

end History

section Example

/-- A genesis checkpoint of the track, corrected twice by a stranger. -/
def exampleCorrections : List (Tx ℕ Symbol) :=
  exampleSetup ++ [appendGenesis (.nat 5) 0,
    { block := .signed 12 0 0 [], sender := 9, call := .checkpoint
        (.publishCorrection (.nat 5) (.nat 6) (.nat 7) (.nat 8)) },
    { block := .signed 13 0 0 [], sender := 10, call := .checkpoint
        (.publishCorrection (.nat 5) (.nat 9) (.nat 7) (.nat 8)) }]

/-- The second correction comes before the first. -/
theorem append_only_correctedTwice :
    let s := (World.run Symbol.evm exampleDeployment .init exampleCorrections).checkpoint
    let published := (publishedCorrections
      (World.accepted Symbol.evm exampleDeployment .init exampleCorrections) (.nat 5)).reverse
    published = [correctionId Symbol.evm 3 (.nat 5) 1, correctionId Symbol.evm 3 (.nat 5) 0] ∧
      Trace (fun id => (s.corrections id).previousCorrectionHead) 0
        (s.checkpoints (.nat 5)).correctionHead published := by
  obtain ⟨-, -, hlists⟩ := append_only Symbol.evm exampleDeployment Symbol.keccak256_injective
    Symbol.keccak256_ne_zero exampleCorrections []
  exact ⟨by decide +kernel, (hlists (.nat 5)).1⟩

end Example

end Linvesther.CheckpointRegistry
