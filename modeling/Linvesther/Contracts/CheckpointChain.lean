import Linvesther.Base.BackChain
import Linvesther.Contracts.World

/-! The checkpoints of a track form one chain, as long as no checkpoint is anchored under the zero
hash: a head of zero means "no head" to the registry. -/

namespace Linvesther.CheckpointRegistry

open Transaction BackChain

variable {A B : Type}

section Chain

variable [Zero B]

def State.previous (s : State A B) (h : B) : B := (s.checkpoints h).input.previousCheckpointHash
def State.sequence (s : State A B) (h : B) : ℕ := (s.checkpoints h).input.sequence
def State.periodStart (s : State A B) (h : B) : ℕ := (s.checkpoints h).input.periodStart
def State.periodEnd (s : State A B) (h : B) : ℕ := (s.checkpoints h).input.periodEnd

/-- `h` is a stored checkpoint of `trackId`. -/
def State.Stored (s : State A B) (trackId h : B) : Prop :=
  (s.checkpoints h).exists_ = true ∧ (s.checkpoints h).input.trackId = trackId

/-- `path` lists the checkpoints of the track from its head down to its genesis. -/
structure State.Chain (s : State A B) (trackId : B) (path : List B) : Prop where
  trace : Trace s.previous 0 (s.head trackId) path
  covers : ∀ h, h ∈ path ↔ s.Stored trackId h
  counted : path.map s.sequence = (List.range path.length).reverse
  headCount : path ≠ [] → s.headSequence trackId + 1 = path.length
  periods : ∀ h ∈ path, s.periodStart h < s.periodEnd h
  ordered : path.IsChain fun h previous => s.periodEnd previous ≤ s.periodStart h
  headEnd : ∀ h ∈ path.head?, s.headPeriodEnd trackId = s.periodEnd h

def State.OneChain (s : State A B) (trackId : B) : Prop := ∃ path, s.Chain trackId path

/-- The chain is determined by the state, so there is no second one. -/
theorem State.Chain.unique {s : State A B} {trackId : B} {path path' : List B}
    (h : s.Chain trackId path) (h' : s.Chain trackId path') : path = path' :=
  h.trace.unique h'.trace

/-- A checkpoint stored under the zero hash is on no chain. -/
theorem State.not_oneChain_of_zero {s : State A B} (h : (s.checkpoints 0).exists_ = true) :
    ¬ ∀ trackId, s.OneChain trackId := by
  intro hall
  obtain ⟨path, hpath⟩ := hall (s.checkpoints 0).input.trackId
  exact hpath.trace.ne_nil 0 ((hpath.covers 0).2 ⟨h, rfl⟩) rfl

/-- The chain of a track reads only its head fields and the stored inputs. -/
theorem State.Chain.congr {s s' : State A B} {trackId : B} {path : List B}
    (h : s.Chain trackId path) (hhead : s'.head trackId = s.head trackId)
    (hseq : s'.headSequence trackId = s.headSequence trackId)
    (hend : s'.headPeriodEnd trackId = s.headPeriodEnd trackId)
    (hstored : ∀ h, s'.Stored trackId h ↔ s.Stored trackId h)
    (hinput : ∀ h ∈ path, (s'.checkpoints h).input = (s.checkpoints h).input) :
    s'.Chain trackId path where
  trace := by
    rw [hhead]
    exact h.trace.congr fun p hp => by simp only [previous, hinput p hp]
  covers p := by rw [h.covers, hstored]
  counted := by
    rw [← h.counted]
    exact List.map_congr_left fun p hp => by simp only [sequence, hinput p hp]
  headCount hne := by rw [hseq]; exact h.headCount hne
  periods p hp := by
    simp only [periodStart, periodEnd, hinput p hp]
    exact h.periods p hp
  ordered := by
    refine h.ordered.imp_of_mem_imp fun p q hp hq hle => ?_
    simpa only [periodStart, periodEnd, hinput p hp, hinput q hq] using hle
  headEnd p hp := by
    rw [hend, h.headEnd p hp]
    simp only [periodEnd, hinput p (List.mem_of_mem_head? hp)]

end Chain

section Steps

variable [DecidableEq B] [Zero B] {evm : Evm A B} {this : A}
  {identityRegistry : IdentityRegistry.State A B} {s s' : State A B} {b : Block A B}

/-- A call that rewrites a stored checkpoint without its input leaves every chain as it was. -/
theorem State.OneChain.of_same_input {trackId hash : B} {checkpoint : StoredCheckpoint B}
    (h : s.OneChain trackId) (hcheckpoints : s'.checkpoints = Function.update s.checkpoints hash checkpoint)
    (hinput : checkpoint.input = (s.checkpoints hash).input)
    (hexists : checkpoint.exists_ = (s.checkpoints hash).exists_)
    (hhead : s'.head = s.head) (hseq : s'.headSequence = s.headSequence)
    (hend : s'.headPeriodEnd = s.headPeriodEnd) : s'.OneChain trackId := by
  obtain ⟨path, hpath⟩ := h
  have hsame : ∀ h, (s'.checkpoints h).input = (s.checkpoints h).input ∧
      (s'.checkpoints h).exists_ = (s.checkpoints h).exists_ := by
    intro h
    rw [hcheckpoints, Function.update_apply]
    split_ifs with he
    · subst he; exact ⟨hinput, hexists⟩
    · exact ⟨rfl, rfl⟩
  refine ⟨path, hpath.congr (by rw [hhead]) (by rw [hseq]) (by rw [hend]) (fun h => ?_)
    fun h _ => (hsame h).1⟩
  simp only [Stored, hsame]

/-- The new checkpoint becomes the head of its own track's chain. -/
theorem appendCheckpoint_chain {input : CheckpointInput B} {ownerEpoch nonce deadline : ℕ}
    {signature : Bytes} {logs : List (Event B)} (hne : input.checkpointHash ≠ 0)
    (hcall : appendCheckpoint evm this identityRegistry s b input ownerEpoch nonce deadline
      signature = .ok (s', logs)) {path : List B} (h : s.Chain input.trackId path) :
    s'.Chain input.trackId (input.checkpointHash :: path) := by
  obtain ⟨hnew, hgenesis, hnext, hprevious, hperiod, hs'⟩ := appendCheckpoint_ok hcall
  have hfresh : input.checkpointHash ∉ path := by
    intro hmem
    simp [((h.covers _).1 hmem).1] at hnew
  have hinput : (s'.checkpoints input.checkpointHash).input = input := by simp [hs']
  have hold : ∀ p ∈ path, (s'.checkpoints p).input = (s.checkpoints p).input := by
    intro p hp
    have : p ≠ input.checkpointHash := fun he => hfresh (he ▸ hp)
    simp [hs', Function.update_of_ne this]
  have hlength : input.sequence = path.length := by
    by_cases hhead : s.head input.trackId = 0
    · rw [hgenesis hhead, h.trace.eq_nil_iff.2 hhead, List.length_nil]
    · rw [(hnext hhead).1, h.headCount (mt h.trace.eq_nil_iff.1 hhead)]
  constructor
  · rw [show s'.head input.trackId = input.checkpointHash by simp [hs']]
    refine h.trace.push hne (by simp [State.previous, hinput, hprevious]) fun p hp => ?_
    simp only [State.previous, hold p hp]
  · intro p
    simp only [List.mem_cons, h.covers, State.Stored, hs', Function.update_apply]
    by_cases hp : p = input.checkpointHash
    · simp [hp]
    · simp [hp]
  · refine countdown_cons ?_ (by simpa [State.sequence, hinput] using hlength)
    rw [← h.counted]
    exact List.map_congr_left fun p hp => by simp only [State.sequence, hold p hp]
  · intro _
    simp [hs', hlength]
  · intro p hp
    rcases List.mem_cons.1 hp with rfl | hp
    · simpa [State.periodStart, State.periodEnd, hinput] using hperiod
    · simpa [State.periodStart, State.periodEnd, hold p hp] using h.periods p hp
  · refine List.isChain_cons.2 ⟨fun p hp => ?_, h.ordered.imp_of_mem_imp fun p q hp hq hle => ?_⟩
    · -- the period before is the one whose end the head remembers
      have hmem := List.mem_of_mem_head? hp
      have hhead : s.head input.trackId ≠ 0 :=
        mt h.trace.eq_nil_iff.2 (List.ne_nil_of_mem hmem)
      have hstart := (hnext hhead).2
      rw [h.headEnd p hp] at hstart
      simpa [State.periodStart, State.periodEnd, hinput, hold p hmem] using hstart
    · simpa [State.periodStart, State.periodEnd, hold p hp, hold q hq] using hle
  · intro p hp
    simp only [List.head?_cons, Option.mem_some_iff] at hp
    subst hp
    simp [State.periodEnd, hs']

theorem appendCheckpoint_oneChain {input : CheckpointInput B} {ownerEpoch nonce deadline : ℕ}
    {signature : Bytes} {logs : List (Event B)} (hne : input.checkpointHash ≠ 0)
    (hcall : appendCheckpoint evm this identityRegistry s b input ownerEpoch nonce deadline
      signature = .ok (s', logs)) (hall : ∀ trackId, s.OneChain trackId) (trackId : B) :
    s'.OneChain trackId := by
  by_cases ht : trackId = input.trackId
  · subst ht
    obtain ⟨path, hpath⟩ := hall input.trackId
    exact ⟨_, appendCheckpoint_chain hne hcall hpath⟩
  · -- another track: the new checkpoint is not one of its own
    obtain ⟨hnew, -, -, -, -, hs'⟩ := appendCheckpoint_ok hcall
    obtain ⟨path, hpath⟩ := hall trackId
    refine ⟨path, hpath.congr ?_ ?_ ?_ (fun p => ?_) fun p hp => ?_⟩
    · simp [hs', Function.update_of_ne ht]
    · simp [hs', Function.update_of_ne ht]
    · simp [hs', Function.update_of_ne ht]
    · simp only [State.Stored, hs', Function.update_apply]
      by_cases hp : p = input.checkpointHash
      · subst hp
        simp [hnew, Ne.symm ht]
      · simp [hp]
    · have : p ≠ input.checkpointHash := by
        rintro rfl
        simp [((hpath.covers _).1 hp).1] at hnew
      simp [hs', Function.update_of_ne this]

/-- The hash a call would anchor a checkpoint under. -/
def Call.appends : Call B → Option B
  | .appendCheckpoint input _ _ _ _ => some input.checkpointHash
  | _ => none

/-- Every accepted call keeps the tracks on one chain each, unless it anchors the zero hash. -/
theorem call_oneChain {sender : A} {c : Call B} {logs : List (Event B)} (hc : c.appends ≠ some 0)
    (hcall : call evm this identityRegistry s b sender c = .ok (s', logs))
    (hall : ∀ trackId, s.OneChain trackId) : ∀ trackId, s'.OneChain trackId := by
  cases c with
  | appendCheckpoint input ownerEpoch nonce deadline signature =>
    exact appendCheckpoint_oneChain (by simpa [Call.appends] using hc) hcall hall
  | attachProof checkpointHash proofDigest claimSetDigest ownerEpoch nonce deadline signature =>
    obtain ⟨-, rfl⟩ := attachProof_ok hcall
    exact fun trackId => (hall trackId).of_same_input rfl rfl rfl rfl rfl rfl
  | publishCorrection target replacementDigest sourceEvidenceDigest reasonCode =>
    obtain ⟨-, rfl⟩ := publishCorrection_ok hcall
    exact fun trackId => (hall trackId).of_same_input rfl rfl rfl rfl rfl rfl

/-- Nothing that was stored is ever deleted. -/
theorem call_keeps {sender : A} {c : Call B} {logs : List (Event B)}
    (hcall : call evm this identityRegistry s b sender c = .ok (s', logs)) {h : B}
    (hstored : (s.checkpoints h).exists_ = true) : (s'.checkpoints h).exists_ = true := by
  have hupdate : ∀ {hash : B} {checkpoint : StoredCheckpoint B}, checkpoint.exists_ = true →
      (Function.update s.checkpoints hash checkpoint h).exists_ = true := by
    intro hash checkpoint hexists
    rw [Function.update_apply]
    split_ifs
    · exact hexists
    · exact hstored
  cases c with
  | appendCheckpoint input ownerEpoch nonce deadline signature =>
    obtain ⟨-, -, -, -, -, rfl⟩ := appendCheckpoint_ok hcall
    exact hupdate rfl
  | attachProof checkpointHash proofDigest claimSetDigest ownerEpoch nonce deadline signature =>
    obtain ⟨hexists, rfl⟩ := attachProof_ok hcall
    exact hupdate hexists
  | publishCorrection target replacementDigest sourceEvidenceDigest reasonCode =>
    obtain ⟨hexists, rfl⟩ := publishCorrection_ok hcall
    exact hupdate hexists

theorem call_appends {sender : A} {c : Call B} {logs : List (Event B)} {h : B}
    (hc : c.appends = some h)
    (hcall : call evm this identityRegistry s b sender c = .ok (s', logs)) :
    (s'.checkpoints h).exists_ = true := by
  cases c with
  | appendCheckpoint input ownerEpoch nonce deadline signature =>
    obtain rfl : input.checkpointHash = h := by simpa [Call.appends] using hc
    obtain ⟨-, -, -, -, -, rfl⟩ := appendCheckpoint_ok hcall
    simp
  | attachProof => simp [Call.appends] at hc
  | publishCorrection => simp [Call.appends] at hc

end Steps

section Runs

variable [DecidableEq A] [DecidableEq B] [Zero A] [Zero B] (evm : Evm A B) (at_ : Deployment A)

/-- The hash a transaction would anchor a checkpoint under. -/
def appendedHash (tx : Tx A B) : Option B :=
  match tx.call with
  | .checkpoint c => c.appends
  | _ => none

omit [DecidableEq A] [DecidableEq B] in
theorem init_oneChain (trackId : B) : (State.init : State A B).OneChain trackId :=
  ⟨[], { trace := .stop
         covers := fun h => by simp [State.Stored, State.init, noCheckpoint]
         counted := rfl
         headCount := fun h => absurd rfl h
         periods := fun _ h => absurd h (List.not_mem_nil)
         ordered := .nil
         headEnd := fun h hh => by simp at hh }⟩

variable {evm at_}

theorem world_oneChain {w w' : World A B} {tx : Tx A B} {logs : List (World.Event A B)}
    (hall : ∀ trackId, w.checkpoint.OneChain trackId) (htx : appendedHash tx ≠ some 0)
    (hcall : World.call evm at_ w tx = .ok (w', logs)) :
    ∀ trackId, w'.checkpoint.OneChain trackId := by
  rcases World.call_ok hcall with ⟨c, s, l, -, -, rfl, -⟩ | ⟨c, s, l, -, -, rfl, -⟩ |
    ⟨c, s, l, htc, hc, rfl, -⟩
  · exact hall
  · exact hall
  · exact call_oneChain (by simpa [appendedHash, htc] using htx) hc hall

theorem world_keeps {w w' : World A B} {tx : Tx A B} {logs : List (World.Event A B)} {h : B}
    (hstored : (w.checkpoint.checkpoints h).exists_ = true)
    (hcall : World.call evm at_ w tx = .ok (w', logs)) :
    (w'.checkpoint.checkpoints h).exists_ = true := by
  rcases World.call_ok hcall with ⟨c, s, l, -, -, rfl, -⟩ | ⟨c, s, l, -, -, rfl, -⟩ |
    ⟨c, s, l, -, hc, rfl, -⟩
  · exact hstored
  · exact hstored
  · exact call_keeps hc hstored

/-- What an accepted append anchored is still there at the end of the run. -/
theorem run_stores {w : World A B} {txs : List (Tx A B)} {h : B}
    {a : Accepted (World A B) (Tx A B) (List (World.Event A B))}
    (ha : a ∈ World.accepted evm at_ w txs) (hash : appendedHash a.input = some h) :
    ((World.run evm at_ w txs).checkpoint.checkpoints h).exists_ = true := by
  obtain ⟨as, bs, w', rfl, hrun, hcall⟩ := mem_accepted ha
  have hstored : (w'.checkpoint.checkpoints h).exists_ = true := by
    rcases World.call_ok hcall with ⟨c, s, l, hc, -⟩ | ⟨c, s, l, hc, -⟩ |
      ⟨c, s, l, hc, hok, rfl, -⟩
    · simp [appendedHash, hc] at hash
    · simp [appendedHash, hc] at hash
    · exact call_appends (by simpa [appendedHash, hc] using hash) hok
  simp only [World.run, run_append, run_cons, hrun, commit_ok hcall]
  exact run_invariant_all (fun _ _ _ _ hs hc => world_keeps hs hc) bs hstored

/-- After any run the tracks are on one chain each if and only if no checkpoint was accepted under
the zero hash. -/
theorem one_chain_iff (evm : Evm A B) (at_ : Deployment A) (txs : List (Tx A B)) :
    (∀ trackId, (World.run evm at_ .init txs).checkpoint.OneChain trackId) ↔
      ∀ a ∈ World.accepted evm at_ .init txs, appendedHash a.input ≠ some 0 := by
  constructor
  · intro hall a ha hzero
    exact State.not_oneChain_of_zero (run_stores ha hzero) hall
  · intro hgood
    exact @run_invariant _ _ _ _ (World.call evm at_)
      (fun w : World A B => ∀ trackId, w.checkpoint.OneChain trackId)
      (fun _ tx => appendedHash tx ≠ some 0)
      (fun _ _ _ _ hall htx hcall => world_oneChain hall htx hcall) _ _ init_oneChain hgood

end Runs

section SecondGenesis

/-- A genesis header of the track, anchored under the given hash. -/
def genesisInput (checkpointHash : Symbol) : CheckpointInput Symbol :=
  { (noInput : CheckpointInput Symbol) with
    trackId := exampleTrack, checkpointHash, periodStart := 1, periodEnd := 2 }

def appendGenesis (checkpointHash : Symbol) (nonce : ℕ) : Tx ℕ Symbol where
  block := .signed 11 7 (hashTypedDataV4 Symbol.evm 3
    (hashAppendCheckpoint Symbol.evm (genesisInput checkpointHash) 0 nonce 20)) [2]
  sender := 9
  call := .checkpoint (.appendCheckpoint (genesisInput checkpointHash) 0 nonce 20 [2])

/-- With a head of zero the genesis is accepted, whatever the track holds already. -/
theorem appendGenesis_commits {w : World ℕ Symbol} (hready : Ready w) {h : Symbol} {nonce : ℕ}
    (hnew : (w.checkpoint.checkpoints h).exists_ = false)
    (hhead : w.checkpoint.head exampleTrack = 0)
    (hnonce : w.checkpoint.trackNonce exampleTrack = nonce) (hlast : nonce + 1 < 2 ^ 64) :
    ∃ s, commit (World.call Symbol.evm exampleDeployment) w (appendGenesis h nonce) =
        { w with checkpoint := s } ∧
      s.head exampleTrack = h ∧ s.trackNonce exampleTrack = nonce + 1 ∧
      (s.checkpoints h).exists_ = true ∧ (s.checkpoints h).input = genesisInput h ∧
      ∀ h', h' ≠ h → s.checkpoints h' = w.checkpoint.checkpoints h' := by
  have hepoch : requireTrackOwnerEpoch w.identity exampleTrack = 0 := by
    simp [requireTrackOwnerEpoch, hready.track, hready.owner]
  obtain ⟨s, logs, hok⟩ := @appendCheckpoint_genesis _ _ _ _ Symbol.evm 3 w.identity
    w.checkpoint (appendGenesis h nonce).block (genesisInput h) 0 nonce 20 [2] hnew (by simp [genesisInput, hready.track]) hhead rfl rfl
    (show 1 < 2 by decide) (show 11 ≤ 20 by decide) hepoch.symm hnonce.symm hlast
    (by simp only [genesisInput, hready.track, hready.owner]; exact Block.signed_self ..)
  have hcall : World.call Symbol.evm exampleDeployment w (appendGenesis h nonce) =
      .ok ({ w with checkpoint := s }, logs.map .checkpoint) := by
    simp only [World.call, appendGenesis, call, exampleDeployment]
    simp only [appendGenesis] at hok
    rw [hok]
  obtain ⟨-, -, -, -, -, hs⟩ := appendCheckpoint_ok hok
  refine ⟨s, commit_ok hcall, ?_, ?_, ?_, ?_, fun h' hne => ?_⟩
  · simp [hs, genesisInput]
  · simp [hs, genesisInput, hnonce]
  · simp [hs, genesisInput]
  · simp [hs, genesisInput]
  · simp [hs, genesisInput, Function.update_of_ne hne]

/-- A genesis under the zero hash, and then a second genesis for the same track. -/
def secondGenesis : World ℕ Symbol :=
  World.run Symbol.evm exampleDeployment .init
    (exampleSetup ++ [appendGenesis 0 0, appendGenesis (.nat 5) 1])

theorem secondGenesis_breaks_the_chain :
    secondGenesis.checkpoint.Stored exampleTrack 0 ∧
    secondGenesis.checkpoint.Stored exampleTrack (.nat 5) ∧
    secondGenesis.checkpoint.sequence 0 = 0 ∧
    secondGenesis.checkpoint.sequence (.nat 5) = 0 ∧
    ¬ ∀ trackId, secondGenesis.checkpoint.OneChain trackId := by
  have hrun := run_append (World.call Symbol.evm exampleDeployment) .init exampleSetup
    [appendGenesis 0 0, appendGenesis (.nat 5) 1]
  rw [run_cons, run_cons, run_nil] at hrun
  obtain ⟨hready, -, hinit⟩ := exampleSetup_ready
  unfold World.run at hready hinit
  generalize Transaction.run _ _ exampleSetup = w at hrun hready hinit
  obtain ⟨s₁, hs₁, hhead₁, hnonce₁, hexists₁, hinput₁, hrest₁⟩ :=
    @appendGenesis_commits w hready 0 0 (by rw [hinit]; rfl) (by rw [hinit]; rfl)
      (by rw [hinit]; rfl) (by decide)
  -- the head is zero again, so the track still looks empty
  obtain ⟨s₂, hs₂, -, -, hexists₂, hinput₂, hrest₂⟩ :=
    @appendGenesis_commits { w with checkpoint := s₁ } ⟨hready.track, hready.owner⟩ (.nat 5) 1
      (by rw [hrest₁ _ (by decide), hinit]; rfl) hhead₁ hnonce₁
      (by decide)
  rw [hs₁, hs₂] at hrun
  have hlast : secondGenesis.checkpoint = s₂ := congrArg World.checkpoint hrun
  have hzero : s₂.checkpoints 0 = s₁.checkpoints 0 := hrest₂ 0 (by decide)
  rw [hlast]
  refine ⟨⟨by rw [hzero, hexists₁], by rw [hzero, hinput₁]; rfl⟩, ⟨hexists₂, by rw [hinput₂]; rfl⟩,
    ?_, ?_, State.not_oneChain_of_zero (by rw [hzero, hexists₁])⟩
  · rw [State.sequence, hzero, hinput₁]; rfl
  · rw [State.sequence, hinput₂]; rfl

end SecondGenesis

end Linvesther.CheckpointRegistry
