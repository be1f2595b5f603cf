import Linvesther.Base.Transaction

/-! The time-weighted return of one stream of valuations and flows of capital. -/

namespace Linvesther.Domain

open Transaction

section Twr

inductive TimelineEvent where
  | valuation (timeMs : ℕ) (nav : ℚ)
  | flow (timeMs : ℕ) (amount : ℚ)
deriving DecidableEq

inductive ReturnError where
  | nonPositiveBaseline (vStart : ℚ)
deriving DecidableEq

structure TwrResult where
  index : ℚ
  subReturns : List ℚ
deriving DecidableEq

/-- What the loop keeps: the result so far and the last known value. -/
structure TwrState where
  index : ℚ
  subReturns : List ℚ
  currentNav : Option ℚ
deriving DecidableEq

def TwrState.init : TwrState := ⟨1, [], none⟩

def twrStep (s : TwrState) : TimelineEvent → Except ReturnError TwrState
  | .valuation _ nav =>
    match s.currentNav with
    | none => .ok { s with currentNav := some nav }
    | some vStart =>
      if vStart ≤ 0 then .error (.nonPositiveBaseline vStart)
      else
        let r := nav / vStart - 1
        .ok ⟨s.index * (1 + r), s.subReturns ++ [r], some nav⟩
  | .flow _ amount => .ok { s with currentNav := some (s.currentNav.getD 0 + amount) }

/-- A decimal is taken as the number it is, so no operation is out of range. -/
def computeTwr (events : List TimelineEvent) : Except ReturnError TwrResult := do
  let s ← events.foldlM twrStep .init
  pure ⟨s.index, s.subReturns⟩

end Twr

section Neutral

def TimelineEvent.isValuation : TimelineEvent → Bool
  | .valuation _ _ => true
  | .flow _ _ => false

/-- Every valuation is of what was there before and has flowed in since. -/
def Neutral : ℚ → List TimelineEvent → Prop
  | _, [] => True
  | v, .valuation _ nav :: events => nav = v ∧ Neutral v events
  | v, .flow _ amount :: events => Neutral (v + amount) events

/-- With a value known, each valuation closes a return, and all returns are zero if and only if the
events are neutral. -/
theorem foldlM_twrStep_ok {events : List TimelineEvent} {s s' : TwrState} {v : ℚ}
    (hv : s.currentNav = some v) (h : events.foldlM twrStep s = .ok s') :
    ∃ rs, s'.subReturns = s.subReturns ++ rs ∧
      rs.length = events.countP TimelineEvent.isValuation ∧
      ((∀ r ∈ rs, r = 0) ↔ Neutral v events) := by
  induction events generalizing s v with
  | nil =>
    rw [List.foldlM_nil, pure_ok] at h
    exact ⟨[], by rw [h, List.append_nil], rfl, by simp [Neutral]⟩
  | cons event events ih =>
    rw [List.foldlM_cons, bind_ok] at h
    obtain ⟨s₁, hstep, hrest⟩ := h
    cases event with
    | flow t amount =>
      rw [twrStep, hv, Except.ok.injEq] at hstep
      subst hstep
      obtain ⟨rs, hreturns, hlength, hzero⟩ := ih rfl hrest
      exact ⟨rs, hreturns, hlength, hzero⟩
    | valuation t nav =>
      rw [twrStep, hv] at hstep
      dsimp only at hstep
      split_ifs at hstep with hpositive
      rw [Except.ok.injEq] at hstep
      subst hstep
      obtain ⟨rs, hreturns, hlength, hzero⟩ := ih rfl hrest
      refine ⟨(nav / v - 1) :: rs, ?_, ?_, ?_⟩
      · rw [hreturns, List.append_assoc]
        rfl
      · rw [List.length_cons, hlength, List.countP_cons_of_pos rfl]
      · have hgrowth : nav / v - 1 = 0 ↔ nav = v := by
          rw [sub_eq_zero, div_eq_one_iff_eq (not_le.1 hpositive).ne']
        rw [List.forall_mem_cons, hgrowth, hzero, Neutral]
        refine and_congr_right fun hnav => ?_
        rw [hnav]

/-- A flow first counts as a value, so that every valuation closes a return. -/
theorem computeTwr_flow {t : ℕ} {amount : ℚ} {events : List TimelineEvent} {twr : TwrResult}
    (h : computeTwr (.flow t amount :: events) = .ok twr) :
    twr.subReturns.length = events.countP TimelineEvent.isValuation := by
  simp only [computeTwr, bind_ok, pure_ok, List.foldlM_cons] at h
  obtain ⟨s', ⟨s₁, hstep, hrest⟩, rfl⟩ := h
  rw [twrStep, Except.ok.injEq] at hstep
  subst hstep
  obtain ⟨rs, hreturns, hlength, -⟩ := foldlM_twrStep_ok rfl hrest
  dsimp only
  rw [hreturns, TwrState.init, List.nil_append, hlength]

/-- A valuation first opens the line, and the later ones close a return each. -/
theorem computeTwr_valuation {t : ℕ} {nav : ℚ} {events : List TimelineEvent} {twr : TwrResult}
    (h : computeTwr (.valuation t nav :: events) = .ok twr) :
    twr.subReturns.length = events.countP TimelineEvent.isValuation ∧
      ((∀ r ∈ twr.subReturns, r = 0) ↔ Neutral nav events) := by
  simp only [computeTwr, bind_ok, pure_ok, List.foldlM_cons] at h
  obtain ⟨s', ⟨s₁, hstep, hrest⟩, rfl⟩ := h
  rw [twrStep, TwrState.init, Except.ok.injEq] at hstep
  subst hstep
  obtain ⟨rs, hreturns, hlength, hzero⟩ := foldlM_twrStep_ok rfl hrest
  dsimp only at hreturns ⊢
  rw [hreturns, List.nil_append]
  exact ⟨hlength, hzero⟩

end Neutral

section Insertion

/-- The second stream is the first with flows inserted, when `v` and `v'` are the values known before them.
A valuation that closes a period is moved so that the period grows as it did. -/
inductive Inserted : Option ℚ → Option ℚ → List TimelineEvent → List TimelineEvent → Prop
  | nil (v v' : Option ℚ) : Inserted v v' [] []
  | insert {v v' : Option ℚ} {events events' : List TimelineEvent} (t : ℕ) (amount : ℚ)
      (h : Inserted v (some (v'.getD 0 + amount)) events events') :
      Inserted v v' events (.flow t amount :: events')
  | flow {v v' : Option ℚ} {events events' : List TimelineEvent} (t : ℕ) (amount : ℚ)
      (h : Inserted (some (v.getD 0 + amount)) (some (v'.getD 0 + amount)) events events') :
      Inserted v v' (.flow t amount :: events) (.flow t amount :: events')
  | opening {v' : Option ℚ} {events events' : List TimelineEvent} (t : ℕ) (nav nav' : ℚ)
      (h : Inserted (some nav) (some nav') events events') :
      Inserted none v' (.valuation t nav :: events) (.valuation t nav' :: events')
  | closing {vStart vStart' : ℚ} {events events' : List TimelineEvent} (t : ℕ) (nav nav' : ℚ)
      (hgrowth : nav' / vStart' = nav / vStart) (h : Inserted (some nav) (some nav') events events') :
      Inserted (some vStart) (some vStart') (.valuation t nav :: events) (.valuation t nav' :: events')

def TimelineEvent.Positive : TimelineEvent → Prop
  | .valuation _ nav => 0 < nav
  | .flow _ _ => True

/-- The stream begins with a valuation. -/
def Opens : List TimelineEvent → Bool
  | event :: _ => event.isValuation
  | [] => false

/-- While nothing is known of the first stream, either nothing is of the second, or no valuation is next. -/
def InTouch (v v' : Option ℚ) (events events' : List TimelineEvent) : Prop :=
  v = none → (v' = none → Opens events = true → Opens events' = true) ∧ (v' ≠ none → Opens events = false)

theorem inTouch_some (vStart : ℚ) (v' : Option ℚ) (events events' : List TimelineEvent) :
    InTouch (some vStart) v' events events' := by
  intro h
  cases h

/-- A baseline with the same growth to a positive value is positive too. -/
theorem baseline_pos {nav nav' vStart vStart' : ℚ} (hnav : 0 < nav) (hnav' : 0 < nav') (hstart : 0 < vStart)
    (hgrowth : nav' / vStart' = nav / vStart) : 0 < vStart' := by
  have hpos : 0 < nav' / vStart' := hgrowth ▸ div_pos hnav hstart
  rcases div_pos_iff.1 hpos with ⟨-, h⟩ | ⟨h, -⟩
  · exact h
  · exact absurd h (not_lt.2 hnav'.le)

/-- Two runs of the loop that agree in what is closed so far close the same returns. -/
theorem foldlM_inserted {v v' : Option ℚ} {events events' : List TimelineEvent}
    (hinserted : Inserted v v' events events') {index : ℚ} {rs : List ℚ} {s : TwrState}
    (hpos : ∀ e ∈ events, e.Positive) (hpos' : ∀ e ∈ events', e.Positive) (htouch : InTouch v v' events events')
    (h : events.foldlM twrStep ⟨index, rs, v⟩ = .ok s) :
    ∃ s', events'.foldlM twrStep ⟨index, rs, v'⟩ = .ok s' ∧ s'.index = s.index ∧ s'.subReturns = s.subReturns := by
  induction hinserted generalizing index rs with
  | nil v v' =>
    rw [List.foldlM_nil, pure_ok] at h
    exact ⟨_, rfl, by rw [← h], by rw [← h]⟩
  | @insert v v' events events' t amount _ ih =>
    have htouch' : InTouch v (some (v'.getD 0 + amount)) events events' := by
      intro hnone
      refine ⟨fun hknown => (by cases hknown), fun _ => ?_⟩
      rcases v' with - | vStart'
      · by_contra hopens
        have := (htouch hnone).1 rfl (Bool.not_eq_false _ ▸ hopens)
        cases this
      · exact (htouch hnone).2 (Option.some_ne_none _)
    obtain ⟨s', hrun, hsame⟩ := ih hpos (fun e he => hpos' e (List.mem_cons_of_mem _ he)) htouch' h
    refine ⟨s', ?_, hsame⟩
    rw [List.foldlM_cons]
    exact hrun
  | flow t amount _ ih =>
    rw [List.foldlM_cons] at h
    obtain ⟨s', hrun, hsame⟩ := ih (fun e he => hpos e (List.mem_cons_of_mem _ he))
      (fun e he => hpos' e (List.mem_cons_of_mem _ he)) (inTouch_some _ _ _ _) h
    refine ⟨s', ?_, hsame⟩
    rw [List.foldlM_cons]
    exact hrun
  | @opening v' events events' t nav nav' _ ih =>
    have hnone : v' = none := by
      by_contra hknown
      have := (htouch rfl).2 hknown
      cases this
    subst hnone
    rw [List.foldlM_cons] at h
    obtain ⟨s', hrun, hsame⟩ := ih (fun e he => hpos e (List.mem_cons_of_mem _ he))
      (fun e he => hpos' e (List.mem_cons_of_mem _ he)) (inTouch_some _ _ _ _) h
    refine ⟨s', ?_, hsame⟩
    rw [List.foldlM_cons]
    exact hrun
  | @closing vStart vStart' events events' t nav nav' hgrowth _ ih =>
    have hnav : 0 < nav := hpos _ List.mem_cons_self
    have hnav' : 0 < nav' := hpos' _ List.mem_cons_self
    rw [List.foldlM_cons, bind_ok] at h
    obtain ⟨s₁, hstep, hrest⟩ := h
    rw [twrStep] at hstep
    dsimp only at hstep
    split_ifs at hstep with hstart
    rw [Except.ok.injEq] at hstep
    subst hstep
    have hstart' : ¬ vStart' ≤ 0 := not_le.2 (baseline_pos hnav hnav' (not_le.1 hstart) hgrowth)
    obtain ⟨s', hrun, hsame⟩ := ih (fun e he => hpos e (List.mem_cons_of_mem _ he))
      (fun e he => hpos' e (List.mem_cons_of_mem _ he)) (inTouch_some _ _ _ _) hrest
    refine ⟨s', ?_, hsame⟩
    rw [List.foldlM_cons, twrStep]
    dsimp only
    rw [if_neg hstart', hgrowth]
    exact hrun

/-- The index is the product of the growth factors. -/
theorem foldlM_twrStep_index {events : List TimelineEvent} {s s' : TwrState}
    (hs : s.index = (s.subReturns.map (1 + ·)).prod) (h : events.foldlM twrStep s = .ok s') :
    s'.index = (s'.subReturns.map (1 + ·)).prod := by
  induction events generalizing s with
  | nil =>
    rw [List.foldlM_nil, pure_ok] at h
    rwa [← h]
  | cons event events ih =>
    rw [List.foldlM_cons, bind_ok] at h
    obtain ⟨s₁, hstep, hrest⟩ := h
    refine ih ?_ hrest
    cases event with
    | flow t amount =>
      rw [twrStep, Except.ok.injEq] at hstep
      rw [← hstep]
      exact hs
    | valuation t nav =>
      rw [twrStep] at hstep
      rcases hv : s.currentNav with - | vStart
      · rw [hv, Except.ok.injEq] at hstep
        rw [← hstep]
        exact hs
      · rw [hv] at hstep
        dsimp only at hstep
        split_ifs at hstep
        rw [Except.ok.injEq] at hstep
        rw [← hstep, List.map_append, List.prod_append, ← hs]
        simp

/-- After any event a value is known. -/
theorem foldlM_twrStep_known {events : List TimelineEvent} {s s' : TwrState} (hne : events ≠ [])
    (h : events.foldlM twrStep s = .ok s') : ∃ v, s'.currentNav = some v := by
  induction events using List.reverseRecOn with
  | nil => exact absurd rfl hne
  | append_singleton events event _ =>
    rw [List.foldlM_append, bind_ok] at h
    obtain ⟨s₁, -, hlast⟩ := h
    rw [List.foldlM_cons, bind_ok] at hlast
    obtain ⟨s₂, hstep, hnil⟩ := hlast
    rw [List.foldlM_nil, pure_ok] at hnil
    subst hnil
    cases event with
    | flow t amount =>
      rw [twrStep, Except.ok.injEq] at hstep
      exact ⟨_, by rw [← hstep]⟩
    | valuation t nav =>
      rw [twrStep] at hstep
      rcases hv : s₁.currentNav with - | vStart
      · rw [hv, Except.ok.injEq] at hstep
        exact ⟨nav, by rw [← hstep]⟩
      · rw [hv] at hstep
        dsimp only at hstep
        split_ifs at hstep
        rw [Except.ok.injEq] at hstep
        exact ⟨nav, by rw [← hstep]⟩

/-- Up to a later valuation one period more is closed than before it. -/
theorem computeTwr_closes {before after : List TimelineEvent} {t : ℕ} {nav : ℚ} {twr : TwrResult}
    (hne : before ≠ []) (h : computeTwr (before ++ .valuation t nav :: after) = .ok twr) :
    ∃ earlier upTo r, computeTwr before = .ok earlier ∧
      computeTwr (before ++ [.valuation t nav]) = .ok upTo ∧ upTo.subReturns = earlier.subReturns ++ [r] := by
  simp only [computeTwr, bind_ok, pure_ok, List.foldlM_append, List.foldlM_cons] at h
  obtain ⟨-, ⟨s₁, hbefore, s₂, hstep, -⟩, -⟩ := h
  obtain ⟨vStart, hknown⟩ := foldlM_twrStep_known hne hbefore
  have hstep' := hstep
  rw [twrStep, hknown] at hstep'
  dsimp only at hstep'
  split_ifs at hstep'
  rw [Except.ok.injEq] at hstep'
  refine ⟨⟨s₁.index, s₁.subReturns⟩, ⟨s₂.index, s₂.subReturns⟩, nav / vStart - 1, ?_, ?_, ?_⟩
  · rw [computeTwr, hbefore]
    rfl
  · rw [computeTwr, List.foldlM_append, hbefore]
    show ((twrStep s₁ (.valuation t nav) >>= fun s => pure s) >>= _) = _
    rw [hstep]
    rfl
  · rw [← hstep']

/-- Flows inserted anywhere but before a valuation that opens the stream leave every return and the index as they
were. The index is the product of the growth factors, and each valuation after the first event closes one period. -/
theorem twr_inserted_flows {events events' : List TimelineEvent} {twr : TwrResult}
    (hinserted : Inserted none none events events') (hpos : ∀ e ∈ events, e.Positive)
    (hpos' : ∀ e ∈ events', e.Positive) (hopens : Opens events = true → Opens events' = true)
    (h : computeTwr events = .ok twr) :
    computeTwr events' = .ok twr ∧ twr.index = (twr.subReturns.map (1 + ·)).prod ∧
      ∀ before t nav after, events = before ++ .valuation t nav :: after → before ≠ [] →
        ∃ earlier upTo r, computeTwr before = .ok earlier ∧
          computeTwr (before ++ [.valuation t nav]) = .ok upTo ∧ upTo.subReturns = earlier.subReturns ++ [r] := by
  refine ⟨?_, ?_, fun before t nav after heq hne => computeTwr_closes hne (heq ▸ h)⟩
  · simp only [computeTwr, bind_ok, pure_ok] at h
    obtain ⟨s, hrun, rfl⟩ := h
    have htouch : InTouch none none events events' := fun _ => ⟨fun _ => hopens, fun hne => absurd rfl hne⟩
    obtain ⟨s', hrun', hindex, hreturns⟩ := foldlM_inserted hinserted hpos hpos' htouch hrun
    rw [computeTwr, TwrState.init, hrun']
    show Except.ok _ = _
    rw [hindex, hreturns]
  · simp only [computeTwr, bind_ok, pure_ok] at h
    obtain ⟨s, hrun, rfl⟩ := h
    exact foldlM_twrStep_index rfl hrun

def onlyValued : List TimelineEvent := [.valuation 0 100, .valuation 2 110]

/-- A deposit of half the value between the two valuations. -/
theorem twr_inserted_flows_example :
    computeTwr [.valuation 0 100, .flow 1 50, .valuation 2 165] = .ok ⟨11 / 10, [1 / 10]⟩ ∧
      (11 / 10 : ℚ) = ([1 / 10].map (1 + ·)).prod ∧
      ∀ before t nav after, onlyValued = before ++ .valuation t nav :: after → before ≠ [] →
        ∃ earlier upTo r, computeTwr before = .ok earlier ∧
          computeTwr (before ++ [.valuation t nav]) = .ok upTo ∧ upTo.subReturns = earlier.subReturns ++ [r] := by
  have hinserted : Inserted none none onlyValued [.valuation 0 100, .flow 1 50, .valuation 2 165] :=
    .opening 0 100 100 (.insert 1 50 (.closing 2 110 165 (by norm_num) (.nil _ _)))
  refine twr_inserted_flows hinserted ?_ ?_ (fun _ => rfl) (by decide +kernel)
  · simp [onlyValued, TimelineEvent.Positive]
  · simp [TimelineEvent.Positive]

/-- A flow before the first valuation makes that one close a period, from the flow on. -/
theorem flow_before_opening :
    Inserted none none onlyValued (.flow 0 50 :: onlyValued) ∧
      computeTwr onlyValued = .ok ⟨11 / 10, [1 / 10]⟩ ∧
      computeTwr (.flow 0 50 :: onlyValued) = .ok ⟨11 / 5, [1, 1 / 10]⟩ :=
  ⟨.insert 0 50 (.opening 0 100 100 (.closing 2 110 110 rfl (.nil _ _))), by decide +kernel, by decide +kernel⟩

end Insertion

end Linvesther.Domain
