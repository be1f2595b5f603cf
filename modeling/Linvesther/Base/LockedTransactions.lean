import Mathlib

/-! Transactions at the READ COMMITTED level that take a lock for their key before they look. A statement sees
what was committed when it started, and what a transaction writes is seen once it commits. The lock is given
back with the end of the transaction. -/

namespace LockedTransactions

section Systems

inductive Phase (V P : Type*) where
  | waiting
  | holding
  | cleared
  | refused (v : V)
  | written (p : P)
  | committed (p : P)
  | rolledBack
deriving DecidableEq

variable {σ T V P O K : Type*}

/-- What the statements of a transaction do, and those of others that are sent outside of any. -/
structure Rules (σ T V P O K : Type*) where
  key : T → K
  view : T → σ → V
  refuses : T → V → Bool
  /-- What is written, and what of the shared state a statement changes whether or not it is committed. -/
  write : T → σ → P × σ
  apply : T → P → σ → σ
  /-- A row that was written is locked until the transaction ends. -/
  waits : P → O → Bool
  serve : O → σ → σ

structure System (σ T V P K : Type*) where
  shared : σ
  transactions : List (T × Phase V P)
  holder : K → Option ℕ

/-- Before any transaction. -/
def System.init (shared : σ) : System σ T V P K := ⟨shared, [], fun _ => none⟩

inductive Move (T O : Type*) where
  | start (t : T)
  | lock (i : ℕ)
  | look (i : ℕ)
  | write (i : ℕ)
  | commit (i : ℕ)
  | rollback (i : ℕ)
  | other (o : O)

/-- The phases between the lock and the end that a commit can follow. -/
def Phase.locks : Phase V P → Bool
  | .holding | .cleared | .written _ => true
  | _ => false

/-- A transaction that is given up. -/
def Phase.ended : Phase V P → Phase V P
  | .refused v => .refused v
  | .committed p => .committed p
  | _ => .rolledBack

variable (R : Rules σ T V P O K)

def Rules.blocks (o : O) : Phase V P → Bool
  | .written p => R.waits p o
  | _ => false

variable [DecidableEq K]

def System.release (s : System σ T V P K) (i : ℕ) (k : K) : System σ T V P K :=
  { s with holder := if s.holder k = some i then Function.update s.holder k none else s.holder }

/-- A statement that does not come next, or that has to wait, changes nothing. -/
def System.step (s : System σ T V P K) : Move T O → System σ T V P K
  | .start t => { s with transactions := s.transactions ++ [(t, .waiting)] }
  | .lock i =>
    match s.transactions[i]? with
    | some (t, .waiting) =>
      if s.holder (R.key t) = none then
        { s with
          transactions := s.transactions.set i (t, .holding)
          holder := Function.update s.holder (R.key t) (some i) }
      else s
    | _ => s
  | .look i =>
    match s.transactions[i]? with
    | some (t, .holding) =>
      let v := R.view t s.shared
      { s with transactions := s.transactions.set i (t, if R.refuses t v then .refused v else .cleared) }
    | _ => s
  | .write i =>
    match s.transactions[i]? with
    | some (t, .cleared) =>
      let w := R.write t s.shared
      { s with shared := w.2, transactions := s.transactions.set i (t, .written w.1) }
    | _ => s
  | .commit i =>
    match s.transactions[i]? with
    | some (t, .written p) =>
      System.release { s with
        shared := R.apply t p s.shared
        transactions := s.transactions.set i (t, .committed p) } i (R.key t)
    | _ => s
  | .rollback i =>
    match s.transactions[i]? with
    | some (t, phase) =>
      System.release { s with transactions := s.transactions.set i (t, phase.ended) } i (R.key t)
    | none => s
  | .other o =>
    if s.transactions.any fun w => R.blocks o w.2 then s else { s with shared := R.serve o s.shared }

def System.run (s : System σ T V P K) (moves : List (Move T O)) : System σ T V P K :=
  moves.foldl (System.step R) s

end Systems

section Steps

variable {σ T V P O K : Type*} [DecidableEq K] {R : Rules σ T V P O K} {s : System σ T V P K} {m : Move T O}

/-- All that a step can do. -/
inductive Stepped (R : Rules σ T V P O K) (s : System σ T V P K) : Move T O → System σ T V P K → Prop where
  | idle (m : Move T O) : Stepped R s m s
  | start (t : T) : Stepped R s (.start t) { s with transactions := s.transactions ++ [(t, .waiting)] }
  | lock {i : ℕ} {t : T} (ht : s.transactions[i]? = some (t, .waiting)) (hfree : s.holder (R.key t) = none) :
      Stepped R s (.lock i) { s with
        transactions := s.transactions.set i (t, .holding)
        holder := Function.update s.holder (R.key t) (some i) }
  | refuse {i : ℕ} {t : T} (ht : s.transactions[i]? = some (t, .holding)) (h : R.refuses t (R.view t s.shared) = true) :
      Stepped R s (.look i)
        { s with transactions := s.transactions.set i (t, .refused (R.view t s.shared)) }
  | clear {i : ℕ} {t : T} (ht : s.transactions[i]? = some (t, .holding)) (h : R.refuses t (R.view t s.shared) = false) :
      Stepped R s (.look i) { s with transactions := s.transactions.set i (t, .cleared) }
  | write {i : ℕ} {t : T} (ht : s.transactions[i]? = some (t, .cleared)) :
      Stepped R s (.write i) { s with
        shared := (R.write t s.shared).2
        transactions := s.transactions.set i (t, .written (R.write t s.shared).1) }
  | commit {i : ℕ} {t : T} {p : P} (ht : s.transactions[i]? = some (t, .written p)) :
      Stepped R s (.commit i) (System.release { s with
        shared := R.apply t p s.shared
        transactions := s.transactions.set i (t, .committed p) } i (R.key t))
  | rollback {i : ℕ} {t : T} {phase : Phase V P} (ht : s.transactions[i]? = some (t, phase)) :
      Stepped R s (.rollback i)
        (System.release { s with transactions := s.transactions.set i (t, phase.ended) } i (R.key t))
  | other {o : O} (h : ∀ w ∈ s.transactions, R.blocks o w.2 = false) :
      Stepped R s (.other o) { s with shared := R.serve o s.shared }

theorem stepped (R : Rules σ T V P O K) (s : System σ T V P K) (m : Move T O) : Stepped R s m (s.step R m) := by
  cases m with
  | start t => exact .start t
  | lock i =>
    unfold System.step
    dsimp only
    split
    next t ht =>
      split_ifs with hfree
      · exact .lock ht hfree
      · exact .idle _
    next => exact .idle _
  | look i =>
    unfold System.step
    dsimp only
    split
    next t ht =>
      by_cases h : R.refuses t (R.view t s.shared) = true
      · rw [if_pos h]
        exact .refuse ht h
      · rw [if_neg h]
        exact .clear ht (Bool.eq_false_of_not_eq_true h)
    next => exact .idle _
  | write i =>
    unfold System.step
    dsimp only
    split
    next t ht => exact .write ht
    next => exact .idle _
  | commit i =>
    unfold System.step
    dsimp only
    split
    next t p ht => exact .commit ht
    next => exact .idle _
  | rollback i =>
    unfold System.step
    dsimp only
    split
    next t phase ht => exact .rollback ht
    next => exact .idle _
  | other o =>
    unfold System.step
    dsimp only
    split_ifs with h
    · exact .idle _
    · refine .other fun w hw => ?_
      by_contra hblocks
      exact h (List.any_eq_true.2 ⟨w, hw, Bool.eq_true_of_not_eq_false hblocks⟩)

/-- A transaction after another's step, or its own. -/
theorem getElem?_set_cases {α : Type*} {l : List α} {i j : ℕ} {x y : α} (h : (l.set i y)[j]? = some x) :
    j = i ∧ x = y ∨ j ≠ i ∧ l[j]? = some x := by
  rw [List.getElem?_set] at h
  split_ifs at h with hij hlt
  · exact .inl ⟨hij.symm, (Option.some.inj h).symm⟩
  · exact .inr ⟨Ne.symm hij, h⟩

theorem getElem?_append_cases {α : Type*} {l : List α} {j : ℕ} {x y : α} (h : (l ++ [y])[j]? = some x) :
    x = y ∨ l[j]? = some x := by
  rcases lt_or_ge j l.length with hlt | hge
  · rw [List.getElem?_append_left hlt] at h
    exact .inr h
  · rw [List.getElem?_append_right hge, List.getElem?_singleton] at h
    split_ifs at h
    exact .inl (Option.some.inj h).symm

theorem refused_of_set {l : List (T × Phase V P)} {i j : ℕ} {t t' : T} {phase : Phase V P} {v : V}
    (hphase : ∀ v, phase ≠ .refused v) (h : (l.set i (t', phase))[j]? = some (t, .refused v)) :
    l[j]? = some (t, .refused v) := by
  rcases getElem?_set_cases h with ⟨-, hnew⟩ | ⟨-, hold⟩
  · exact absurd (Prod.mk.inj hnew).2.symm (hphase v)
  · exact hold

/-- A transaction is refused by a look of its own. -/
theorem refused_step {i : ℕ} {t : T} {v : V} (h : (s.step R m).transactions[i]? = some (t, .refused v)) :
    s.transactions[i]? = some (t, .refused v) ∨
      m = .look i ∧ s.transactions[i]? = some (t, .holding) ∧ v = R.view t s.shared ∧ R.refuses t v = true := by
  have hstep := stepped R s m
  generalize s.step R m = s' at h hstep
  cases hstep with
  | idle => exact .inl h
  | start t' =>
    rcases getElem?_append_cases h with hnew | hold
    · cases hnew
    · exact .inl hold
  | lock ht hfree => exact .inl (refused_of_set (fun _ hphase => by cases hphase) h)
  | refuse ht hrefuses =>
    rcases getElem?_set_cases h with ⟨rfl, hnew⟩ | ⟨-, hold⟩
    · cases hnew
      exact .inr ⟨rfl, ht, rfl, hrefuses⟩
    · exact .inl hold
  | clear ht hclear => exact .inl (refused_of_set (fun _ hphase => by cases hphase) h)
  | write ht => exact .inl (refused_of_set (fun _ hphase => by cases hphase) h)
  | commit ht => exact .inl (refused_of_set (fun _ hphase => by cases hphase) h)
  | @rollback j t' phase ht =>
    rcases getElem?_set_cases h with ⟨rfl, hnew⟩ | ⟨-, hold⟩
    · rw [Prod.mk.injEq] at hnew
      obtain ⟨rfl, hphase⟩ := hnew
      -- only a transaction that was refused before ends as refused
      cases phase with
      | refused v' =>
        cases hphase
        exact .inl ht
      | _ => cases hphase
    · exact .inl hold
  | other => exact .inl h

/-- What a refused transaction saw was committed when it looked. -/
theorem refused_looked {shared : σ} {moves : List (Move T O)} {i : ℕ} {t : T} {v : V}
    (h : ((System.init shared).run R moves).transactions[i]? = some (t, .refused v)) :
    ∃ n, moves[n]? = some (.look i) ∧
      v = R.view t ((System.init shared : System σ T V P K).run R (moves.take n)).shared ∧ R.refuses t v = true := by
  induction moves using List.reverseRecOn with
  | nil => cases h
  | append_singleton moves m ih =>
    have hrun : (System.init shared : System σ T V P K).run R (moves ++ [m]) =
        ((System.init shared).run R moves).step R m := by
      unfold System.run
      rw [List.foldl_append]
      rfl
    rw [hrun] at h
    rcases refused_step h with hbefore | ⟨rfl, -, hv, hrefuses⟩
    · obtain ⟨n, hn, hv, hrefuses⟩ := ih hbefore
      have hlt : n < moves.length := (List.getElem?_eq_some_iff.1 hn).1
      refine ⟨n, ?_, ?_, hrefuses⟩
      · rw [List.getElem?_append_left hlt, hn]
      · rw [List.take_append_of_le_length hlt.le]
        exact hv
    · refine ⟨moves.length, ?_, ?_, hrefuses⟩
      · rw [List.getElem?_append_right le_rfl, Nat.sub_self]
        rfl
      · rw [List.take_left]
        exact hv

end Steps

section Safety

variable {σ T V P O K : Type*}

/-- The check would still pass. -/
def Rules.Clear (R : Rules σ T V P O K) (t : T) (shared : σ) : Prop := R.refuses t (R.view t shared) = false

/-- What a transaction relies on from its check to its commit. -/
def Stands (R : Rules σ T V P O K) (Fits : T → P → σ → Prop) (shared : σ) (t : T) : Phase V P → Prop
  | .cleared => R.Clear t shared
  | .written p => R.Clear t shared ∧ Fits t p shared
  | _ => True

/-- What each statement keeps, with nothing assumed of transactions of another key. -/
structure Keeps (R : Rules σ T V P O K) (Inv : σ → Prop) (Fits : T → P → σ → Prop) : Prop where
  write_inv : ∀ {s t}, Inv s → Inv (R.write t s).2
  write_fits : ∀ {s t}, Fits t (R.write t s).1 (R.write t s).2
  write_clear : ∀ {s t t'}, R.Clear t' s → R.Clear t' (R.write t s).2
  write_others : ∀ {s t t' p'}, Fits t' p' s → Fits t' p' (R.write t s).2
  commit_inv : ∀ {s t p}, Inv s → R.Clear t s → Fits t p s → Inv (R.apply t p s)
  commit_clear : ∀ {s t t' p}, R.key t ≠ R.key t' → Inv s → R.Clear t' s → R.Clear t' (R.apply t p s)
  commit_others : ∀ {s t t' p p'}, R.key t ≠ R.key t' → Fits t' p' s → Fits t' p' (R.apply t p s)
  serve_inv : ∀ {s o}, Inv s → Inv (R.serve o s)
  serve_clear : ∀ {s o t}, R.Clear t s → R.Clear t (R.serve o s)
  serve_fits : ∀ {s o t p}, R.waits p o = false → Fits t p s → Fits t p (R.serve o s)

structure Safe (R : Rules σ T V P O K) (Inv : σ → Prop) (Fits : T → P → σ → Prop) (s : System σ T V P K) : Prop where
  shared : Inv s.shared
  holds : ∀ {i : ℕ} {t : T} {phase : Phase V P}, s.transactions[i]? = some (t, phase) → phase.locks = true → s.holder (R.key t) = some i
  stands : ∀ {i : ℕ} {t : T} {phase : Phase V P}, s.transactions[i]? = some (t, phase) → Stands R Fits s.shared t phase

variable {R : Rules σ T V P O K} {Inv : σ → Prop} {Fits : T → P → σ → Prop} {s : System σ T V P K}

theorem safe_init {shared : σ} (h : Inv shared) : Safe R Inv Fits (System.init shared : System σ T V P K) :=
  ⟨h, fun hj _ => (by cases hj), fun hj => (by cases hj)⟩

/-- Two transactions of one key do not both hold the lock. -/
theorem Safe.exclusive (h : Safe R Inv Fits s) {i j : ℕ} {t t' : T} {phase phase' : Phase V P}
    (hi : s.transactions[i]? = some (t, phase)) (hj : s.transactions[j]? = some (t', phase'))
    (hlocks : phase.locks = true) (hlocks' : phase'.locks = true) (hkey : R.key t = R.key t') : i = j := by
  have hholds := h.holds hi hlocks
  rw [hkey, h.holds hj hlocks'] at hholds
  exact (Option.some.inj hholds).symm

theorem stands_of_not_locks {shared : σ} {t : T} {phase : Phase V P} (h : phase.locks = false) :
    Stands R Fits shared t phase := by
  cases phase with
  | holding => cases h
  | cleared => cases h
  | written p => cases h
  | _ => trivial

/-- What transactions rely on is kept if the check and the row are. -/
theorem Stands.mono {shared shared' : σ} {t : T} {phase : Phase V P} (h : Stands R Fits shared t phase)
    (hclear : R.Clear t shared → R.Clear t shared') (hfits : ∀ p, phase = .written p → Fits t p shared → Fits t p shared') :
    Stands R Fits shared' t phase := by
  cases phase with
  | cleared => exact hclear h
  | written p => exact ⟨hclear h.1, hfits p rfl h.2⟩
  | _ => trivial

/-- One transaction in another phase, which it may be in, while the others keep their locks and what they rely on. -/
theorem Safe.set (h : Safe R Inv Fits s) {s' : System σ T V P K} {i : ℕ} {t : T} {phase : Phase V P}
    (hset : s'.transactions = s.transactions.set i (t, phase)) (hinv : Inv s'.shared)
    (hheld : phase.locks = true → s'.holder (R.key t) = some i)
    (hholder : ∀ {j k}, j ≠ i → s.holder k = some j → s'.holder k = some j)
    (hstands : Stands R Fits s'.shared t phase)
    (hothers : ∀ {j t' phase'}, j ≠ i → s.transactions[j]? = some (t', phase') → Stands R Fits s.shared t' phase' →
      Stands R Fits s'.shared t' phase') : Safe R Inv Fits s' := by
  refine ⟨hinv, fun hj hlocks => ?_, fun hj => ?_⟩
  · rw [hset] at hj
    rcases getElem?_set_cases hj with ⟨rfl, hnew⟩ | ⟨hne, hold⟩
    · cases hnew
      exact hheld hlocks
    · exact hholder hne (h.holds hold hlocks)
  · rw [hset] at hj
    rcases getElem?_set_cases hj with ⟨-, hnew⟩ | ⟨hne, hold⟩
    · cases hnew
      exact hstands
    · exact hothers hne hold (h.stands hold)

variable [DecidableEq K]

/-- The end of a transaction takes no other's lock away. -/
theorem release_holder {i j : ℕ} {k k' : K} (h : s.holder k' = some j) (hne : j ≠ i) :
    (s.release i k).holder k' = some j := by
  unfold System.release
  dsimp only
  split_ifs with hheld
  · rw [Function.update_of_ne ?_]
    · exact h
    · intro hkey
      rw [hkey, hheld] at h
      exact hne (Option.some.inj h).symm
  · exact h

theorem Safe.step (h : Safe R Inv Fits s) (hkeeps : Keeps R Inv Fits) (m : Move T O) :
    Safe R Inv Fits (s.step R m) := by
  have hstep := stepped R s m
  generalize s.step R m = s' at hstep
  cases hstep with
  | idle => exact h
  | start t =>
    refine ⟨h.shared, fun hj hlocks => ?_, fun hj => ?_⟩
    · rcases getElem?_append_cases hj with hnew | hold
      · cases hnew
        cases hlocks
      · exact h.holds hold hlocks
    · rcases getElem?_append_cases hj with hnew | hold
      · cases hnew
        trivial
      · exact h.stands hold
  | @lock i t ht hfree =>
    refine h.set rfl h.shared (fun _ => Function.update_self ..) (fun {j k} _ hholds => ?_) trivial fun _ _ => id
    -- the lock was free, so what is held is another key's
    have hkey : k ≠ R.key t := by
      rintro rfl
      rw [hfree] at hholds
      cases hholds
    exact (Function.update_of_ne hkey ..).trans hholds
  | refuse ht hrefuses =>
    exact h.set rfl h.shared (fun hlocks => by cases hlocks) (fun _ => id) trivial fun _ _ => id
  | clear ht hclear => exact h.set rfl h.shared (fun _ => h.holds ht rfl) (fun _ => id) hclear fun _ _ => id
  | write ht =>
    refine h.set rfl (hkeeps.write_inv h.shared) (fun _ => h.holds ht rfl) (fun _ => id) ?_ fun _ _ hold => ?_
    · exact ⟨hkeeps.write_clear (h.stands ht), hkeeps.write_fits⟩
    · exact hold.mono hkeeps.write_clear fun _ _ => hkeeps.write_others
  | @commit i t p ht =>
    obtain ⟨hclear, hfits⟩ := h.stands ht
    refine h.set rfl (hkeeps.commit_inv h.shared hclear hfits) (fun hlocks => by cases hlocks)
      (fun hne hholds => release_holder hholds hne) trivial fun {j t' phase} hne hj hold => ?_
    cases hlocks : phase.locks with
    | false => exact stands_of_not_locks hlocks
    | true =>
      have hkey : R.key t ≠ R.key t' := fun hkey => hne (h.exclusive ht hj rfl hlocks hkey).symm
      exact hold.mono (hkeeps.commit_clear hkey h.shared) fun _ _ => hkeeps.commit_others hkey
  | @rollback i t phase ht =>
    have hended : phase.ended.locks = false := by cases phase <;> rfl
    refine h.set rfl h.shared (fun hlocks => ?_) (fun hne hholds => release_holder hholds hne)
      (stands_of_not_locks hended) fun _ _ => id
    rw [hended] at hlocks
    cases hlocks
  | @other o hfree =>
    refine ⟨hkeeps.serve_inv h.shared, h.holds, fun {j t phase} hj => ?_⟩
    refine (h.stands hj).mono hkeeps.serve_clear fun p hphase => hkeeps.serve_fits ?_
    have hblocks := hfree (t, phase) (List.mem_of_getElem? hj)
    rw [hphase] at hblocks
    exact hblocks

theorem Safe.run (h : Safe R Inv Fits s) (hkeeps : Keeps R Inv Fits) (moves : List (Move T O)) :
    Safe R Inv Fits (s.run R moves) := by
  induction moves generalizing s with
  | nil => exact h
  | cons m moves ih => exact ih (h.step hkeeps m)

end Safety

end LockedTransactions
