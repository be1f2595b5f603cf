import Mathlib

/-! A holding kept at average cost. What its sales bring over what they cost, and what the rest has gained, come to
what the holding is worth less what was put into it, in every order of buying and selling. -/

namespace AverageCost

variable {K : Type} [Field K] [LinearOrder K]

/-- How much is held and what one unit of it cost on average. -/
structure Book (K : Type) where
  held : K
  cost : K

def Book.empty : Book K := ⟨0, 0⟩

/-- What comes in is averaged in at its price; what goes out leaves the rest at its cost. -/
def Book.move (b : Book K) (m : K × K) : Book K where
  held := b.held + m.1
  cost := if 0 < m.1 then (b.held * b.cost + m.1 * m.2) / (b.held + m.1) else b.cost

/-- The book after moves, each of a quantity that comes in, or goes out if it is negative, at a price. -/
def Book.run (b : Book K) (moves : List (K × K)) : Book K := moves.foldl Book.move b

/-- What one move brings over what it cost. -/
def Book.gain (b : Book K) (m : K × K) : K := if 0 < m.1 then 0 else -m.1 * (m.2 - b.cost)

def Book.gains : Book K → List (K × K) → K
  | _, [] => 0
  | b, m :: moves => b.gain m + (b.move m).gains moves

/-- What was put in, less what was taken out. -/
def invested (moves : List (K × K)) : K := (moves.map fun m => m.1 * m.2).sum

variable {b : Book K}

theorem Book.run_append (moves moves' : List (K × K)) : b.run (moves ++ moves') = (b.run moves).run moves' :=
  List.foldl_append

theorem gains_append (moves moves' : List (K × K)) :
    b.gains (moves ++ moves') = b.gains moves + (b.run moves).gains moves' := by
  induction moves generalizing b with
  | nil => simp [Book.gains, Book.run]
  | cons m moves ih =>
    rw [List.cons_append, Book.gains, Book.gains, ih, add_assoc]
    rfl

omit [LinearOrder K] in
theorem invested_append (moves moves' : List (K × K)) :
    invested (moves ++ moves') = invested moves + invested moves' := by
  unfold invested
  rw [List.map_append, List.sum_append]

theorem held_run (moves : List (K × K)) : (b.run moves).held = b.held + (moves.map Prod.fst).sum := by
  induction moves generalizing b with
  | nil => simp [Book.run]
  | cons m moves ih =>
    have hrun : b.run (m :: moves) = (b.move m).run moves := rfl
    rw [hrun, ih, List.map_cons, List.sum_cons, ← add_assoc]
    rfl

/-- A holding that is never short: after every part of the moves something is held or nothing is. -/
def Covered (b : Book K) (moves : List (K × K)) : Prop :=
  ∀ done rest, moves = done ++ rest → 0 ≤ (b.run done).held

theorem Covered.of_append {moves moves' : List (K × K)} (h : Covered b (moves ++ moves')) : Covered b moves :=
  fun done rest heq => h done (rest ++ moves') (by rw [heq, List.append_assoc])

theorem covered_append_singleton {moves : List (K × K)} {m : K × K} :
    Covered b (moves ++ [m]) ↔ Covered b moves ∧ 0 ≤ (b.run (moves ++ [m])).held := by
  constructor
  · exact fun h => ⟨h.of_append, h _ [] (List.append_nil _).symm⟩
  · rintro ⟨hbefore, hlast⟩ done rest heq
    rcases List.prefix_concat_iff.1 (⟨rest, heq.symm⟩ : done <+: moves ++ [m]) with rfl | ⟨rest', hrest⟩
    · exact hlast
    · exact hbefore done rest' hrest.symm

theorem Covered.held {moves : List (K × K)} (h : Covered b moves) : 0 ≤ (b.run moves).held :=
  h moves [] (List.append_nil moves).symm

variable [IsStrictOrderedRing K]

/-- One move adds to the holding at cost what it puts in and what it gains. -/
theorem value_move (hheld : 0 ≤ b.held) (m : K × K) :
    (b.move m).held * (b.move m).cost = b.held * b.cost + m.1 * m.2 + b.gain m := by
  unfold Book.move Book.gain
  dsimp only
  split_ifs with hin
  · have htotal : b.held + m.1 ≠ 0 := (add_pos_of_nonneg_of_pos hheld hin).ne'
    field_simp
    ring
  · ring

/-- What the moves gain is what the holding has grown by at cost, less what was put in. -/
theorem gains_eq {moves : List (K × K)} (h : Covered b moves) :
    b.gains moves = (b.run moves).held * (b.run moves).cost - b.held * b.cost - invested moves := by
  induction moves using List.reverseRecOn with
  | nil => simp [Book.gains, Book.run, invested]
  | append_singleton moves m ih =>
    have hbefore := h.of_append
    have hmove := value_move hbefore.held m
    have hlast : (b.run moves).gains [m] = (b.run moves).gain m := by simp [Book.gains]
    have hrun : b.run (moves ++ [m]) = (b.run moves).move m := Book.run_append moves [m]
    have hone : invested [m] = m.1 * m.2 := by simp [invested]
    rw [gains_append, hlast, ih hbefore, hrun, hmove, invested_append, hone]
    ring

end AverageCost
