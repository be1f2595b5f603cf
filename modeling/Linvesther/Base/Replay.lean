import Mathlib

/-! Sequences of overwriting operations: doing a sequence a second time changes nothing, and what
an unfinished attempt at it did is lost when it is done. -/

namespace Replay

variable {α : Type*}

def replay (ops : List (α → α)) (s : α) : α := ops.foldl (fun s op => op s) s

theorem replay_append (ops ops' : List (α → α)) (s : α) :
    replay (ops ++ ops') s = replay ops' (replay ops s) := List.foldl_append

/-- States that `op` sends to the same state are sent to the same state after `ops` as well, if
this is so for each of them. -/
theorem replay_congr {op : α → α} {ops : List (α → α)}
    (h : ∀ g ∈ ops, ∀ s t, op s = op t → op (g s) = op (g t)) {s t : α} (hst : op s = op t) :
    op (replay ops s) = op (replay ops t) := by
  induction ops generalizing s t with
  | nil => exact hst
  | cons g ops ih =>
    exact ih (fun g' hg' => h g' (by simp [hg'])) (h g (by simp) s t hst)

/-- What an earlier operation does is lost on a later one that overwrites it. -/
theorem replay_replay {ops : List (α → α)} (hidem : ∀ op ∈ ops, ∀ s, op (op s) = op s)
    (hover : ops.Pairwise fun g op => ∀ s t, op s = op t → op (g s) = op (g t)) (s : α) :
    replay ops (replay ops s) = replay ops s := by
  induction ops using List.reverseRecOn generalizing s with
  | nil => rfl
  | append_singleton ops op ih =>
    obtain ⟨hops, -, hlast⟩ := List.pairwise_append.1 hover
    have hcongr : ∀ s t, op s = op t → op (replay ops s) = op (replay ops t) := fun s t =>
      replay_congr fun g hg => hlast g hg op (by simp)
    have hagain : ∀ t, op (replay ops (op t)) = op (replay ops t) := fun t =>
      hcongr _ _ (hidem op (by simp) t)
    calc replay (ops ++ [op]) (replay (ops ++ [op]) s)
        = op (replay ops (op (replay ops s))) := by simp only [replay_append]; rfl
      _ = op (replay ops (replay ops s)) := hagain _
      _ = op (replay ops s) := by rw [ih (fun op hop => hidem op (by simp [hop])) hops]
      _ = replay (ops ++ [op]) s := by rw [replay_append]; rfl

theorem replay_prefix {pre ops : List (α → α)} (hpre : pre <+: ops)
    (hidem : ∀ op ∈ ops, ∀ s, op (op s) = op s)
    (hover : ops.Pairwise fun g op => ∀ s t, op s = op t → op (g s) = op (g t)) (s : α) :
    replay ops (replay pre s) = replay ops s := by
  obtain ⟨rest, rfl⟩ := hpre
  have hagain : replay pre (replay pre s) = replay pre s :=
    replay_replay (fun op hop => hidem op (by simp [hop])) (List.pairwise_append.1 hover).1 s
  rw [replay_append, hagain, ← replay_append]

end Replay
