import Mathlib

/-! Chains of back pointers: every element names the one before it, and a distinguished value
stands for "nothing before". -/

namespace BackChain

variable {α : Type*}

/-- Following `prev` from `a` visits exactly `l`, in this order, and then reaches `nil`. -/
inductive Trace (prev : α → α) (nil : α) : α → List α → Prop
  | stop : Trace prev nil nil []
  | link {a : α} {l : List α} : a ≠ nil → Trace prev nil (prev a) l → Trace prev nil a (a :: l)

variable {prev : α → α} {nil : α}

theorem Trace.ne_nil {a : α} {l : List α} (h : Trace prev nil a l) : ∀ b ∈ l, b ≠ nil := by
  induction h with
  | stop => simp
  | link hne _ ih =>
    intro b hb
    rcases List.mem_cons.1 hb with rfl | hb
    · exact hne
    · exact ih b hb

theorem Trace.of_nil {l : List α} (h : Trace prev nil nil l) : l = [] := by
  cases h with
  | stop => rfl
  | link hne _ => exact absurd rfl hne

theorem Trace.unique {a : α} {l l' : List α} (h : Trace prev nil a l) (h' : Trace prev nil a l') :
    l = l' := by
  induction h generalizing l' with
  | stop => exact h'.of_nil.symm
  | link hne _ ih =>
    cases h' with
    | stop => exact absurd rfl hne
    | link _ ht => rw [ih ht]

theorem Trace.eq_nil_iff {a : α} {l : List α} (h : Trace prev nil a l) : l = [] ↔ a = nil := by
  cases h with
  | stop => simp
  | link hne _ => simp [hne]

theorem Trace.head {a b : α} {l : List α} (h : Trace prev nil a (b :: l)) : a = b := by
  cases h; rfl

theorem Trace.tail {a b : α} {l : List α} (h : Trace prev nil a (b :: l)) :
    Trace prev nil (prev b) l := by
  cases h; assumption

/-- The rest of a trace from any of its elements is that element's own trace. -/
theorem Trace.drop {a b : α} {l l' : List α} (h : Trace prev nil a (l ++ b :: l')) :
    Trace prev nil b (b :: l') := by
  induction l generalizing a with
  | nil => exact h.head ▸ h
  | cons c l ih => exact ih h.tail

/-- A trace ends, so it cannot come back to an element it has passed. -/
theorem Trace.nodup {a : α} {l : List α} (h : Trace prev nil a l) : l.Nodup := by
  induction h with
  | stop => exact List.nodup_nil
  | @link a l hne ht ih =>
    refine List.nodup_cons.2 ⟨fun hmem => ?_, ih⟩
    obtain ⟨l₁, l₂, rfl⟩ := List.append_of_mem hmem
    have hshort : Trace prev nil a (a :: l₂) := ht.drop
    have hlong : Trace prev nil a (a :: (l₁ ++ a :: l₂)) := .link hne ht
    have hlen := congrArg List.length (hshort.unique hlong)
    simp only [List.length_cons, List.length_append] at hlen
    omega

theorem Trace.congr {prev' : α → α} {a : α} {l : List α} (h : Trace prev nil a l)
    (hsame : ∀ b ∈ l, prev' b = prev b) : Trace prev' nil a l := by
  induction h with
  | stop => exact .stop
  | @link a l hne _ ih =>
    refine .link hne ?_
    rw [hsame a (by simp)]
    exact ih fun b hb => hsame b (by simp [hb])

/-- Putting a new element in front of a chain. -/
theorem Trace.push {prev' : α → α} {a b : α} {l : List α} (h : Trace prev nil a l)
    (hne : b ≠ nil) (hlink : prev' b = a) (hsame : ∀ c ∈ l, prev' c = prev c) :
    Trace prev' nil b (b :: l) :=
  .link hne (by rw [hlink]; exact h.congr hsame)

/-- Numbers that count a list down to zero keep doing so when its length is put in front. -/
theorem countdown_cons {seq : α → ℕ} {a : α} {l : List α}
    (h : l.map seq = (List.range l.length).reverse) (ha : seq a = l.length) :
    (a :: l).map seq = (List.range (a :: l).length).reverse := by
  simp [h, ha, List.range_succ]

end BackChain
