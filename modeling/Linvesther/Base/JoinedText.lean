import Mathlib

/-! Texts joined by a colon: what comes before the first colon, and what after it, can be told again. -/

namespace JoinedText

theorem intercalate_inj {ps qs : List String} (hps : ∀ p ∈ ps, ':' ∉ p.toList)
    (hqs : ∀ q ∈ qs, ':' ∉ q.toList) (hp : ps ≠ []) (hq : qs ≠ [])
    (h : ":".intercalate ps = ":".intercalate qs) : ps = qs := by
  have hlists : [':'].intercalate (ps.map String.toList) =
      [':'].intercalate (qs.map String.toList) := by
    simpa [String.toList_intercalate] using congrArg String.toList h
  have hsplit := congrArg (List.splitOn ':') hlists
  rw [List.splitOn_intercalate _ (by simpa using hps) (by simpa using hp),
    List.splitOn_intercalate _ (by simpa using hqs) (by simpa using hq)] at hsplit
  exact List.map_injective_iff.2 (fun _ _ => String.toList_inj.1) hsplit

theorem colon_notMem_toString (n : ℤ) : ':' ∉ (toString n).toList := by
  have hdigits : ∀ m : ℕ, ':' ∉ m.repr.toList := fun m hmem => by
    have hdigit := Nat.isDigit_of_mem_toDigits (b := 10) (n := m) (c := ':') (by decide) (by decide)
      (by simpa [Nat.repr] using hmem)
    revert hdigit
    decide
  cases n with
  | ofNat m => exact hdigits m
  | negSucc m =>
    change ':' ∉ ("-" ++ (m + 1).repr).toList
    rw [String.toList_append, List.mem_append]
    rintro (hmem | hmem)
    · revert hmem
      decide
    · exact hdigits _ hmem

/-- No digit is a minus sign. -/
theorem toString_inj {n m : ℤ} (h : toString n = toString m) : n = m := by
  have hminus : ∀ k : ℕ, '-' ∉ k.repr.toList := fun k hmem => by
    have hdigit := Nat.isDigit_of_mem_toDigits (b := 10) (n := k) (c := '-') (by decide) (by decide)
      (by simpa [Nat.repr] using hmem)
    revert hdigit
    decide
  cases n with
  | ofNat n =>
    cases m with
    | ofNat m =>
      have hrepr : n.repr = m.repr := h
      rw [Nat.repr_inj.1 hrepr]
    | negSucc m =>
      have hrepr : n.repr = "-" ++ (m + 1).repr := h
      refine absurd ?_ (hminus n)
      rw [hrepr, String.toList_append, List.mem_append]
      exact .inl (by decide)
  | negSucc n =>
    cases m with
    | ofNat m =>
      have hrepr : "-" ++ (n + 1).repr = m.repr := h
      refine absurd ?_ (hminus m)
      rw [← hrepr, String.toList_append, List.mem_append]
      exact .inl (by decide)
    | negSucc m =>
      have hrepr : "-" ++ (n + 1).repr = "-" ++ (m + 1).repr := h
      rw [String.append_right_inj, Nat.repr_inj] at hrepr
      omega

/-- The first part has no colon, so it ends at the first one. -/
theorem append_colon_inj {a b x y : String} (ha : ':' ∉ a.toList) (hb : ':' ∉ b.toList)
    (h : a ++ ":" ++ x = b ++ ":" ++ y) : a = b ∧ x = y := by
  have hlists : a.toList ++ ':' :: x.toList = b.toList ++ ':' :: y.toList := by
    simpa [String.toList_append] using congrArg String.toList h
  have htake := congrArg (List.takeWhile (· ≠ ':')) hlists
  have hfirst : ∀ s rest : List Char, ':' ∉ s → (s ++ ':' :: rest).takeWhile (· ≠ ':') = s := by
    intro s rest hs
    rw [List.takeWhile_append_of_pos]
    · simp
    · intro c hc
      rw [decide_eq_true_eq]
      rintro rfl
      exact hs hc
  rw [hfirst _ _ ha, hfirst _ _ hb] at htake
  rw [htake, List.append_cancel_left_eq, List.cons.injEq] at hlists
  exact ⟨String.toList_inj.1 htake, String.toList_inj.1 hlists.2⟩

end JoinedText
