import Mathlib

/-! The falls of a series from one value to a later one, and how little they change with the series. -/

namespace Falls

/-- What is lost from one value to a later one, in parts of the first. -/
def falls (l : List ℚ) : Set ℚ :=
  {d | ∃ (i j : ℕ) (a b : ℚ), i ≤ j ∧ l[i]? = some a ∧ l[j]? = some b ∧ d = 1 - b / a}

variable {l as bs : List ℚ} {u v w ε M : ℚ}

theorem exists_greatest (hne : l ≠ []) : ∃ w, IsGreatest (falls l) w := by
  have hfinite : (falls l).Finite := by
    refine ((l.toFinset ×ˢ l.toFinset).finite_toSet.image fun p : ℚ × ℚ => 1 - p.2 / p.1).subset ?_
    rintro d ⟨i, j, a, b, -, ha, hb, rfl⟩
    refine ⟨(a, b), ?_, rfl⟩
    simp [List.mem_of_getElem? ha, List.mem_of_getElem? hb]
  obtain ⟨first, rest, rfl⟩ := List.exists_cons_of_ne_nil hne
  have hsome : (falls (first :: rest)).Nonempty := ⟨_, 0, 0, first, first, le_refl 0, rfl, rfl, rfl⟩
  obtain ⟨w, hw, hmax⟩ := Set.exists_max_image _ id hfinite hsome
  exact ⟨w, hw, hmax⟩

theorem falls_map_mul {c : ℚ} (hc : c ≠ 0) : falls (l.map (c * ·)) = falls l := by
  have hget {k : ℕ} {x : ℚ} : (l.map (c * ·))[k]? = some x ↔ ∃ y, l[k]? = some y ∧ c * y = x := by
    rw [List.getElem?_map, Option.map_eq_some_iff]
  ext d
  constructor
  · rintro ⟨i, j, a, b, hij, ha, hb, rfl⟩
    obtain ⟨a', ha', rfl⟩ := hget.1 ha
    obtain ⟨b', hb', rfl⟩ := hget.1 hb
    exact ⟨i, j, a', b', hij, ha', hb', by rw [mul_div_mul_left _ _ hc]⟩
  · rintro ⟨i, j, a, b, hij, ha, hb, rfl⟩
    exact ⟨i, j, c * a, c * b, hij, hget.2 ⟨a, ha, rfl⟩, hget.2 ⟨b, hb, rfl⟩, by rw [mul_div_mul_left _ _ hc]⟩

/-- The greatest fall is from a value that is not below the first, and it is no rise. -/
theorem greatest_from (hpos : ∀ a ∈ l, 0 < a) (hM : l.head? = some M) (h : IsGreatest (falls l) w) :
    ∃ (i j : ℕ) (a b : ℚ), l[i]? = some a ∧ l[j]? = some b ∧ i ≤ j ∧ M ≤ a ∧ b ≤ a ∧ w = 1 - b / a := by
  obtain ⟨⟨i, j, a, b, hij, ha, hb, rfl⟩, hmax⟩ := h
  have ha' := hpos a (List.mem_of_getElem? ha)
  have hb' := hpos b (List.mem_of_getElem? hb)
  have hM' : 0 < M := hpos M (List.mem_of_mem_head? hM)
  have hzero : l[0]? = some M := by rwa [← List.head?_eq_getElem?]
  refine ⟨i, j, a, b, ha, hb, hij, ?_, ?_, rfl⟩
  · have hle := hmax ⟨0, j, M, b, Nat.zero_le j, hzero, hb, rfl⟩
    have hquotient : b / a ≤ b / M := by linarith
    rwa [div_le_div_iff_of_pos_left hb' ha' hM'] at hquotient
  · have hle := hmax ⟨i, i, a, a, le_refl i, ha, ha, rfl⟩
    rw [div_self ha'.ne'] at hle
    have hquotient : b / a ≤ 1 := by linarith
    rwa [div_le_one ha'] at hquotient

/-- Of two series that are never further apart than `ε`, the one has no fall that is much deeper than each of the
other. -/
theorem greatest_le_add (hnear : List.Forall₂ (fun a b => |a - b| ≤ ε) as bs) (hpos : ∀ a ∈ as, 0 < a)
    (hM : as.head? = some M) (hε : ε < M) (hu : IsGreatest (falls as) u) (hv : IsGreatest (falls bs) v) :
    u ≤ v + 2 * ε / (M - ε) := by
  obtain ⟨i, j, a, b, ha, hb, hij, hMa, hba, rfl⟩ := greatest_from hpos hM hu
  have ha0 : 0 < a := hpos a (List.mem_of_getElem? ha)
  have hb0 : 0 < b := hpos b (List.mem_of_getElem? hb)
  have hpair {k : ℕ} {x : ℚ} (hx : as[k]? = some x) : ∃ y, bs[k]? = some y ∧ |x - y| ≤ ε := by
    obtain ⟨hk, rfl⟩ := List.getElem?_eq_some_iff.1 hx
    have hk' : k < bs.length := hnear.length_eq ▸ hk
    exact ⟨bs[k], List.getElem?_eq_getElem hk', hnear.get hk hk'⟩
  obtain ⟨a', ha', hdista⟩ := hpair ha
  obtain ⟨b', hb', hdistb⟩ := hpair hb
  rw [abs_le] at hdista hdistb
  have hε0 : 0 ≤ ε := by linarith [hdista.1, hdista.2]
  have hgap : 0 < M - ε := by linarith
  have ha'0 : 0 < a' := by linarith
  have hratio : b / a ≤ 1 := (div_le_one ha0).2 hba
  have hrationonneg : 0 ≤ b / a := (div_pos hb0 ha0).le
  have hscaled : b' ≤ b / a * a' + 2 * ε := by
    have hback : b / a * a = b := div_mul_cancel₀ b ha0.ne'
    have hmove : b / a * (a - a') ≤ ε := by
      calc b / a * (a - a') ≤ b / a * ε := mul_le_mul_of_nonneg_left hdista.2 hrationonneg
        _ ≤ ε := mul_le_of_le_one_left hε0 hratio
    rw [mul_sub, hback] at hmove
    linarith
  have hquotient : b' / a' ≤ b / a + 2 * ε / (M - ε) := by
    rw [div_le_iff₀ ha'0, add_mul]
    have hcost : 2 * ε ≤ 2 * ε / (M - ε) * a' := by
      rw [div_mul_eq_mul_div, le_div_iff₀ hgap]
      exact mul_le_mul_of_nonneg_left (by linarith) (by linarith)
    linarith
  have hfall := hv.2 ⟨i, j, a', b', hij, ha', hb', rfl⟩
  linarith

/-- Rounded down, quantities that are not a unit apart are at most a unit apart. -/
theorem abs_floor_sub_le {x y : ℚ} (hxy : x ≤ y + 1) (hyx : y ≤ x + 1) : |⌊x⌋ - ⌊y⌋| ≤ 1 := by
  have hx := Int.floor_le_floor hxy
  have hy := Int.floor_le_floor hyx
  rw [Int.floor_add_one] at hx hy
  rw [abs_le]
  constructor <;> omega

end Falls
