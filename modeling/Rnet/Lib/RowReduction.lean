import Mathlib.LinearAlgebra.Matrix.Adjugate
import Mathlib.LinearAlgebra.Matrix.Swap

/-!
# Row reduction over a field

A system is a square coefficient matrix with a matrix of right-hand sides. `reduce`
goes through the columns: in column `i` it takes the first row from `i` on with an
entry that is not 0, swaps it to place `i`, scales that entry to 1 and clears the
rest of the column. A column without such a row is skipped. Every row operation is
one invertible matrix applied to both sides (`RowEquiv`).

> `reduce_rowEquiv`, `RowEquiv.solutions`: the solutions stay the same;
> `reduce_coeffs_eq_one`: an invertible matrix is reduced to the identity.
-/

namespace Rnet.Lib.RowReduction

open Matrix

/-- `n` equations in `n` unknowns, each with `l` right-hand sides. -/
structure LinSystem (n l : Nat) (F : Type*) where
  coeffs : Matrix (Fin n) (Fin n) F
  rhs : Matrix (Fin n) (Fin l) F

variable {F : Type*} [Field F] {n l : Nat}

/-- One invertible matrix takes both sides of `s` to those of `t`. -/
def RowEquiv (s t : LinSystem n l F) : Prop :=
  ∃ R : Matrix (Fin n) (Fin n) F, IsUnit R ∧ t.coeffs = R * s.coeffs ∧ t.rhs = R * s.rhs

namespace LinSystem

/-- Rows `i` and `j` change places. -/
def swapRows (i j : Fin n) (s : LinSystem n l F) : LinSystem n l F where
  coeffs := s.coeffs.submatrix (Equiv.swap i j) id
  rhs := s.rhs.submatrix (Equiv.swap i j) id

/-- Row `i` is multiplied by `c`. -/
def scaleRow (i : Fin n) (c : F) (s : LinSystem n l F) : LinSystem n l F where
  coeffs := s.coeffs.updateRow i (c • s.coeffs i)
  rhs := s.rhs.updateRow i (c • s.rhs i)

/-- `c` times row `i` is added to row `k`. -/
def addRow (k i : Fin n) (c : F) (s : LinSystem n l F) : LinSystem n l F where
  coeffs := s.coeffs.updateRow k (s.coeffs k + c • s.coeffs i)
  rhs := s.rhs.updateRow k (s.rhs k + c • s.rhs i)

/-- Column `i` of row `k` is cleared with row `i`, whose entry there is 1. -/
def clear (i : Fin n) (s : LinSystem n l F) (k : Fin n) : LinSystem n l F :=
  if k = i then s else s.addRow k i (-s.coeffs k i)

/-- The first row from `i` on whose entry in column `i` is not 0. -/
def pivot [DecidableEq F] (s : LinSystem n l F) (i : Fin n) : Option (Fin n) :=
  (List.finRange n).find? fun k => i ≤ k ∧ s.coeffs k i ≠ 0

/-- Row `p` becomes the pivot row of column `i`. -/
def normalize (p i : Fin n) (s : LinSystem n l F) : LinSystem n l F :=
  (s.swapRows i p).scaleRow i (s.coeffs p i)⁻¹

/-- Column `i`. -/
def step [DecidableEq F] (s : LinSystem n l F) (i : Fin n) : LinSystem n l F :=
  match s.pivot i with
  | none => s
  | some p => (List.finRange n).foldl (clear i) (s.normalize p i)

/-- All columns, one after the other. -/
def reduce [DecidableEq F] (s : LinSystem n l F) : LinSystem n l F := (List.finRange n).foldl step s

end LinSystem

open LinSystem

/-! ## Row operations -/

theorem RowEquiv.refl (s : LinSystem n l F) : RowEquiv s s :=
  ⟨1, isUnit_one, (Matrix.one_mul _).symm, (Matrix.one_mul _).symm⟩

theorem RowEquiv.trans {s t u : LinSystem n l F} (h₁ : RowEquiv s t) (h₂ : RowEquiv t u) :
    RowEquiv s u := by
  obtain ⟨R, hR, hc, hr⟩ := h₁
  obtain ⟨S, hS, hc', hr'⟩ := h₂
  refine ⟨S * R, hS.mul hR, ?_, ?_⟩
  · rw [hc', hc, Matrix.mul_assoc]
  · rw [hr', hr, Matrix.mul_assoc]

/-- **Row equivalent systems** have the same solutions. -/
theorem RowEquiv.solutions {s t : LinSystem n l F} (h : RowEquiv s t)
    (P : Matrix (Fin n) (Fin l) F) : s.coeffs * P = s.rhs ↔ t.coeffs * P = t.rhs := by
  obtain ⟨R, hR, hc, hr⟩ := h
  rw [hc, hr, Matrix.mul_assoc]
  constructor
  · intro h
    rw [h]
  · intro h
    obtain ⟨S, hS⟩ := hR.exists_left_inv
    have := congrArg (S * ·) h
    simp only [← Matrix.mul_assoc, hS, Matrix.one_mul] at this
    exact this

theorem RowEquiv.isUnit {s t : LinSystem n l F} (h : RowEquiv s t) (hs : IsUnit s.coeffs) :
    IsUnit t.coeffs := by
  obtain ⟨R, hR, hc, -⟩ := h
  rw [hc]
  exact hR.mul hs

theorem rowEquiv_swapRows (i j : Fin n) (s : LinSystem n l F) : RowEquiv s (s.swapRows i j) := by
  have hmul : ∀ {m : Nat} (A : Matrix (Fin n) (Fin m) F),
      A.submatrix (Equiv.swap i j) id = swap F i j * A := by
    intro m A
    unfold Matrix.swap
    rw [PEquiv.toMatrix_toPEquiv_mul]
  refine ⟨swap F i j, ?_, hmul _, hmul _⟩
  exact IsUnit.of_mul_eq_one _ (swap_mul_self i j)

/-- Replacing row `k` by a combination of all rows in which row `k` occurs. -/
theorem rowEquiv_updateRow {s t : LinSystem n l F} {k : Fin n} {r : Fin n → F} (hr : r k ≠ 0)
    (hc : t.coeffs = s.coeffs.updateRow k (r ᵥ* s.coeffs))
    (hd : t.rhs = s.rhs.updateRow k (r ᵥ* s.rhs)) : RowEquiv s t := by
  refine ⟨(1 : Matrix (Fin n) (Fin n) F).updateRow k r, ?_, ?_, ?_⟩
  · rw [Matrix.isUnit_iff_isUnit_det, ← cramer_transpose_apply, transpose_one, cramer_one]
    exact hr.isUnit
  · rw [updateRow_mul, Matrix.one_mul, hc]
  · rw [updateRow_mul, Matrix.one_mul, hd]

theorem rowEquiv_scaleRow (i : Fin n) {c : F} (hc : c ≠ 0) (s : LinSystem n l F) :
    RowEquiv s (s.scaleRow i c) := by
  have hmul : ∀ {m : Nat} (A : Matrix (Fin n) (Fin m) F), c • A i = Pi.single i c ᵥ* A := by
    intro m A
    rw [single_vecMul]
    rfl
  refine rowEquiv_updateRow (k := i) (r := Pi.single i c) ?_ ?_ ?_
  · rw [Pi.single_eq_same]
    exact hc
  · rw [← hmul]
    rfl
  · rw [← hmul]
    rfl

theorem rowEquiv_addRow {k i : Fin n} (hki : k ≠ i) (c : F) (s : LinSystem n l F) :
    RowEquiv s (s.addRow k i c) := by
  have hmul : ∀ {m : Nat} (A : Matrix (Fin n) (Fin m) F),
      A k + c • A i = (Pi.single k 1 + Pi.single i c) ᵥ* A := by
    intro m A
    rw [add_vecMul, single_one_vecMul, single_vecMul]
    rfl
  refine rowEquiv_updateRow (k := k) (r := Pi.single k 1 + Pi.single i c) ?_ ?_ ?_
  · rw [Pi.add_apply, Pi.single_eq_same, Pi.single_eq_of_ne hki, add_zero]
    exact one_ne_zero
  · rw [← hmul]
    rfl
  · rw [← hmul]
    rfl

theorem rowEquiv_clear (i : Fin n) (s : LinSystem n l F) (k : Fin n) :
    RowEquiv s (s.clear i k) := by
  unfold clear
  by_cases hki : k = i
  · rw [if_pos hki]
    exact .refl s
  · rw [if_neg hki]
    exact rowEquiv_addRow hki _ s

theorem rowEquiv_foldl_clear (i : Fin n) (ks : List (Fin n)) :
    ∀ s : LinSystem n l F, RowEquiv s (ks.foldl (clear i) s) := by
  induction ks with
  | nil => intro s; exact .refl s
  | cons k ks ih =>
    intro s
    exact (rowEquiv_clear i s k).trans (ih (s.clear i k))

/-! ## One column -/

/-- The pivot row is not touched. -/
theorem clear_pivotRow (i : Fin n) (s : LinSystem n l F) (k : Fin n) :
    (s.clear i k).coeffs i = s.coeffs i ∧ (s.clear i k).rhs i = s.rhs i := by
  unfold clear
  by_cases hki : k = i
  · rw [if_pos hki]
    exact ⟨rfl, rfl⟩
  · rw [if_neg hki]
    exact ⟨updateRow_ne (Ne.symm hki), updateRow_ne (Ne.symm hki)⟩

/-- The entries of column `j` after `clear`. -/
theorem clear_apply (i : Fin n) (s : LinSystem n l F) (k m j : Fin n) :
    (s.clear i k).coeffs m j =
      if m = k ∧ k ≠ i then s.coeffs k j - s.coeffs k i * s.coeffs i j else s.coeffs m j := by
  unfold clear
  by_cases hki : k = i
  · rw [if_pos hki, if_neg fun h => h.2 hki]
  · rw [if_neg hki]
    unfold addRow
    dsimp only
    rw [updateRow_apply]
    by_cases hmk : m = k
    · rw [if_pos hmk, if_pos ⟨hmk, hki⟩, Pi.add_apply, Pi.smul_apply, smul_eq_mul, neg_mul,
        sub_eq_add_neg]
    · rw [if_neg hmk, if_neg fun h => hmk h.1]

theorem foldl_clear_pivotRow (i : Fin n) (ks : List (Fin n)) :
    ∀ s : LinSystem n l F, (ks.foldl (clear i) s).coeffs i = s.coeffs i := by
  induction ks with
  | nil => intro s; rfl
  | cons k ks ih =>
    intro s
    rw [List.foldl_cons, ih, (clear_pivotRow i s k).1]

/-- The rows in `ks` have a cleared column `i`. -/
theorem foldl_clear_column {i : Fin n} (ks : List (Fin n)) :
    ∀ s : LinSystem n l F, s.coeffs i i = 1 → ∀ m, m ≠ i → m ∈ ks ∨ s.coeffs m i = 0 →
      (ks.foldl (clear i) s).coeffs m i = 0 := by
  induction ks with
  | nil =>
    intro s _ m _ hm
    rcases hm with hm | hm
    · exact absurd hm List.not_mem_nil
    · exact hm
  | cons k ks ih =>
    intro s hs m hmi hm
    rw [List.foldl_cons]
    refine ih _ (by rw [(clear_pivotRow i s k).1, hs]) m hmi ?_
    rw [clear_apply, hs, mul_one, sub_self]
    by_cases hmk : m = k
    · rw [if_pos ⟨hmk, fun h => hmi (hmk.trans h)⟩]
      exact Or.inr rfl
    · rw [if_neg fun h => hmk h.1]
      rcases hm with hm | hm
      · exact Or.inl ((List.mem_cons.mp hm).resolve_left hmk)
      · exact Or.inr hm

/-- A column in which the pivot row has 0 stays as it is. -/
theorem foldl_clear_of_zero {i j : Fin n} (ks : List (Fin n)) :
    ∀ s : LinSystem n l F, s.coeffs i j = 0 → ∀ m,
      (ks.foldl (clear i) s).coeffs m j = s.coeffs m j := by
  induction ks with
  | nil => intro s _ m; rfl
  | cons k ks ih =>
    intro s hs m
    rw [List.foldl_cons, ih _ (by rw [(clear_pivotRow i s k).1, hs]), clear_apply, hs, mul_zero,
      sub_zero]
    by_cases hmk : m = k ∧ k ≠ i
    · rw [if_pos hmk, hmk.1]
    · rw [if_neg hmk]

variable [DecidableEq F]

theorem pivot_some {s : LinSystem n l F} {i p : Fin n} (h : s.pivot i = some p) :
    i ≤ p ∧ s.coeffs p i ≠ 0 := by
  have := List.find?_some h
  simpa using this

theorem pivot_none {s : LinSystem n l F} {i : Fin n} (h : s.pivot i = none) :
    ∀ k, i ≤ k → s.coeffs k i = 0 := by
  intro k hk
  have := List.find?_eq_none.mp h k (List.mem_finRange k)
  simp only [decide_eq_true_eq, not_and, not_not] at this
  exact this hk

theorem pivot_eq_none {s : LinSystem n l F} {i : Fin n} (h : ∀ k, i ≤ k → s.coeffs k i = 0) :
    s.pivot i = none := by
  cases hp : s.pivot i with
  | none => rfl
  | some p => exact absurd (h p (pivot_some hp).1) (pivot_some hp).2

theorem pivot_eq_some {s : LinSystem n l F} {i p : Fin n} (hip : i ≤ p) (hp : s.coeffs p i ≠ 0)
    (hzero : ∀ k, i ≤ k → k < p → s.coeffs k i = 0) : s.pivot i = some p := by
  refine List.find?_eq_some_iff_getElem.mpr ⟨by simpa using ⟨hip, hp⟩, p.val, by simp, by simp, ?_⟩
  intro k hk
  simp only [List.getElem_finRange, Bool.not_eq_true', decide_eq_false_iff_not, not_and, not_not]
  exact fun hik => hzero _ hik hk

omit [DecidableEq F] in
theorem rowEquiv_normalize {s : LinSystem n l F} {i p : Fin n} (hp : s.coeffs p i ≠ 0) :
    RowEquiv s (s.normalize p i) :=
  (rowEquiv_swapRows i p s).trans (rowEquiv_scaleRow i (inv_ne_zero hp) _)

theorem rowEquiv_step (s : LinSystem n l F) (i : Fin n) : RowEquiv s (s.step i) := by
  unfold step
  cases hp : s.pivot i with
  | none => exact .refl s
  | some p => exact (rowEquiv_normalize (pivot_some hp).2).trans (rowEquiv_foldl_clear i _ _)

theorem rowEquiv_foldl_step (is : List (Fin n)) :
    ∀ s : LinSystem n l F, RowEquiv s (is.foldl step s) := by
  induction is with
  | nil => intro s; exact .refl s
  | cons i is ih =>
    intro s
    exact (rowEquiv_step s i).trans (ih (s.step i))

/-- **Reduction** is one invertible row operation. -/
theorem reduce_rowEquiv (s : LinSystem n l F) : RowEquiv s s.reduce :=
  rowEquiv_foldl_step (List.finRange n) s

/-! ## Invertible coefficients -/

/-- The first `c` columns are those of the identity matrix. -/
def UnitColumns (c : Nat) (A : Matrix (Fin n) (Fin n) F) : Prop :=
  ∀ j : Fin n, j.val < c → ∀ k, A k j = if k = j then 1 else 0

/-- An invertible matrix with `i` unit columns has a pivot for the next one. -/
theorem UnitColumns.pivot_ne_none {s : LinSystem n l F} {i : Fin n} (h : UnitColumns i s.coeffs)
    (hs : IsUnit s.coeffs) : s.pivot i ≠ none := by
  intro hp
  obtain ⟨B, hB⟩ := hs.exists_left_inv
  -- row `i` of the inverse is 0 where column `i` is not
  have hrow : ∀ k : Fin n, k < i → B i k = 0 := by
    intro k hk
    have hik := congrFun (congrFun hB i) k
    rw [Matrix.mul_apply, Matrix.one_apply_ne (Ne.symm (ne_of_lt hk))] at hik
    rw [← hik, Finset.sum_eq_single k]
    · rw [h k hk k, if_pos rfl, mul_one]
    · intro m _ hm
      rw [h k hk m, if_neg hm, mul_zero]
    · intro hk
      exact absurd (Finset.mem_univ k) hk
  have hii := congrFun (congrFun hB i) i
  rw [Matrix.mul_apply, Matrix.one_apply_eq, Finset.sum_eq_zero] at hii
  · exact zero_ne_one hii
  · intro k _
    rcases lt_or_ge k i with hk | hk
    · rw [hrow k hk, zero_mul]
    · rw [pivot_none hp k hk, mul_zero]

omit [DecidableEq F] in
/-- Choosing the pivot row touches no unit column, and its entry becomes 1. -/
theorem UnitColumns.normalize {s : LinSystem n l F} {i p : Fin n} (h : UnitColumns i s.coeffs)
    (hip : i ≤ p) (hp : s.coeffs p i ≠ 0) :
    UnitColumns i (s.normalize p i).coeffs ∧ (s.normalize p i).coeffs i i = 1 := by
  constructor
  · intro j hj k
    have hji : j ≠ i := ne_of_lt hj
    have hjp : j ≠ p := ne_of_lt (lt_of_lt_of_le hj hip)
    have hswap : ∀ m, s.coeffs (Equiv.swap i p m) j = if m = j then 1 else 0 := by
      intro m
      have heq : Equiv.swap i p m = j ↔ m = j := by
        rw [Equiv.swap_apply_eq_iff, Equiv.swap_apply_of_ne_of_ne hji hjp]
      rw [h j hj, if_congr heq rfl rfl]
    show (Matrix.updateRow _ i _) k j = _
    rw [updateRow_apply]
    by_cases hki : k = i
    · rw [if_pos hki, Pi.smul_apply]
      show _ • s.coeffs (Equiv.swap i p i) j = _
      rw [hswap, hki, if_neg (Ne.symm hji), smul_zero]
    · rw [if_neg hki]
      exact hswap k
  · show (Matrix.updateRow _ i _) i i = _
    rw [updateRow_self, Pi.smul_apply]
    show _ • s.coeffs (Equiv.swap i p i) i = _
    rw [Equiv.swap_apply_left, smul_eq_mul, inv_mul_cancel₀ hp]

/-- One more column. -/
theorem UnitColumns.step {s : LinSystem n l F} {i : Fin n} (h : UnitColumns i s.coeffs)
    (hs : IsUnit s.coeffs) : UnitColumns (i + 1) (s.step i).coeffs := by
  unfold LinSystem.step
  cases hp : s.pivot i with
  | none => exact absurd hp (h.pivot_ne_none hs)
  | some p =>
    obtain ⟨hip, hpi⟩ := pivot_some hp
    obtain ⟨hunit, hone⟩ := h.normalize hip hpi
    intro j hj k
    dsimp only
    rcases lt_or_eq_of_le (Nat.le_of_lt_succ hj) with hlt | heq
    · have hz : (s.normalize p i).coeffs i j = 0 := by
        rw [hunit j hlt, if_neg (ne_of_gt (show j < i from hlt))]
      rw [foldl_clear_of_zero _ _ hz, hunit j hlt]
    · obtain rfl : j = i := Fin.ext heq
      by_cases hkj : k = j
      · rw [if_pos hkj, hkj, foldl_clear_pivotRow, hone]
      · rw [if_neg hkj]
        exact foldl_clear_column _ _ hone k hkj (Or.inl (List.mem_finRange k))

/-- The first `c` columns. -/
theorem unitColumns_foldl_step {s : LinSystem n l F} (hs : IsUnit s.coeffs) :
    ∀ c, c ≤ n → UnitColumns c (((List.finRange n).take c).foldl step s).coeffs := by
  intro c
  induction c with
  | zero =>
    intro _ j hj
    exact absurd hj (Nat.not_lt_zero _)
  | succ c ih =>
    intro hc
    have hlen : c < (List.finRange n).length := by
      rw [List.length_finRange]
      omega
    rw [List.take_succ_eq_append_getElem hlen, List.foldl_append, List.getElem_finRange]
    have hunit := (rowEquiv_foldl_step ((List.finRange n).take c) s).isUnit hs
    exact (ih (by omega)).step (i := ⟨c, by omega⟩) hunit

/-- **Invertible coefficients** are reduced to the identity. -/
theorem reduce_coeffs_eq_one {s : LinSystem n l F} (hs : IsUnit s.coeffs) :
    s.reduce.coeffs = 1 := by
  have h := unitColumns_foldl_step hs n (Nat.le_refl n)
  rw [List.take_of_length_le (Nat.le_of_eq (List.length_finRange ..))] at h
  ext k j
  rw [Matrix.one_apply]
  exact h j j.isLt k

end Rnet.Lib.RowReduction
