import Rnet.Lib.RowReduction
import Rnet.Ping.Field
import Rnet.Ping.Payload

/-!
# `gaussian_elimination` is row reduction over GF(256)

On `n` rows of `n` coefficients and `n` data rows of one length the loops of
`gaussian_elimination` do what `LinSystem.reduce` does with the matrices that the
rows hold. The elimination of `examples/rlnc/src/main.rs` is the same text.

> `gaussianElimination_solves`: it finishes, keeps the solutions, and reduces an
> invertible matrix to the identity.
-/

namespace Rnet.Ping

open Lib.RowReduction

variable {n m l : Nat}

/-- A row of bytes. -/
def rowOf (v : Fin m → Gf256) : List UInt8 := List.ofFn fun j => (v j).val

/-- The rows of a matrix. -/
def rowsOf (A : Matrix (Fin n) (Fin m) Gf256) : Rows := List.ofFn fun i => rowOf (A i)

/-! ## Reading and writing rows -/

@[simp] theorem length_rowOf (v : Fin m → Gf256) : (rowOf v).length = m := List.length_ofFn

@[simp] theorem length_rowsOf (A : Matrix (Fin n) (Fin m) Gf256) : (rowsOf A).length = n :=
  List.length_ofFn

theorem getElem?_rowOf (v : Fin m → Gf256) (j : Fin m) : (rowOf v)[j.val]? = some (v j).val := by
  unfold rowOf
  rw [List.getElem?_ofFn, dif_pos j.isLt]

theorem getElem?_rowsOf (A : Matrix (Fin n) (Fin m) Gf256) (i : Fin n) :
    (rowsOf A)[i.val]? = some (rowOf (A i)) := by
  unfold rowsOf
  rw [List.getElem?_ofFn, dif_pos i.isLt]

/-- Lists of bytes with the entries of a vector are its row. -/
theorem eq_rowOf {r : List UInt8} {v : Fin m → Gf256} (hlen : r.length = m)
    (h : ∀ j : Fin m, r[j.val]? = some (v j).val) : r = rowOf v := by
  apply List.ext_getElem?
  intro j
  by_cases hj : j < m
  · rw [h ⟨j, hj⟩, getElem?_rowOf v ⟨j, hj⟩]
  · rw [List.getElem?_eq_none (by omega), List.getElem?_eq_none (by rw [length_rowOf]; omega)]

theorem set_rowsOf (A : Matrix (Fin n) (Fin m) Gf256) (k : Fin n) (v : Fin m → Gf256) :
    (rowsOf A).set k (rowOf v) = rowsOf (A.updateRow k v) := by
  apply List.ext_getElem?
  intro i
  by_cases hi : i < n
  · rw [getElem?_rowsOf _ ⟨i, hi⟩]
    by_cases hki : k = ⟨i, hi⟩
    · subst hki
      rw [List.getElem?_set_self (by rw [length_rowsOf]; exact hi), Matrix.updateRow_self]
    · rw [List.getElem?_set_ne (fun h => hki (Fin.ext h)), Matrix.updateRow_ne (Ne.symm hki),
        getElem?_rowsOf A ⟨i, hi⟩]
  · rw [List.getElem?_eq_none (by rw [List.length_set, length_rowsOf]; omega),
      List.getElem?_eq_none (by rw [length_rowsOf]; omega)]

theorem swap_rowsOf (A : Matrix (Fin n) (Fin m) Gf256) (i j : Fin n) :
    swap (rowsOf A) i j = some (rowsOf (A.submatrix (Equiv.swap i j) id)) := by
  unfold swap
  rw [getElem?_rowsOf, getElem?_rowsOf]
  simp only [Option.bind_eq_bind, Option.bind_some]
  rw [set_rowsOf, set_rowsOf]
  congr 2
  ext k c
  rw [Matrix.updateRow_apply, Matrix.updateRow_apply, Matrix.submatrix_apply, id,
    Equiv.swap_apply_def]
  by_cases hkj : k = j
  · by_cases hki : k = i
    · rw [if_pos hkj, if_pos hki, ← hki, hkj]
    · rw [if_pos hkj, if_neg hki, if_pos hkj]
  · by_cases hki : k = i
    · rw [if_neg hkj, if_pos hki, if_pos hki]
    · rw [if_neg hkj, if_neg hki, if_neg hki, if_neg hkj]

/-! ## The inner loops -/

theorem scaleRow_rowOf (c : Gf256) (v : Fin n → Gf256) :
    scaleRow n c.val (rowOf v) = rowOf (c • v) := by
  refine eq_rowOf (by rw [length_scaleRow, length_rowOf]) fun j => ?_
  unfold scaleRow
  rw [List.take_of_length_le (by rw [length_rowOf]), List.getElem?_append_left (by simp),
    List.getElem?_map, getElem?_rowOf, Option.map_some, Pi.smul_apply, smul_eq_mul, Gf256.val_mul,
    gfMul_comm]

theorem scaleData_rowOf (c : Gf256) (v : Fin l → Gf256) :
    (rowOf v).map (fun val => gfMul val c.val) = rowOf (c • v) := by
  refine eq_rowOf (by rw [List.length_map, length_rowOf]) fun j => ?_
  rw [List.getElem?_map, getElem?_rowOf, Option.map_some, Pi.smul_apply, smul_eq_mul, Gf256.val_mul,
    gfMul_comm]

/-- `row -= factor * pivot_row` is written as an addition of the negative multiple. -/
theorem zipWith_rowOf (f : Gf256) (u v : Fin m → Gf256) :
    List.zipWith (fun val pivot => val ^^^ gfMul f.val pivot) (rowOf v) (rowOf u)
      = rowOf (v + -f • u) := by
  refine eq_rowOf (by rw [List.length_zipWith, length_rowOf, length_rowOf, Nat.min_self])
    fun j => ?_
  rw [List.getElem?_zipWith, getElem?_rowOf, getElem?_rowOf]
  rfl

theorem eliminateCoeffs_rowOf (f : Gf256) (u v : Fin n → Gf256) :
    eliminateCoeffs n f.val (rowOf u) (rowOf v) = rowOf (v + -f • u) := by
  unfold eliminateCoeffs
  rw [List.take_of_length_le (by rw [length_rowOf]), length_rowOf, Nat.min_self,
    List.drop_of_length_le (by rw [length_rowOf]), List.append_nil, zipWith_rowOf]

theorem eliminateData_rowOf (f : Gf256) (u v : Fin l → Gf256) :
    eliminateData f.val (rowOf u) (rowOf v) = some (rowOf (v + -f • u)) := by
  unfold eliminateData
  rw [if_neg (by rw [length_rowOf, length_rowOf]; omega), zipWith_rowOf]

/-- The search stops at the first row whose entry is not 0. -/
theorem findPivot_rowsOf (A : Matrix (Fin n) (Fin n) Gf256) (i : Fin n) :
    ∀ k p, k + p = n → ∃ q, findPivot (rowsOf A) i k p = some q ∧ p ≤ q ∧ q ≤ n ∧
      (∀ r : Fin n, p ≤ r → r < q → A r i = 0) ∧ ∀ r : Fin n, r.val = q → A r i ≠ 0 := by
  intro k
  induction k with
  | zero =>
    intro p hp
    refine ⟨p, rfl, Nat.le_refl _, by omega, fun r hr hr' => ?_, fun r hr => ?_⟩
    · omega
    · have := r.isLt
      omega
  | succ k ih =>
    intro p hp
    have hpn : p < n := by omega
    unfold findPivot
    rw [getElem?_rowsOf A ⟨p, hpn⟩]
    simp only [Option.bind_eq_bind, Option.bind_some]
    rw [getElem?_rowOf, Option.bind_some]
    by_cases h0 : (A ⟨p, hpn⟩ i).val = 0
    · rw [if_pos h0]
      obtain ⟨q, hq, hle, hn, hzero, hne⟩ := ih (p + 1) (by omega)
      refine ⟨q, hq, by omega, hn, fun r hr hrq => ?_, hne⟩
      by_cases hrp : r.val = p
      · obtain rfl : r = ⟨p, hpn⟩ := Fin.ext hrp
        exact Gf256.val_eq_zero.mp h0
      · exact hzero r (by omega) hrq
    · rw [if_neg h0]
      refine ⟨p, rfl, Nat.le_refl _, by omega, fun r hr hr' => by omega, fun r hr => ?_⟩
      obtain rfl : r = ⟨p, hpn⟩ := Fin.ext hr
      exact fun h => h0 (Gf256.val_eq_zero.mpr h)

/-! ## The outer loop -/

/-- The rows that a system of equations is given by. -/
def systemRows (s : LinSystem n l Gf256) : Rows × Rows := (rowsOf s.coeffs, rowsOf s.rhs)

/-- One round of the loop over `k`. -/
theorem eliminateRow_rows (i : Fin n) (s : LinSystem n l Gf256) (k : Fin n) :
    eliminateRow n i (rowOf (s.coeffs i)) (systemRows s) k
      = some (systemRows (s.clear i k)) := by
  unfold eliminateRow LinSystem.clear
  by_cases hki : k = i
  · rw [if_pos hki, if_pos (congrArg Fin.val hki)]
  · rw [if_neg hki, if_neg fun h => hki (Fin.ext h)]
    unfold systemRows LinSystem.addRow
    dsimp only
    rw [getElem?_rowsOf, getElem?_rowsOf, getElem?_rowsOf]
    simp only [Option.bind_eq_bind, Option.bind_some]
    rw [getElem?_rowOf, Option.bind_some, eliminateData_rowOf, Option.bind_some,
      eliminateCoeffs_rowOf, set_rowsOf, set_rowsOf]

/-- The loop over `k`, which leaves the pivot row as it is. -/
theorem eliminateRows_rows (i : Fin n) (s : LinSystem n l Gf256) :
    (List.range n).foldlM (eliminateRow n i (rowOf (s.coeffs i))) (systemRows s)
      = some (systemRows ((List.finRange n).foldl (LinSystem.clear i) s)) := by
  refine Lib.foldlM_range_eq systemRows (fun t => t.coeffs i = s.coeffs i) (fun t k ht => ?_) s rfl
  have hrow := (clear_pivotRow i t k).1
  rw [← ht]
  exact ⟨eliminateRow_rows i t k, hrow⟩

/-- One round of the loop over `i`. -/
theorem pivotStep_rows (s : LinSystem n l Gf256) (i : Fin n) :
    pivotStep n (systemRows s) i = some (systemRows (s.step i)) := by
  obtain ⟨q, hq, hiq, hqn, hzero, hne⟩ := findPivot_rowsOf s.coeffs i (n - i) i (by omega)
  unfold pivotStep systemRows
  dsimp only
  rw [hq]
  simp only [Option.bind_eq_bind, Option.bind_some]
  by_cases hn : q = n
  · have hp : s.pivot i = none := pivot_eq_none fun k hk => hzero k hk (by omega)
    rw [if_pos hn]
    unfold LinSystem.step
    rw [hp]
  · have hlt : q < n := by omega
    have hp : s.pivot i = some ⟨q, hlt⟩ :=
      pivot_eq_some hiq (hne ⟨q, hlt⟩ rfl) fun k hk hkq => hzero k hk hkq
    rw [if_neg hn]
    unfold LinSystem.step
    rw [hp]
    have hcoeffs := swap_rowsOf s.coeffs i ⟨q, hlt⟩
    have hrhs := swap_rowsOf s.rhs i ⟨q, hlt⟩
    dsimp only at hcoeffs hrhs ⊢
    rw [hcoeffs, hrhs]
    simp only [Option.bind_some]
    rw [getElem?_rowsOf, getElem?_rowsOf]
    simp only [Option.bind_some]
    rw [getElem?_rowOf, Option.bind_some]
    have hpivot : s.coeffs.submatrix (Equiv.swap i ⟨q, hlt⟩) id i i = s.coeffs ⟨q, hlt⟩ i := by
      rw [Matrix.submatrix_apply, Equiv.swap_apply_left]
      rfl
    rw [hpivot, Gf256.gfInv_val (hne ⟨q, hlt⟩ rfl)]
    simp only [Option.bind_some]
    rw [scaleRow_rowOf, scaleData_rowOf, set_rowsOf, set_rowsOf]
    have hrow : (s.normalize ⟨q, hlt⟩ i).coeffs i
        = (s.coeffs ⟨q, hlt⟩ i)⁻¹ • s.coeffs.submatrix (Equiv.swap i ⟨q, hlt⟩) id i :=
      Matrix.updateRow_self
    have hloop := eliminateRows_rows i (s.normalize ⟨q, hlt⟩ i)
    rw [hrow] at hloop
    exact hloop

/-- **The elimination is row reduction.** -/
theorem gaussianElimination_rows (s : LinSystem n l Gf256) :
    gaussianElimination (rowsOf s.coeffs) (rowsOf s.rhs) = some (systemRows s.reduce) := by
  unfold gaussianElimination
  rw [length_rowsOf]
  exact Lib.foldlM_range_eq systemRows (fun _ => True)
    (fun t i _ => ⟨pivotStep_rows t i, trivial⟩) s trivial

/-- **`gaussian_elimination`** of any square system finishes without a panic, keeps the
solutions, and reduces an invertible matrix to the identity. -/
theorem gaussianElimination_solves (C : Matrix (Fin n) (Fin n) Gf256)
    (E : Matrix (Fin n) (Fin l) Gf256) :
    ∃ (C' : Matrix (Fin n) (Fin n) Gf256) (E' : Matrix (Fin n) (Fin l) Gf256),
      gaussianElimination (rowsOf C) (rowsOf E) = some (rowsOf C', rowsOf E') ∧
      (∀ P : Matrix (Fin n) (Fin l) Gf256, C * P = E ↔ C' * P = E') ∧
      (IsUnit C → C' = 1) :=
  ⟨_, _, gaussianElimination_rows ⟨C, E⟩, (reduce_rowEquiv ⟨C, E⟩).solutions,
    fun hC => reduce_coeffs_eq_one (s := ⟨C, E⟩) hC⟩

end Rnet.Ping
