import Rnet.Ping.Elimination

/-!
# Decoding undoes encoding

A packet's payload is its coefficient vector times the matrix of the chunks, so the
chunks solve the system that `n` packets give. With independent coefficient vectors
the elimination leaves the identity on the left and the chunks on the right.

> `decode_of_independent`: the payload and its padding come out.
-/

namespace Rnet.Ping

open Lib.RowReduction

variable {n m l : Nat}

/-- The coefficients of a packet as a vector. -/
def coeffVector (n : Nat) (p : EncodedPayload) : Fin n → Gf256 := fun i => ⟨p.coeffs.getD i 0⟩

/-- The coefficient vectors of the packets, one a row. -/
def coeffMatrix (n : Nat) (ps : List EncodedPayload) : Matrix (Fin ps.length) (Fin n) Gf256 :=
  fun k => coeffVector n (ps.get k)

/-- The coefficient vectors of the packets are linearly independent. -/
def Independent (n : Nat) (ps : List EncodedPayload) : Prop :=
  LinearIndependent Gf256 (coeffMatrix n ps).row

/-! ## Encoding as a product -/

/-- Rows of one length are the rows of a matrix. -/
theorem exists_rowsOf {rows : Rows} (hlen : rows.length = n) (hrow : ∀ r ∈ rows, r.length = m) :
    ∃ A : Matrix (Fin n) (Fin m) Gf256, rows = rowsOf A := by
  refine ⟨.of fun i j => ⟨(rows.getD i []).getD j 0⟩, List.ext_getElem? fun i => ?_⟩
  by_cases hi : i < n
  · obtain ⟨r, hr, hmem⟩ := getElem?_of_lt hlen hi
    rw [getElem?_rowsOf _ ⟨i, hi⟩, hr]
    congr 1
    refine eq_rowOf (hrow r hmem) fun j => ?_
    rw [Matrix.of_apply, List.getD_eq_getElem?_getD, List.getD_eq_getElem?_getD, hr,
      Option.getD_some, List.getElem?_eq_getElem (by rw [hrow r hmem]; exact j.isLt),
      Option.getD_some]
  · rw [List.getElem?_eq_none (by omega), List.getElem?_eq_none (by rw [length_rowsOf]; omega)]

theorem combine_rowOf (f : Gf256) (u v : Fin l → Gf256) :
    combine f.val (rowOf u) (rowOf v) = rowOf (v + f • u) := by
  unfold combine
  refine eq_rowOf (by rw [List.length_zipWith, length_rowOf, length_rowOf, Nat.min_self])
    fun j => ?_
  rw [List.getElem?_zipWith, getElem?_rowOf, getElem?_rowOf]
  rfl

theorem zipIdx_rowsOf (A : Matrix (Fin n) (Fin m) Gf256) :
    (rowsOf A).zipIdx = (List.finRange n).map fun i => (rowOf (A i), i.val) := by
  apply List.ext_getElem?
  intro i
  rw [List.getElem?_zipIdx, List.getElem?_map]
  by_cases hi : i < n
  · rw [getElem?_rowsOf A ⟨i, hi⟩, List.getElem?_eq_getElem (by simpa using hi),
      List.getElem_finRange]
    simp
  · rw [List.getElem?_eq_none (by rw [length_rowsOf]; omega),
      List.getElem?_eq_none (by rw [List.length_finRange]; omega)]
    rfl

/-- The loop of `encode` over some of the packets. -/
theorem foldl_combine (S : Matrix (Fin n) (Fin l) Gf256) (draws : Nat → UInt8)
    (is : List (Fin n)) : ∀ v : Fin l → Gf256,
      is.foldl (fun acc (i : Fin n) => combine (draws i) (rowOf (S i)) acc) (rowOf v)
        = rowOf (v + (is.map fun i : Fin n => (⟨draws i⟩ : Gf256) • S i).sum) := by
  induction is with
  | nil =>
    intro v
    rw [List.foldl_nil, List.map_nil, List.sum_nil, add_zero]
  | cons i is ih =>
    intro v
    rw [List.foldl_cons, show draws i = (⟨draws i⟩ : Gf256).val from rfl, combine_rowOf, ih,
      List.map_cons, List.sum_cons, add_assoc]

/-- **A coded packet** carries its coefficients times the chunks. -/
theorem encode_rowsOf {S : Matrix (Fin n) (Fin l) Gf256} {draws : Nat → UInt8} {id : String}
    {p : EncodedPayload} (h : encode (rowsOf S) draws id = some p) :
    p.coeffs = rowOf (coeffVector n p) ∧ p.payload = rowOf (Matrix.vecMul (coeffVector n p) S) := by
  cases n with
  | zero => simp [encode, rowsOf] at h
  | succ n =>
    obtain ⟨rest, hrest⟩ : ∃ rest, rowsOf S = rowOf (S 0) :: rest :=
      ⟨_, by unfold rowsOf; rw [List.ofFn_succ]⟩
    unfold encode at h
    rw [hrest] at h
    dsimp only at h
    rw [← hrest] at h
    by_cases hshort : (rowsOf S).any (fun p => p.length < (rowOf (S 0)).length) = true
    · rw [if_pos hshort] at h
      simp at h
    · rw [if_neg hshort, length_rowsOf, length_rowOf, zipIdx_rowsOf, List.foldl_map] at h
      have hzero : List.replicate l 0 = rowOf (0 : Fin l → Gf256) := by
        refine eq_rowOf List.length_replicate fun j => ?_
        rw [List.getElem?_replicate, if_pos j.isLt]
        rfl
      have hcoeffs : (List.range (n + 1)).map draws
          = rowOf fun i : Fin (n + 1) => (⟨draws i⟩ : Gf256) := by
        refine eq_rowOf (by rw [List.length_map, List.length_range]) fun j => ?_
        rw [List.getElem?_map, List.getElem?_range j.isLt]
        rfl
      rw [hcoeffs, hzero, foldl_combine, zero_add] at h
      obtain rfl := Option.some.inj h
      have hvec : ∀ payload, coeffVector (n + 1)
          ⟨rowOf fun i : Fin (n + 1) => (⟨draws i⟩ : Gf256), payload, id⟩
            = fun i => ⟨draws i⟩ := by
        intro payload
        funext i
        unfold coeffVector
        rw [List.getD_eq_getElem?_getD, getElem?_rowOf]
        rfl
      rw [hvec, Matrix.vecMul_eq_sum, Fin.sum_univ_def]
      exact ⟨rfl, rfl⟩

/-! ## Decoding -/

/-- The padding is less than a chunk. -/
theorem length_padding (payload : List UInt8) :
    payload.length ≤ 5 * (split payload).length ∧
      5 * (split payload).length - payload.length < 5 := by
  rw [length_split]
  omega

/-- The system that packets of one matrix of chunks give. -/
theorem buildLinearSystem_rowsOf {ps : List EncodedPayload} {S : Matrix (Fin n) (Fin l) Gf256}
    (henc : ∀ p ∈ ps, ∃ draws id, encode (rowsOf S) draws id = some p) :
    buildLinearSystem ps = (rowsOf (coeffMatrix n ps), rowsOf (coeffMatrix n ps * S)) := by
  have hrows : ∀ {m : Nat} (f : EncodedPayload → List UInt8)
      (A : Matrix (Fin ps.length) (Fin m) Gf256),
      (∀ k : Fin ps.length, f (ps.get k) = rowOf (A k)) → ps.map f = rowsOf A := by
    intro m f A hf
    apply List.ext_getElem?
    intro k
    by_cases hk : k < ps.length
    · rw [List.getElem?_map, List.getElem?_eq_getElem hk, Option.map_some,
        getElem?_rowsOf A ⟨k, hk⟩, ← hf]
      rfl
    · rw [List.getElem?_eq_none (by rw [List.length_map]; omega),
        List.getElem?_eq_none (by rw [length_rowsOf]; omega)]
  have hpacket : ∀ k : Fin ps.length, (ps.get k).coeffs = rowOf (coeffMatrix n ps k) ∧
      (ps.get k).payload = rowOf ((coeffMatrix n ps * S) k) := by
    intro k
    obtain ⟨draws, id, h⟩ := henc _ (List.get_mem ps k)
    exact encode_rowsOf h
  unfold buildLinearSystem
  rw [hrows _ (coeffMatrix n ps) fun k => (hpacket k).1,
    hrows _ (coeffMatrix n ps * S) fun k => (hpacket k).2]

/-- **Decoding undoes encoding**, for every payload and every `n` packets, in any order,
whose coefficient vectors are independent. -/
theorem decode_of_independent (payload : List UInt8) (ps : List EncodedPayload)
    (hlen : ps.length = (split payload).length)
    (henc : ∀ p ∈ ps, ∃ draws id, encode (split payload) draws id = some p)
    (hind : Independent (split payload).length ps) :
    (∃ matrix data, gaussianElimination (buildLinearSystem ps).1 (buildLinearSystem ps).2
        = some (matrix, data) ∧
      reconstruct data
        = payload ++ List.replicate (5 * (split payload).length - payload.length) 0) ∧
      payload.length ≤ 5 * (split payload).length ∧
      5 * (split payload).length - payload.length < 5 := by
  refine ⟨?_, length_padding payload⟩
  obtain ⟨S, hS⟩ := exists_rowsOf (m := 5) hlen.symm fun r hr => length_of_mem_split hr
  rw [← hlen] at hind
  rw [hS] at henc
  obtain ⟨C', E', helim, hsol, hone⟩ :=
    gaussianElimination_solves (coeffMatrix ps.length ps) (coeffMatrix ps.length ps * S)
  rw [hone (Matrix.linearIndependent_rows_iff_isUnit.mp hind)] at hsol helim
  -- the chunks solve the system, and the reduced system names its only solution
  have hE : S = E' := by
    have := (hsol S).mp rfl
    rwa [Matrix.one_mul] at this
  rw [buildLinearSystem_rowsOf henc]
  refine ⟨_, _, helim, ?_⟩
  unfold reconstruct
  rw [← hE, ← hS, flatten_split]
  rfl

/-- Two packets of a payload of two chunks. The first has no coefficient for the first chunk,
so the elimination swaps. -/
def swapped : List EncodedPayload :=
  [⟨[0, 1], [6, 0, 0, 0, 0], "ping"⟩, ⟨[1, 1], [7, 2, 3, 4, 5], "ping"⟩]

theorem swapped_independent : Independent 2 swapped := by
  unfold Independent
  refine (Matrix.linearIndependent_rows_iff_isUnit (m := Fin 2)).mpr ?_
  refine IsUnit.of_mul_eq_one (!![1, 1; 1, 0] : Matrix (Fin 2) (Fin 2) Gf256) ?_
  decide +kernel

theorem decode_of_independent_swapped : ∃ matrix data,
    gaussianElimination (buildLinearSystem swapped).1 (buildLinearSystem swapped).2
      = some (matrix, data) ∧ reconstruct data = [1, 2, 3, 4, 5, 6] ++ List.replicate 4 0 :=
  (decode_of_independent [1, 2, 3, 4, 5, 6] swapped rfl (by
    intro p hp
    rcases List.mem_cons.mp hp with rfl | hp
    · exact ⟨fun i => if i = 1 then 1 else 0, "ping", by decide +kernel⟩
    · rw [List.mem_singleton.mp hp]
      exact ⟨fun _ => 1, "ping", by decide +kernel⟩) swapped_independent).1

end Rnet.Ping
