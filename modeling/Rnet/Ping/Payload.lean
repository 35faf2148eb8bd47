import Rnet.Lib.Loop
import Rnet.Ping.Gf

/-!
# Coded payloads: `rlnc/payload.rs`

`split` cuts a payload into chunks of five bytes, the last one padded with zeros.
`encode` is a linear combination of the chunks over GF(256); its random
coefficients are a parameter (`draws`). `gaussianElimination` reduces a square
system in place and `reconstruct` concatenates the reduced data rows. An index
out of range and the panic of `gf_inv` are `none`.

> `gaussianElimination_shape`: on `n` rows of at least `n` coefficients, with data
> rows of one length, the elimination does not panic and keeps the shape.
-/

namespace Rnet.Ping

/-- `DEFAULT_CHUNK_SIZE`. -/
def DEFAULT_CHUNK_SIZE : Nat := 5

/-- `EncodedPayload`. -/
structure EncodedPayload where
  coeffs : List UInt8
  payload : List UInt8
  id : String
  deriving DecidableEq, Repr

/-- A `Vec<Vec<u8>>`. -/
abbrev Rows := List (List UInt8)

/-! ## Splitting and encoding -/

/-- `payload.chunks(k)`. -/
def chunks (k : Nat) (payload : List UInt8) : Rows :=
  (List.range ((payload.length + (k - 1)) / k)).map fun i => (payload.drop (k * i)).take k

/-- `while p.len() < DEFAULT_CHUNK_SIZE { p.push(0) }`. -/
def pad (p : List UInt8) : List UInt8 := p ++ List.replicate (DEFAULT_CHUNK_SIZE - p.length) 0

/-- `EncodedPayload::split`. -/
def split (payload : List UInt8) : Rows := (chunks DEFAULT_CHUNK_SIZE payload).map pad

/-- The payload, followed by the zero padding that `split` adds. -/
def padded (payload : List UInt8) : List UInt8 :=
  payload ++ List.replicate (DEFAULT_CHUNK_SIZE * (split payload).length - payload.length) 0

/-- One round of the loop of `encode`: `acc + coeff * packet`. -/
def combine (coeff : UInt8) (packet acc : List UInt8) : List UInt8 :=
  List.zipWith (fun a x => gfAdd a (gfMul coeff x)) acc packet

/-- `EncodedPayload::encode`, with the random coefficients drawn as `draws 0`, `draws 1`, …;
a panic without packets, or when a packet is shorter than the first. -/
def encode (packets : Rows) (draws : Nat → UInt8) (id : String) : Option EncodedPayload :=
  match packets with
  | [] => none
  | first :: _ =>
    let n := packets.length
    let size := first.length
    if packets.any fun p => p.length < size then none
    else some {
      coeffs := (List.range n).map draws
      payload := packets.zipIdx.foldl (fun acc p => combine (draws p.2) p.1 acc)
        (List.replicate size 0)
      id := id }

/-! ## Elimination -/

/-- `build_linear_system`. -/
def buildLinearSystem (encoded_vec : List EncodedPayload) : Rows × Rows :=
  (encoded_vec.map (·.coeffs), encoded_vec.map (·.payload))

/-- `while pivot < n && matrix[pivot][i] == 0 { pivot += 1 }`, with `n - pivot` rounds left. -/
def findPivot (matrix : Rows) (i : Nat) : Nat → Nat → Option Nat
  | 0, pivot => some pivot
  | k + 1, pivot => do
    let row ← matrix[pivot]?
    let x ← row[i]?
    if x = 0 then findPivot matrix i k (pivot + 1) else some pivot

/-- `rows.swap(i, j)`. -/
def swap (rows : Rows) (i j : Nat) : Option Rows := do
  let a ← rows[i]?
  let b ← rows[j]?
  some ((rows.set i b).set j a)

/-- `for val in row.iter_mut().take(n) { *val = gf_mul(*val, inv) }`. -/
def scaleRow (n : Nat) (inv : UInt8) (row : List UInt8) : List UInt8 :=
  (row.take n).map (fun val => gfMul val inv) ++ row.drop n

/-- `for (val, &pivot) in row.iter_mut().zip(pivot_row.iter()).take(n)
{ *val ^= gf_mul(factor, pivot) }`. -/
def eliminateCoeffs (n : Nat) (factor : UInt8) (pivot_row row : List UInt8) : List UInt8 :=
  List.zipWith (fun val pivot => val ^^^ gfMul factor pivot) (row.take n) pivot_row
    ++ row.drop (min n pivot_row.length)

/-- `for j in 0..data[k].len() { data[k][j] ^= gf_mul(factor, data[i][j]) }`. -/
def eliminateData (factor : UInt8) (pivot_data d : List UInt8) : Option (List UInt8) :=
  if pivot_data.length < d.length then none
  else some (List.zipWith (fun val pivot => val ^^^ gfMul factor pivot) d pivot_data)

/-- The loop over `k`, one round. -/
def eliminateRow (n i : Nat) (pivot_row : List UInt8) (s : Rows × Rows) (k : Nat) :
    Option (Rows × Rows) :=
  if k = i then some s
  else do
    let row ← s.1[k]?
    let factor ← row[i]?
    let pivot_data ← s.2[i]?
    let d ← s.2[k]?
    let d' ← eliminateData factor pivot_data d
    some (s.1.set k (eliminateCoeffs n factor pivot_row row), s.2.set k d')

/-- The loop over `i`, one round. -/
def pivotStep (n : Nat) (s : Rows × Rows) (i : Nat) : Option (Rows × Rows) := do
  let pivot ← findPivot s.1 i (n - i) i
  if pivot = n then some s
  else
    let matrix ← swap s.1 i pivot
    let data ← swap s.2 i pivot
    let row ← matrix[i]?
    let inv ← row[i]?.bind gfInv
    let pivot_row := scaleRow n inv row
    let d ← data[i]?
    (List.range n).foldlM (eliminateRow n i pivot_row)
      (matrix.set i pivot_row, data.set i (d.map fun val => gfMul val inv))

/-- `gaussian_elimination`. -/
def gaussianElimination (matrix data : Rows) : Option (Rows × Rows) :=
  (List.range matrix.length).foldlM (pivotStep matrix.length) (matrix, data)

/-- `EncodedPayload::reconstruct`. -/
def reconstruct (data : Rows) : List UInt8 := data.flatten

/-! ## Lengths of what is encoded -/

theorem length_split (payload : List UInt8) :
    (split payload).length = (payload.length + 4) / 5 := by
  unfold split chunks DEFAULT_CHUNK_SIZE
  rw [List.length_map, List.length_map, List.length_range]

/-- The padded payload has five bytes per chunk. -/
theorem length_padded (payload : List UInt8) :
    (padded payload).length = 5 * (split payload).length := by
  unfold padded DEFAULT_CHUNK_SIZE
  rw [List.length_append, List.length_replicate, length_split]
  omega

/-- Every chunk is filled up. -/
theorem length_of_mem_split {payload p : List UInt8} (h : p ∈ split payload) : p.length = 5 := by
  unfold split chunks at h
  obtain ⟨c, hc, rfl⟩ := List.mem_map.mp h
  obtain ⟨i, -, rfl⟩ := List.mem_map.mp hc
  unfold pad DEFAULT_CHUNK_SIZE
  rw [List.length_append, List.length_replicate, List.length_take]
  omega

/-- The first `n` chunks, padded or not, are the first `5 n` bytes as far as they go. -/
theorem flatten_chunks_prefix (payload : List UInt8) :
    ∀ n, 5 * n ≤ payload.length + 4 →
      (((List.range n).map fun i => pad ((payload.drop (5 * i)).take 5)).flatten)
        = payload.take (5 * n) ++ List.replicate (5 * n - payload.length) 0 := by
  intro n
  induction n with
  | zero =>
    intro _
    rw [List.range_zero, Nat.mul_zero, List.take_zero, Nat.zero_sub]
    rfl
  | succ n ih =>
    intro hn
    rw [List.range_succ, List.map_append, List.flatten_append, ih (by omega)]
    rw [show 5 * n - payload.length = 0 by omega, List.replicate_zero, List.append_nil]
    simp only [List.map_cons, List.map_nil, List.flatten_singleton]
    unfold pad DEFAULT_CHUNK_SIZE
    rw [← List.append_assoc, Nat.mul_succ, List.take_add]
    congr 2
    rw [List.length_take, List.length_drop]
    omega

/-- **The chunks are the padded payload.** -/
theorem flatten_split (payload : List UInt8) : (split payload).flatten = padded payload := by
  have h := flatten_chunks_prefix payload ((payload.length + 4) / 5) (by omega)
  have htake : payload.take (5 * ((payload.length + 4) / 5)) = payload :=
    List.take_of_length_le (by omega)
  rw [htake, ← length_split] at h
  unfold padded DEFAULT_CHUNK_SIZE
  rw [← h]
  unfold split chunks DEFAULT_CHUNK_SIZE
  rw [List.map_map, List.length_map, List.length_range]
  rfl

theorem length_combine {coeff : UInt8} {packet acc : List UInt8}
    (h : acc.length ≤ packet.length) : (combine coeff packet acc).length = acc.length := by
  unfold combine
  rw [List.length_zipWith]
  omega

/-- A coded packet has one coefficient per chunk and a payload of the chunk size. -/
theorem encode_shape {packets : Rows} {draws : Nat → UInt8} {id : String} {p : EncodedPayload}
    {l : Nat} (hl : ∀ q ∈ packets, q.length = l) (h : encode packets draws id = some p) :
    p.coeffs.length = packets.length ∧ p.payload.length = l ∧ p.id = id := by
  cases packets with
  | nil => simp [encode] at h
  | cons first rest =>
    unfold encode at h
    dsimp only at h
    have hfirst := hl first (List.mem_cons_self ..)
    by_cases hshort : (first :: rest).any (fun p => p.length < first.length) = true
    · rw [if_pos hshort] at h
      simp at h
    · rw [if_neg hshort] at h
      rw [← Option.some.inj h]
      refine ⟨by rw [List.length_map, List.length_range], ?_, rfl⟩
      -- each round keeps the length of the accumulator
      have hfold : ∀ (ps : List (List UInt8 × Nat)) (acc : List UInt8), acc.length = l →
          (∀ q ∈ ps, q.1.length = l) →
          (ps.foldl (fun acc p => combine (draws p.2) p.1 acc) acc).length = l := by
        intro ps
        induction ps with
        | nil => intro acc hacc _; exact hacc
        | cons q ps ih =>
          intro acc hacc hps
          rw [List.foldl_cons]
          refine ih _ ?_ fun r hr => hps r (List.mem_cons_of_mem _ hr)
          rw [length_combine (Nat.le_of_eq (by rw [hps q (List.mem_cons_self ..), hacc])), hacc]
      refine hfold _ _ (by rw [List.length_replicate, hfirst]) fun q hq => ?_
      exact hl q.1 (List.fst_mem_of_mem_zipIdx hq)

/-! ## The shape of a system -/

/-- `n` equations in at least `n` unknowns, with `l` bytes of data each. -/
structure Shape (n l : Nat) (s : Rows × Rows) : Prop where
  rows : s.1.length = n
  data : s.2.length = n
  wide : ∀ r ∈ s.1, n ≤ r.length
  even : ∀ d ∈ s.2, d.length = l

theorem getElem?_of_lt {rows : Rows} {n k : Nat} (h : rows.length = n) (hk : k < n) :
    ∃ r, rows[k]? = some r ∧ r ∈ rows := by
  subst h
  exact ⟨rows[k], List.getElem?_eq_getElem hk, List.getElem_mem hk⟩

/-- Rows keep a property when one of them is replaced by a row that has it. -/
theorem forall_mem_set {rows : Rows} {P : List UInt8 → Prop} (h : ∀ r ∈ rows, P r) {r : List UInt8}
    (hr : P r) (k : Nat) : ∀ x ∈ rows.set k r, P x := by
  intro x hx
  rcases List.mem_or_eq_of_mem_set hx with hx | rfl
  · exact h x hx
  · exact hr

theorem Shape.set {n l : Nat} {s : Rows × Rows} (h : Shape n l s) {r d : List UInt8}
    (hr : n ≤ r.length) (hd : d.length = l) (k : Nat) :
    Shape n l (s.1.set k r, s.2.set k d) where
  rows := by rw [List.length_set]; exact h.rows
  data := by rw [List.length_set]; exact h.data
  wide := forall_mem_set h.wide hr k
  even := forall_mem_set h.even hd k

theorem length_scaleRow (n : Nat) (inv : UInt8) (row : List UInt8) :
    (scaleRow n inv row).length = row.length := by
  unfold scaleRow
  rw [List.length_append, List.length_map, List.length_take, List.length_drop]
  omega

theorem length_eliminateCoeffs {n : Nat} {factor : UInt8} {pivot_row row : List UInt8}
    (hp : n ≤ pivot_row.length) (hr : n ≤ row.length) :
    (eliminateCoeffs n factor pivot_row row).length = row.length := by
  unfold eliminateCoeffs
  rw [List.length_append, List.length_zipWith, List.length_take, List.length_drop]
  omega

/-- One round of the loop over `k`. -/
theorem eliminateRow_shape {n l i k : Nat} {pivot_row : List UInt8} {s : Rows × Rows}
    (h : Shape n l s) (hp : n ≤ pivot_row.length) (hi : i < n) (hk : k < n) :
    ∃ s', eliminateRow n i pivot_row s k = some s' ∧ Shape n l s' := by
  unfold eliminateRow
  by_cases hki : k = i
  · rw [if_pos hki]
    exact ⟨s, rfl, h⟩
  · rw [if_neg hki]
    obtain ⟨row, hrow, hrowm⟩ := getElem?_of_lt h.rows hk
    obtain ⟨pd, hpd, hpdm⟩ := getElem?_of_lt h.data hi
    obtain ⟨d, hd, hdm⟩ := getElem?_of_lt h.data hk
    have hwide := h.wide row hrowm
    have hpl := h.even pd hpdm
    have hdl := h.even d hdm
    rw [hrow, hpd, hd]
    simp only [Option.bind_eq_bind, Option.bind_some]
    rw [List.getElem?_eq_getElem (Nat.lt_of_lt_of_le hi hwide)]
    unfold eliminateData
    rw [Option.bind_some, if_neg (by omega), Option.bind_some]
    refine ⟨_, rfl, h.set ?_ ?_ k⟩
    · rw [length_eliminateCoeffs hp hwide]
      exact hwide
    · rw [List.length_zipWith]
      omega

/-- The search for a pivot stops at the end or at a row with an entry that is not 0. -/
theorem findPivot_spec {matrix : Rows} {n i : Nat} (hlen : matrix.length = n)
    (hwide : ∀ r ∈ matrix, n ≤ r.length) (hi : i < n) :
    ∀ k pivot, k + pivot = n → ∃ p, findPivot matrix i k pivot = some p ∧ p ≤ n ∧ pivot ≤ p ∧
      (p < n → ∃ row x, matrix[p]? = some row ∧ row[i]? = some x ∧ x ≠ 0) := by
  intro k
  induction k with
  | zero =>
    intro pivot hk
    exact ⟨pivot, rfl, by omega, Nat.le_refl _, fun hp => absurd hp (by omega)⟩
  | succ k ih =>
    intro pivot hk
    obtain ⟨row, hrow, hm⟩ := getElem?_of_lt hlen (show pivot < n by omega)
    have hwidth : i < row.length := Nat.lt_of_lt_of_le hi (hwide row hm)
    have hx := List.getElem?_eq_getElem hwidth
    unfold findPivot
    rw [hrow]
    simp only [Option.bind_eq_bind, Option.bind_some]
    rw [hx, Option.bind_some]
    by_cases h0 : row[i] = 0
    · rw [if_pos h0]
      obtain ⟨p, hp, hle, hge, hrest⟩ := ih (pivot + 1) (by omega)
      exact ⟨p, hp, hle, by omega, hrest⟩
    · rw [if_neg h0]
      exact ⟨pivot, rfl, by omega, Nat.le_refl _, fun _ => ⟨row, _, hrow, hx, h0⟩⟩

/-- Swapping two rows moves the second to the place of the first. -/
theorem swap_spec {rows : Rows} {n i j : Nat} (hlen : rows.length = n) (hi : i < n) (hj : j < n) :
    ∃ rows', swap rows i j = some rows' ∧ rows'.length = n ∧ rows'[i]? = rows[j]? ∧
      ∀ P : List UInt8 → Prop, (∀ r ∈ rows, P r) → ∀ r ∈ rows', P r := by
  obtain ⟨a, ha, ham⟩ := getElem?_of_lt hlen hi
  obtain ⟨b, hb, hbm⟩ := getElem?_of_lt hlen hj
  unfold swap
  rw [ha, hb]
  refine ⟨_, rfl, by rw [List.length_set, List.length_set, hlen], ?_, ?_⟩
  · rw [List.getElem?_set]
    by_cases hji : j = i
    · rw [if_pos hji, if_pos (by rw [List.length_set, hlen]; omega)]
      rw [← hji, hb] at ha
      exact ha.symm
    · rw [if_neg hji, List.getElem?_set_self (by omega)]
  · intro P hP
    exact forall_mem_set (forall_mem_set hP (hP b hbm) i) (hP a ham) j

/-- One round of the loop over `i`. -/
theorem pivotStep_shape {n l i : Nat} {s : Rows × Rows} (h : Shape n l s) (hi : i < n) :
    ∃ s', pivotStep n s i = some s' ∧ Shape n l s' := by
  obtain ⟨pivot, hpivot, hle, -, hrow⟩ := findPivot_spec h.rows h.wide hi (n - i) i (by omega)
  unfold pivotStep
  rw [hpivot]
  simp only [Option.bind_eq_bind, Option.bind_some]
  by_cases hn : pivot = n
  · rw [if_pos hn]
    exact ⟨s, rfl, h⟩
  · rw [if_neg hn]
    obtain ⟨row, x, hr, hx, hx0⟩ := hrow (by omega)
    obtain ⟨matrix, hm, hmlen, hmi, hmP⟩ := swap_spec h.rows hi (show pivot < n by omega)
    obtain ⟨data, hd, hdlen, -, hdP⟩ := swap_spec h.data hi (show pivot < n by omega)
    obtain ⟨inv, hinv, -⟩ := gfInv_isSome hx0
    obtain ⟨d, hdi, hdm⟩ := getElem?_of_lt hdlen hi
    rw [hm, hd]
    simp only [Option.bind_some]
    rw [hmi, hr, Option.bind_some, hx, Option.bind_some, hinv, Option.bind_some, hdi,
      Option.bind_some]
    have hwide : n ≤ (scaleRow n inv row).length := by
      rw [length_scaleRow]
      exact h.wide row (List.mem_of_getElem? hr)
    have hshape : Shape n l (matrix, data) := ⟨hmlen, hdlen, hmP _ h.wide, hdP _ h.even⟩
    refine Lib.foldlM_of_invariant (Shape n l) (fun t ht k hk => ?_) _
      (hshape.set hwide (by rw [List.length_map]; exact hdP _ h.even d hdm) i)
    exact eliminateRow_shape ht hwide hi (List.mem_range.mp hk)

/-- **The elimination** of a system of this shape does not panic and keeps the shape. -/
theorem gaussianElimination_shape {n l : Nat} {matrix data : Rows} (h : Shape n l (matrix, data)) :
    ∃ s, gaussianElimination matrix data = some s ∧ Shape n l s := by
  unfold gaussianElimination
  rw [show matrix.length = n from h.rows]
  exact Lib.foldlM_of_invariant (Shape n l)
    (fun t ht i hi => pivotStep_shape ht (List.mem_range.mp hi)) _ h

end Rnet.Ping
