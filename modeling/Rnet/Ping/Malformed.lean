import Rnet.Ping.Field
import Rnet.Ping.Isolation

/-!
# Packets of any shape

The number of rows of the system is the number of cached packets, the columns and the
data come from each packet. An index is out of range when a packet that is cached has
fewer coefficients than there are rows, or a payload of another length than the pivot
row's; the coefficient count of a packet without coefficients underflows. Which bytes
run into an index depends on the pivots, so the condition is one on the lengths.

> `safe_iff_fits`: packets of given ids and lengths are handled without a panic,
> whatever bytes they carry, if and only if the lengths fit.
-/

namespace Rnet.Ping

open Lib PingRLNC

/-- The id of a packet and its lengths. -/
def shapeOf (p : EncodedPayload) : String × Nat × Nat := (p.id, p.coeffs.length, p.payload.length)

/-- No call panics, and no call changes what is cached for another id. -/
def Safe (ps : List EncodedPayload) : Prop :=
  ∀ pre p post, ps = pre ++ p :: post → ((after pre).handleIncoming p).2 ≠ .panicked ∧
    ∀ id, id ≠ p.id →
      ((after pre).handleIncoming p).1.cache.lookup id = (after pre).cache.lookup id

/-- Of the packets of one id none has brought their number to its own coefficient count. -/
def Open (pre : List EncodedPayload) : Prop :=
  ∀ before p after, pre = before ++ p :: after → before ≠ [] →
    p.coeffs.length ≠ before.length + 1

/-- The packets of one id: as long as they are open, those after the first have coefficients,
and when one closes them those before have a coefficient per row and payloads of one length. -/
def Fits (xs : List EncodedPayload) : Prop :=
  ∀ pre p post, xs = pre ++ p :: post → pre ≠ [] → Open pre →
    p.coeffs ≠ [] ∧ (p.coeffs.length = pre.length + 1 →
      ∃ l, ∀ q ∈ pre, pre.length ≤ q.coeffs.length ∧ q.payload.length = l)

/-! ## One id at a time -/

/-- The engine's part for an id after the packets of the id. -/
def viewAfter (xs : List EncodedPayload) : IdView :=
  xs.foldl (fun v p => (respond v p).1) { seen := false, cached := none }

theorem viewAfter_concat (xs : List EncodedPayload) (p : EncodedPayload) :
    viewAfter (xs ++ [p]) = (respond (viewAfter xs) p).1 := by
  unfold viewAfter
  rw [List.foldl_append]
  rfl

/-- No call for the id panics. -/
def SafeFor (xs : List EncodedPayload) : Prop :=
  ∀ pre p post, xs = pre ++ p :: post → (respond (viewAfter pre) p).2 ≠ .panicked

theorem outcome_eq_respond (pre : List EncodedPayload) (p : EncodedPayload) :
    ((after pre).handleIncoming p).2 = (respond (viewAfter (pre.filter (·.id = p.id))) p).2 := by
  have hview := keyed_isolated.view_after p.id pre {}
  have hown := congrArg Prod.snd (keyed_isolated.own (after pre) p)
  rw [show keyed.key p = p.id from rfl, ← keyed_after pre, hview] at hown
  exact hown

/-- **Safety is the safety of every id.** -/
theorem safe_iff_safeFor (ps : List EncodedPayload) :
    Safe ps ↔ ∀ x, SafeFor (ps.filter (·.id = x)) := by
  constructor
  · intro h x pre p post hsplit
    obtain ⟨before, rest, rfl, hpre, hrest⟩ := List.filter_eq_append_iff.mp hsplit
    obtain ⟨skip, after', rfl, hskip, hp, -⟩ := List.filter_eq_cons_iff.mp hrest
    have hid : p.id = x := by simpa using hp
    have hfilter : (before ++ skip).filter (·.id = p.id) = pre := by
      rw [List.filter_append, hid, hpre, List.filter_eq_nil_iff.mpr hskip, List.append_nil]
    have hsafe := (h (before ++ skip) p after' (by rw [List.append_assoc])).1
    rw [outcome_eq_respond, hfilter] at hsafe
    exact hsafe
  · intro h pre p post hsplit
    refine ⟨?_, fun id hid => ((after pre).handleIncoming_handled p).other (Ne.symm hid) |>.2⟩
    rw [outcome_eq_respond]
    refine h p.id _ p (post.filter (·.id = p.id)) ?_
    rw [hsplit, List.filter_append, List.filter_cons_of_pos (by simp)]

/-- Open packets, of which those after the first have coefficients. -/
structure Live (xs : List EncodedPayload) : Prop where
  isOpen : Open xs
  coeffs : ∀ pre p post, xs = pre ++ p :: post → pre ≠ [] → p.coeffs ≠ []

theorem Live.of_concat {xs : List EncodedPayload} {p : EncodedPayload} (h : Live (xs ++ [p])) :
    Live xs := by
  have hsplit : ∀ {before after : List EncodedPayload} {q : EncodedPayload},
      xs = before ++ q :: after → xs ++ [p] = before ++ q :: (after ++ [p]) := by
    intro before after q hq
    rw [hq, List.append_assoc]
    rfl
  exact ⟨fun before q after hq => h.isOpen before q _ (hsplit hq),
    fun before q after hq => h.coeffs before q _ (hsplit hq)⟩

theorem Live.concat {xs : List EncodedPayload} {p : EncodedPayload} (h : Live xs)
    (hp : xs ≠ [] → p.coeffs ≠ [] ∧ p.coeffs.length ≠ xs.length + 1) : Live (xs ++ [p]) := by
  have hsplit : ∀ {before after : List EncodedPayload} {q : EncodedPayload},
      xs ++ [p] = before ++ q :: after →
        (before = xs ∧ q = p) ∨ ∃ rest, xs = before ++ q :: rest := by
    intro before after q hq
    rcases List.eq_nil_or_concat after with rfl | ⟨rest, z, rfl⟩
    · obtain ⟨h₁, h₂⟩ := List.append_inj' hq rfl
      exact Or.inl ⟨h₁.symm, (List.singleton_inj.mp h₂).symm⟩
    · rw [List.concat_eq_append, ← List.cons_append, ← List.append_assoc] at hq
      exact Or.inr ⟨rest, (List.append_inj' hq rfl).1⟩
  constructor
  · intro before q after hq hne
    rcases hsplit hq with ⟨rfl, rfl⟩ | ⟨rest, hrest⟩
    · exact (hp hne).2
    · exact h.isOpen before q rest hrest hne
  · intro before q after hq hne
    rcases hsplit hq with ⟨rfl, rfl⟩ | ⟨rest, hrest⟩
    · exact (hp hne).1
    · exact h.coeffs before q rest hrest hne

/-- Live packets are all cached. -/
theorem Live.viewAfter {xs : List EncodedPayload} (h : Live xs) (hne : xs ≠ []) :
    viewAfter xs = { seen := false, cached := some xs } := by
  induction xs using List.reverseRec with
  | nil => exact absurd rfl hne
  | append_singleton xs p ih =>
    rw [viewAfter_concat]
    by_cases hxs : xs = []
    · subst hxs
      rfl
    · have h0 : p.coeffs.length ≠ 0 :=
        fun h0 => h.coeffs xs p [] rfl hxs (List.length_eq_zero_iff.mp h0)
      have hn : xs.length ≠ p.coeffs.length - 1 := by
        have := h.isOpen xs p [] rfl hxs
        omega
      rw [ih h.of_concat hxs]
      unfold respond
      rw [if_neg (by simp)]
      dsimp only
      rw [if_neg h0, if_neg hn]

/-- What the next call does to packets that are all cached. -/
theorem respond_of_cached {xs : List EncodedPayload} (p : EncodedPayload) :
    (respond { seen := false, cached := some xs } p).2 = .panicked ↔
      p.coeffs = [] ∨ p.coeffs.length = xs.length + 1 ∧ PingRLNC.reconstruct xs = none := by
  unfold respond
  rw [if_neg (by simp)]
  dsimp only
  by_cases h0 : p.coeffs.length = 0
  · rw [if_pos h0]
    exact ⟨fun _ => Or.inl (List.length_eq_zero_iff.mp h0), fun _ => rfl⟩
  rw [if_neg h0]
  have hne : p.coeffs ≠ [] := fun h => h0 (List.length_eq_zero_iff.mpr h)
  by_cases hn : xs.length = p.coeffs.length - 1
  · rw [if_pos hn]
    have hlen : p.coeffs.length = xs.length + 1 := by omega
    cases hr : PingRLNC.reconstruct xs with
    | none => exact ⟨fun _ => Or.inr ⟨hlen, rfl⟩, fun _ => rfl⟩
    | some r => simp [hne]
  · rw [if_neg hn]
    have hlen : p.coeffs.length ≠ xs.length + 1 := by omega
    simp [hne, hlen]

/-- A packet that closes the set and is solved leaves its id seen. -/
theorem respond_solved {xs : List EncodedPayload} {p : EncodedPayload}
    (hn : p.coeffs.length = xs.length + 1) (hr : PingRLNC.reconstruct xs ≠ none) :
    (respond { seen := false, cached := some xs } p).1.seen = true := by
  unfold respond
  rw [if_neg (by simp)]
  dsimp only
  rw [if_neg (by omega), if_pos (by omega)]
  obtain ⟨r, hr⟩ := Option.ne_none_iff_exists'.mp hr
  rw [hr]

/-- What fits is live until its id is seen. -/
theorem Fits.live_or_seen {xs : List EncodedPayload} (h : Fits xs) :
    ∀ pre post, xs = pre ++ post → Live pre ∨ (viewAfter pre).seen = true := by
  intro pre
  induction pre using List.reverseRec with
  | nil =>
    intro post _
    exact Or.inl ⟨fun before p after hq => absurd hq (by simp),
      fun before p after hq => absurd hq (by simp)⟩
  | append_singleton pre p ih =>
    intro post hsplit
    rw [List.append_assoc, List.singleton_append] at hsplit
    rw [viewAfter_concat]
    rcases ih _ hsplit with hlive | hseen
    · by_cases hp : pre ≠ [] → p.coeffs ≠ [] ∧ p.coeffs.length ≠ pre.length + 1
      · exact Or.inl (hlive.concat hp)
      · obtain ⟨hne, hclose⟩ := not_forall.mp hp
        obtain ⟨hcoeffs, hshape⟩ := h pre p post hsplit hne hlive.isOpen
        have hlen : p.coeffs.length = pre.length + 1 := by
          by_contra hlen
          exact hclose ⟨hcoeffs, hlen⟩
        obtain ⟨l, hl⟩ := hshape hlen
        rw [hlive.viewAfter hne]
        exact Or.inr (respond_solved hlen
          (reconstruct_ne_none (fun q hq => (hl q hq).1) fun q hq => (hl q hq).2))
    · refine Or.inr ?_
      unfold respond
      rw [if_pos hseen]
      exact hseen

/-- **What fits is safe**, whatever the bytes are. -/
theorem Fits.safeFor {xs : List EncodedPayload} (h : Fits xs) : SafeFor xs := by
  intro pre p post hsplit
  rcases h.live_or_seen pre _ hsplit with hlive | hseen
  · by_cases hne : pre = []
    · subst hne
      show (respond { seen := false, cached := none } p).2 ≠ _
      unfold respond
      simp
    · obtain ⟨hcoeffs, hshape⟩ := h pre p post hsplit hne hlive.isOpen
      rw [hlive.viewAfter hne, Ne, respond_of_cached, not_or]
      refine ⟨hcoeffs, fun hclose => ?_⟩
      obtain ⟨l, hl⟩ := hshape hclose.1
      exact reconstruct_ne_none (fun q hq => (hl q hq).1) (fun q hq => (hl q hq).2) hclose.2
  · unfold respond
    rw [if_pos hseen]
    simp

/-! ## Bytes that find every fault of the lengths -/

/-- Row `k` has 1 in column `k` as far as the rows go, and 0 elsewhere. -/
def Diagonal (rows : Rows) : Prop :=
  ∀ (k : Nat) (row : List UInt8), rows[k]? = some row →
    ∀ (j : Nat) (x : UInt8), row[j]? = some x → x = if j = k then 1 else 0

theorem set_of_getElem? {α : Type} {l : List α} {k : Nat} {a : α} (h : l[k]? = some a) :
    l.set k a = l := by
  obtain ⟨hk, rfl⟩ := List.getElem?_eq_some_iff.mp h
  exact List.set_getElem_self hk

theorem zipWith_zero (row pivot_row : List UInt8) :
    List.zipWith (fun val pivot => val ^^^ gfMul 0 pivot) row pivot_row
      = row.take pivot_row.length := by
  apply List.ext_getElem?
  intro j
  rw [List.getElem?_zipWith, List.getElem?_take]
  by_cases hj : j < pivot_row.length
  · rw [if_pos hj, List.getElem?_eq_getElem hj]
    cases row[j]? with
    | none => rfl
    | some x =>
      show some (x ^^^ gfMul 0 pivot_row[j]) = some x
      rw [zero_gfMul, UInt8.xor_zero]
  · rw [if_neg hj, List.getElem?_eq_none (l := pivot_row) (by omega)]
    cases row[j]? <;> rfl

theorem eliminateCoeffs_zero (n : Nat) (pivot_row row : List UInt8) :
    eliminateCoeffs n 0 pivot_row row = row := by
  unfold eliminateCoeffs
  rw [zipWith_zero, List.take_take, Nat.min_comm, List.take_append_drop]

theorem gfMul_one (x : UInt8) : gfMul x 1 = x := (gfMul_comm x 1).trans (one_gfMul x)

theorem scaleRow_one (n : Nat) (row : List UInt8) : scaleRow n 1 row = row := by
  unfold scaleRow
  rw [List.map_congr_left (g := id) fun x _ => gfMul_one x, List.map_id, List.take_append_drop]

/-- A round of the loop over `k` on a diagonal matrix changes nothing and checks the lengths. -/
theorem eliminateRow_diagonal {n i k : Nat} {pivot_row pivot_data : List UInt8} {s t : Rows × Rows}
    (hs : Diagonal s.1) (hrow : s.1[i]? = some pivot_row) (hdata : s.2[i]? = some pivot_data)
    (hi : i < pivot_row.length) (h : eliminateRow n i pivot_row s k = some t) :
    t = s ∧ (∀ row, s.1[k]? = some row → i < row.length) ∧
      ∀ d, s.2[k]? = some d → d.length ≤ pivot_data.length := by
  unfold eliminateRow at h
  by_cases hki : k = i
  · rw [if_pos hki] at h
    subst hki
    refine ⟨(Option.some.inj h).symm, fun row hr => ?_, fun d hd => ?_⟩
    · rw [hrow] at hr
      rw [← Option.some.inj hr]
      exact hi
    · rw [hdata] at hd
      rw [← Option.some.inj hd]
  · rw [if_neg hki] at h
    obtain ⟨row, hr, h⟩ := Option.bind_eq_some_iff.mp h
    obtain ⟨factor, hf, h⟩ := Option.bind_eq_some_iff.mp h
    obtain ⟨pd, hpd, h⟩ := Option.bind_eq_some_iff.mp h
    obtain ⟨d, hd, h⟩ := Option.bind_eq_some_iff.mp h
    obtain ⟨d', hd', h⟩ := Option.bind_eq_some_iff.mp h
    rw [hdata] at hpd
    obtain rfl := Option.some.inj hpd
    -- the factor is an entry beside the diagonal
    have hzero := hs k row hr i factor hf
    rw [if_neg (Ne.symm hki)] at hzero
    subst hzero
    unfold eliminateData at hd'
    by_cases hlt : pivot_data.length < d.length
    · rw [if_pos hlt] at hd'
      simp at hd'
    · rw [if_neg hlt, zipWith_zero, List.take_of_length_le (by omega)] at hd'
      obtain rfl := Option.some.inj hd'
      rw [eliminateCoeffs_zero, set_of_getElem? hr, set_of_getElem? hd] at h
      refine ⟨(Option.some.inj h).symm, fun row' hr' => ?_, fun e he => ?_⟩
      · rw [hr] at hr'
        rw [← Option.some.inj hr']
        exact (List.getElem?_eq_some_iff.mp hf).1
      · rw [hd] at he
        rw [← Option.some.inj he]
        omega

/-- A round of the loop over `i` on a diagonal matrix. -/
theorem pivotStep_diagonal {n i : Nat} {s t : Rows × Rows} (hs : Diagonal s.1) (hi : i < n)
    (h : pivotStep n s i = some t) :
    t = s ∧ ∀ k < n, (∀ row, s.1[k]? = some row → i < row.length) ∧
      ∀ d e, s.2[k]? = some d → s.2[i]? = some e → d.length ≤ e.length := by
  unfold pivotStep at h
  obtain ⟨pivot, hpivot, h⟩ := Option.bind_eq_some_iff.mp h
  -- the entry on the diagonal is the pivot, so the row must reach it
  have hfirst : pivot = i ∧ ∃ row, s.1[i]? = some row ∧ row[i]? = some 1 := by
    obtain ⟨k, hk⟩ : ∃ k, n - i = k + 1 := ⟨n - i - 1, by omega⟩
    rw [hk] at hpivot
    unfold findPivot at hpivot
    obtain ⟨row, hr, hpivot⟩ := Option.bind_eq_some_iff.mp hpivot
    obtain ⟨x, hx, hpivot⟩ := Option.bind_eq_some_iff.mp hpivot
    have hone := hs i row hr i x hx
    rw [if_pos rfl] at hone
    subst hone
    rw [if_neg (by decide)] at hpivot
    exact ⟨(Option.some.inj hpivot).symm, row, hr, hx⟩
  obtain ⟨rfl, row, hr, hx⟩ := hfirst
  rw [if_neg (by omega)] at h
  have hswap : ∀ {rows : Rows} {r : List UInt8}, rows[pivot]? = some r →
      swap rows pivot pivot = some rows := by
    intro rows r hr
    unfold swap
    rw [hr]
    show some ((rows.set pivot r).set pivot r) = some rows
    rw [set_of_getElem? hr, set_of_getElem? hr]
  obtain ⟨matrix, hm, h⟩ := Option.bind_eq_some_iff.mp h
  rw [hswap hr] at hm
  obtain rfl := Option.some.inj hm
  obtain ⟨data, hd, h⟩ := Option.bind_eq_some_iff.mp h
  obtain ⟨e, he, -⟩ := Option.bind_eq_some_iff.mp hd
  rw [hswap he] at hd
  obtain rfl := Option.some.inj hd
  have hinv : gfInv 1 = some 1 := by decide +kernel
  simp only [Option.bind_eq_bind, hr, hx, Option.bind_some, hinv, he] at h
  rw [scaleRow_one, List.map_congr_left (g := id) fun x _ => gfMul_one x, List.map_id,
    set_of_getElem? hr, set_of_getElem? he] at h
  obtain ⟨ht, hall⟩ := foldlM_fixed (fun k _ t hk => eliminateRow_diagonal hs hr he
    (List.getElem?_eq_some_iff.mp hx).1 hk) t h
  refine ⟨ht, fun k hk => ?_⟩
  obtain ⟨hwide, heven⟩ := hall k (List.mem_range.mpr hk)
  refine ⟨hwide, fun d e' hd he' => ?_⟩
  rw [he] at he'
  rw [← Option.some.inj he']
  exact heven d hd

/-- **A diagonal system** is only solved when the lengths fit. -/
theorem gaussianElimination_diagonal {matrix data : Rows} (hm : Diagonal matrix)
    (hlen : data.length = matrix.length) (h : gaussianElimination matrix data ≠ none) :
    ∃ l, (∀ row ∈ matrix, matrix.length ≤ row.length) ∧ ∀ d ∈ data, d.length = l := by
  obtain ⟨t, ht⟩ := Option.ne_none_iff_exists'.mp h
  unfold gaussianElimination at ht
  obtain ⟨-, hall⟩ := foldlM_fixed (fun i hi t h =>
    pivotStep_diagonal (s := (matrix, data)) hm (List.mem_range.mp hi) h) t ht
  have hrow : ∀ row ∈ matrix, matrix.length ≤ row.length := by
    intro row hmem
    obtain ⟨k, hk, hget⟩ := List.getElem_of_mem hmem
    -- the last round has read the last column
    have hlast := (hall (matrix.length - 1) (List.mem_range.mpr (by omega)) k hk).1 row
      (by rw [← hget]; exact List.getElem?_eq_getElem hk)
    omega
  refine ⟨(data.headD []).length, hrow, fun d hmem => ?_⟩
  obtain ⟨k, hk, rfl⟩ := List.getElem_of_mem hmem
  have h0 : 0 < data.length := by omega
  have hhead : data[0]? = some (data.headD []) := by
    cases data with
    | nil => exact absurd h0 (Nat.lt_irrefl 0)
    | cons d ds => rfl
  have hk' := List.getElem?_eq_getElem hk
  have hle := (hall 0 (List.mem_range.mpr (by omega)) k (by omega)).2 _ _ hk' hhead
  have hge := (hall k (List.mem_range.mpr (by omega)) 0 (by omega)).2 _ _ hhead hk'
  omega

/-! ## The lengths decide -/

/-- A packet with 1 as its coefficient number `k`. -/
def withUnit (p : EncodedPayload) (k : Nat) : EncodedPayload :=
  { p with coeffs := (List.range p.coeffs.length).map fun j => if j = k then 1 else 0 }

/-- Each packet with the unit coefficients of its place. -/
def unitPackets (xs : List EncodedPayload) : List EncodedPayload :=
  xs.mapIdx fun k p => withUnit p k

@[simp] theorem length_unitPackets (xs : List EncodedPayload) :
    (unitPackets xs).length = xs.length := List.length_mapIdx

theorem getElem?_unitPackets (xs : List EncodedPayload) (k : Nat) :
    (unitPackets xs)[k]? = xs[k]?.map fun p => withUnit p k := List.getElem?_mapIdx

theorem shapeOf_withUnit (p : EncodedPayload) (k : Nat) : shapeOf (withUnit p k) = shapeOf p := by
  unfold shapeOf withUnit
  dsimp only
  rw [List.length_map, List.length_range]

theorem map_shapeOf_unitPackets (xs : List EncodedPayload) :
    (unitPackets xs).map shapeOf = xs.map shapeOf := by
  apply List.ext_getElem?
  intro k
  rw [List.getElem?_map, List.getElem?_map, getElem?_unitPackets, Option.map_map]
  congr 1
  funext p
  exact shapeOf_withUnit p k

theorem diagonal_unitPackets (xs : List EncodedPayload) :
    Diagonal ((unitPackets xs).map (·.coeffs)) := by
  intro k row hrow j x hx
  rw [List.getElem?_map, getElem?_unitPackets, Option.map_map] at hrow
  obtain ⟨p, -, rfl⟩ := Option.map_eq_some_iff.mp hrow
  unfold withUnit at hx
  simp only [Function.comp_apply, List.getElem?_map] at hx
  obtain ⟨i, hi, rfl⟩ := Option.map_eq_some_iff.mp hx
  obtain ⟨hlt, rfl⟩ := List.getElem?_eq_some_iff.mp hi
  rw [List.getElem_range]

/-- Unit packets are only solved when the lengths fit. -/
theorem reconstruct_unitPackets {xs : List EncodedPayload}
    (h : PingRLNC.reconstruct (unitPackets xs) ≠ none) :
    ∃ l, ∀ q ∈ xs, xs.length ≤ q.coeffs.length ∧ q.payload.length = l := by
  have hsolve : gaussianElimination ((unitPackets xs).map (·.coeffs))
      ((unitPackets xs).map (·.payload)) ≠ none := by
    intro hnone
    apply h
    unfold PingRLNC.reconstruct buildLinearSystem
    dsimp only
    rw [hnone]
    rfl
  obtain ⟨l, hwide, heven⟩ := gaussianElimination_diagonal (diagonal_unitPackets xs)
    (by rw [List.length_map, List.length_map]) hsolve
  refine ⟨l, fun q hq => ?_⟩
  obtain ⟨k, hk, rfl⟩ := List.getElem_of_mem hq
  have hmem : withUnit xs[k] k ∈ unitPackets xs := by
    refine List.mem_of_getElem? (i := k) ?_
    rw [getElem?_unitPackets, List.getElem?_eq_getElem hk]
    rfl
  have hshape := shapeOf_withUnit xs[k] k
  simp only [shapeOf, Prod.mk.injEq] at hshape
  have hw := hwide _ (List.mem_map_of_mem hmem)
  have he := heven _ (List.mem_map_of_mem hmem)
  rw [List.length_map, length_unitPackets, hshape.2.1] at hw
  rw [hshape.2.2] at he
  exact ⟨hw, he⟩

/-- Lists of the same shapes are split alike. -/
theorem split_of_shapes {xs ys before after : List EncodedPayload} {q : EncodedPayload}
    (hshape : xs.map shapeOf = ys.map shapeOf) (hq : ys = before ++ q :: after) :
    ∃ before' q' after', xs = before' ++ q' :: after' ∧
      before'.map shapeOf = before.map shapeOf ∧ shapeOf q' = shapeOf q := by
  rw [hq, List.map_append, List.map_cons] at hshape
  obtain ⟨before', rest, rfl, hb, hr⟩ := List.map_eq_append_iff.mp hshape
  obtain ⟨q', after', rfl, hq', -⟩ := List.map_eq_cons_iff.mp hr
  exact ⟨before', q', after', rfl, hb, hq'⟩

theorem length_of_shapes {xs ys : List EncodedPayload} (h : xs.map shapeOf = ys.map shapeOf) :
    xs.length = ys.length := by
  have := congrArg List.length h
  rwa [List.length_map, List.length_map] at this

theorem ne_nil_of_shapes {xs ys : List EncodedPayload} (h : xs.map shapeOf = ys.map shapeOf)
    (hy : ys ≠ []) : xs ≠ [] := by
  have hpos := List.length_pos_iff.mpr hy
  rw [← length_of_shapes h] at hpos
  exact List.length_pos_iff.mp hpos

/-- The lengths of two packets of one shape. -/
theorem lengths_of_shape {p q : EncodedPayload} (h : shapeOf p = shapeOf q) :
    p.coeffs.length = q.coeffs.length ∧ p.payload.length = q.payload.length :=
  ⟨congrArg (fun s => s.2.1) h, congrArg (fun s => s.2.2) h⟩

theorem coeffs_ne_nil_of_shape {p q : EncodedPayload} (h : shapeOf p = shapeOf q)
    (hp : p.coeffs ≠ []) : q.coeffs ≠ [] := by
  have hpos := List.length_pos_iff.mpr hp
  rw [(lengths_of_shape h).1] at hpos
  exact List.length_pos_iff.mp hpos

/-! ### The lengths decide what is open, live and fits -/

theorem Open.congr {xs ys : List EncodedPayload} (hshape : xs.map shapeOf = ys.map shapeOf)
    (h : Open xs) : Open ys := by
  intro before q after hq hne
  obtain ⟨before', q', after', hx, hb, hq'⟩ := split_of_shapes hshape hq
  rw [← length_of_shapes hb, ← (lengths_of_shape hq').1]
  exact h before' q' after' hx (ne_nil_of_shapes hb hne)

theorem Live.congr {xs ys : List EncodedPayload} (hshape : xs.map shapeOf = ys.map shapeOf)
    (h : Live xs) : Live ys := by
  refine ⟨h.isOpen.congr hshape, fun before q after hq hne => ?_⟩
  obtain ⟨before', q', after', hx, hb, hq'⟩ := split_of_shapes hshape hq
  exact coeffs_ne_nil_of_shape hq' (h.coeffs before' q' after' hx (ne_nil_of_shapes hb hne))

theorem Fits.congr {xs ys : List EncodedPayload} (hshape : xs.map shapeOf = ys.map shapeOf)
    (h : Fits xs) : Fits ys := by
  intro pre p post hsplit hne hopen
  obtain ⟨pre', p', post', hx, hpre, hp⟩ := split_of_shapes hshape hsplit
  obtain ⟨hcoeffs, hclose⟩ := h pre' p' post' hx (ne_nil_of_shapes hpre hne)
    (hopen.congr hpre.symm)
  refine ⟨coeffs_ne_nil_of_shape hp hcoeffs, fun hlen => ?_⟩
  rw [← (lengths_of_shape hp).1, ← length_of_shapes hpre] at hlen
  obtain ⟨l, hl⟩ := hclose hlen
  refine ⟨l, fun q hq => ?_⟩
  obtain ⟨q', hq', hqs⟩ := List.mem_map.mp (hpre ▸ List.mem_map_of_mem (f := shapeOf) hq)
  obtain ⟨hc, hd⟩ := lengths_of_shape hqs
  rw [← hc, ← hd, ← length_of_shapes hpre]
  exact hl q' hq'

/-- What is safe with all bytes fits. -/
theorem fits_of_safeFor {xs : List EncodedPayload}
    (h : ∀ ys, ys.map shapeOf = xs.map shapeOf → SafeFor ys) : Fits xs := by
  -- what comes before a packet is live, by induction on its length
  have hlive : ∀ pre post, xs = pre ++ post → Open pre → Live pre := by
    intro pre
    induction pre using List.reverseRec with
    | nil =>
      intro post _ hopen
      exact ⟨hopen, fun before p after hq => absurd hq (by simp)⟩
    | append_singleton pre p ih =>
      intro post hsplit hopen
      rw [List.append_assoc, List.singleton_append] at hsplit
      have hopen' : Open pre := by
        intro before q after hq
        refine hopen before q (after ++ [p]) ?_
        rw [hq, List.append_assoc]
        rfl
      have hpre := ih _ hsplit hopen'
      refine hpre.concat fun hne => ⟨fun h0 => ?_, hopen pre p [] rfl hne⟩
      refine h xs rfl pre p post hsplit ?_
      rw [hpre.viewAfter hne, respond_of_cached]
      exact Or.inl h0
  intro pre p post hsplit hne hopen
  have hpre := hlive pre _ hsplit hopen
  constructor
  · intro h0
    refine h xs rfl pre p post hsplit ?_
    rw [hpre.viewAfter hne, respond_of_cached]
    exact Or.inl h0
  · intro hclose
    have hpre' : Live (unitPackets pre) := hpre.congr (map_shapeOf_unitPackets pre).symm
    have hne' : unitPackets pre ≠ [] := by
      intro h0
      have := length_unitPackets pre
      rw [h0] at this
      exact hne (List.length_eq_zero_iff.mp this.symm)
    have hsafe := h (unitPackets pre ++ p :: post)
      (by rw [hsplit, List.map_append, map_shapeOf_unitPackets, List.map_append])
      (unitPackets pre) p post rfl
    rw [hpre'.viewAfter hne', Ne, respond_of_cached, not_or] at hsafe
    refine reconstruct_unitPackets fun hnone => hsafe.2 ⟨?_, hnone⟩
    rw [length_unitPackets]
    exact hclose

/-- The packets of one id can be exchanged for others of the same shapes. -/
theorem exists_substitute (x : String) : ∀ (ps ys : List EncodedPayload),
    ys.map shapeOf = (ps.filter (·.id = x)).map shapeOf →
      ∃ qs : List EncodedPayload, qs.map shapeOf = ps.map shapeOf ∧
        qs.filter (·.id = x) = ys := by
  intro ps
  induction ps with
  | nil =>
    intro ys h
    exact ⟨[], rfl, (List.map_eq_nil_iff.mp h).symm⟩
  | cons p ps ih =>
    intro ys h
    by_cases hp : p.id = x
    · rw [List.filter_cons_of_pos (by simpa using hp), List.map_cons] at h
      obtain ⟨y, ys', rfl, hy, hys⟩ := List.map_eq_cons_iff.mp h
      obtain ⟨qs, hqs, hfilter⟩ := ih ys' hys
      have hid : y.id = x := (congrArg Prod.fst hy).trans hp
      refine ⟨y :: qs, by rw [List.map_cons, List.map_cons, hy, hqs], ?_⟩
      rw [List.filter_cons_of_pos (by simpa using hid), hfilter]
    · rw [List.filter_cons_of_neg (by simpa using hp)] at h
      obtain ⟨qs, hqs, hfilter⟩ := ih ys h
      refine ⟨p :: qs, by rw [List.map_cons, List.map_cons, hqs], ?_⟩
      rw [List.filter_cons_of_neg (by simpa using hp), hfilter]

theorem filter_shapes {ps qs : List EncodedPayload} (h : qs.map shapeOf = ps.map shapeOf)
    (x : String) :
    (qs.filter (·.id = x)).map shapeOf = (ps.filter (·.id = x)).map shapeOf := by
  have hmap : ∀ l : List EncodedPayload, (l.filter (·.id = x)).map shapeOf
      = (l.map shapeOf).filter fun s => s.1 = x := by
    intro l
    rw [List.filter_map]
    rfl
  rw [hmap, hmap, h]

/-- **Packets of any shape.** Every sequence of packets with the ids and lengths of `ps` is
handled without a panic, and without a change to what is cached for other ids, if and only if
the lengths of `ps` fit. -/
theorem safe_iff_fits (ps : List EncodedPayload) :
    (∀ qs : List EncodedPayload, qs.map shapeOf = ps.map shapeOf → Safe qs) ↔
      ∀ x, Fits (ps.filter (·.id = x)) := by
  constructor
  · intro h x
    refine fits_of_safeFor fun ys hys => ?_
    obtain ⟨qs, hqs, rfl⟩ := exists_substitute x ps ys hys
    exact (safe_iff_safeFor qs).mp (h qs hqs) x
  · intro h qs hqs
    refine (safe_iff_safeFor qs).mpr fun x => ?_
    exact ((h x).congr (filter_shapes hqs x).symm).safeFor

/-- A second packet without coefficients underflows; a first packet without any has no pivot
entry. -/
theorem malformed_packets_panic :
    ¬ Safe [⟨[1], [1], "ping"⟩, ⟨[], [], "ping"⟩] ∧
      ¬ Safe [⟨[], [1], "ping"⟩, ⟨[1, 1], [1], "ping"⟩] := by
  constructor
  · intro h
    exact absurd rfl (h [⟨[1], [1], "ping"⟩] ⟨[], [], "ping"⟩ [] rfl).1
  · intro h
    exact (h [⟨[], [1], "ping"⟩] ⟨[1, 1], [1], "ping"⟩ [] rfl).1 (by decide +kernel)

end Rnet.Ping
