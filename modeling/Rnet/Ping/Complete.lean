import Mathlib.LinearAlgebra.Matrix.Rank
import Rnet.Ping.Decode
import Rnet.Ping.Engine

/-!
# When the RLNC engine has enough packets

A packet is only compared with the coefficient count when one is cached already, and
then the cached packets are one fewer than those that arrived. So with two chunks or
more the `n`-th packet of an id returns, independent or not, and a single chunk is
never returned.

> `returns_iff_two_chunks`: once `n` independent coefficient vectors have arrived, some
> call has returned if and only if the payload has more than five bytes.
-/

namespace Rnet.Ping

open PingRLNC

/-- How many of the coefficient vectors received for an id are linearly independent. -/
noncomputable def receivedRank (n : Nat) (id : String) (ps : List EncodedPayload) : Nat :=
  (coeffMatrix n (ps.filter (·.id = id))).rank

/-- Independent vectors come from as many packets. -/
theorem receivedRank_le_countId (n : Nat) (id : String) (ps : List EncodedPayload) :
    receivedRank n id ps ≤ countId id ps := by
  unfold receivedRank countId
  rw [List.countP_eq_length_filter]
  exact Matrix.rank_le_height _

/-- With two chunks or more the packet with number `n` returns. -/
theorem Encodes.returns {payload : List UInt8} {id : String} {ps : List EncodedPayload}
    (h : Encodes payload id ps) (hlong : 5 < payload.length)
    (hcount : (split payload).length ≤ countId id ps) : ∃ r, Returns ps id r := by
  have hlen := length_split payload
  have hne : payload ≠ [] := List.length_pos_iff.mp (by omega)
  obtain ⟨pre, p, post, rfl, hid, hc⟩ :=
    exists_nth (show (split payload).length - 1 < countId id ps by omega)
  have hcol := collecting_after hne h.of_append (Or.inr (by omega))
  rw [hc] at hcol
  obtain ⟨hn, -⟩ := h.shape (List.mem_append_right _ (List.mem_cons_self ..)) hid
  obtain ⟨r, hr, -⟩ := hcol.completed hid hn (by omega) rfl
  exact ⟨r, pre, p, post, rfl, hid, hr⟩

/-- A single chunk is never returned. -/
theorem Encodes.not_returns {payload : List UInt8} (hne : payload ≠ []) {id : String}
    {ps : List EncodedPayload} (h : Encodes payload id ps) (hshort : payload.length ≤ 5)
    (r : List UInt8) : ¬ Returns ps id r := by
  intro h
  obtain ⟨pre, p, post, rfl, hid, hr⟩ := h
  have hlen := length_split payload
  have hpos := List.length_pos_iff.mpr hne
  have hcol := collecting_after hne h.of_append (Or.inl (by omega))
  obtain ⟨hn, hl⟩ := h.shape (List.mem_append_right _ (List.mem_cons_self ..)) hid
  have := (hcol.cached hid hn (by omega) hl (by omega)).2
  rw [this] at hr
  simp at hr

/-- **Enough packets return.** In every sequence of calls whose packets of `id` encode
`payload` and bring `n` independent coefficient vectors, some call for `id` has returned if
and only if the payload has more than one chunk. -/
theorem returns_iff_two_chunks (payload : List UInt8) (hne : payload ≠ []) (id : String)
    (ps : List EncodedPayload) (henc : Encodes payload id ps)
    (hrank : receivedRank (split payload).length id ps = (split payload).length) :
    (∃ r, Returns ps id r) ↔ 5 < payload.length := by
  have hcount := receivedRank_le_countId (split payload).length id ps
  rw [hrank] at hcount
  constructor
  · intro h
    obtain ⟨r, hr⟩ := h
    by_contra hshort
    exact henc.not_returns hne (by omega) r hr
  · intro hlong
    exact henc.returns hlong hcount

/-- The coefficient vectors of `twoChunks` are those of the identity matrix. -/
theorem receivedRank_twoChunks : receivedRank 2 "ping" twoChunks = 2 := by
  have hunit : IsUnit (show Matrix (Fin 2) (Fin 2) Gf256 from coeffMatrix 2 twoChunks) :=
    IsUnit.of_mul_eq_one 1 (by decide +kernel)
  exact Matrix.rank_of_isUnit _ hunit

theorem returns_iff_two_chunks_six : ∃ r, Returns twoChunks "ping" r :=
  (returns_iff_two_chunks [1, 2, 3, 4, 5, 6] (by decide) "ping" twoChunks twoChunks_encodes
    receivedRank_twoChunks).mpr (by decide)

/-- The only packet that a payload of one byte needs. -/
def oneChunk : List EncodedPayload := [⟨[1], [9, 0, 0, 0, 0], "ping"⟩]

theorem oneChunk_encodes : Encodes [9] "ping" oneChunk := by
  intro p hp _
  rw [List.mem_singleton.mp hp]
  exact ⟨fun _ => 1, by decide⟩

theorem receivedRank_oneChunk : receivedRank 1 "ping" oneChunk = 1 := by
  have hunit : IsUnit (show Matrix (Fin 1) (Fin 1) Gf256 from coeffMatrix 1 oneChunk) :=
    IsUnit.of_mul_eq_one 1 (by decide +kernel)
  exact Matrix.rank_of_isUnit _ hunit

/-- A payload of one byte is never returned. -/
theorem one_chunk_never_returned :
    ¬ ∀ (payload : List UInt8) (id : String) (ps : List EncodedPayload), payload ≠ [] →
      Encodes payload id ps →
      receivedRank (split payload).length id ps = (split payload).length →
      ∃ r, Returns ps id r := by
  intro h
  obtain ⟨r, hr⟩ := h [9] "ping" oneChunk (by decide) oneChunk_encodes receivedRank_oneChunk
  exact oneChunk_encodes.not_returns (by decide) (by decide) r hr

end Rnet.Ping
