/-
# Extended block mode: every connection is read in step

A connection of the receiver is in at most one place: it is being accepted, or its next header is read,
or it is ready, or its data is read.  `Lines` is this invariant, together with what the receiver knows
of the connection: `bytes_ready` is the number of bytes that are due on it.  A callback has a connection
in its hands (`held`) until it puts it back.
-/
import Gct.Eb.Receiver

namespace Gct.Eb

open Channels List
open Function (update_of_ne)

/-! ## 1. The invariant -/

/-- The receiver, who has read `l`, is in step with the connection and has not seen the end of it. -/
structure Ready (conn : DataConn) (l : List Item) : Prop where
  due : due Item.size 0 l = some conn.bytesReady
  eod : conn.eod = false
  close : conn.close = false

/-- `k` is the number of connections that were cached before the transfer. -/
structure Lines (k : Nat) (held : List Nat) (r : Receiver) : Prop where
  place : ∀ c, r.accepting.count c + r.headerReads.count c + r.freeConnQ.count c +
    (r.dataReads.map Prod.fst).count c + held.count c ≤ if c ∈ r.accepted then 1 else 0
  cached : ∀ c < k, c ∈ r.accepted
  new : ∀ c, c ∉ r.accepted ∨ c ∈ r.accepting → r.got c = []
  accepting : ∀ c ∈ r.accepting, r.conns c = .init ∧ k ≤ c
  header : ∀ c ∈ r.headerReads, Ready (r.conns c) (r.got c) ∧ (r.conns c).bytesReady = 0 ∧
    (c < k → r.got c = [] → (r.conns c).reusing = true)
  free : ∀ c ∈ r.freeConnQ, Ready (r.conns c) (r.got c) ∧ 0 < (r.conns c).bytesReady
  data : ∀ d ∈ r.dataReads, Ready (r.conns d.1) (r.got d.1) ∧ 0 < (r.conns d.1).bytesReady ∧
    d.2 ≤ (r.conns d.1).bytesReady

namespace Lines

variable {k : Nat} {held : List Nat} {r : Receiver} {c : Nat}

/-! ## 2. Taking a connection -/

/-- A connection in somebody's hands is known, and in no other place. -/
theorem of_held (h : Lines k (c :: held) r) : c ∈ r.accepted ∧ c ∉ r.accepting ∧
    c ∉ r.headerReads ∧ c ∉ r.freeConnQ ∧ c ∉ r.dataReads.map Prod.fst := by
  have := h.place c
  rw [count_cons_self] at this
  split at this
  next hmem =>
    refine ⟨hmem, ?_, ?_, ?_, ?_⟩ <;> exact count_eq_zero.mp (by omega)
  · omega

theorem takeAccepting (h : Lines k held r) (hc : c ∈ r.accepting) :
    Lines k (c :: held) { r with accepting := r.accepting.erase c } := by
  refine { h with place := ?_, new := ?_, accepting := ?_ }
  · intro d
    have := h.place d
    rw [(perm_cons_erase hc).count_eq, count_cons] at this
    rw [count_cons]
    dsimp only
    omega
  · exact fun d hd => h.new d (hd.imp_right mem_of_mem_erase)
  · exact fun d hd => h.accepting d (mem_of_mem_erase hd)

theorem takeHeader (h : Lines k held r) (hc : c ∈ r.headerReads) :
    Lines k (c :: held) { r with headerReads := r.headerReads.erase c } := by
  refine { h with place := ?_, header := ?_ }
  · intro d
    have := h.place d
    rw [(perm_cons_erase hc).count_eq, count_cons] at this
    rw [count_cons]
    dsimp only
    omega
  · exact fun d hd => h.header d (mem_of_mem_erase hd)

/-- The queue of connections that are ready, in another order and without the connection taken. -/
theorem takeFree {q : List Nat} (h : Lines k held r) (hq : r.freeConnQ.Perm (c :: q)) :
    Lines k (c :: held) { r with freeConnQ := q } := by
  refine { h with place := ?_, free := ?_ }
  · intro d
    have := h.place d
    rw [hq.count_eq, count_cons] at this
    rw [count_cons]
    dsimp only
    omega
  · exact fun d hd => h.free d (hq.mem_iff.mpr (mem_cons_of_mem _ hd))

theorem takeData (h : Lines k held r) {d : Nat × Nat} (hd : r.dataReads.find? (fun d => d.1 == c) = some d) :
    Lines k (c :: held) { r with dataReads := r.dataReads.eraseP (fun d => d.1 == c) } := by
  obtain ⟨hc, l, l', heq, herase⟩ := split_of_find? hd
  obtain rfl : d.1 = c := by simpa using hc
  refine { h with place := ?_, data := ?_ }
  · intro e
    have := h.place e
    rw [heq] at this
    rw [herase]
    simp only [map_append, map_cons, count_append, count_cons] at this ⊢
    omega
  · exact fun e he => h.data e (eraseP_subset he)

/-! ## 3. Putting it back -/

section

variable (h : Lines k (c :: held) r)

include h

/-- Something is read from the connection taken. -/
theorem setConn (conn : DataConn) (l : List Item) : Lines k (c :: held)
      { r with conns := Function.update r.conns c conn, got := Function.update r.got c l } := by
  obtain ⟨hacc, haccepting, hheader, hfree, hdata⟩ := h.of_held
  refine ⟨h.place, h.cached, ?_, ?_, ?_, ?_, ?_⟩
  · intro d hd
    have hdc : d ≠ c := by
      rintro rfl
      exact hd.elim (fun h => h hacc) haccepting
    dsimp only
    rw [update_of_ne hdc]
    exact h.new d hd
  · intro d hd
    have hdc : d ≠ c := fun he => haccepting (he ▸ hd)
    dsimp only
    rw [update_of_ne hdc]
    exact h.accepting d hd
  · intro d hd
    have hdc : d ≠ c := fun he => hheader (he ▸ hd)
    simpa only [update_of_ne hdc] using h.header d hd
  · intro d hd
    have hdc : d ≠ c := fun he => hfree (he ▸ hd)
    simpa only [update_of_ne hdc] using h.free d hd
  · intro d hd
    have hdc : d.1 ≠ c := fun he => hdata (mem_map.mpr ⟨d, hd, he⟩)
    simpa only [update_of_ne hdc] using h.data d hd

/-- Nothing more is read from the connection. -/
theorem drop : Lines k held r := by
  refine { h with place := ?_ }
  intro d
  have := h.place d
  rw [count_cons] at this
  omega

variable (hr : Ready (r.conns c) (r.got c))

include hr

theorem putHeader (hbytes : (r.conns c).bytesReady = 0) (hreusing : c < k → r.got c = [] → (r.conns c).reusing = true) :
    Lines k held { r with headerReads := r.headerReads ++ [c] } := by
  refine { h with place := ?_, header := ?_ }
  · intro d
    have := h.place d
    rw [count_cons] at this
    rw [count_append, count_singleton]
    dsimp only
    omega
  · exact forall_mem_append.mpr ⟨h.header, forall_mem_singleton.mpr ⟨hr, hbytes, hreusing⟩⟩

theorem putFree (hbytes : 0 < (r.conns c).bytesReady) : Lines k held { r with freeConnQ := r.freeConnQ ++ [c] } := by
  refine { h with place := ?_, free := ?_ }
  · intro d
    have := h.place d
    rw [count_cons] at this
    rw [count_append, count_singleton]
    dsimp only
    omega
  · exact forall_mem_append.mpr ⟨h.free, forall_mem_singleton.mpr ⟨hr, hbytes⟩⟩

theorem putData (hbytes : 0 < (r.conns c).bytesReady) {n : Nat} (hn : n ≤ (r.conns c).bytesReady) :
    Lines k held { r with dataReads := r.dataReads ++ [(c, n)] } := by
  refine { h with place := ?_, data := ?_ }
  · intro d
    have := h.place d
    rw [count_cons] at this
    rw [map_append, count_append, map_cons, map_nil, count_singleton]
    dsimp only
    omega
  · exact forall_mem_append.mpr ⟨h.data, forall_mem_singleton.mpr ⟨hr, hbytes, hn⟩⟩

end

/-- A new connection is to be accepted. -/
theorem listen (h : Lines k [] r) (hc : c ∉ r.accepted) : Lines k [] { r with
      accepting := r.accepting ++ [c]
      accepted := r.accepted ++ [c]
      conns := Function.update r.conns c .init } := by
  have hother : ∀ d ∈ r.accepted, d ≠ c := fun d hd he => hc (he ▸ hd)
  -- whatever has a place is known
  have hknown : ∀ d, 0 < r.accepting.count d + r.headerReads.count d + r.freeConnQ.count d +
      (r.dataReads.map Prod.fst).count d → d ∈ r.accepted := by
    intro d hd
    have := h.place d
    split at this
    · assumption
    · omega
  refine ⟨?_, ?_, ?_, ?_, ?_, ?_, ?_⟩
  · intro d
    have := h.place d
    dsimp only
    rw [ite_mem_concat hc, count_append]
    omega
  · exact fun d hd => mem_append_left _ (h.cached d hd)
  · intro d hd
    simp only [mem_append, mem_singleton, not_or] at hd
    rcases hd with hd | hd | rfl
    · exact h.new d (.inl hd.1)
    · exact h.new d (.inr hd)
    · exact h.new d (.inl hc)
  · intro d hd
    rcases mem_append.mp hd with hd | hd
    · have hpos := count_pos_iff.mpr hd
      dsimp only
      rw [update_of_ne (hother d (hknown d (by omega)))]
      exact h.accepting d hd
    · rw [mem_singleton.mp hd]
      exact ⟨Function.update_self _ _ _, Nat.le_of_not_lt fun hk => hc (h.cached c hk)⟩
  · intro d hd
    have hpos : 0 < r.headerReads.count d := count_pos_iff.mpr hd
    have hmem := hknown d (by omega)
    simpa only [update_of_ne (hother d hmem)] using h.header d hd
  · intro d hd
    have hpos : 0 < r.freeConnQ.count d := count_pos_iff.mpr hd
    have hmem := hknown d (by omega)
    simpa only [update_of_ne (hother d hmem)] using h.free d hd
  · intro d hd
    have hpos : 0 < (r.dataReads.map Prod.fst).count d.1 := count_pos_iff.mpr (mem_map_of_mem hd)
    have hmem := hknown d.1 (by omega)
    simpa only [update_of_ne (hother d.1 hmem)] using h.data d hd

end Lines

end Gct.Eb
