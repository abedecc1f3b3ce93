import Mathlib.Tactic

/-! Ring buffers addressed by two free-running counters that wrap modulo `M`.
The whole history of stored values is a ghost list; the counters and the slots represent
the unread part of it, whatever the number of wraparounds. -/
namespace Xv6.Lib.Ring

variable {α : Type*}

/-- `slot` and the wrapped counters `r` and `w` hold the values of `hist` from `taken` on.
The slot of a value is its position modulo the size `N`. -/
structure Holds (N M : ℕ) (slot : ℕ → α) (r w : ℕ) (hist : List α) (taken : ℕ) : Prop where
  reader : r = taken%M
  writer : w = hist.length%M
  taken_le : taken ≤ hist.length
  unread_le : hist.length-taken ≤ N
  slots : ∀ k, taken ≤ k → k < hist.length → hist[k]? = some (slot (k%N))

variable {N M : ℕ} {slot : ℕ → α} {r w taken : ℕ} {hist : List α}

theorem holds_empty (slot : ℕ → α) (N M : ℕ) : Holds N M slot 0 0 [] 0 where
  reader := by simp
  writer := by simp
  taken_le := le_rfl
  unread_le := by simp
  slots := by simp

namespace Holds

variable (h : Holds N M slot r w hist taken)
include h

/-- Only the slots below the size matter. -/
theorem congr {slot' : ℕ → α}
    (hs : ∀ k, slot (k%N) = slot' (k%N)) : Holds N M slot' r w hist taken :=
  { h with slots := fun k hk hlt => by rw [← hs]; exact h.slots k hk hlt }

/-- The wrapped distance of the counters is the number of unread values. -/
theorem distance (hNM : N < M) : (w+M-r)%M = hist.length-taken := by
  have hM : 0 < M := by omega
  have hr : r < M := h.reader ▸ Nat.mod_lt _ hM
  have hd : hist.length-taken < M := lt_of_le_of_lt h.unread_le hNM
  have hlen : hist.length = taken+(hist.length-taken) := by have := h.taken_le; omega
  have hw : w%M = (r+(hist.length-taken))%M := by
    rw [h.writer,Nat.mod_mod,hlen,h.reader,Nat.mod_add_mod]
    congr 1
    omega
  calc (w+M-r)%M = (w+(M-r))%M := by congr 1; omega
    _ = (r+(hist.length-taken)+(M-r))%M := by rw [Nat.add_mod,hw,← Nat.add_mod]
    _ = (hist.length-taken+M)%M := by congr 1; omega
    _ = hist.length-taken := by rw [Nat.add_mod_right,Nat.mod_eq_of_lt hd]

/-- Equal counters mean that nothing is unread. -/
theorem empty_iff (hNM : N < M) : r = w ↔ taken = hist.length := by
  have hd := h.distance hNM
  have hle := h.taken_le
  have hr : r < M := h.reader ▸ Nat.mod_lt _ (by omega)
  constructor
  · intro e
    subst e
    rw [show r+M-r = M by omega,Nat.mod_self] at hd
    omega
  · intro e
    rw [h.reader,h.writer,e]

/-- The full test compares counters that may have wrapped a different number of times. -/
theorem full_iff (hNM : N < M) : w = (r+N)%M ↔ hist.length-taken = N := by
  have hd := h.distance hNM
  have hM : 0 < M := by omega
  have hle := h.taken_le
  have hr : r < M := h.reader ▸ Nat.mod_lt _ hM
  constructor
  · intro e
    subst e
    rw [← hd,show (r+N)%M+M-r = (r+N)%M+(M-r) by omega,Nat.mod_add_mod,
      show r+N+(M-r) = N+M by omega,Nat.add_mod_right,Nat.mod_eq_of_lt hNM]
  · intro e
    rw [h.writer,h.reader,Nat.mod_add_mod]
    congr 1
    omega

/-- The slot about to be stored into holds no unread value. -/
theorem slot_free (hNM : N ∣ M)
    (hroom : hist.length-taken < N) {k : ℕ} (hk : taken ≤ k) (hlt : k < hist.length) :
    k%N ≠ w%N := by
  rw [h.writer,Nat.mod_mod_of_dvd _ hNM]
  intro e
  obtain ⟨c,hc⟩ := (Nat.modEq_iff_dvd' hlt.le).mp e
  rcases Nat.eq_zero_or_pos c with rfl | hc0
  · omega
  · have := Nat.mul_le_mul_left N hc0
    omega

/-- Storing into the next slot keeps every unread value. -/
theorem store (hNM : N ∣ M) (hroom : hist.length-taken < N)
    (x : α) : Holds N M (Function.update slot (w%N) x) r w hist taken where
  reader := h.reader
  writer := h.writer
  taken_le := h.taken_le
  unread_le := h.unread_le
  slots := by
    intro k hk hlt
    rw [h.slots k hk hlt,Function.update_of_ne (h.slot_free hNM hroom hk hlt)]

/-- Advancing the writer's counter makes the value in the next slot a value of the ring. -/
theorem advance (hNM : N ∣ M) (hroom : hist.length-taken < N) :
    Holds N M slot r ((w+1)%M) (hist++[slot (w%N)]) taken where
  reader := h.reader
  writer := by simp [h.writer,Nat.mod_add_mod]
  taken_le := by have := h.taken_le; simp; omega
  unread_le := by simp; omega
  slots := by
    intro k hk hlt
    have hw : w%N = hist.length%N := by rw [h.writer,Nat.mod_mod_of_dvd _ hNM]
    simp only [List.length_append,List.length_singleton] at hlt
    rcases Nat.lt_succ_iff_lt_or_eq.mp hlt with hold | rfl
    · rw [List.getElem?_append_left hold,h.slots k hk hold]
    · simp [hw]

/-- Both at once. -/
theorem push (hNM : N ∣ M) (hroom : hist.length-taken < N)
    (x : α) : Holds N M (Function.update slot (w%N) x) r ((w+1)%M) (hist++[x]) taken := by
  simpa using (h.store hNM hroom x).advance hNM hroom

/-- The slot named by the reader's counter holds the oldest unread value. -/
theorem front (hNM : N ∣ M) (hne : taken < hist.length) : hist[taken]? = some (slot (r%N)) := by
  rw [h.slots taken le_rfl hne,h.reader,Nat.mod_mod_of_dvd _ hNM]

theorem pop (hne : taken < hist.length) : Holds N M slot ((r+1)%M) w hist (taken+1) where
  reader := by rw [h.reader,Nat.mod_add_mod]
  writer := h.writer
  taken_le := hne
  unread_le := by have := h.unread_le; omega
  slots := fun k hk hlt => h.slots k (by omega) hlt

/-- The slot before the writer's counter holds the newest value. -/
theorem back (hNM : N ∣ M) (hM : 0 < M)
    (hne : taken < hist.length) : hist.getLast? = some (slot (((w+(M-1))%M)%N)) := by
  have hw : (w+(M-1))%M = (hist.length-1)%M := by
    rw [h.writer,Nat.mod_add_mod,show hist.length+(M-1) = hist.length-1+M by omega,Nat.add_mod_right]
  rw [List.getLast?_eq_getElem?,h.slots _ (by omega) (by omega),hw,Nat.mod_mod_of_dvd _ hNM]

/-- Moving the writer's counter back forgets the newest value. -/
theorem retract (hne : taken < hist.length) (hM : 0 < M) :
    Holds N M slot r ((w+(M-1))%M) hist.dropLast taken where
  reader := h.reader
  writer := by
    rw [h.writer,Nat.mod_add_mod,show hist.length+(M-1) = hist.length-1+M by omega,
      Nat.add_mod_right,List.length_dropLast]
  taken_le := by rw [List.length_dropLast]; omega
  unread_le := by have := h.unread_le; rw [List.length_dropLast]; omega
  slots := by
    intro k hk hlt
    rw [List.length_dropLast] at hlt
    rw [List.getElem?_dropLast,if_pos hlt]
    exact h.slots k hk (by omega)

/-- What has been taken, extended by the front value, is again a prefix of the history. -/
theorem take_succ (hNM : N ∣ M) (hne : taken < hist.length) :
    hist.take (taken+1) = hist.take taken++[slot (r%N)] := by
  rw [List.take_add_one,h.front hNM hne]
  rfl

end Holds
end Xv6.Lib.Ring
