import Xv6.Fs.Dir

/-! When there is room for a file to grow: `bmap` finds a block exactly when as many blocks are free
as it has to allocate. -/
namespace Xv6.Fs
open Prod Finset

namespace Store
variable {sb : Superblock} {st st' : Store} {b : ℕ}

/-- The number of free blocks. -/
def nfree (sb : Superblock) (st : Store) : ℕ :=
  ((Finset.range sb.size).filter fun b => st.bitmap b = false).card

lemma balloc_nfree (h0 : st.bitmap 0 = true) (h : st.balloc sb = (b,st')) :
    (b = 0 ↔ st.nfree sb = 0) ∧ (b ≠ 0 → st'.nfree sb+1 = st.nfree sb) := by
  unfold balloc at h
  split at h
  · rename_i c hc
    obtain ⟨rfl,rfl⟩ := Prod.mk.inj h
    have hlt := List.mem_range.mp (List.mem_of_find?_eq_some hc)
    have hfree : st.bitmap c = false := by simpa using List.find?_some hc
    have hc0 : c ≠ 0 := by
      rintro rfl
      rw [h0] at hfree
      cases hfree
    have hmem : c ∈ (range sb.size).filter fun b => st.bitmap b = false :=
      mem_filter.mpr ⟨mem_range.mpr hlt,hfree⟩
    have hpos : 0 < st.nfree sb := card_pos.mpr ⟨c,hmem⟩
    refine ⟨⟨fun h => absurd h hc0,fun h => by omega⟩,fun _ => ?_⟩
    have herase : (range sb.size).filter
        (fun a => Function.update st.bitmap c true a = false) =
          ((range sb.size).filter fun a => st.bitmap a = false).erase c := by
      ext a
      by_cases hac : a = c
      · subst hac
        simp
      · simp [hac]
    have hcard := card_erase_add_one hmem
    rw [← herase] at hcard
    exact hcard
  · rename_i hnone
    obtain ⟨rfl,rfl⟩ := Prod.mk.inj h
    refine ⟨⟨fun _ => ?_,fun _ => rfl⟩,fun h => absurd rfl h⟩
    apply card_eq_zero.mpr
    apply filter_eq_empty_iff.mpr
    intro a ha hf
    have := List.find?_eq_none.mp hnone a (List.mem_range.mpr (mem_range.mp ha))
    simp [hf] at this

end Store

namespace Data
variable {sb : Superblock} {D : ℕ → Dinode} {k : ℕ} {x y : Data Store} {a bn : ℕ}

lemma marked_zero (h : Own sb D x.st) : x.st.bitmap 0 = true := h.meta_marked 0 h.meta_pos

/-- Blocks that `bmap` has to allocate for block `bn` of a file. -/
def missing (x : Data Store) (bn : ℕ) : ℕ :=
  (if NDIRECT ≤ bn ∧ x.d.ind = 0 then 1 else 0)+if x.ptr (dataPos bn) = 0 then 1 else 0

lemma addr_nfree (h : Own sb D x.st) {j : Fin (NDIRECT+1)} (hx : sb.blocks.addr x j = .ok (a,y)) :
    (a ≠ 0 ↔ (if x.d.addrs j = 0 then 1 else 0) ≤ x.st.nfree sb) ∧
      (a ≠ 0 → y.st.nfree sb+(if x.d.addrs j = 0 then 1 else 0) = x.st.nfree sb) := by
  rcases hb : x.st.balloc sb with ⟨b,st⟩
  obtain ⟨hz,hs⟩ := Store.balloc_nfree (marked_zero h) hb
  rw [addr_eq hb,Except.ok.injEq] at hx
  split_ifs at hx ⊢ with h0 hb0
  · obtain ⟨rfl,rfl⟩ := Prod.mk.inj hx
    have := hz.mp hb0
    exact ⟨by omega,fun h => absurd rfl h⟩
  · obtain ⟨rfl,rfl⟩ := Prod.mk.inj hx
    have := hs hb0
    exact ⟨⟨fun _ => by omega,fun _ => hb0⟩,fun _ => this⟩
  · obtain ⟨rfl,rfl⟩ := Prod.mk.inj hx
    exact ⟨⟨fun _ => Nat.zero_le _,fun _ => h0⟩,fun _ => rfl⟩

lemma entry_nfree (h : Own sb D x.st) {ind j : ℕ} (hx : sb.blocks.entry x ind j = .ok (a,y)) :
    a ≠ 0 ↔ (if (x.st.block ind).word j = 0 then 1 else 0) ≤ x.st.nfree sb := by
  rcases hb : x.st.balloc sb with ⟨b,st⟩
  obtain ⟨hz,hs⟩ := Store.balloc_nfree (marked_zero h) hb
  rw [entry_eq hb,Except.ok.injEq] at hx
  split_ifs at hx ⊢ with h0 hb0
  · obtain ⟨rfl,-⟩ := Prod.mk.inj hx
    have := hz.mp hb0
    omega
  · obtain ⟨rfl,-⟩ := Prod.mk.inj hx
    have := hs hb0
    exact ⟨fun _ => by omega,fun _ => hb0⟩
  · obtain ⟨rfl,-⟩ := Prod.mk.inj hx
    exact ⟨fun _ => Nat.zero_le _,fun _ => h0⟩

lemma bmap_nfree (h : Owned sb D k x) (hx : sb.blocks.bmap x bn = .ok (a,y)) : a ≠ 0 ↔ x.missing bn ≤ x.st.nfree sb := by
  unfold Blocks.bmap at hx
  unfold missing dataPos
  split_ifs at hx with hd hi
  · have hnot : ¬(NDIRECT ≤ bn ∧ x.d.ind = 0) := fun h => by omega
    rw [dif_pos hd,if_neg hnot,Nat.zero_add]
    exact (addr_nfree h.toOwn hx).1
  · have hle : NDIRECT ≤ bn := Nat.not_lt.mp hd
    simp only [hle,true_and,dif_neg hd,dif_pos hi]
    obtain ⟨⟨ind,z⟩,ha⟩ : ∃ r, sb.blocks.addr x (Fin.last NDIRECT) = .ok r := ⟨_,addr_eq rfl _⟩
    obtain ⟨h₁,h₂⟩ := addr_nfree h.toOwn ha
    obtain ⟨hown,-,hptr,hother⟩ := addr_spec h ha
    have hind : x.d.addrs (Fin.last NDIRECT) = x.d.ind := rfl
    rw [hind] at h₁ h₂
    rw [ha] at hx
    simp only [bind,Except.bind,pure,Except.pure] at hx
    split_ifs at hx with h0
    · obtain ⟨rfl,-⟩ := Prod.mk.inj (Except.ok.inj hx)
      have hno := mt h₁.mpr (not_not.mpr h0)
      constructor
      · exact fun h => absurd rfl h
      · intro hle
        omega
    · have hzi : z.d.ind = ind := hptr
      have hword : (z.st.block ind).word (bn-NDIRECT) = x.ptr (.entry ⟨bn-NDIRECT,hi⟩) := by
        rw [← hother (.entry _) nofun,ptr,Store.ptr,hzi,if_neg h0]
      rw [entry_nfree hown.toOwn hx,hword]
      have := h₂ h0
      omega
  · cases hx

end Data
end Xv6.Fs
