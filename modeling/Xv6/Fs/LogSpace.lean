import Xv6.Fs.View

/-! How many different blocks the functions of `fs.c` pass to `log_write`. The blocks of the bitmap
and those of the inodes concerned are counted once for a whole call, the others for each use. -/
namespace Xv6.Fs
open Finset List

open Lib (Traced Few)

/-- The blocks of the bitmap, and those that contain the inodes `ks`. -/
def DiskSb.metas (sb : DiskSb) (ks : Finset ℕ) : Finset ℕ :=
  (Finset.range sb.size).image sb.BBLOCK ∪ ks.image sb.IBLOCK

namespace Logged
variable {sb : DiskSb} {ks : Finset ℕ} {x y : Data Store} {k : ℕ}

lemma bitmap_mem {b : ℕ} (h : b < sb.size) : sb.BBLOCK b ∈ sb.metas ks :=
  Finset.mem_union_left _ (Finset.mem_image_of_mem _ (Finset.mem_range.mpr h))

lemma inode_mem (h : k ∈ ks) : sb.IBLOCK k ∈ sb.metas ks :=
  mem_union_right _ (mem_image_of_mem _ h)

lemma metas_card (h : sb.size ≤ BPB) : (sb.metas ks).card ≤ 1+ks.card := by
  have hB : (Finset.range sb.size).image sb.BBLOCK ⊆ {sb.bmapstart} := by
    refine Finset.image_subset_iff.mpr fun b hb => Finset.mem_singleton.mpr ?_
    have : b/BPB = 0 := Nat.div_eq_of_lt (lt_of_lt_of_le (Finset.mem_range.mp hb) h)
    rw [DiskSb.BBLOCK,this,Nat.zero_add]
  calc (sb.metas ks).card
      ≤ ((Finset.range sb.size).image sb.BBLOCK).card+(ks.image sb.IBLOCK).card :=
        card_union_le ..
    _ ≤ 1+ks.card := Nat.add_le_add (card_le_card hB) card_image_le

variable (sb ks) in
lemma balloc_trace (st : Store) : ∃ b st', (sb.logged.balloc st).result = .ok (b,st') ∧
    ∀ c ∈ (sb.logged.balloc st).trace, c ∈ sb.metas ks ∨ c = b := by
  show ∃ b st', (balloc sb st).result = .ok (b,st') ∧
    ∀ c ∈ (balloc sb st).trace, c ∈ sb.metas ks ∨ c = b
  unfold balloc
  split
  · rename_i b hb
    have hlt : b < sb.size := List.mem_range.mp (List.mem_of_find?_eq_some hb)
    refine ⟨b,_,rfl,forall_mem_cons.mpr ⟨.inl (bitmap_mem hlt),?_⟩⟩
    exact forall_mem_singleton.mpr (.inr rfl)
  · exact ⟨0,st,rfl,fun c hc => nomatch hc⟩

variable (sb ks) in
lemma addr_trace (x : Data Store) (j : Fin (NDIRECT+1)) : ∃ a y, (sb.logged.addr x j).result = .ok (a,y) ∧
    (a ≠ 0 → y.d.addrs j = a) ∧ ∀ c ∈ (sb.logged.addr x j).trace, c ∈ sb.metas ks ∨ c = a := by
  unfold Blocks.addr
  split
  · obtain ⟨b,st,hb,ht⟩ := balloc_trace sb ks x.st
    rw [Traced.bind_of_ok hb]
    dsimp only
    split
    · rename_i h0
      subst h0
      exact ⟨0,_,rfl,fun h => absurd rfl h,by simpa using ht⟩
    · exact ⟨b,_,rfl,fun _ => Function.update_self ..,by simpa using ht⟩
  · exact ⟨_,x,rfl,fun _ => rfl,fun c hc => nomatch hc⟩

variable (sb ks) in
lemma entry_trace (x : Data Store) (ind j : ℕ) : ∃ a y, (sb.logged.entry x ind j).result = .ok (a,y) ∧
    ∀ c ∈ (sb.logged.entry x ind j).trace, c ∈ sb.metas ks ∨ c = a ∨ c = ind := by
  have hv : sb.logged.bread ind x.st = pure (x.st.block ind,x.st) := rfl
  rw [Blocks.entry,Traced.bind_of_pure hv]
  dsimp only
  split
  · obtain ⟨b,st,hb,ht⟩ := balloc_trace sb ks x.st
    rw [Traced.bind_of_ok hb]
    dsimp only
    have ht' : ∀ c ∈ (sb.logged.balloc x.st).trace, c ∈ sb.metas ks ∨ c = b ∨ c = ind := fun c hc =>
      (ht c hc).imp_right .inl
    split
    · rename_i h0
      subst h0
      exact ⟨0,_,rfl,by simpa using ht'⟩
    · refine ⟨b,_,rfl,fun c hc => ?_⟩
      rcases mem_append.mp hc with hc | hc
      · exact ht' c hc
      · exact .inr (.inr (List.mem_singleton.mp hc))
  · exact ⟨_,x,rfl,fun c hc => absurd hc List.not_mem_nil⟩

variable (sb ks) in
/-- `bmap` logs, beside the bitmap, at most the block that it returns and the indirect block. -/
lemma bmap_trace (x : Data Store) (bn : ℕ) : ∃ i, ∀ c ∈ (sb.logged.bmap x bn).trace, c ∈ sb.metas ks ∨ c = i ∨
    ∃ a y, (sb.logged.bmap x bn).result = .ok (a,y) ∧ c = a := by
  unfold Blocks.bmap
  split
  · rename_i h
    obtain ⟨a,y,hr,-,ht⟩ := addr_trace sb ks x ⟨bn,Nat.lt_succ_of_lt h⟩
    exact ⟨0,fun c hc => (ht c hc).imp_right fun he => .inr ⟨a,y,hr,he⟩⟩
  · split
    · obtain ⟨i,y,hr,-,ht⟩ := addr_trace sb ks x (Fin.last NDIRECT)
      rw [Traced.bind_of_ok hr]
      dsimp only
      refine ⟨i,fun c hc => ?_⟩
      rcases mem_append.mp hc with hc | hc
      · exact (ht c hc).imp_right .inl
      · split at hc
        · cases hc
        · rename_i h0
          obtain ⟨a,z,hz,hs⟩ := entry_trace sb ks y i (bn-NDIRECT)
          rw [if_neg h0]
          rcases hs c hc with hc | hc | hc
          · exact .inl hc
          · exact .inr (.inr ⟨a,z,hz,hc⟩)
          · exact .inr (.inl hc)
    · exact ⟨0,fun c hc => nomatch hc⟩

/-- The number of blocks that `n` bytes from offset `off` lie in. -/
def span (off n : ℕ) : ℕ := if n = 0 then 0 else (off+n-1)/BSIZE-off/BSIZE+1

lemma span_round (off : ℕ) {n : ℕ} (hn : 0 < n) :
    1+span (off+min n (BSIZE-off%BSIZE)) (n-min n (BSIZE-off%BSIZE)) ≤ span off n := by
  have hB : BSIZE = 1024 := rfl
  unfold span
  rw [if_neg (by omega : ¬n = 0),hB]
  split <;> omega

/-- Each round of the loop in `writei` logs at most two blocks beside those of the bitmap. -/
lemma writeLoop_few (src : ℕ → ℕ → List UInt8×Bool) (n fuel tot off : ℕ) (x : Data Store) :
    Few (sb.metas ks) (2*span off (n-tot)) (sb.logged.writeLoop src n fuel tot off x).trace := by
  induction fuel generalizing tot off x with
  | zero => exact .nil
  | succ fuel ih =>
    rw [Blocks.writeLoop]
    split
    · rename_i hlt
      have hspan := span_round off (Nat.sub_pos_of_lt hlt)
      obtain ⟨i,hi⟩ := bmap_trace sb ks x (off/BSIZE)
      cases hb : (sb.logged.bmap x (off/BSIZE)).result with
      | error e =>
        rw [Traced.bind_of_error hb]
        refine ⟨{i},by rw [card_singleton]; omega,fun c hc => ?_⟩
        rcases hi c hc with hc | hc | ⟨a,y,hy,-⟩
        · exact .inl hc
        · exact .inr (Finset.mem_singleton.mpr hc)
        · rw [hb] at hy
          cases hy
      | ok r =>
        obtain ⟨a,y⟩ := r
        rw [Traced.bind_of_ok hb]
        dsimp only
        have hround : ∀ c ∈ (sb.logged.bmap x (off/BSIZE)).trace,
            c ∈ sb.metas ks ∨ c ∈ ({i,a} : Finset ℕ) := by
          intro c hc
          rcases hi c hc with hc | rfl | ⟨a',y',hy,rfl⟩
          · exact .inl hc
          · exact .inr (Finset.mem_insert_self ..)
          · rw [hb] at hy
            cases hy
            exact .inr (Finset.mem_insert_of_mem (Finset.mem_singleton_self _))
        have hfew : Few (sb.metas ks) 2 (sb.logged.bmap x (off/BSIZE)).trace :=
          ⟨{i,a},card_le_two,hround⟩
        split
        · exact (hfew.append .nil (m := 0)).le (by omega)
        · split
          · have hone : Few (sb.metas ks) 2 ((sb.logged.bmap x (off/BSIZE)).trace++[a]) := by
              refine ⟨{i,a},card_le_two,fun c hc => ?_⟩
              rcases mem_append.mp hc with hc | hc
              · exact hround c hc
              · obtain rfl := List.mem_singleton.mp hc
                exact .inr (Finset.mem_insert_of_mem (Finset.mem_singleton_self _))
            have hrest := hone.append (ih (tot+min (n-tot) (BSIZE-off%BSIZE))
              (off+min (n-tot) (BSIZE-off%BSIZE)) ⟨y.d,y.st.setBlock a (Data.overwrite
                (y.st.block a) (off%BSIZE) (src tot (min (n-tot) (BSIZE-off%BSIZE))).1)⟩)
            rw [append_assoc] at hrest
            refine hrest.le ?_
            rw [← Nat.sub_sub]
            omega
          · exact (hfew.append .nil (m := 0)).le (by omega)
    · exact .nil

lemma writei_few (src : ℕ → ℕ → List UInt8×Bool) (off n : ℕ) (x : Data Store) :
    Few (sb.metas ks) (2*span off n) (sb.logged.writei src off n x).trace := by
  unfold Blocks.writei
  split
  · exact .nil
  · split
    · exact .nil
    · exact (writeLoop_few src n n 0 off x).bind (m := 0) fun _ _ => .nil

lemma writeData_few {f : Logged (ℤ×Data Store)} {n : ℕ} (hk : k ∈ ks)
    (h : Few (sb.metas ks) n f.trace) : Few (sb.metas ks) n (writeData sb k f).trace := by
  refine h.bind (m := 0) fun r _ => ?_
  dsimp only
  split
  · exact .of_mem (forall_mem_singleton.mpr (inode_mem hk))
  · exact .nil

lemma span_entry (m : ℕ) : span (m*DIRENT) DIRENT = 1 := by
  have hB : BSIZE = 1024 := rfl
  have hD : DIRENT = 16 := rfl
  rw [span,if_neg (by decide),hB,hD]
  omega

lemma writeEntry_few (x : Data Store) (e : Dirent) (m : ℕ) :
    Few (sb.metas ks) 2 (sb.logged.writeEntry x e (m*DIRENT)).trace := by
  have h : Few (sb.metas ks) (2*span (m*DIRENT) DIRENT) (sb.logged.writeEntry x e (m*DIRENT)).trace :=
    writei_few (Data.kernel e.encode) (m*DIRENT) DIRENT x
  rwa [span_entry] at h

lemma dirwrite_few (hf : x.Full) (ha : x.Aligned) (name : List UInt8) (inum : ℕ) :
    Few (sb.metas ks) 2 (sb.logged.dirwrite x name inum).trace := by
  unfold Blocks.dirwrite
  obtain ⟨m,hm,-⟩ := @Data.dirfree_spec sb x hf ha
  have hres : (sb.logged.dirfree (x.rounds 0) 0 x).result = .ok (m*DIRENT,x) := by
    rw [← hm]
    exact entryLoop_result ..
  have htrace : (sb.logged.dirfree (x.rounds 0) 0 x).trace = [] := entryLoop_trace hf ..
  rw [Traced.bind_of_ok hres,htrace]
  exact writeEntry_few x _ m

/-! Freeing blocks logs their bits only. -/

lemma bfree_trace {b : ℕ} (hb : b < sb.size) (st : Store) :
    ∀ c ∈ (bfree sb b st).trace, c ∈ sb.metas ks := by
  unfold bfree
  split
  · exact forall_mem_singleton.mpr (bitmap_mem hb)
  · exact fun c hc => nomatch hc

lemma freeAll_few (bs : List ℕ) (st : Store) (h : ∀ b ∈ bs, b ≠ 0 → b < sb.size) :
    Few (sb.metas ks) 0 (Blocks.freeAll (bfree sb) bs st).trace := by
  induction bs generalizing st with
  | nil => exact .nil
  | cons b bs ih =>
    have htail := fun st => ih st fun c hc => h c (mem_cons_of_mem _ hc)
    rw [Blocks.freeAll]
    split
    · exact htail st
    · rename_i h0
      exact (Few.of_mem (bfree_trace (h b mem_cons_self h0) st)).bind (m := 0) fun st _ => htail st

lemma itrunc_few (h : ∀ p, x.ptr p ≠ 0 → x.ptr p < sb.size) :
    Few (sb.metas ks) 0 (itrunc sb x).trace := by
  have hdirect : ∀ b ∈ Data.directs x.d, b ≠ 0 → b < sb.size := by
    intro b hb h0
    obtain ⟨j,-,rfl⟩ := mem_map.mp hb
    exact h (.addr j.castSucc) h0
  refine (freeAll_few _ x.st hdirect).bind (m := 0) fun st hst => ?_
  rw [freeAll_result] at hst
  dsimp only
  split
  · exact .nil
  · rename_i h0
    have hind : x.d.ind ≠ 0 := h0
    have hentry : ∀ b ∈ Data.indirects (st.block x.d.ind), b ≠ 0 → b < sb.size := by
      intro b hb hb0
      rw [Data.freeAll_block hst] at hb
      obtain ⟨j,hj,rfl⟩ := mem_map.mp hb
      have hp : x.ptr (.entry ⟨j,List.mem_range.mp hj⟩) = (x.st.block x.d.ind).word j :=
        if_neg hind
      rw [← hp]
      exact h _ (hp ▸ hb0)
    refine (freeAll_few _ st hentry).bind (m := 0) fun st' _ => ?_
    exact (Few.of_mem (bfree_trace (h (.addr (Fin.last NDIRECT)) h0) st')).bind (m := 0)
      fun _ _ => .nil

lemma truncate_few (hk : k ∈ ks) (h : ∀ p, x.ptr p ≠ 0 → x.ptr p < sb.size) :
    Few (sb.metas ks) 0 (truncate sb k x).trace :=
  (itrunc_few h).bind (m := 0) fun _ _ => .of_mem (forall_mem_singleton.mpr (inode_mem hk))

lemma release_few (hk : k ∈ ks) (h : ∀ p, x.ptr p ≠ 0 → x.ptr p < sb.size) :
    Few (sb.metas ks) 0 (release sb k x).trace :=
  (truncate_few hk h).bind (m := 0) fun _ _ => .of_mem (forall_mem_singleton.mpr (inode_mem hk))

end Logged
end Xv6.Fs
