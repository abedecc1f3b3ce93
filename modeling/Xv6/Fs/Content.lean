import Xv6.Fs.Ownership

/-! Files as byte arrays. The content of a file without holes is a list of bytes; `readi` returns a
part of it and `writei` replaces one, whatever blocks they go through, and neither changes the
content of another file. -/
namespace Xv6.Fs
open List
open Function (update update_self update_of_ne update_eq_self)

namespace Data
variable {sb : Superblock} {D : ℕ → Dinode} {k : ℕ} {x y : Data Store} {i bn : ℕ}

/-- Byte `i` of a file. -/
def byteAt (x : Data Store) (i : ℕ) : UInt8 :=
  (x.st.block (x.ptr (dataPos (i/BSIZE)))).byte (i%BSIZE)

/-- The bytes of a file. -/
def content (x : Data Store) : List UInt8 := (List.range x.d.size).map x.byteAt

@[simp] lemma content_length (x : Data Store) : x.content.length = x.d.size := by simp [content]

variable {j m n off : ℕ}

/-- Bytes that a round of a loop copies lie in one block. -/
lemma div_add (h : j < BSIZE-off%BSIZE) :
    (off+j)/BSIZE = off/BSIZE ∧ (off+j)%BSIZE = off%BSIZE+j := by
  simp only [BSIZE] at *
  omega

lemma bytes_eq_byteAt (hm : m ≤ BSIZE-off%BSIZE) :
    bytes (x.st.block (x.ptr (dataPos (off/BSIZE)))) (off%BSIZE) m =
      (List.range m).map fun j => x.byteAt (off+j) := by
  refine map_congr_left fun j hj => ?_
  obtain ⟨h₁,h₂⟩ := div_add (lt_of_lt_of_le (mem_range.mp hj) hm)
  rw [byteAt,h₁,h₂]

lemma range_add_map {β : Type} (f : ℕ → β) (a b : ℕ) :
    (List.range (a+b)).map f = (List.range a).map f++(List.range b).map fun j => f (a+j) := by
  rw [range_add,map_append,map_map]
  rfl

/-! ### Reading -/

variable (sb) in
lemma readLoop_bytes (hf : Full x) (n fuel off : ℕ) (got : List UInt8) (hgot : got.length ≤ n)
    (hfuel : n-got.length ≤ fuel) (h : off+(n-got.length) ≤ x.d.size) :
    sb.blocks.readLoop (fun _ _ => true) n fuel off got x =
      .ok (true,got++(List.range (n-got.length)).map (fun j => x.byteAt (off+j)),x) := by
  induction fuel generalizing off got with
  | zero =>
    rw [show n-got.length = 0 by omega]
    simp [Blocks.readLoop,pure,Except.pure]
  | succ fuel ih =>
    rw [Blocks.readLoop]
    split
    · rename_i hlt
      have hmod : off%BSIZE < BSIZE := Nat.mod_lt _ (by decide)
      rw [bmap_full hf (by omega)]
      simp only [bind,Except.bind,pure,Except.pure,if_neg (ptr_full hf off (by omega)),if_true,
        Superblock.blocks_bread]
      generalize hm : min (n-got.length) (BSIZE-off%BSIZE) = m
      have hlen : (got++bytes (x.st.block (x.ptr (dataPos (off/BSIZE)))) (off%BSIZE) m).length =
          got.length+m := by rw [length_append,bytes_length]
      rw [ih _ _ (by omega) (by omega) (by omega),hlen,bytes_eq_byteAt (by omega),
        append_assoc,show n-got.length = m+(n-(got.length+m)) by omega,
        range_add_map fun j => x.byteAt (off+j)]
      simp only [Nat.add_assoc]
    · rw [show n-got.length = 0 by omega]
      simp [pure,Except.pure]

lemma wraps_iff (ho : off < 2^32) (hn : n < 2^32) : (off+n)%2^32 < off ↔ 2^32 ≤ off+n := by
  by_cases h : off+n < 2^32
  · rw [Nat.mod_eq_of_lt h]
    omega
  · rw [Nat.mod_eq_sub_mod (by omega),Nat.mod_eq_of_lt (by omega)]
    omega

variable (sb) in
/-- `readi` returns the bytes from `off` on, as far as there are any. -/
lemma readi_content (hf : Full x) (ho : off < 2^32) (hn : n < 2^32) :
    ∃ l, sb.blocks.readi (fun _ _ => true) off n x = .ok (l.length,l,x) ∧
      l = if 2^32 ≤ off+n then [] else (x.content.drop off).take n := by
  have hlen := content_length x
  unfold Blocks.readi
  simp only [wraps_iff ho hn]
  by_cases hw : 2^32 ≤ off+n
  · rw [if_pos (.inr hw),if_pos hw]
    exact ⟨[],rfl,rfl⟩
  · rw [if_neg hw]
    by_cases hoff : off > x.d.size
    · rw [if_pos (.inl hoff),drop_eq_nil_of_le (by omega)]
      exact ⟨[],rfl,take_nil.symm⟩
    · rw [if_neg (by tauto)]
      generalize hm : (if off+n > x.d.size then x.d.size-off else n) = m
      have hm' : m = min n (x.d.size-off) := by
        split_ifs at hm <;> omega
      rw [readLoop_bytes sb hf m m off [] (Nat.zero_le _) (by simp) (by simp; omega)]
      refine ⟨(List.range m).map fun j => x.byteAt (off+j),?_,?_⟩
      · simp [bind,Except.bind,pure,Except.pure]
      · refine ext_getElem (by simp; omega) fun j h₁ h₂ => ?_
        simp [content]

/-! ### Writing -/

/-- A source from which every copy succeeds. -/
def copy (b : ℕ → UInt8) (tot m : ℕ) : List UInt8×Bool := ((List.range m).map fun j => b (tot+j),true)

/-- `writei` copies a piece that starts `t` bytes into the source. -/
def Piece (off n t : ℕ) : Prop := t < n ∧ (t = 0 ∨ (off+t)%BSIZE = 0)

/-- The length of that piece. -/
def pieceLen (off n t : ℕ) : ℕ := min (n-t) (BSIZE-(off+t)%BSIZE)

/-- The pieces come from `b`, as a whole or not at all. -/
def Tidy (b : ℕ → UInt8) (src : ℕ → ℕ → List UInt8×Bool) (off n : ℕ) : Prop :=
  ∀ t, Piece off n t → src t (pieceLen off n t) = copy b t (pieceLen off n t) ∨
    src t (pieceLen off n t) = ([],false)

lemma tidy_kernel (l : List UInt8) (off : ℕ) : Tidy (l.getD · 0) (kernel l) off l.length := by
  intro t ht
  have hle : t+pieceLen off l.length t ≤ l.length := by
    have := ht.1
    unfold pieceLen
    omega
  refine .inl (Prod.ext (ext_getElem ?_ fun j h₁ h₂ => ?_) rfl)
  · simp only [kernel,copy,length_take,length_drop,length_map,length_range]
    omega
  · simp only [kernel,length_take,length_drop] at h₁
    simp [kernel,copy,getD_eq_getElem?_getD,getElem?_eq_getElem (show t+j < l.length by omega)]

lemma byte_overwrite_map (v : Block) (b : ℕ → UInt8) {o : ℕ} (hj : j < BSIZE) :
    (overwrite v o ((List.range m).map b)).byte j =
      if o ≤ j ∧ j < o+m then b (j-o) else v.byte j := by
  simp only [Block.byte,hj,dite_true,overwrite]
  by_cases h₁ : o ≤ j
  · by_cases h₂ : j < o+m
    · rw [if_pos h₁,if_pos ⟨h₁,h₂⟩,getD_eq_getElem?_getD,List.getElem?_eq_getElem (by simp; omega)]
      simp
    · rw [if_pos h₁,if_neg (by omega),getD_eq_getElem?_getD,List.getElem?_eq_none (by simp; omega)]
      rfl
  · rw [if_neg h₁,if_neg (by omega)]

lemma Ext.byteAt (h : Owned sb D k x) (he : Ext x y) (hi : i < MAXFILE*BSIZE)
    (h0 : x.ptr (dataPos (i/BSIZE)) ≠ 0) : y.byteAt i = x.byteAt i := by
  have hne : x.ptr (dataPos (i/BSIZE)) ≠ x.d.ind := fun heq =>
    dataPos_ne (block_lt hi) (h.ptr_inj (q := .addr (Fin.last NDIRECT)) h0 heq)
  rw [Data.byteAt,Data.byteAt,he.keep _ h0,he.frame _ (h.marked_ptr h0).2.2 hne]

lemma byteAt_setBlock (h : Owned sb D k x) (hbn : bn < MAXFILE) (v : Block) (hi : i < MAXFILE*BSIZE)
    (h0 : x.ptr (dataPos (i/BSIZE)) ≠ 0) :
    byteAt ⟨x.d,x.st.setBlock (x.ptr (dataPos bn)) v⟩ i =
      if i/BSIZE = bn then v.byte (i%BSIZE) else x.byteAt i := by
  rw [byteAt,(write_spec h hbn v).2.2]
  show (update x.st.block _ _ _).byte _ = _
  split_ifs with hb
  · rw [hb,update_self]
  · rw [update_of_ne fun heq => hb (dataPos_inj (block_lt hi) hbn (h.ptr_inj h0 heq)),byteAt]

lemma balloc_zero {st st' : Store} (h : Own sb D st) (hb : st.balloc sb = (0,st')) :
    st'.balloc sb = (0,st') := by
  rcases Store.balloc_cases hb with ⟨-,rfl⟩ | ⟨-,hfree,-⟩
  · exact hb
  · exact absurd rfl (h.free_ne hfree)

lemma addr_zero (h : Own sb D x.st) {j : Fin (NDIRECT+1)} (hx : sb.blocks.addr x j = .ok (0,y)) :
    y.st.balloc sb = (0,y.st) := by
  rcases hb : x.st.balloc sb with ⟨b,st⟩
  rw [addr_eq hb,Except.ok.injEq] at hx
  split_ifs at hx with h0 hb0
  · rw [← (Prod.mk.inj hx).2]
    exact balloc_zero h (hb0 ▸ hb)
  · exact absurd (Prod.mk.inj hx).1 hb0
  · exact absurd (Prod.mk.inj hx).1 h0

lemma entry_zero (h : Own sb D x.st) {ind : ℕ} (hx : sb.blocks.entry x ind j = .ok (0,y)) :
    y.st.balloc sb = (0,y.st) := by
  rcases hb : x.st.balloc sb with ⟨b,st⟩
  rw [entry_eq hb,Except.ok.injEq] at hx
  split_ifs at hx with h0 hb0
  · rw [← (Prod.mk.inj hx).2]
    exact balloc_zero h (hb0 ▸ hb)
  · exact absurd (Prod.mk.inj hx).1 hb0
  · exact absurd (Prod.mk.inj hx).1 h0

/-- `bmap` fails only when `balloc` has found no free block. -/
lemma bmap_zero (h : Owned sb D k x) (hx : sb.blocks.bmap x bn = .ok (0,y)) :
    y.st.balloc sb = (0,y.st) := by
  unfold Blocks.bmap at hx
  split_ifs at hx with h₁ h₂
  · exact addr_zero h.toOwn hx
  · obtain ⟨⟨ind,z⟩,ha⟩ : ∃ r, sb.blocks.addr x (Fin.last NDIRECT) = .ok r := ⟨_,addr_eq rfl _⟩
    rw [ha] at hx
    simp only [bind,Except.bind,pure,Except.pure] at hx
    split_ifs at hx with h0
    · subst h0
      rw [← (Prod.mk.inj (Except.ok.inj hx)).2]
      exact addr_zero h.toOwn ha
    · exact entry_zero (addr_spec h ha).1.toOwn hx
  · cases hx

lemma overwrite_nil (v : Block) (o : ℕ) : overwrite v o [] = v := by
  funext i
  simp [overwrite]

/-- The bytes that the loop of `writei` leaves when it has gone from `tot` to `tot'`. -/
structure Copied (b : ℕ → UInt8) (off tot tot' : ℕ) (x y : Data Store) : Prop where
  le : tot ≤ tot'
  new : ∀ i, off+tot ≤ i → i < off+tot' → y.byteAt i = b (i-off)
  old : ∀ i, i < MAXFILE*BSIZE → i < off+tot ∨ off+tot' ≤ i → x.ptr (dataPos (i/BSIZE)) ≠ 0 →
    y.byteAt i = x.byteAt i

variable {b : ℕ → UInt8}

lemma Copied.nothing {tot : ℕ} (h : Owned sb D k x) (he : Ext x y) : Copied b off tot tot x y :=
  ⟨le_rfl,fun i h₁ h₂ => by omega,fun i hi _ h0 => he.byteAt h hi h0⟩

/-- The loop of `writei` replaces the bytes that it counts, and stops early only when there is no
free block or a piece of the source cannot be copied. -/
lemma writeLoop_bytes {src : ℕ → ℕ → List UInt8×Bool}
    (hsrc : Tidy b src off n) (fuel tot : ℕ) (htot : n ≤ tot ∨ Piece off n tot)
    (h : Owned sb D k x) (hoff : off+n ≤ MAXFILE*BSIZE) (hfuel : n-tot ≤ fuel)
    {tot' off' : ℕ} (hw : sb.blocks.writeLoop src n fuel tot (off+tot) x = .ok (tot',off',y)) :
    Copied b off tot tot' x y ∧ (tot' < n → y.st.balloc sb = (0,y.st) ∨
      ∃ t, Piece off n t ∧ src t (pieceLen off n t) = ([],false)) := by
  induction fuel generalizing tot x D with
  | zero =>
    obtain ⟨rfl,-,rfl⟩ : tot = tot' ∧ off+tot = off' ∧ x = y := by
      simpa [Blocks.writeLoop,pure,Except.pure] using hw
    exact ⟨.nothing h (.refl x),fun hlt => by omega⟩
  | succ fuel ih =>
    rw [Blocks.writeLoop] at hw
    split at hw
    · rename_i hlt
      have hpiece : Piece off n tot := htot.resolve_left (by omega)
      have hbn : (off+tot)/BSIZE < MAXFILE := block_lt (by omega)
      obtain ⟨a,z,hb,hown,hext,hptr⟩ := bmap_spec h hbn
      rw [hb] at hw
      simp only [bind,Except.bind,pure,Except.pure,Superblock.blocks_bread,Superblock.blocks_store,
        Superblock.blocks_logWrite] at hw
      split at hw
      · rename_i ha
        obtain ⟨rfl,-,rfl⟩ : tot = tot' ∧ off+tot = off' ∧ z = y := by simpa using hw
        exact ⟨.nothing h hext,fun _ => .inl (bmap_zero h (ha ▸ hb))⟩
      · rename_i ha
        have hmod : (off+tot)%BSIZE < BSIZE := Nat.mod_lt _ (by decide)
        rw [show min (n-tot) (BSIZE-(off+tot)%BSIZE) = pieceLen off n tot from rfl] at hw
        rcases hsrc tot hpiece with hs | hs
        · rw [hs] at hw
          simp only [copy,if_true] at hw
          generalize hm : pieceLen off n tot = m at hw
          rw [pieceLen] at hm
          obtain ⟨v,hv⟩ : ∃ v, overwrite (z.st.block a) ((off+tot)%BSIZE)
            ((List.range m).map fun j => b (tot+j)) = v := ⟨_,rfl⟩
          rw [hv,Nat.add_assoc off tot m] at hw
          obtain ⟨hown',-,hsame⟩ := write_spec hown hbn v
          have hset := fun i hi h0 => byteAt_setBlock (i := i) hown hbn v hi h0
          rw [hptr] at hown' hsame hset
          have hnext : n ≤ tot+m ∨ Piece off n (tot+m) := by
            by_cases hend : n ≤ tot+m
            · exact .inl hend
            · refine .inr ⟨by omega,.inr ?_⟩
              rw [← Nat.add_assoc,show m = BSIZE-(off+tot)%BSIZE by omega]
              simp only [BSIZE] at *
              omega
          obtain ⟨hc,hfull⟩ := ih (tot+m) hnext hown' (by omega) hw
          have hz : z.ptr (dataPos ((off+tot)/BSIZE)) ≠ 0 := hptr ▸ ha
          -- the round itself, seen at a byte of its block
          have hround : ∀ i, i/BSIZE = (off+tot)/BSIZE → byteAt ⟨z.d,z.st.setBlock a v⟩ i =
              if off+tot ≤ i ∧ i < off+(tot+m) then b (i-off) else z.byteAt i := by
            intro i hi
            have hdm := Nat.div_add_mod i BSIZE
            have hdm' := Nat.div_add_mod (off+tot) BSIZE
            rw [hi] at hdm
            have hilt : i < MAXFILE*BSIZE := by
              rw [← Nat.div_lt_iff_lt_mul (by decide),hi]
              exact hbn
            rw [hset i hilt (hi ▸ hz),if_pos hi,← hv,
              byte_overwrite_map _ _ (Nat.mod_lt _ (by decide))]
            by_cases hin : off+tot ≤ i ∧ i < off+(tot+m)
            · rw [if_pos hin,if_pos (by omega),
                show tot+(i%BSIZE-(off+tot)%BSIZE) = i-off by omega]
            · rw [if_neg hin,if_neg (by omega),byteAt,hi,hptr]
          have hle := hc.le
          refine ⟨⟨by omega,fun i h₁ h₂ => ?_,fun i hi hout h0 => ?_⟩,hfull⟩
          · by_cases hnew : off+(tot+m) ≤ i
            · exact hc.new i hnew h₂
            · have hdiv := (div_add (show i-(off+tot) < BSIZE-(off+tot)%BSIZE by omega)).1
              rw [Nat.add_sub_cancel' h₁] at hdiv
              rw [hc.old i (by omega) (.inl (by omega)) (by rw [hsame,hdiv]; exact hz),hround i hdiv,
                if_pos ⟨h₁,by omega⟩]
          · have hz0 : z.ptr (dataPos (i/BSIZE)) ≠ 0 := by rwa [hext.keep _ h0]
            rw [hc.old i hi (by omega) (by rwa [hsame]),← hext.byteAt h hi h0]
            by_cases hdiv : i/BSIZE = (off+tot)/BSIZE
            · rw [hround i hdiv,if_neg (by omega)]
            · rw [hset i hi hz0,if_neg hdiv]
        · -- the copy fails before it has stored a byte
          rw [hs] at hw
          simp only [overwrite_nil,Bool.false_eq_true,if_false] at hw
          have hst : z.st.setBlock a (z.st.block a) = z.st := by
            simp [Store.setBlock]
          rw [hst] at hw
          obtain ⟨rfl,-,rfl⟩ : tot = tot' ∧ off+tot = off' ∧ z = y := by simpa using hw
          exact ⟨.nothing h hext,fun _ => .inr ⟨tot,hpiece,hs⟩⟩
    · obtain ⟨rfl,-,rfl⟩ : tot = tot' ∧ off+tot = off' ∧ x = y := by
        simpa [pure,Except.pure] using hw
      exact ⟨.nothing h (.refl x),fun hlt => by omega⟩

/-- A list of bytes after `w` has been stored at `off`. -/
def put (l : List UInt8) (off : ℕ) (w : List UInt8) : List UInt8 :=
  l.take off++w++l.drop (off+w.length)

@[simp] lemma put_nil (l : List UInt8) (off : ℕ) : put l off [] = l := by simp [put]

lemma length_put {l w : List UInt8} (ho : off ≤ l.length) :
    (put l off w).length = max l.length (off+w.length) := by
  simp only [put,length_append,length_take,length_drop]
  omega

lemma getElem?_put {l w : List UInt8} (ho : off ≤ l.length) (hi : i < off ∨ off+w.length ≤ i) :
    (put l off w)[i]? = l[i]? := by
  rw [put]
  rcases hi with hi | hi
  · rw [append_assoc,getElem?_append_left (by simp; omega),getElem?_take_of_lt hi]
  · rw [getElem?_append_right (by simp; omega),getElem?_drop]
    congr 1
    simp
    omega

lemma content_eq_put (hoff : off ≤ x.d.size) (hsize : y.d.size = max x.d.size (off+m))
    (hnew : ∀ i, off ≤ i → i < off+m → y.byteAt i = b (i-off))
    (hold : ∀ i, i < x.d.size → i < off ∨ off+m ≤ i → y.byteAt i = x.byteAt i) :
    y.content = put x.content off ((List.range m).map b) := by
  refine ext_getElem (by simp [put]; omega) fun i h₁ h₂ => ?_
  have hi : i < max x.d.size (off+m) := by rwa [content_length,hsize] at h₁
  simp only [put,content,getElem_map,getElem_range,getElem_append,length_append,
    length_take,length_map,length_range,getElem_take,getElem_drop]
  split_ifs with h h'
  · exact hold i (by omega) (.inl (by omega))
  · rw [hnew i (by omega) (by omega),show i-min off x.d.size = i-off by omega]
  · rw [hold i (by omega) (by omega),show off+m+(i-(min off x.d.size+m)) = i by omega]

/-- `writei` from a source whose pieces are copied as a whole or not at all: refused, or the bytes
that it reports are replaced. -/
lemma writei_content {src : ℕ → ℕ → List UInt8×Bool}
    (hsrc : Tidy b src off n) (ho : off < 2^32) (hn : n < 2^32)
    (h : Owned sb D k x) (hf : Full x) :
    ∃ r y, sb.blocks.writei src off n x = .ok (r,y) ∧ Owned sb (update D k y.d) k y ∧
      Grow x y ∧ Full y ∧
      if off > x.d.size ∨ 2^32 ≤ off+n ∨ MAXFILE*BSIZE < off+n then r = -1 ∧ y = x
      else ∃ m : ℕ, r = m ∧ m ≤ n ∧ (m < n → y.st.balloc sb = (0,y.st) ∨
          ∃ t, Piece off n t ∧ src t (pieceLen off n t) = ([],false)) ∧
        y.content = put x.content off ((List.range m).map b) ∧ y.d.size = max x.d.size (off+m) ∧
        ∀ i, i < MAXFILE*BSIZE → i < off ∨ off+m ≤ i → x.ptr (dataPos (i/BSIZE)) ≠ 0 →
          y.byteAt i = x.byteAt i := by
  obtain ⟨r,y,hw,hown,hg,hfull,-⟩ := writei_spec src off n h hf
  refine ⟨r,y,hw,hown,hg,hfull,?_⟩
  simp only [Blocks.writei,wraps_iff ho hn] at hw
  by_cases h₁ : off > x.d.size ∨ 2^32 ≤ off+n
  · rw [if_pos h₁] at hw
    obtain ⟨rfl,rfl⟩ := Prod.mk.inj (Except.ok.inj hw)
    rw [if_pos (by tauto)]
    exact ⟨rfl,rfl⟩
  · rw [if_neg h₁] at hw
    by_cases h₂ : off+n > MAXFILE*BSIZE
    · rw [if_pos h₂] at hw
      obtain ⟨rfl,rfl⟩ := Prod.mk.inj (Except.ok.inj hw)
      rw [if_pos (by tauto)]
      exact ⟨rfl,rfl⟩
    · rw [if_neg h₂] at hw
      rw [if_neg (by tauto)]
      obtain ⟨m,z,hl,-,hmn,hwr⟩ := writeLoop_spec src n n 0 off h (by omega) (Nat.zero_le n)
      have hfirst : n ≤ 0 ∨ Piece off n 0 := by
        by_cases hn0 : n = 0
        · exact .inl hn0.le
        · exact .inr ⟨by omega,.inl rfl⟩
      obtain ⟨hc,hend⟩ := writeLoop_bytes hsrc n 0 hfirst h (by omega) (by omega) hl
      rw [hl] at hw
      obtain ⟨rfl,rfl⟩ := Prod.mk.inj (Except.ok.inj hw)
      have hbyte : ∀ i, byteAt ⟨{ z.d with size := max z.d.size (off+(m-0)) },z.st⟩ i = z.byteAt i := by
        intro i
        rw [byteAt,byteAt,show ptr ⟨{ z.d with size := max z.d.size (off+(m-0)) },z.st⟩ _ = z.ptr _ from
          Store.ptr_congr rfl (fun _ => rfl) _]
      have hsize : max z.d.size (off+(m-0)) = max x.d.size (off+m) := by
        rw [hwr.size_eq,Nat.sub_zero]
      refine ⟨m,rfl,hmn,hend,content_eq_put (by omega) hsize (fun i h₁ h₂ => ?_) fun i hi hout => ?_,
        hsize,fun i hi hout h0 => ?_⟩
      · rw [hbyte,hc.new i h₁ h₂]
      · rw [hbyte,hc.old i (lt_of_lt_of_le hi hf.size_le) hout (ptr_full hf i hi)]
      · rw [hbyte,hc.old i hi hout h0]

end Data

/-! ### Sequences of writes -/

/-- The inodes and the blocks of a file system. -/
structure Files where
  inode : ℕ → Dinode
  store : Store

namespace Files
variable (sb : Superblock)

/-- What `readi` and `writei` of inode `k` work on. -/
def file (s : Files) (k : ℕ) : Data Store := ⟨s.inode k,s.store⟩

def content (s : Files) (k : ℕ) : List UInt8 := (s.file k).content

/-- The inode goes back to disk. -/
def iupdate (s : Files) (k : ℕ) (x : Data Store) : Files := ⟨update s.inode k x.d,x.st⟩

def readi (s : Files) (k off n : ℕ) : Except String (ℤ×List UInt8×Files) := do
  let (r,l,x) ← sb.blocks.readi (fun _ _ => true) off n (s.file k)
  return (r,l,s.iupdate k x)

def writei (s : Files) (k : ℕ) (b : ℕ → UInt8) (off n : ℕ) : Except String (ℤ×Files) := do
  let (r,x) ← sb.blocks.writei (Data.copy b) off n (s.file k)
  return (r,s.iupdate k x)

/-- A call of `writei` for an inode: the bytes at the source, the offset and the length. -/
structure Write where
  inum : ℕ
  bytes : ℕ → UInt8
  off : ℕ
  n : ℕ

/-- One call after the other, with their results. -/
def writes : List Write → Files → Except String (List ℤ×Files)
  | [],s => .ok ([],s)
  | w::ws,s => do
    let (r,s) ← s.writei sb w.inum w.bytes w.off w.n
    let (rs,s) ← writes ws s
    return (r::rs,s)

/-- What the files contain after calls with these results. -/
def expect : List Write → List ℤ → (ℕ → List UInt8) → ℕ → List UInt8
  | w::ws,r::rs,f => expect ws rs
      (update f w.inum (Data.put (f w.inum) w.off ((List.range r.toNat).map w.bytes)))
  | _,_,f => f

variable {sb} {s : Files} {k : ℕ}

lemma content_other {y : Data Store} {k' : ℕ} (hs : Image sb s.inode s.store) (hty : (s.inode k).type ≠ 0)
    (hg : Data.Grow (s.file k) y) (hk : k' ≠ k) (hk' : (s.inode k').type ≠ 0) :
    (s.iupdate k y).content k' = s.content k' := by
  have hd : (s.iupdate k y).inode k' = s.inode k' := update_of_ne hk _ _
  rw [content,content,file,hd]
  refine map_congr_left fun i hi => ?_
  have hi : i < (s.inode k').size := mem_range.mp hi
  have h0 := Data.ptr_full (hs.full k' hk') i hi
  show (y.st.block (Data.ptr ⟨s.inode k',y.st⟩ _)).byte _ = _
  rw [hg.ptr_other ⟨hs.own,rfl,hty⟩ hk hk',Data.byteAt]
  exact congrArg (Block.byte · _) (hg.block_other ⟨hs.own,rfl,hty⟩ hk hk' h0)

lemma iupdate_file (s : Files) (k : ℕ) (y : Data Store) : (s.iupdate k y).file k = y := by
  rw [file,show (s.iupdate k y).inode k = y.d from update_self _ _ _]
  rfl

/-- A file has been written: the file system is as well formed as before, and nothing but that file
has changed. -/
lemma grow {y : Data Store} (hs : Image sb s.inode s.store) (hty : (s.inode k).type ≠ 0)
    (hown : Own sb (update s.inode k y.d) y.st) (hg : Data.Grow (s.file k) y)
    (hf : Data.Full y) : Image sb (s.iupdate k y).inode (s.iupdate k y).store ∧
      (∀ k', ((s.iupdate k y).inode k').type = (s.inode k').type) ∧
      ∀ k', k' ≠ k → (s.iupdate k y).inode k' = s.inode k' := by
  have hinode : ∀ k', k' ≠ k → (s.iupdate k y).inode k' = s.inode k' := fun k' h =>
    update_of_ne h _ _
  have htype : ∀ k', ((s.iupdate k y).inode k').type = (s.inode k').type := by
    intro k'
    by_cases hk : k' = k
    · rw [hk,show (s.iupdate k y).inode k = y.d from update_self _ _ _]
      exact hg.type_eq
    · rw [hinode k' hk]
  refine ⟨⟨hown,fun k' hk' => ?_⟩,htype,hinode⟩
  by_cases hk : k' = k
  · subst hk
    show Data.Full ((s.iupdate k' y).file k')
    rwa [iupdate_file]
  · have hk' : (s.inode k').type ≠ 0 := htype k' ▸ hk'
    rw [hinode k' hk]
    exact (hs.full k' hk').congr (hg.ptr_other ⟨hs.own,rfl,hty⟩ hk hk')

lemma writei_content (b : ℕ → UInt8) {off n : ℕ} (ho : off < 2^32) (hn : n < 2^32)
    (hs : Image sb s.inode s.store) (hty : (s.inode k).type ≠ 0) :
    ∃ r t, s.writei sb k b off n = .ok (r,t) ∧ Image sb t.inode t.store ∧
      (∀ k', (t.inode k').type = (s.inode k').type) ∧
      (∀ k', k' ≠ k → (s.inode k').type ≠ 0 →
        t.content k' = s.content k' ∧ (t.inode k').size = (s.inode k').size) ∧
      t.content k = Data.put (s.content k) off ((List.range r.toNat).map b) ∧
      if off > (s.inode k).size ∨ 2^32 ≤ off+n ∨ MAXFILE*BSIZE < off+n then r = -1 ∧ t = s
      else 0 ≤ r ∧ r ≤ n ∧ (r < n → t.store.balloc sb = (0,t.store)) ∧
        (t.inode k).size = max (s.inode k).size (off+r.toNat) := by
  obtain ⟨r,y,hw,hown,hg,hf,hr⟩ := Data.writei_content (b := b) (x := s.file k)
    (fun _ _ => .inl rfl) ho hn ⟨hs.own,rfl,hty⟩ (hs.full k hty)
  have hself := iupdate_file s k y
  obtain ⟨himage,htype,hinode⟩ := grow hs hty hown.toOwn hg hf
  refine ⟨r,s.iupdate k y,by rw [writei,hw]; rfl,himage,htype,
    fun k' hk hk' => ⟨content_other hs hty hg hk hk',by rw [hinode k' hk]⟩,?_,?_⟩
  · rw [content,hself]
    split_ifs at hr with hc
    · rw [hr.1,hr.2]
      exact (Data.put_nil _ off).symm
    · obtain ⟨m,rfl,-,-,hcont,-⟩ := hr
      exact hcont
  · have hsize : (s.inode k).size = (s.file k).d.size := rfl
    rw [hsize]
    split_ifs at hr ⊢ with hc
    · refine ⟨hr.1,?_⟩
      rw [hr.2]
      show Files.mk (update s.inode k (s.inode k)) s.store = s
      rw [update_eq_self]
    · obtain ⟨m,rfl,hmn,hend,-,hsz,-⟩ := hr
      have hend' : m < n → y.st.balloc sb = (0,y.st) := by
        intro h
        rcases hend h with h | ⟨t,-,ht⟩
        · exact h
        · exact absurd (congrArg Prod.snd ht) nofun
      refine ⟨Int.natCast_nonneg m,by exact_mod_cast hmn,fun h => hend' (by exact_mod_cast h),?_⟩
      rw [Int.toNat_natCast,← hsz]
      exact congrArg (fun x : Data Store => x.d.size) hself

lemma readi_content {off n : ℕ} (ho : off < 2^32) (hn : n < 2^32)
    (hs : Image sb s.inode s.store) (hty : (s.inode k).type ≠ 0) :
    ∃ l, s.readi sb k off n = .ok (l.length,l,s) ∧
      l = if 2^32 ≤ off+n then [] else ((s.content k).drop off).take n := by
  obtain ⟨l,hr,hl⟩ := Data.readi_content sb (hs.full k hty) ho hn
  refine ⟨l,?_,hl⟩
  have hr : sb.blocks.readi (fun _ _ => true) off n (s.file k) = .ok (l.length,l,s.file k) := hr
  have hself : s.iupdate k (s.file k) = s := by
    show Files.mk (update s.inode k (s.inode k)) s.store = s
    rw [update_eq_self]
  rw [readi,hr]
  simp only [bind,Except.bind,pure,Except.pure,hself]

lemma expect_congr {P : ℕ → Prop} (ws : List Write) (rs : List ℤ) (f g : ℕ → List UInt8)
    (hws : ∀ w ∈ ws, P w.inum) (h : ∀ k, P k → f k = g k) (hk : P k) :
    expect ws rs f k = expect ws rs g k := by
  induction ws generalizing rs f g with
  | nil => exact h k hk
  | cons w ws ih =>
    cases rs with
    | nil => exact h k hk
    | cons r rs =>
      refine ih rs _ _ (fun v hv => hws v (mem_cons_of_mem _ hv)) fun k' hk' => ?_
      by_cases he : k' = w.inum
      · rw [he,update_self,update_self,h w.inum (hws w mem_cons_self)]
      · rw [update_of_ne he,update_of_ne he,h k' hk']

/-- After any sequence of writes the files contain what their results say. -/
lemma writes_content (ws : List Write) (hs : Image sb s.inode s.store)
    (hws : ∀ w ∈ ws, (s.inode w.inum).type ≠ 0 ∧ w.off < 2^32 ∧ w.n < 2^32) :
    ∃ rs t, writes sb ws s = .ok (rs,t) ∧ Image sb t.inode t.store ∧
      (∀ k, (t.inode k).type = (s.inode k).type) ∧
      ∀ k, (s.inode k).type ≠ 0 → t.content k = expect ws rs s.content k := by
  induction ws generalizing s with
  | nil => exact ⟨[],s,rfl,hs,fun _ => rfl,fun _ _ => rfl⟩
  | cons w ws ih =>
    obtain ⟨hty,ho,hn⟩ := hws w mem_cons_self
    obtain ⟨r,u,hw,hu,htype,hother,hcont,-⟩ := writei_content w.bytes ho hn hs hty
    obtain ⟨rs,t,ht,hi,htype',hexp⟩ := ih hu fun v hv => by
      rw [htype]
      exact hws v (mem_cons_of_mem _ hv)
    refine ⟨r::rs,t,?_,hi,fun k => (htype' k).trans (htype k),fun k hk => ?_⟩
    · rw [writes,hw]
      simp only [bind,Except.bind,pure,Except.pure,ht]
    · rw [hexp k (by rwa [htype]),expect]
      refine expect_congr (P := fun k => (s.inode k).type ≠ 0) ws rs _ _
        (fun v hv => (hws v (mem_cons_of_mem _ hv)).1) (fun k' hk' => ?_) hk
      by_cases he : k' = w.inum
      · rw [he,hcont,update_self]
      · rw [(hother k' he hk').1,update_of_ne he]

/-- Files behave as byte arrays. A `writei` whose source can be read is refused and changes nothing,
or replaces as many bytes as it reports, fewer than asked only when there is no free block, and
changes no other file; `readi` returns a part of the content; so reading after any sequence of
writes gives what was written last. -/
theorem files_are_byte_arrays (s : Files) (hs : Image sb s.inode s.store) :
    (∀ k b off n, (s.inode k).type ≠ 0 → off < 2^32 → n < 2^32 →
      ∃ r t, s.writei sb k b off n = .ok (r,t) ∧
        if off > (s.inode k).size ∨ 2^32 ≤ off+n ∨ off+n > MAXFILE*BSIZE then r = -1 ∧ t = s
        else 0 ≤ r ∧ r ≤ n ∧ (r < n → t.store.balloc sb = (0,t.store)) ∧
          t.content k = Data.put (s.content k) off ((List.range r.toNat).map b) ∧
          (t.inode k).size = max (s.inode k).size (off+r.toNat) ∧
          ∀ k', k' ≠ k → (s.inode k').type ≠ 0 →
            t.content k' = s.content k' ∧ (t.inode k').size = (s.inode k').size) ∧
    (∀ k off n, (s.inode k).type ≠ 0 → off < 2^32 → n < 2^32 →
      ∃ l, s.readi sb k off n = .ok (l.length,l,s) ∧
        l = if 2^32 ≤ off+n then [] else ((s.content k).drop off).take n) ∧
    ∀ ws : List Write, (∀ w ∈ ws, (s.inode w.inum).type ≠ 0 ∧ w.off < 2^32 ∧ w.n < 2^32) →
      ∃ rs t, writes sb ws s = .ok (rs,t) ∧
        ∀ k off n, (s.inode k).type ≠ 0 → off < 2^32 → n < 2^32 →
          ∃ l, t.readi sb k off n = .ok (l.length,l,t) ∧
            l = if 2^32 ≤ off+n then [] else ((expect ws rs s.content k).drop off).take n := by
  refine ⟨fun k b off n hty ho hn => ?_,fun k off n hty ho hn => readi_content ho hn hs hty,
    fun ws hws => ?_⟩
  · obtain ⟨r,t,hw,-,-,hother,hcont,hr⟩ := writei_content b ho hn hs hty
    refine ⟨r,t,hw,?_⟩
    split_ifs at hr ⊢ with hc
    · exact hr
    · exact ⟨hr.1,hr.2.1,hr.2.2.1,hcont,hr.2.2.2,hother⟩
  · obtain ⟨rs,t,hw,hi,htype,hexp⟩ := writes_content ws hs hws
    refine ⟨rs,t,hw,fun k off n hty ho hn => ?_⟩
    rw [← hexp k hty]
    exact readi_content ho hn hi (by rwa [htype])

/-- The root directory of a small image is extended by one byte, which is then read. -/
theorem files_are_byte_arrays_small : ∃ t : Files,
    writes smallSb [⟨ROOTINO,fun _ => 7,32,1⟩] ⟨smallDisk,smallStore⟩ = .ok ([1],t) ∧
    t.readi smallSb ROOTINO 32 1 = .ok (1,[7],t) := by
  have h := (files_are_byte_arrays ⟨smallDisk,smallStore⟩ small_image).2.2
    [⟨ROOTINO,fun _ => 7,32,1⟩] (by simp; decide)
  obtain ⟨rs,t,hw,hr⟩ := h
  have hrs : (writes smallSb [⟨ROOTINO,fun _ => 7,32,1⟩] ⟨smallDisk,smallStore⟩).map Prod.fst =
    .ok [1] := rfl
  rw [hw] at hrs
  obtain rfl : rs = [1] := Except.ok.inj hrs
  obtain ⟨l,hread,hl⟩ := hr ROOTINO 32 1 (by decide) (by decide) (by decide)
  have hlen : (content ⟨smallDisk,smallStore⟩ ROOTINO).length = 32 := Data.content_length _
  obtain rfl : l = [7] := by simpa [expect,Data.put,hlen] using hl
  exact ⟨t,hw,hread⟩

end Files
end Xv6.Fs
