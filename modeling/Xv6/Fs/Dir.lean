import Xv6.Fs.Own

/-! The entries of a directory. In a directory without holes the loops of `dirlookup`, `dirlink`
and `isdirempty` are functions of the list of its entries, and `writei` of an entry puts it into
the list. -/
namespace Xv6.Fs
open List
open Superblock (blocks_bread blocks_store blocks_logWrite)
open Function (update update_self update_of_ne)
namespace Data
variable {sb : Superblock} {D : ℕ → Dinode} {k : ℕ} {x y : Data Store} {a m : ℕ} {e : Dirent}

lemma block_lt {off : ℕ} (h : off < MAXFILE*BSIZE) : off/BSIZE < MAXFILE := by
  rwa [Nat.div_lt_iff_lt_mul (by decide)]

lemma bmap_full (hf : Full x) {off : ℕ} (h : off < x.d.size) :
    sb.blocks.bmap x (off/BSIZE) = .ok (x.ptr (dataPos (off/BSIZE)),x) := by
  refine bmap_of_ptr (block_lt (lt_of_lt_of_le h hf.size_le)) (hf.ptr_ne _ ?_)
  exact lt_of_le_of_lt (Nat.div_mul_le_self off BSIZE) h

lemma ptr_full (hf : Full x) (off : ℕ) (h : off < x.d.size) :
    x.ptr (dataPos (off/BSIZE)) ≠ 0 :=
  hf.ptr_ne _ (lt_of_le_of_lt (Nat.div_mul_le_self off BSIZE) h)

variable (sb) in
lemma readLoop_ok (hf : Full x) (out : ℕ → ℕ → Bool) (n fuel off : ℕ) (got : List UInt8)
    (h : off+(n-got.length) ≤ x.d.size) :
    ∃ ok l, sb.blocks.readLoop out n fuel off got x = .ok (ok,l,x) := by
  induction fuel generalizing off got with
  | zero => exact ⟨_,_,rfl⟩
  | succ fuel ih =>
    rw [Blocks.readLoop]
    split
    · rename_i hlt
      rw [bmap_full hf (by omega)]
      simp only [bind,Except.bind,pure,Except.pure,if_neg (ptr_full hf off (by omega)),blocks_bread]
      split
      · refine ih _ _ ?_
        have hlen : ∀ (b : Block) (o m : ℕ), (bytes b o m).length = m := by simp [bytes]
        rw [length_append,hlen]
        omega
      · exact ⟨_,_,rfl⟩
    · exact ⟨_,_,rfl⟩

variable (sb) in
lemma readi_ok (hf : Full x) (out : ℕ → ℕ → Bool) (off n : ℕ) :
    ∃ r l, sb.blocks.readi out off n x = .ok (r,l,x) := by
  unfold Blocks.readi
  split
  · exact ⟨_,_,rfl⟩
  · rename_i hoff
    obtain ⟨ok,l,hl⟩ := readLoop_ok sb hf out (if off+n > x.d.size then x.d.size-off else n)
      (if off+n > x.d.size then x.d.size-off else n) off []
      (by rw [length_nil]; split <;> omega)
    dsimp only
    rw [hl]
    exact ⟨_,_,rfl⟩

variable (sb) in
lemma readEntry_or (hf : Full x) (off : ℕ) (msg : String) :
    (∃ e, sb.blocks.readEntry x off msg = .ok (e,x)) ∨ sb.blocks.readEntry x off msg = .error msg := by
  obtain ⟨r,l,hr⟩ := readi_ok sb hf (fun _ _ => true) off DIRENT
  unfold Blocks.readEntry
  rw [hr]
  simp only [bind,Except.bind,pure,Except.pure]
  split
  · exact .inl ⟨_,rfl⟩
  · exact .inr rfl

variable (sb) in
lemma entryLoop_or (hf : Full x) {β : Type} (msg : String) (stop : Dirent → ℕ → Option β)
    (last : ℕ → β) (left off : ℕ) : (∃ b, sb.blocks.entryLoop msg stop last left off x = .ok (b,x)) ∨
      sb.blocks.entryLoop msg stop last left off x = .error msg := by
  induction left generalizing off with
  | zero => exact .inl ⟨_,rfl⟩
  | succ left ih =>
    rw [Blocks.entryLoop]
    rcases readEntry_or sb hf off msg with ⟨e,he⟩ | he
    · rw [he]
      simp only [bind,Except.bind,pure,Except.pure]
      split
      · exact .inl ⟨_,rfl⟩
      · exact ih _
    · rw [he]
      exact .inr rfl

/-- Entry `m` of a directory. -/
def entAt (x : Data Store) (m : ℕ) : Dirent :=
  .decode (bytes (x.st.block (x.ptr (dataPos (m*DIRENT/BSIZE)))) (m*DIRENT%BSIZE) DIRENT)

/-- The entries of a directory, in use or not. -/
def ents (x : Data Store) : List Dirent := (List.range (x.d.size/DIRENT)).map x.entAt

@[simp] lemma ents_length (x : Data Store) : x.ents.length = x.d.size/DIRENT := by simp [ents]

lemma entry_fits (m : ℕ) : m*DIRENT%BSIZE+DIRENT ≤ BSIZE := by
  simp only [DIRENT,BSIZE]
  omega

lemma bytes_length (b : Block) (o n : ℕ) : (bytes b o n).length = n := by simp [bytes]

lemma entry_le (h : m < x.d.size/DIRENT) : m*DIRENT+DIRENT ≤ x.d.size := by
  have h₁ := Nat.div_mul_le_self x.d.size DIRENT
  have h₂ : (m+1)*DIRENT ≤ x.d.size/DIRENT*DIRENT := Nat.mul_le_mul_right _ h
  rw [Nat.add_mul,Nat.one_mul] at h₂
  omega

variable (sb) in
lemma readLoop_entry (h0 : x.ptr (dataPos (m*DIRENT/BSIZE)) ≠ 0) (hbn : m*DIRENT/BSIZE < MAXFILE)
    (fuel : ℕ) : sb.blocks.readLoop (fun _ _ => true) DIRENT (fuel+1) (m*DIRENT) [] x =
      .ok (true,bytes (x.st.block (x.ptr (dataPos (m*DIRENT/BSIZE)))) (m*DIRENT%BSIZE) DIRENT,
        x) := by
  have hfit := entry_fits m
  have hpos : 0 < DIRENT := by decide
  have hmin : min DIRENT (BSIZE-m*DIRENT%BSIZE) = DIRENT := by omega
  rw [Blocks.readLoop,length_nil,if_pos hpos,bmap_of_ptr hbn h0]
  simp only [bind,Except.bind,pure,Except.pure,if_neg h0,blocks_bread,Nat.sub_zero,hmin,if_true,
    nil_append]
  cases fuel with
  | zero => rfl
  | succ fuel =>
    rw [Blocks.readLoop,if_neg (by rw [bytes_length]; omega)]
    rfl

lemma readEntry_at (h0 : x.ptr (dataPos (m*DIRENT/BSIZE)) ≠ 0) (hle : m*DIRENT+DIRENT ≤ x.d.size)
    (hsz : x.d.size ≤ MAXFILE*BSIZE) (msg : String) :
    sb.blocks.readEntry x (m*DIRENT) msg = .ok (x.entAt m,x) := by
  have hmax : MAXFILE*BSIZE < 2^32 := by decide
  have hpos : 0 < DIRENT := by decide
  have hloop := readLoop_entry sb h0 (block_lt (by omega)) (DIRENT-1)
  rw [show DIRENT-1+1 = DIRENT from rfl] at hloop
  unfold Blocks.readEntry Blocks.readi
  rw [if_neg (by rw [Nat.mod_eq_of_lt (by omega)]; omega)]
  simp only [if_neg (show ¬ m*DIRENT+DIRENT > x.d.size by omega),hloop,bind,Except.bind,pure,
    Except.pure,bytes_length,if_true]
  rfl

lemma readEntry_eq (hf : Full x) (h : m < x.d.size/DIRENT) (msg : String) :
    sb.blocks.readEntry x (m*DIRENT) msg = .ok (x.entAt m,x) := by
  have hle := entry_le h
  have hpos : 0 < DIRENT := by decide
  exact readEntry_at (ptr_full hf _ (by omega)) hle hf.size_le msg

/-- A loop over the entries as a function of the list of entries from offset `off` on. -/
def findEntry {β : Type} (stop : Dirent → ℕ → Option β) (last : ℕ → β) : List Dirent → ℕ → β
  | [],off => last off
  | e::es,off =>
    match stop e off with
    | some b => b
    | none => findEntry stop last es (off+DIRENT)

variable (sb) in
lemma entryLoop_eq (hf : Full x) {β : Type} (msg : String) (stop : Dirent → ℕ → Option β)
    (last : ℕ → β) (left : ℕ) (h : m+left = x.d.size/DIRENT) :
    sb.blocks.entryLoop msg stop last left (m*DIRENT) x =
      .ok (findEntry stop last (x.ents.drop m) (m*DIRENT),x) := by
  induction left generalizing m with
  | zero =>
    rw [drop_eq_nil_of_le (by rw [ents_length]; omega)]
    rfl
  | succ left ih =>
    have hm : m < x.ents.length := by rw [ents_length]; omega
    have hget : x.ents[m] = x.entAt m := by simp [ents]
    rw [Blocks.entryLoop,readEntry_eq hf (by omega),drop_eq_getElem_cons hm,hget,findEntry]
    simp only [bind,Except.bind,pure,Except.pure]
    cases stop (x.entAt m) (m*DIRENT) with
    | some b => rfl
    | none =>
      have hnext := ih (m := m+1) (by omega)
      rwa [Nat.add_mul,Nat.one_mul] at hnext

/-- A loop that has ended at an entry, or has run to the end. -/
lemma findEntry_cases {β : Type} (stop : Dirent → ℕ → Option β) (last : ℕ → β)
    (es : List Dirent) (off : ℕ) :
    (∃ m e b, es[m]? = some e ∧ stop e (off+m*DIRENT) = some b ∧
      findEntry stop last es off = b) ∨
    ((∀ m e, es[m]? = some e → stop e (off+m*DIRENT) = none) ∧
      findEntry stop last es off = last (off+es.length*DIRENT)) := by
  induction es generalizing off with
  | nil => exact .inr ⟨fun m e h => by simp at h,by simp [findEntry]⟩
  | cons c es ih =>
    rw [findEntry]
    cases hc : stop c off with
    | some b => exact .inl ⟨0,c,b,rfl,by simpa using hc,rfl⟩
    | none =>
      have hshift : ∀ m, off+DIRENT+m*DIRENT = off+(m+1)*DIRENT := fun m => by ring
      rcases ih (off+DIRENT) with ⟨m,e,b,h₁,h₂,h₃⟩ | ⟨h₁,h₂⟩
      · exact .inl ⟨m+1,e,b,h₁,hshift m ▸ h₂,h₃⟩
      · refine .inr ⟨fun m e hm => ?_,?_⟩
        · cases m with
          | zero =>
            rw [List.getElem?_cons_zero,Option.some.injEq] at hm
            subst hm
            simpa using hc
          | succ m => exact hshift m ▸ h₁ m e hm
        · rw [length_cons,← hshift]
          exact h₂

/-- The size of a directory is a multiple of the size of an entry. -/
def Aligned (x : Data Store) : Prop := DIRENT ∣ x.d.size

lemma Aligned.rounds (h : Aligned x) (m : ℕ) (hm : m ≤ x.d.size/DIRENT) :
    m+x.rounds (m*DIRENT) = x.d.size/DIRENT := by
  obtain ⟨n,hn⟩ := h
  have hD : DIRENT = 16 := rfl
  unfold Data.rounds
  rw [hn,hD] at hm ⊢
  omega

/-- An entry that `dirlookup` takes for `name`. -/
def Match (name : List UInt8) (e : Dirent) : Prop := e.inum ≠ 0 ∧ namecmp name e.name = 0

lemma dirlookup_spec (hf : Full x) (ha : Aligned x) (name : List UInt8) :
    ∃ o, sb.blocks.dirlookup name (x.rounds 0) 0 x = .ok (o,x) ∧
      ((o = none ∧ ∀ e ∈ x.ents, ¬Match name e) ∨
        ∃ m e, o = some (e.inum,m*DIRENT) ∧ x.ents[m]? = some e ∧ Match name e) := by
  have hloop := entryLoop_eq sb (m := 0) hf "dirlookup read"
    (fun e off => if e.inum ≠ 0 ∧ namecmp name e.name = 0 then some (some (e.inum,off)) else none)
    (fun _ => none) (x.rounds 0) (by simpa using ha.rounds 0 (Nat.zero_le _))
  rw [Nat.zero_mul,drop_zero] at hloop
  refine ⟨_,hloop,?_⟩
  rcases findEntry_cases (fun e off => if e.inum ≠ 0 ∧ namecmp name e.name = 0 then
      some (some (e.inum,off)) else none) (fun _ => none) x.ents 0 with
    ⟨m,e,b,h₁,h₂,h₃⟩ | ⟨h₁,h₂⟩
  · right
    split at h₂
    · rename_i hm
      refine ⟨m,e,?_,h₁,hm⟩
      rw [h₃,← Option.some.inj h₂,Nat.zero_add]
    · cases h₂
  · refine .inl ⟨h₂,fun e he hm => ?_⟩
    obtain ⟨m,hm'⟩ := List.getElem?_of_mem he
    have hnone := h₁ m e hm'
    simp only [if_pos (show e.inum ≠ 0 ∧ namecmp name e.name = 0 from hm)] at hnone
    cases hnone

/-- `dirlink` looks for an entry that is not in use, and goes to the end if there is none. -/
lemma dirfree_spec (hf : Full x) (ha : Aligned x) :
    ∃ m, sb.blocks.dirfree (x.rounds 0) 0 x = .ok (m*DIRENT,x) ∧ m ≤ x.ents.length ∧
      (∀ e, x.ents[m]? = some e → e.inum = 0) ∧
      (m = x.ents.length → ∀ e ∈ x.ents, e.inum ≠ 0) := by
  have hloop := entryLoop_eq sb (m := 0) hf "dirlink read"
    (fun e off => if e.inum = 0 then some off else none) id (x.rounds 0)
    (by simpa using ha.rounds 0 (Nat.zero_le _))
  rw [Nat.zero_mul,drop_zero] at hloop
  rcases findEntry_cases (fun e off => if e.inum = 0 then some off else none) id x.ents 0 with
    ⟨m,e,b,h₁,h₂,h₃⟩ | ⟨h₁,h₂⟩
  · split at h₂
    · rename_i he
      have hlt := (List.getElem?_eq_some_iff.mp h₁).1
      refine ⟨m,?_,hlt.le,?_,fun hm => absurd hm hlt.ne⟩
      · rw [Blocks.dirfree,hloop,h₃,← Option.some.inj h₂,Nat.zero_add]
      · intro e' he'
        rw [h₁,Option.some.injEq] at he'
        exact he' ▸ he
    · cases h₂
  · refine ⟨x.ents.length,?_,le_rfl,fun e he => ?_,fun _ e he h0 => ?_⟩
    · rw [Blocks.dirfree,hloop,h₂,Nat.zero_add]
      rfl
    · simp at he
    · obtain ⟨m,hm⟩ := List.getElem?_of_mem he
      have := h₁ m e hm
      rw [if_pos h0] at this
      cases this

variable (sb) in
lemma isdirempty_spec (hf : Full x) (ha : Aligned x) (h : 2 ≤ x.ents.length) :
    ∃ b, sb.blocks.isdirempty (x.rounds (2*DIRENT)) (2*DIRENT) x = .ok (b,x) ∧
      (b = true ↔ ∀ e ∈ x.ents.drop 2, e.inum = 0) := by
  have hloop := entryLoop_eq sb (m := 2) hf "isdirempty: readi"
    (fun e _ => if e.inum ≠ 0 then some false else none) (fun _ => true)
    (x.rounds (2*DIRENT)) (ha.rounds 2 (by rwa [← ents_length]))
  refine ⟨_,hloop,?_⟩
  rcases findEntry_cases (fun e _ => if e.inum ≠ 0 then some false else none) (fun _ => true)
      (x.ents.drop 2) (2*DIRENT) with ⟨m,e,b,h₁,h₂,h₃⟩ | ⟨h₁,h₂⟩
  · rw [h₃]
    split at h₂
    · rename_i he
      rw [← Option.some.inj h₂]
      refine ⟨fun hb => Bool.noConfusion hb,fun hall => ?_⟩
      exact absurd (hall e (mem_of_getElem? h₁)) he
    · cases h₂
  · rw [h₂]
    refine ⟨fun _ e he => ?_,fun _ => rfl⟩
    obtain ⟨m,hm⟩ := List.getElem?_of_mem he
    by_contra hne
    have := h₁ m e hm
    rw [if_pos hne] at this
    cases this

end Data

/-- An entry as the kernel writes it to the disk: it can be read back. -/
structure Dirent.Valid (e : Dirent) : Prop where
  inum_lt : e.inum < 65536
  name_len : e.name.length = DIRSIZ

lemma Dirent.Valid.length {e : Dirent} (h : e.Valid) : e.encode.length = DIRENT := by
  simp [Dirent.encode,h.name_len,DIRENT,DIRSIZ]

lemma Dirent.Valid.decode {e : Dirent} (h : e.Valid) : Dirent.decode e.encode = e := by
  have hlt := h.inum_lt
  have hnum : e.inum%256+256*(e.inum/256%256) = e.inum := by omega
  simp [Dirent.encode,Dirent.decode,hnum]

namespace Data
variable {sb : Superblock} {D : ℕ → Dinode} {k : ℕ} {x y : Data Store} {a m : ℕ} {e : Dirent}
variable {l : List UInt8}

end Data
end Xv6.Fs
