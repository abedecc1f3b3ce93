import Xv6.Fs.Content
import Xv6.Fs.Room
import Xv6.Lib.Slots
import Mathlib.Data.List.TakeWhile

/-! A directory as a finite map. The entries in use map names, cut to `DIRSIZ` bytes, to inode
numbers; `dirlookup` reads this map, `dirlink` adds to it and the erasure that `sys_unlink` does
removes from it. -/
namespace Xv6.Fs
open List
open Superblock (blocks_bread blocks_store blocks_logWrite)
open Function (update update_eq_self)

open Lib (Slots.Distinct)

/-- The buffer `name` after `skipelem` has copied an element of a path to it: an element of
`DIRSIZ` bytes or more leaves no room for a zero byte. -/
def copyName (old elem : List UInt8) : List UInt8 :=
  if DIRSIZ ≤ elem.length then elem.take DIRSIZ else elem++0::old.drop (elem.length+1)

lemma takeWhile_eq_self {l : List UInt8} (h : 0 ∉ l) : l.takeWhile (· ≠ 0) = l := by
  rw [takeWhile_eq_self_iff]
  intro a ha
  have : a ≠ 0 := fun he => h (he ▸ ha)
  simpa using this

/-- The name that `namecmp` sees is the element, cut to `DIRSIZ` bytes. -/
lemma cut_copyName (old : List UInt8) {elem : List UInt8} (h : 0 ∉ elem) :
    cut (copyName old elem) = elem.take DIRSIZ := by
  unfold copyName cut
  split_ifs with hlen
  · rw [take_take,Nat.min_self]
    exact takeWhile_eq_self fun hm => h (mem_of_mem_take hm)
  · have hlt : elem.length < DIRSIZ := Nat.not_le.mp hlen
    have htake : (elem++0::old.drop (elem.length+1)).take DIRSIZ =
        elem++(0::old.drop (elem.length+1)).take (DIRSIZ-elem.length) := by
      rw [take_append,take_of_length_le hlt.le]
    obtain ⟨n,hn⟩ : ∃ n, DIRSIZ-elem.length = n+1 := ⟨DIRSIZ-elem.length-1,by omega⟩
    have hall : ∀ a ∈ elem, decide (a ≠ 0) = true := by
      intro a ha
      have : a ≠ 0 := fun he => h (he ▸ ha)
      simpa using this
    rw [htake,hn,take_succ_cons,takeWhile_append_of_pos hall,take_of_length_le hlt.le]
    simp

/-- What an entry stores: a key with an inode number, or nothing. -/
def Dirent.slot (e : Dirent) : Option (List UInt8×ℕ) :=
  if e.inum = 0 then none else some (cut e.name,e.inum)

variable {e : Dirent}

lemma Dirent.slot_eq_some {key : List UInt8} {i : ℕ} :
    e.slot = some (key,i) ↔ e.inum ≠ 0 ∧ cut e.name = key ∧ e.inum = i := by
  unfold slot
  split_ifs with h
  · simp [h]
  · simp [h]

lemma Dirent.slot_eq_none : e.slot = none ↔ e.inum = 0 := by
  simp [slot]

namespace Data
variable {sb : Superblock} {D : ℕ → Dinode} {k : ℕ} {x y : Data Store} {a m inum : ℕ}
variable {name l : List UInt8}

/-- The entries of a directory as a table of slots. -/
def slots (x : Data Store) : List (Option (List UInt8×ℕ)) := x.ents.map Dirent.slot

/-- The directory as a map from names to inode numbers. -/
def dirMap (x : Data Store) : List UInt8 → Option ℕ := Lib.Slots.lookup x.slots

lemma slots_get : x.slots[m]? = x.ents[m]?.map Dirent.slot := List.getElem?_map

/-- A directory as the kernel expects it. -/
structure Directory (x : Data Store) : Prop where
  full : Full x
  aligned : Aligned x
  distinct : Slots.Distinct x.slots

/-- There is an entry that is not in use, or the directory can be extended by one. -/
def HasRoom (sb : Superblock) (x : Data Store) : Prop :=
  (∃ e ∈ x.ents, e.inum = 0) ∨
    x.d.size+DIRENT ≤ MAXFILE*BSIZE ∧ x.missing (x.d.size/BSIZE) ≤ x.st.nfree sb

instance : Decidable (HasRoom sb x) := inferInstanceAs (Decidable (_ ∨ _))

lemma match_iff : Match name e ↔ e.slot = some (cut name,e.inum) := by
  rw [Match,namecmp_eq_zero,Dirent.slot_eq_some]
  constructor
  · rintro ⟨h₁,h₂⟩
    exact ⟨h₁,h₂.symm,rfl⟩
  · rintro ⟨h₁,h₂,-⟩
    exact ⟨h₁,h₂.symm⟩

variable (sb) in
/-- `dirlookup` returns the value of the map, and the offset of the entry that holds it. -/
lemma dirlookup_map (h : Directory x) (name : List UInt8) :
    ∃ o, sb.blocks.dirlookup name (x.rounds 0) 0 x = .ok (o,x) ∧ o.map Prod.fst = x.dirMap (cut name) ∧
      ∀ i off, o = some (i,off) →
        ∃ m, off = m*DIRENT ∧ x.slots[m]? = some (some (cut name,i)) := by
  obtain ⟨o,ho,hcases⟩ := @dirlookup_spec sb x h.full h.aligned name
  refine ⟨o,ho,?_⟩
  rcases hcases with ⟨rfl,hnone⟩ | ⟨m,e,rfl,hm,he⟩
  · refine ⟨?_,fun i off h => nomatch h⟩
    rw [Option.map_none,eq_comm,dirMap,Lib.Slots.lookup_eq_none]
    intro m i hm
    rw [slots_get] at hm
    obtain ⟨e,he,hs⟩ := Option.map_eq_some_iff.mp hm
    obtain ⟨h₁,h₂,-⟩ := Dirent.slot_eq_some.mp hs
    exact hnone e (mem_of_getElem? he) ⟨h₁,(namecmp_eq_zero _ _).mpr h₂.symm⟩
  · have hs : x.slots[m]? = some (some (cut name,e.inum)) := by
      rw [slots_get,hm,Option.map_some,match_iff.mp he]
    refine ⟨?_,fun i off h => ?_⟩
    · rw [Option.map_some,eq_comm]
      exact h.distinct.lookup_eq_some.mpr ⟨m,hs⟩
    · obtain ⟨rfl,rfl⟩ := Prod.mk.inj (Option.some.inj h)
      exact ⟨m,rfl,hs⟩

/-- `dirlink`: whether it succeeds. -/
def dirlink (sb : Superblock) (x : Data Store) (name : List UInt8) (inum : ℕ) :
    Except String (Bool×Data Store) := do
  let (o,x) ← sb.blocks.dirlookup name (x.rounds 0) 0 x
  -- the reference that dirlookup has got is put again
  if o.isSome then return (false,x)
  let (r,x) ← sb.blocks.dirwrite x name inum
  return (r = DIRENT,x)

lemma writeLoop_entry (hl : l.length = DIRENT) (fuel : ℕ)
    (hb : sb.blocks.bmap x (m*DIRENT/BSIZE) = .ok (a,y)) :
    sb.blocks.writeLoop (kernel l) DIRENT (fuel+1) 0 (m*DIRENT) x = .ok (if a = 0 then (0,m*DIRENT,y)
      else (DIRENT,m*DIRENT+DIRENT,
        ⟨y.d,y.st.setBlock a (overwrite (y.st.block a) (m*DIRENT%BSIZE) l)⟩)) := by
  have hfit := entry_fits m
  have hpos : 0 < DIRENT := by decide
  have hmin : min (DIRENT-0) (BSIZE-m*DIRENT%BSIZE) = DIRENT := by omega
  have hk : kernel l 0 DIRENT = (l,true) := by simp [kernel,← hl]
  rw [Blocks.writeLoop,if_pos hpos,hb]
  simp only [bind,Except.bind,pure,Except.pure,blocks_bread,blocks_store,blocks_logWrite,hmin,hk,
    if_true]
  split
  · rfl
  · cases fuel with
    | zero =>
      rw [Blocks.writeLoop,Nat.zero_add]
      rfl
    | succ fuel =>
      rw [Blocks.writeLoop,if_neg (by omega),Nat.zero_add]
      rfl

/-- `writei` of an entry is refused, or its loop runs one round. -/
lemma writeEntry_cases (h : Owned sb D k x) (hf : Full x) (he : e.Valid) (hm : m*DIRENT ≤ x.d.size)
    {r : ℤ} (hw : sb.blocks.writeEntry x e (m*DIRENT) = .ok (r,y)) :
    (MAXFILE*BSIZE < m*DIRENT+DIRENT ∧ r = -1) ∨ (m*DIRENT+DIRENT ≤ MAXFILE*BSIZE ∧
      ∃ a z, sb.blocks.bmap x (m*DIRENT/BSIZE) = .ok (a,z) ∧ r = if a = 0 then 0 else DIRENT) := by
  have hsz := hf.size_le
  have hmax : MAXFILE*BSIZE+DIRENT < 2^32 := by decide
  have hD : DIRENT = 16 := rfl
  unfold Blocks.writeEntry Blocks.writei at hw
  rw [if_neg (by rw [Nat.mod_eq_of_lt (by omega)]; omega)] at hw
  split_ifs at hw with hfit
  · exact .inl ⟨hfit,(Prod.mk.inj (Except.ok.inj hw)).1.symm⟩
  · obtain ⟨a,z,hb,-,-,-⟩ := bmap_spec h (block_lt (show m*DIRENT < MAXFILE*BSIZE by omega))
    refine .inr ⟨not_lt.mp hfit,a,z,hb,?_⟩
    have hloop := writeLoop_entry he.length (DIRENT-1) hb
    rw [show DIRENT-1+1 = DIRENT from rfl] at hloop
    rw [hloop] at hw
    split_ifs at hw ⊢
    · exact (Prod.mk.inj (Except.ok.inj hw)).1.symm
    · exact (Prod.mk.inj (Except.ok.inj hw)).1.symm

/-- `writei` of an entry at the end succeeds exactly when there is room for one more. -/
lemma writeEntry_end (h : Owned sb D k x) (hf : Full x) (he : e.Valid) (hm : x.d.size = m*DIRENT)
    {r : ℤ} (hw : sb.blocks.writeEntry x e (m*DIRENT) = .ok (r,y)) :
    r = DIRENT ↔ x.d.size+DIRENT ≤ MAXFILE*BSIZE ∧ x.missing (x.d.size/BSIZE) ≤ x.st.nfree sb := by
  rw [hm]
  rcases writeEntry_cases h hf he hm.ge hw with ⟨hlt,rfl⟩ | ⟨hle,a,z,hb,rfl⟩
  · exact iff_of_false (by decide) fun h => by omega
  · rw [← bmap_nfree h hb]
    split_ifs with ha
    · exact iff_of_false (by decide) fun h => h.2 ha
    · exact iff_of_true rfl ⟨hle,ha⟩

/-- `writei` of an entry at an existing entry or at the end stores its bytes; at the end it may
instead run out of blocks or of the largest file size. -/
lemma writeEntry_content (h : Owned sb D k x) (hf : Full x) (he : e.Valid)
    (hm : m ≤ x.ents.length) {r : ℤ} (hw : sb.blocks.writeEntry x e (m*DIRENT) = .ok (r,y)) :
    (r = DIRENT ∧ y.content = put x.content (m*DIRENT) e.encode) ∨
      (r ≠ DIRENT ∧ m = x.ents.length ∧ y.content = x.content) := by
  have hsz := hf.size_le
  have hmax : MAXFILE*BSIZE+DIRENT < 2^32 := by decide
  have hlen := he.length
  have hle : m*DIRENT ≤ x.d.size := (Nat.mul_le_mul_right _ (ents_length x ▸ hm)).trans
    (Nat.div_mul_le_self _ _)
  have hlast (h : ¬m*DIRENT+DIRENT ≤ x.d.size) : m = x.ents.length := by
    by_contra hne
    exact h (entry_le (by rw [← ents_length]; omega))
  obtain ⟨r',y',hw',-,-,-,hcont⟩ := writei_content (tidy_kernel e.encode (m*DIRENT)) (by omega)
    (by omega) h hf
  rw [hlen] at hw' hcont
  obtain ⟨rfl,rfl⟩ := Prod.mk.inj (Except.ok.inj (hw'.symm.trans hw))
  split_ifs at hcont with hc
  · exact .inr ⟨by rw [hcont.1]; decide,hlast (by omega),by rw [hcont.2]⟩
  · obtain ⟨j,rfl,-,-,hput,-⟩ := hcont
    rcases writeEntry_cases h hf he hle hw with ⟨hlt,-⟩ | ⟨-,a,z,hb,hr⟩
    · omega
    · split_ifs at hr with ha0
      · obtain rfl : j = 0 := by exact_mod_cast hr
        refine .inr ⟨by decide,hlast fun hle => ?_,by rw [hput]; exact put_nil _ _⟩
        have hlt : m*DIRENT < x.d.size := lt_of_lt_of_le (Nat.lt_add_of_pos_right (by decide)) hle
        rw [bmap_full hf hlt] at hb
        exact ptr_full hf (m*DIRENT) hlt ((Prod.mk.inj (Except.ok.inj hb)).1.trans ha0)
      · obtain rfl : j = DIRENT := by exact_mod_cast hr
        refine .inl ⟨rfl,?_⟩
        rw [hput,← hlen]
        exact congrArg _ (ext_getElem (by simp) fun i h₁ h₂ => by simp [h₂])

lemma entAt_eq (h : m < x.d.size/DIRENT) :
    x.entAt m = .decode ((x.content.drop (m*DIRENT)).take DIRENT) := by
  have hle := entry_le h
  have hfit := entry_fits m
  rw [entAt,bytes_eq_byteAt (by omega)]
  refine congrArg _ (ext_getElem ?_ fun j h₁ h₂ => ?_)
  · rw [length_map,length_range,length_take,length_drop,content_length]
    omega
  · simp [content]

lemma ents_congr (h : y.content = x.content) : y.ents = x.ents := by
  have hs : y.d.size = x.d.size := by rw [← content_length,h,content_length]
  rw [ents,hs]
  refine map_congr_left fun m hm => ?_
  have hm := mem_range.mp hm
  rw [entAt_eq (hs ▸ hm),entAt_eq hm,h]

/-- What `writei` of an entry does to the list of entries. -/
def putEnt (es : List Dirent) (m : ℕ) (e : Dirent) : List Dirent :=
  if m < es.length then es.set m e else es++[e]

lemma ents_eq_putEnt (hm : m ≤ x.ents.length) (hsz : y.ents.length = max x.ents.length (m+1))
    (he : y.entAt m = e) (hsame : ∀ i, i < x.ents.length → i ≠ m → y.entAt i = x.entAt i) :
    y.ents = putEnt x.ents m e := by
  have hget : ∀ (z : Data Store) (i : ℕ) (h : i < z.ents.length), z.ents[i] = z.entAt i := by
    intro z i h
    simp [ents]
  unfold putEnt
  split
  · rename_i hlt
    refine ext_getElem (by rw [length_set]; omega) fun i h₁ h₂ => ?_
    rw [length_set] at h₂
    rw [hget,getElem_set]
    split
    · rename_i him
      rw [← him,he]
    · rename_i him
      rw [hsame i h₂ (Ne.symm him),hget]
  · refine ext_getElem (by rw [length_append,length_singleton]; omega)
      fun i h₁ h₂ => ?_
    rw [hget,getElem_append]
    split
    · rename_i hi
      rw [hsame i hi (by omega),hget]
    · have him : i = m := by
        rw [length_append,length_singleton] at h₂
        omega
      simp [him,he]

lemma slots_putEnt {es : List Dirent} :
    (putEnt es m e).map Dirent.slot = Lib.Slots.put (es.map Dirent.slot) m e.slot := by
  unfold putEnt Lib.Slots.put
  rw [length_map]
  split_ifs
  · rw [map_set]
  · rw [map_append,map_singleton]

lemma ents_put (ha : Aligned x) (he : e.Valid) (hm : m ≤ x.ents.length)
    (hc : y.content = put x.content (m*DIRENT) e.encode) :
    Aligned y ∧ y.ents = putEnt x.ents m e := by
  obtain ⟨n,hn⟩ := ha
  have hlen := he.length
  have hl : x.ents.length = n := by rw [ents_length,hn,Nat.mul_div_cancel_left _ (by decide)]
  have ho : m*DIRENT ≤ x.content.length := by
    rw [content_length]
    simp only [DIRENT] at hn ⊢
    omega
  have hs : y.d.size = DIRENT*max n (m+1) := by
    rw [← content_length,hc,length_put ho,content_length,hlen]
    simp only [DIRENT] at hn ⊢
    omega
  have hy : y.d.size/DIRENT = max n (m+1) := by rw [hs,Nat.mul_div_cancel_left _ (by decide)]
  refine ⟨⟨_,hs⟩,ents_eq_putEnt hm (by rw [ents_length,hy,hl]) ?_ fun i hi hne => ?_⟩
  · rw [entAt_eq (by omega),hc,put,append_assoc,drop_append,length_take_of_le ho,← hlen]
    simp [he.decode]
  · rw [entAt_eq (by omega),entAt_eq (by rwa [← ents_length]),hc]
    refine congrArg _ (ext_getElem? fun j => ?_)
    rw [getElem?_take,getElem?_take,getElem?_drop,getElem?_drop]
    split_ifs with hj
    · refine getElem?_put ho ?_
      simp only [DIRENT] at hj hlen ⊢
      omega
    · rfl

lemma valid_strncpy (hi : inum < 65536) (name : List UInt8) :
    Dirent.Valid ⟨inum,strncpy DIRSIZ name⟩ := ⟨hi,strncpy_length _ _⟩

/-- The number of an inode in an entry has 16 bits. -/
lemma encode_mod (inum : ℕ) (name : List UInt8) :
    Dirent.encode ⟨inum%65536,name⟩ = Dirent.encode ⟨inum,name⟩ := by
  have h₁ : UInt8.ofNat (inum%65536) = UInt8.ofNat inum := by
    rw [← UInt8.toNat_inj,UInt8.toNat_ofNat',UInt8.toNat_ofNat']
    omega
  have h₂ : UInt8.ofNat (inum%65536/256) = UInt8.ofNat (inum/256) := by
    rw [← UInt8.toNat_inj,UInt8.toNat_ofNat',UInt8.toNat_ofNat']
    omega
  simp only [Dirent.encode,h₁,h₂]

lemma dirwrite_mod (x : Data Store) (name : List UInt8) (inum : ℕ) :
    sb.blocks.dirwrite x name (inum%65536) = sb.blocks.dirwrite x name inum := by
  simp only [Blocks.dirwrite,Blocks.writeEntry,encode_mod]

/-- `dirlink` after its check puts the entry into a free slot if there is room, and otherwise leaves
the directory as it is. -/
lemma dirwrite_slots (h : Owned sb D k x) (hf : Full x) (ha : Aligned x) (name : List UInt8) (inum : ℕ) :
    ∃ r y, sb.blocks.dirwrite x name inum = .ok (r,y) ∧ Owned sb (update D k y.d) k y ∧
      Grow x y ∧ Full y ∧ Aligned y ∧ (r = -1 → y = x) ∧ (r = DIRENT ↔ HasRoom sb x) ∧
      if r = DIRENT then ∃ m, m ≤ x.slots.length ∧ (∀ o, x.slots[m]? = some o → o = none) ∧
        y.slots = Lib.Slots.put x.slots m (Dirent.slot ⟨inum%65536,strncpy DIRSIZ name⟩)
      else y.content = x.content := by
  obtain ⟨m,hm,hle,hfree,hend⟩ := @dirfree_spec sb x hf ha
  have he := valid_strncpy (Nat.mod_lt inum (by decide : 0 < 65536)) name
  obtain ⟨r,y,hw,hown,hg,hfull,hsame⟩ := writei_spec
    (kernel (Dirent.encode ⟨inum%65536,strncpy DIRSIZ name⟩)) (m*DIRENT) DIRENT h hf
  have hw' : sb.blocks.writeEntry x ⟨inum%65536,strncpy DIRSIZ name⟩ (m*DIRENT) = .ok (r,y) := hw
  have hcases := writeEntry_content h hf he hle hw'
  have hslot : ∀ o, x.slots[m]? = some o → o = none := by
    intro o ho
    rw [slots_get] at ho
    obtain ⟨e,hem,rfl⟩ := Option.map_eq_some_iff.mp ho
    exact Dirent.slot_eq_none.mpr (hfree e hem)
  have hroom : r = DIRENT ↔ HasRoom sb x := by
    by_cases hml : m = x.ents.length
    · obtain ⟨n,hn⟩ := ha
      have hsize : x.d.size = m*DIRENT := by
        rw [hml,ents_length,hn,Nat.mul_div_cancel_left _ (by decide),Nat.mul_comm]
      rw [writeEntry_end h hf he hsize hw',HasRoom]
      refine ⟨.inr,fun hr => hr.resolve_left ?_⟩
      rintro ⟨e,he,h0⟩
      exact hend hml e he h0
    · have hlt : m < x.ents.length := by omega
      refine iff_of_true ?_ (.inl ⟨x.ents[m],getElem_mem hlt,hfree _ (getElem?_eq_getElem hlt)⟩)
      exact (hcases.resolve_right fun h => hml h.2.1).1
  have hres : sb.blocks.dirwrite x name inum = .ok (r,y) := by
    rw [← dirwrite_mod,Blocks.dirwrite,hm]
    exact hw
  rcases hcases with ⟨rfl,hput⟩ | ⟨hr,-,hcont⟩
  · obtain ⟨hal,hents⟩ := ents_put ha he hle hput
    refine ⟨_,y,hres,hown,hg,hfull,hal,hsame,hroom,?_⟩
    rw [if_pos rfl]
    refine ⟨m,by rw [slots,length_map]; exact hle,hslot,?_⟩
    rw [slots,hents,slots_putEnt]
    rfl
  · refine ⟨r,y,hres,hown,hg,hfull,?_,hsame,hroom,by rwa [if_neg hr]⟩
    rwa [Aligned,← content_length,hcont,content_length]

lemma slot_strncpy (hi : inum ≠ 0) (name : List UInt8) :
    Dirent.slot ⟨inum,strncpy DIRSIZ name⟩ = some (cut name,inum) := by
  rw [Dirent.slot_eq_some]
  exact ⟨hi,cut_strncpy name,rfl⟩

lemma Directory.congr (h : Directory x) (hf : Full y) (hc : y.content = x.content) : Directory y where
  full := hf
  aligned := by
    rw [Aligned,← content_length,hc,content_length]
    exact h.aligned
  distinct := by
    rw [slots,ents_congr hc]
    exact h.distinct

/-- `dirlink` fails exactly when the name is there or there is no room; then the map stays, and
otherwise the one binding is added. -/
lemma dirlink_map (h : Owned sb D k x) (hd : Directory x) (hi₀ : inum ≠ 0) (hi : inum < 65536)
    (name : List UInt8) :
    ∃ b y, x.dirlink sb name inum = .ok (b,y) ∧ Owned sb (update D k y.d) k y ∧
      Grow x y ∧ Directory y ∧
      (b = false ↔ x.dirMap (cut name) ≠ none ∨ ¬HasRoom sb x) ∧
      y.dirMap = if b then update x.dirMap (cut name) (some inum) else x.dirMap := by
  obtain ⟨o,ho,hmap,-⟩ := dirlookup_map sb hd name
  unfold dirlink
  rw [ho]
  simp only [bind,Except.bind,pure,Except.pure]
  cases o with
  | some p =>
    refine ⟨false,x,rfl,h.self,(Ext.refl x).grow,hd,?_,rfl⟩
    rw [← hmap]
    simp
  | none =>
    have hnone : x.dirMap (cut name) = none := hmap.symm
    obtain ⟨r,y,hw,hown,hg,hf,ha,-,hroom,hslots⟩ := dirwrite_slots h hd.full hd.aligned name inum
    rw [Nat.mod_eq_of_lt hi] at hslots
    simp only [Option.isSome_none,Bool.false_eq_true,if_false,hw]
    refine ⟨decide (r = DIRENT),y,rfl,hown,hg,?_⟩
    by_cases hr : r = DIRENT
    · rw [if_pos hr] at hslots
      obtain ⟨m,hm,hfree,hput⟩ := hslots
      rw [slot_strncpy hi₀] at hput
      obtain ⟨hdis,hlook⟩ := hd.distinct.insert hm hfree hnone inum
      refine ⟨⟨hf,ha,hput ▸ hdis⟩,?_,?_⟩
      · simp [hr,hnone,hroom.mp hr]
      · rw [dirMap,hput,hlook]
        simp [hr,dirMap]
    · rw [if_neg hr] at hslots
      have hsame : y.slots = x.slots := by rw [slots,ents_congr hslots,slots]
      refine ⟨⟨hf,ha,hsame ▸ hd.distinct⟩,?_,?_⟩
      · simp [hr,mt hroom.mpr hr]
      · rw [dirMap,hsame]
        simp [hr,dirMap]

/-- The erasure of an entry in use removes its binding. -/
lemma erase_map (h : Owned sb D k x) (hd : Directory x)
    {key : List UInt8} (hm : x.slots[m]? = some (some (key,inum))) :
    ∃ y, sb.blocks.writeEntry x .zero (m*DIRENT) = .ok ((DIRENT : ℤ),y) ∧
      Owned sb (update D k y.d) k y ∧ Grow x y ∧ Directory y ∧
      y.slots = Lib.Slots.put x.slots m none ∧ y.dirMap = update x.dirMap key none := by
  have hv : Dirent.zero.Valid := ⟨by decide,by decide⟩
  have hlt : m < x.ents.length := by
    have := (List.getElem?_eq_some_iff.mp hm).1
    rwa [slots,length_map] at this
  obtain ⟨r,y,hw,hown,hg,hfull,-⟩ := writei_spec (kernel Dirent.zero.encode) (m*DIRENT) DIRENT h
    hd.full
  rcases writeEntry_content h hd.full hv hlt.le hw with ⟨rfl,hput⟩ | ⟨-,hml,-⟩
  · obtain ⟨hal,hents⟩ := ents_put hd.aligned hv hlt.le hput
    have hslots : y.slots = Lib.Slots.put x.slots m none := by
      rw [slots,hents,slots_putEnt]
      rfl
    obtain ⟨hdis,hlook⟩ := hd.distinct.erase hm
    refine ⟨y,hw,hown,hg,⟨hfull,hal,hslots ▸ hdis⟩,hslots,?_⟩
    rw [dirMap,hslots,hlook]
    rfl
  · omega

end Data

/-! ### Sequences of operations on directories -/

/-- An operation on the directory with inode number `k`; `unlink` erases the entry that `dirlookup`
finds, as `sys_unlink` does. -/
inductive DirOp
  | lookup (k : ℕ) (name : List UInt8)
  | link (k : ℕ) (name : List UInt8) (inum : ℕ)
  | unlink (k : ℕ) (name : List UInt8)

namespace Files
variable (sb : Superblock) (s : Files)

def dirMap (k : ℕ) : List UInt8 → Option ℕ := (s.file k).dirMap

def dirlookup (k : ℕ) (name : List UInt8) : Except String (Option (ℕ×ℕ)×Files) := do
  if (s.inode k).type ≠ T_DIR then throw "dirlookup not DIR"
  let (o,x) ← sb.blocks.dirlookup name ((s.file k).rounds 0) 0 (s.file k)
  return (o,s.iupdate k x)

def dirlink (k : ℕ) (name : List UInt8) (inum : ℕ) : Except String (Bool×Files) := do
  if (s.inode k).type ≠ T_DIR then throw "dirlookup not DIR"
  let (b,x) ← (s.file k).dirlink sb name inum
  return (b,s.iupdate k x)

/-- `sys_unlink`'s `writei` of an empty entry. -/
def erase (k off : ℕ) : Except String Files := do
  let (r,x) ← sb.blocks.writeEntry (s.file k) .zero off
  if r ≠ DIRENT then throw "unlink: writei"
  return s.iupdate k x

def dirOp : DirOp → Except String Files
  | .lookup k name => do return (← s.dirlookup sb k name).2
  | .link k name inum => do return (← s.dirlink sb k name inum).2
  | .unlink k name => do
    match ← s.dirlookup sb k name with
    | (some (_,off),s) => s.erase sb k off
    | (none,s) => return s

def dirOps : List DirOp → Files → Except String Files
  | [],s => .ok s
  | op::ops,s => do dirOps ops (← s.dirOp sb op)

/-- The arguments are those of a call: an inode number is not zero and fits a `ushort`. -/
def DirOk : DirOp → Prop
  | .lookup k _ | .unlink k _ => (s.inode k).type = T_DIR
  | .link k _ inum => (s.inode k).type = T_DIR ∧ inum ≠ 0 ∧ inum < 65536

/-- All directories are as the kernel expects them. -/
def Directories : Prop := ∀ k, (s.inode k).type = T_DIR → (s.file k).Directory

variable {sb s} {k : ℕ} {t : Files}

lemma type_dir (h : (s.inode k).type = T_DIR) : (s.inode k).type ≠ 0 := by
  rw [h]
  decide

lemma iupdate_self (s : Files) (k : ℕ) : s.iupdate k (s.file k) = s := by
  show Files.mk (update s.inode k (s.inode k)) s.store = s
  rw [update_eq_self]

/-- What an operation on directory `k` leaves: the other directories stay as they are. -/
structure Kept (sb : Superblock) (s t : Files) (k : ℕ) : Prop where
  image : Image sb t.inode t.store
  dirs : t.Directories
  type_eq : ∀ k', (t.inode k').type = (s.inode k').type
  other : ∀ k', k' ≠ k → (s.inode k').type = T_DIR → t.dirMap k' = s.dirMap k'

section
variable (hs : Image sb s.inode s.store)
include hs

variable (hd : s.Directories)
include hd

lemma Kept.refl (k : ℕ) : Kept sb s s k :=
  ⟨hs,hd,fun _ => rfl,fun _ _ _ => rfl⟩

lemma Kept.of_grow {y : Data Store}
    (hty : (s.inode k).type = T_DIR) (hown : Own sb (update s.inode k y.d) y.st)
    (hg : Data.Grow (s.file k) y) (hy : y.Directory) : Kept sb s (s.iupdate k y) k := by
  obtain ⟨himage,htype,hinode⟩ := grow hs (type_dir hty) hown hg hy.full
  have hother : ∀ k', k' ≠ k → (s.inode k').type = T_DIR →
      ((s.iupdate k y).file k').ents = (s.file k').ents := fun k' hk hk' =>
    Data.ents_congr (content_other hs (type_dir hty) hg hk (type_dir hk'))
  refine ⟨himage,fun k' hk' => ?_,htype,fun k' hk hk' => ?_⟩
  · rw [htype] at hk'
    by_cases hk : k' = k
    · subst hk
      rwa [iupdate_file]
    · have hold := hd k' hk'
      have hsize : ((s.iupdate k y).file k').d.size = (s.file k').d.size := by
        show ((s.iupdate k y).inode k').size = _
        rw [hinode k' hk]
        rfl
      refine ⟨himage.full k' (by rw [htype]; exact type_dir hk'),?_,?_⟩
      · rw [Data.Aligned,hsize]
        exact hold.aligned
      · rw [Data.slots,hother k' hk hk']
        exact hold.distinct
  · rw [dirMap,dirMap,Data.dirMap,Data.slots,hother k' hk hk']
    rfl

lemma dirlookup_map (hty : (s.inode k).type = T_DIR) (name : List UInt8) :
    ∃ o, s.dirlookup sb k name = .ok (o,s) ∧ o.map Prod.fst = s.dirMap k (cut name) ∧
      ∀ i off, o = some (i,off) → ∃ m, off = m*DIRENT ∧
        (s.file k).slots[m]? = some (some (cut name,i)) ∧
        ∃ t, s.erase sb k off = .ok t ∧ Kept sb s t k ∧
          t.dirMap k = update (s.dirMap k) (cut name) none := by
  obtain ⟨o,ho,hmap,hoff⟩ := Data.dirlookup_map sb (hd k hty) name
  refine ⟨o,?_,hmap,fun i off hi => ?_⟩
  · rw [dirlookup,if_neg (not_not.mpr hty)]
    simp only [bind,Except.bind,pure,Except.pure,ho,iupdate_self]
  · obtain ⟨m,rfl,hm⟩ := hoff i off hi
    obtain ⟨y,hy,hown,hg,hdir,-,hlook⟩ := Data.erase_map (x := s.file k) ⟨hs.own,rfl,type_dir hty⟩
      (hd k hty) hm
    refine ⟨m,rfl,hm,s.iupdate k y,?_,.of_grow hs hd hty hown.toOwn hg hdir,?_⟩
    · rw [erase,hy]
      rfl
    · rw [dirMap,iupdate_file]
      exact hlook

lemma dirlink_map (hty : (s.inode k).type = T_DIR) (name : List UInt8) {inum : ℕ} (hi₀ : inum ≠ 0)
    (hi : inum < 65536) : ∃ b t, s.dirlink sb k name inum = .ok (b,t) ∧ Kept sb s t k ∧
      (b = false ↔ s.dirMap k (cut name) ≠ none ∨ ¬(s.file k).HasRoom sb) ∧
      t.dirMap k = if b then update (s.dirMap k) (cut name) (some inum) else s.dirMap k := by
  obtain ⟨b,y,hy,hown,hg,hdir,hb,hmap⟩ := Data.dirlink_map (x := s.file k)
    ⟨hs.own,rfl,type_dir hty⟩ (hd k hty) hi₀ hi name
  refine ⟨b,s.iupdate k y,?_,.of_grow hs hd hty hown.toOwn hg hdir,hb,?_⟩
  · rw [dirlink,if_neg (not_not.mpr hty)]
    simp only [bind,Except.bind,pure,Except.pure,hy]
  · rw [dirMap,iupdate_file]
    exact hmap

lemma dirOp_kept {op : DirOp} (hop : s.DirOk op) :
    ∃ t k, s.dirOp sb op = .ok t ∧ Kept sb s t k := by
  cases op with
  | lookup k name =>
    obtain ⟨o,ho,-⟩ := dirlookup_map hs hd hop name
    refine ⟨s,k,?_,.refl hs hd k⟩
    rw [dirOp,ho]
    rfl
  | link k name inum =>
    obtain ⟨hty,hi₀,hi⟩ := hop
    obtain ⟨b,t,ht,hkept,-⟩ := dirlink_map hs hd hty name hi₀ hi
    refine ⟨t,k,?_,hkept⟩
    rw [dirOp,ht]
    rfl
  | unlink k name =>
    obtain ⟨o,ho,-,herase⟩ := dirlookup_map hs hd hop name
    cases o with
    | none =>
      refine ⟨s,k,?_,.refl hs hd k⟩
      rw [dirOp,ho]
      rfl
    | some p =>
      obtain ⟨m,-,-,t,ht,hkept,-⟩ := herase p.1 p.2 rfl
      refine ⟨t,k,?_,hkept⟩
      rw [dirOp,ho]
      exact ht

end

lemma dirOps_kept (ops : List DirOp) (hs : Image sb s.inode s.store) (hd : s.Directories)
    (hops : ∀ op ∈ ops, s.DirOk op) : ∃ t, dirOps sb ops s = .ok t ∧ Image sb t.inode t.store ∧
      t.Directories ∧ ∀ k, (t.inode k).type = (s.inode k).type := by
  induction ops generalizing s with
  | nil => exact ⟨s,rfl,hs,hd,fun _ => rfl⟩
  | cons op ops ih =>
    obtain ⟨u,k,hu,hkept⟩ := dirOp_kept hs hd (hops op mem_cons_self)
    obtain ⟨t,ht,himage,hdirs,htype⟩ := ih hkept.image hkept.dirs fun op' hop' => by
      have := hops op' (mem_cons_of_mem _ hop')
      cases op' <;> simpa only [DirOk,hkept.type_eq] using this
    refine ⟨t,?_,himage,hdirs,fun k => (htype k).trans (hkept.type_eq k)⟩
    rw [dirOps,hu]
    exact ht

/-- A directory is a finite map. After any sequence of operations on directories no name is in two
entries; `dirlookup` returns the value of the map and the offset of the entry that holds it, and the
erasure of this entry removes the one binding; `dirlink` fails, with the map unchanged, exactly when
the name is there or the directory cannot hold one more entry, and adds the one binding otherwise.
Names of elements are the same key exactly when their first `DIRSIZ` bytes agree, whatever the
buffer held before. -/
theorem directory_is_map (s : Files) (hs : Image sb s.inode s.store) (hd : s.Directories)
    (ops : List DirOp) (hops : ∀ op ∈ ops, s.DirOk op) :
    (∃ t, dirOps sb ops s = .ok t ∧ ∀ k, (s.inode k).type = T_DIR →
      (∀ (m n : ℕ) key i j, (t.file k).slots[m]? = some (some (key,i)) →
        (t.file k).slots[n]? = some (some (key,j)) → m = n) ∧
      (∀ name, ∃ o, t.dirlookup sb k name = .ok (o,t) ∧ o.map Prod.fst = t.dirMap k (cut name) ∧
        ∀ i off, o = some (i,off) → ∃ m, off = m*DIRENT ∧
          (t.file k).slots[m]? = some (some (cut name,i)) ∧
          ∃ u, t.erase sb k off = .ok u ∧
            u.dirMap k = update (t.dirMap k) (cut name) none ∧
            ∀ k', k' ≠ k → (s.inode k').type = T_DIR → u.dirMap k' = t.dirMap k') ∧
      ∀ name inum, inum ≠ 0 → inum < 65536 → ∃ b u, t.dirlink sb k name inum = .ok (b,u) ∧
        (b = false ↔ t.dirMap k (cut name) ≠ none ∨ ¬(t.file k).HasRoom sb) ∧
        u.dirMap k = (if b then update (t.dirMap k) (cut name) (some inum)
          else t.dirMap k) ∧
        ∀ k', k' ≠ k → (s.inode k').type = T_DIR → u.dirMap k' = t.dirMap k') ∧
    ∀ a b old old' : List UInt8, 0 ∉ a → 0 ∉ b →
      (cut (copyName old a) = cut (copyName old' b) ↔ a.take DIRSIZ = b.take DIRSIZ) := by
  refine ⟨?_,fun a b old old' ha hb => by rw [cut_copyName old ha,cut_copyName old' hb]⟩
  obtain ⟨t,ht,himage,hdirs,htype⟩ := dirOps_kept ops hs hd hops
  refine ⟨t,ht,fun k hk => ?_⟩
  have hkt : (t.inode k).type = T_DIR := (htype k).trans hk
  refine ⟨(hdirs k hkt).distinct,fun name => ?_,fun name inum hi₀ hi => ?_⟩
  · obtain ⟨o,ho,hmap,hoff⟩ := dirlookup_map himage hdirs hkt name
    refine ⟨o,ho,hmap,fun i off hi => ?_⟩
    obtain ⟨m,hm,hslot,u,hu,hkept,hlook⟩ := hoff i off hi
    exact ⟨m,hm,hslot,u,hu,hlook,fun k' hk' hty => hkept.other k' hk' ((htype k').trans hty)⟩
  · obtain ⟨b,u,hu,hkept,hb,hmap⟩ := dirlink_map himage hdirs hkt name hi₀ hi
    exact ⟨b,u,hu,hb,hmap,fun k' hk' hty => hkept.other k' hk' ((htype k').trans hty)⟩

lemma small_slots : (file ⟨smallDisk,smallStore⟩ ROOTINO).slots =
    [some ([46],ROOTINO),some ([46,46],ROOTINO)] := by
  decide +kernel

lemma small_directories : (⟨smallDisk,smallStore⟩ : Files).Directories := by
  intro k hk
  have hroot : k = ROOTINO := by
    by_contra hne
    have hk' : (smallDisk k).type = T_DIR := hk
    rw [smallDisk,if_neg hne] at hk'
    exact absurd hk' (by decide)
  subst hroot
  refine ⟨small_image.full ROOTINO (by decide),show DIRENT ∣ 32 by decide,?_⟩
  rw [small_slots]
  rintro (_ | _ | m) (_ | _ | n) key i j hm hn
  all_goals simp_all

theorem directory_is_map_small : ∃ t, dirOps smallSb [.link ROOTINO [97] 2,.unlink ROOTINO [46]]
    ⟨smallDisk,smallStore⟩ = .ok t ∧ ∃ o, t.dirlookup smallSb ROOTINO [97] = .ok (o,t) ∧
      o.map Prod.fst = t.dirMap ROOTINO (cut [97]) := by
  obtain ⟨⟨t,ht,h⟩,-⟩ := directory_is_map ⟨smallDisk,smallStore⟩ small_image
    small_directories [.link ROOTINO [97] 2,.unlink ROOTINO [46]] (by
      intro op hop
      rcases mem_cons.mp hop with rfl | hop
      · exact ⟨rfl,by decide,by decide⟩
      · obtain rfl := mem_singleton.mp hop
        exact rfl)
  obtain ⟨-,hlookup,-⟩ := h ROOTINO rfl
  obtain ⟨o,ho,hmap,-⟩ := hlookup [97]
  exact ⟨t,ht,o,ho,hmap⟩

end Files
end Xv6.Fs
