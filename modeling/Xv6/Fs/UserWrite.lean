import Xv6.Fs.Cached
import Xv6.Vm.Machine

/-! `writei` from user memory: `copyin` goes page by page, so that it can fail with a part of the
bytes already in the buffer. -/
namespace Xv6.Fs
open List
open Data
open Function (update)
open Vm (PGSIZE PGROUNDDOWN u64)

/-- A page table, as `walkaddr` sees it, and the memory. -/
structure User where
  walkaddr : ℕ → ℕ
  mem : ℕ → UInt8

namespace User
variable (u : User)

/-- The loop of `copyin`: what has been copied when it ends, and whether it succeeded. -/
def copyinFrom : ℕ → ℕ → ℕ → List UInt8×Bool
  | 0,_,_ => ([],true)
  | fuel+1,srcva,len =>
    if 0 < len then
      let va0 := PGROUNDDOWN srcva
      let pa0 := u.walkaddr va0
      if pa0 = 0 then ([],false)
      else
        let n := min len (PGSIZE-(srcva-va0))
        let (l,ok) := copyinFrom fuel (u64 (va0+PGSIZE)) (len-n)
        (Lib.slice u.mem (pa0+(srcva-va0)) n++l,ok)
    else ([],true)

def copyin (srcva len : ℕ) : List UInt8×Bool := u.copyinFrom len srcva len

/-- What `either_copyin` of `m` bytes from `src + tot` does. -/
def source (src tot m : ℕ) : List UInt8×Bool := u.copyin (u64 (src+tot)) m

/-- The byte at a mapped address. -/
def byte (va : ℕ) : UInt8 := u.mem (u.walkaddr (PGROUNDDOWN va)+(va-PGROUNDDOWN va))

end User

/-- What can happen to the cache after a call: a buffer is recycled, or the log is committed. -/
inductive Later
  | evict (b : ℕ)
  | commit

namespace Cache

/-- The pinned blocks go to their places on the disk. -/
def commit (c : Cache) : Cache where
  disk b := if c.pinned b then c.view b else c.disk b
  buf := c.buf
  pinned _ := false
  victims := c.victims

def later (c : Cache) : Later → Cache
  | .evict b => c.evict b
  | .commit => c.commit

variable {c : Cache}

lemma Coherent.commit (h : c.Coherent) : c.commit.Coherent ∧ c.commit.view = c.view := by
  refine ⟨fun b v hb _ => ?_,funext fun b => ?_⟩
  · have hb : c.buf b = some v := hb
    show v = if c.pinned b then c.view b else c.disk b
    split_ifs with hp
    · simp [view,hb]
    · exact h b v hb (by simpa using hp)
  · show (c.buf b).getD (if c.pinned b then c.view b else c.disk b) = (c.buf b).getD (c.disk b)
    cases hb : c.buf b with
    | none => simp [view,hb]
    | some v => rfl

lemma Coherent.later (h : c.Coherent) (es : List Later) :
    (es.foldl Cache.later c).Coherent ∧ (es.foldl Cache.later c).view = c.view := by
  induction es generalizing c with
  | nil => exact ⟨h,rfl⟩
  | cons e es ih =>
    have he : (c.later e).Coherent ∧ (c.later e).view = c.view := by
      cases e with
      | evict b => exact ⟨h.evict b,h.view_evict b⟩
      | commit => exact h.commit
    obtain ⟨h₁,h₂⟩ := ih he.1
    exact ⟨h₁,h₂.trans he.2⟩

end Cache

/-! ### Copies that are whole or nothing -/

/-- After a `writei` of inode `k` at `off` that returned `r`, the unpinned buffers are as the disk has
them, and a later `readi`, whatever is evicted or committed in between, finds every byte outside of
`[off, off+r)` as it was in `c`. -/
structure Keeps (sb : DiskSb) (c : Cache) (k off : ℕ) (r : ℤ) (x : Locked) : Prop where
  coherent : x.st.Coherent
  bytes : ∀ (es : List Later) (off' n' : ℕ), off' < 2^32 → n' < 2^32 →
    ∃ l₀ x₀ l₁ x₁, Locked.readi sb ⟨inodes sb c.view k,c⟩ off' n' = .ok (l₀.length,l₀,x₀) ∧
      Locked.readi sb ⟨x.d,es.foldl Cache.later x.st⟩ off' n' = .ok (l₁.length,l₁,x₁) ∧
      ∀ j, off'+j < off ∨ off+r.toNat ≤ off'+j → l₁[j]? = l₀[j]?

section Tear
variable {l : List UInt8} {o : ℕ}

variable {sb : DiskSb} {low : ℕ → Block} {bm : ℕ → Bool} {D D' : ℕ → Dinode} {k off t : ℕ}
variable {c : Cache} {x : Locked} {f y : Data Store} {r : ℤ}

end Tear

end Xv6.Fs
