import Xv6.Param

/-! The kernel's `printf` and what it calls. A character has the code of a byte, and strings end
before their NUL. Where the C code leaves its array or takes an argument of another type, there is no
result. -/
namespace Xv6.Printf
open List

/-- `digits[d]` -/
def digit (d : ℕ) : Char := "0123456789abcdef".toList.getD d '?'

/-- The loop of `printint` that fills `buf`, where `n` places are left. -/
def fill (base : ℕ) : ℕ → ℕ → Option (List Char)
  | 0,_ => none
  | n+1,x =>
    if x/base ≠ 0 then (fill base n (x/base)).map (digit (x%base)::·) else some [digit (x%base)]

def printint (xx : Int64) (base : ℕ) (sign : Bool) : Option (List Char) := do
  let neg := sign && decide (xx < 0)
  let x := if neg then -xx else xx
  let buf ← fill base 16 x.toUInt64.toNat
  if neg then
    if buf.length < 16 then return '-' :: buf.reverse else none
  else return buf.reverse

/-- The loop of `printptr`. -/
def nibbles : ℕ → UInt64 → List Char
  | 0,_ => []
  | n+1,x => digit (x >>> 60).toNat::nibbles n (x <<< 4)

def printptr (x : UInt64) : List Char := '0' :: 'x' :: nibbles 16 x

/-- The conversions of integers. -/
inductive Kind
  | d
  | u
  | x
  deriving DecidableEq

/-- An argument in the variable argument list. -/
inductive Arg
  | int (w : UInt32)
  | long (w : UInt64)
  | str (s : Option (List Char))
  deriving DecidableEq

inductive Conv
  | int (k : Kind)
  | long (k : Kind)
  | p
  | s
  | percent

/-- What follows the `%`, and the rest of the format. -/
def conversion : List Char → Option (Conv×List Char)
  | 'd' :: f => some (.int .d,f)
  | 'l' :: 'd' :: f => some (.long .d,f)
  | 'l' :: 'l' :: 'd' :: f => some (.long .d,f)
  | 'u' :: f => some (.int .u,f)
  | 'l' :: 'u' :: f => some (.long .u,f)
  | 'l' :: 'l' :: 'u' :: f => some (.long .u,f)
  | 'x' :: f => some (.int .x,f)
  | 'l' :: 'x' :: f => some (.long .x,f)
  | 'l' :: 'l' :: 'x' :: f => some (.long .x,f)
  | 'p' :: f => some (.p,f)
  | 's' :: f => some (.s,f)
  | '%' :: f => some (.percent,f)
  | _ => none

def Kind.base : Kind → ℕ
  | d | u => 10
  | x => 16

def Kind.sign : Kind → Bool
  | d => true
  | u | x => false

/-- `va_arg` and the output. Every `int` is widened with its sign. -/
def convert : Conv → List Arg → Option (List Char×List Arg)
  | .int k,.int w::a => (printint w.toInt32.toInt64 k.base k.sign).map (·,a)
  | .long k,.long w::a => (printint w.toInt64 k.base k.sign).map (·,a)
  | .p,.long w::a => some (printptr w,a)
  | .s,.str s::a => some (s.getD "(null)".toList,a)
  | .percent,a => some (['%'],a)
  | _,_ => none

/-- The loop of `printf`, which goes round at most `n` times: the output and the arguments left. -/
def printfFrom : ℕ → List Char → List Arg → Option (List Char×List Arg)
  | _,[],a => some ([],a)
  | 0,_::_,_ => none
  | n+1,c :: f,a =>
    if c ≠ '%' then (printfFrom n f a).map fun r => (c :: r.1,r.2)
    else
      match conversion f with
      | some (k,f) => do
        let (o,a) ← convert k a
        (printfFrom n f a).map fun r => (o++r.1,r.2)
      | none =>
        match f with
        | [] => some ([],a)
        | c :: f => (printfFrom n f a).map fun r => ('%' :: c :: r.1,r.2)

def printf (fmt : List Char) (a : List Arg) : Option (List Char×List Arg) :=
  printfFrom fmt.length fmt a

/-! ### `printint` -/

/-- The numeral of an integer. -/
def numeral (base : ℕ) (n : ℤ) : List Char :=
  if n < 0 then '-' :: base.toDigits n.natAbs else base.toDigits n.natAbs

lemma digit_eq {d : ℕ} (h : d < 16) : digit d = d.digitChar := by
  interval_cases d <;> rfl

lemma fill_eq {base : ℕ} (hb : 1 < base) (hb' : base ≤ 16) (n x : ℕ) :
    fill base n x =
      if (base.toDigits x).length ≤ n then some (base.toDigits x).reverse else none := by
  induction n generalizing x with
  | zero => rw [fill,if_neg (Nat.not_le.mpr Nat.length_toDigits_pos)]
  | succ n ih =>
    have hd : digit (x%base) = (x%base).digitChar :=
      digit_eq ((Nat.mod_lt x (by omega)).trans_le hb')
    rw [fill,hd]
    by_cases hx : x < base
    · rw [if_neg (not_not.mpr (Nat.div_eq_of_lt hx)),Nat.toDigits_of_lt_base hx,
        Nat.mod_eq_of_lt hx,if_pos (by simp)]
      rfl
    · have hle : base ≤ x := Nat.not_lt.mp hx
      rw [if_pos (Nat.div_pos hle (by omega)).ne',ih,Nat.toDigits_of_base_le hb hle]
      simp only [length_append,length_singleton,reverse_append,reverse_singleton,
        Nat.add_le_add_iff_right]
      split_ifs <;> rfl

/-- The value that `printint` is to print. -/
def value (xx : Int64) (sign : Bool) : ℤ := if sign then xx.toInt else xx.toUInt64.toNat

lemma toNat_toUInt64 (x : Int64) : (x.toUInt64.toNat : ℤ) = x.toInt%2^64 := by
  have hmod : x.toInt%2^64 = x.toBitVec.toNat%2^64 := by
    rw [← x.toInt_toBitVec,BitVec.toInt_eq_toNat_bmod]
    exact Int.bmod_emod
  have hlt : x.toBitVec.toNat < 2^64 := x.toBitVec.isLt
  change (x.toBitVec.toNat : ℤ) = _
  omega

lemma toNat_neg {x : Int64} (h : x.toInt < 0) : (-x).toUInt64.toNat = x.toInt.natAbs := by
  have hle := x.le_toInt
  have hn := toNat_toUInt64 (-x)
  have hmod : (-x).toInt%2^64 = -x.toInt%2^64 := by
    rw [Int64.toInt_neg]
    exact Int.bmod_emod
  omega

lemma printint_eq (xx : Int64) {base : ℕ} (hb : base = 10 ∨ base = 16) (sign : Bool) :
    printint xx base sign =
      if (numeral base (value xx sign)).length ≤ 16 then some (numeral base (value xx sign))
      else none := by
  have hfill := fill_eq (show 1 < base by omega) (by omega) 16
  have hlt : xx < 0 ↔ xx.toInt < 0 := by rw [Int64.lt_iff_toInt_lt,Int64.toInt_zero]
  have hneg : (sign && decide (xx < 0)) = true ↔ value xx sign < 0 := by
    cases sign with
    | false => simp [value]
    | true => simpa [value] using hlt
  rw [printint]
  by_cases hn : value xx sign < 0
  · have hs : sign = true := by
      cases sign with
      | false => exact absurd hn (by simp [value])
      | true => rfl
    have hv : value xx sign = xx.toInt := by rw [value,if_pos hs]
    rw [hv] at hn
    simp only [hneg.mpr (hv ▸ hn),if_true,hfill,toNat_neg hn,numeral,hv,if_pos hn,length_cons]
    by_cases hlen : (base.toDigits xx.toInt.natAbs).length ≤ 16
    · rw [if_pos hlen]
      simp only [Option.bind_eq_bind,Option.bind_some,length_reverse,reverse_reverse]
      rfl
    · rw [if_neg hlen,if_neg (by omega)]
      rfl
  · have hx : xx.toUInt64.toNat = (value xx sign).natAbs := by
      have h := toNat_toUInt64 xx
      have hle := xx.toInt_lt
      rw [value] at hn ⊢
      split_ifs at hn ⊢
      · norm_num at h hle
        omega
      · rfl
    simp only [Bool.eq_false_iff.mpr (mt hneg.mp hn),Bool.false_eq_true,if_false,hfill,hx,numeral,
      if_neg hn]
    split_ifs
    · simp
    · rfl

/-- `printint` emits the numeral without leaving its buffer exactly when the numeral, with its sign,
has at most 16 characters. -/
theorem printint_iff (xx : Int64) (base : ℕ) (hb : base = 10 ∨ base = 16) (sign : Bool) :
    printint xx base sign = some (numeral base (value xx sign)) ↔
      (numeral base (value xx sign)).length ≤ 16 := by
  rw [printint_eq xx hb sign]
  split_ifs with h
  · exact ⟨fun _ => h,fun _ => rfl⟩
  · exact ⟨nofun,fun h' => absurd h' h⟩

/-- The smallest number of 16 decimal digits. -/
theorem printint_sixteen : printint (10^15) 10 true = some "1000000000000000".toList :=
  (printint_iff (10^15) 10 (.inl rfl) true).mpr (by decide)

/-- One digit more is stored outside. -/
theorem printint_overflow : printint (10^16) 10 true = none ∧
    ¬printint (10^16) 10 true = some (numeral 10 (value (10^16) true)) := by
  have h : printint (10^16) 10 true = none := by decide +kernel
  exact ⟨h,by rw [h]; exact nofun⟩

/-! ### `printf` -/

/-- The 16-digit hexadecimal numeral. -/
def hex16 (n : ℕ) : List Char := (List.range 16).map fun i => (n/16^(15-i)%16).digitChar

/-- A character of the format that stands for itself, or a conversion with its argument. -/
inductive Piece
  | lit (c : Char)
  | int (k : Kind) (w : UInt32)
  | long (ll : Bool) (k : Kind) (w : UInt64)
  | ptr (w : UInt64)
  | str (s : Option (List Char))
  | percent

def Kind.char : Kind → Char
  | d => 'd'
  | u => 'u'
  | x => 'x'

namespace Piece

/-- The piece in the format string. -/
def fmt : Piece → List Char
  | lit c => [c]
  | int k _ => ['%',k.char]
  | long false k _ => ['%','l',k.char]
  | long true k _ => ['%','l','l',k.char]
  | ptr _ => ['%','p']
  | str _ => ['%','s']
  | percent => ['%','%']

/-- The arguments for it, in the types of C. -/
def args : Piece → List Arg
  | int _ w => [.int w]
  | long _ _ w => [.long w]
  | ptr w => [.long w]
  | str s => [.str s]
  | lit _ | percent => []

/-- What it is to print: for an integer, the numeral of the value in its own type. -/
def text : Piece → List Char
  | lit c => [c]
  | int k w => numeral k.base (if k.sign then w.toInt32.toInt else w.toNat)
  | long _ k w => numeral k.base (if k.sign then w.toInt64.toInt else w.toNat)
  | ptr w => '0' :: 'x' :: hex16 w.toNat
  | str s => s.getD "(null)".toList
  | percent => ['%']

/-- A literal character is neither the `%` that starts a conversion nor the NUL. -/
def Literal : Piece → Prop
  | lit c => c ≠ '%' ∧ c.toNat ≠ 0
  | _ => True

/-- An unsigned `int` is below 2^31, and a `long` has at most 16 characters. -/
def Fits : Piece → Prop
  | int k w => k.sign = true ∨ w.toNat < 2^31
  | long ll k w => (text (long ll k w)).length ≤ 16
  | _ => True

/-- What the code prints for it. -/
def print : Piece → Option (List Char)
  | lit c => some [c]
  | int k w => printint w.toInt32.toInt64 k.base k.sign
  | long _ k w => printint w.toInt64 k.base k.sign
  | ptr w => some (printptr w)
  | str s => some (s.getD "(null)".toList)
  | percent => some ['%']

end Piece

lemma nibbles_eq (n : ℕ) (x : UInt64) :
    nibbles n x = (List.range n).map fun i => (x.toNat*16^i%2^64/2^60).digitChar := by
  induction n generalizing x with
  | zero => rfl
  | succ n ih =>
    rw [nibbles,ih,range_succ_eq_map,map_cons,map_map]
    have hlt := x.toNat_lt
    refine congrArg₂ _ ?_ (map_congr_left fun i _ => ?_)
    · have h : (x >>> 60).toNat = x.toNat/2^60 := by simp [Nat.shiftRight_eq_div_pow]
      rw [h,digit_eq (by omega),pow_zero,Nat.mul_one,Nat.mod_eq_of_lt hlt]
    · have h : (x <<< 4).toNat = x.toNat*16%2^64 := by simp [Nat.shiftLeft_eq]
      rw [h,Function.comp_apply,Nat.succ_eq_add_one,pow_succ' 16 i,← Nat.mul_assoc,Nat.mod_mul_mod]

lemma printptr_eq (w : UInt64) : printptr w = '0' :: 'x' :: hex16 w.toNat := by
  rw [printptr,nibbles_eq,hex16]
  congr 2
  refine map_congr_left fun i hi => ?_
  have hlt := w.toNat_lt
  rw [mem_range] at hi
  interval_cases i <;> congr 1 <;> norm_num at hlt ⊢ <;> omega

section Pieces
variable {q : Piece} {ps : List Piece}

/-- What the code prints for a list of pieces. -/
def printAll : List Piece → Option (List Char)
  | [] => some []
  | q::ps => q.print.bind fun o => (printAll ps).map (o++·)

lemma printfFrom_piece (hq : q.Literal) (n : ℕ) (f : List Char) (a : List Arg) :
    printfFrom (n+1) (q.fmt++f) (q.args++a) =
      q.print.bind fun o => (printfFrom n f a).map fun r => (o++r.1,r.2) := by
  cases q with
  | lit c => exact if_pos hq.1
  | int k w => cases k <;> exact Option.bind_map
  | long ll k w => cases ll <;> cases k <;> exact Option.bind_map
  | ptr w => rfl
  | str s => rfl
  | percent => rfl

lemma printfFrom_eq (hlit : ∀ q ∈ ps, q.Literal) {n : ℕ} (hn : (ps.flatMap Piece.fmt).length ≤ n)
    (a : List Arg) : printfFrom n (ps.flatMap Piece.fmt) (ps.flatMap Piece.args++a) =
      (printAll ps).map (·,a) := by
  induction ps generalizing n with
  | nil => cases n <;> rfl
  | cons q ps ih =>
    have hpos : 0 < q.fmt.length := by
      cases q with
      | long ll k w => cases ll <;> exact Nat.succ_pos _
      | _ => exact Nat.succ_pos _
    rw [flatMap_cons,length_append] at hn
    obtain ⟨n,rfl⟩ := Nat.exists_eq_add_of_le' (show 1 ≤ n by omega)
    rw [flatMap_cons,flatMap_cons,append_assoc,
      printfFrom_piece (hlit q mem_cons_self),
      ih (fun q' h => hlit q' (mem_cons_of_mem _ h)) (by omega),printAll]
    cases q.print with
    | none => rfl
    | some o => cases printAll ps <;> rfl

lemma numeral_length_le {base : ℕ} (hb : 1 < base) {n : ℤ} (h : n.natAbs < base^15) :
    (numeral base n).length ≤ 16 := by
  have := (Nat.length_toDigits_le_iff hb (k := 15) (by norm_num)).mpr h
  rw [numeral]
  split_ifs
  · exact Nat.succ_le_succ this
  · exact this.trans (by norm_num)

/-- An `int` that is widened with its sign and then taken as unsigned. -/
lemma value_int (w : UInt32) : value w.toInt32.toInt64 false =
    if w.toNat < 2^31 then w.toNat else w.toNat+(2^64-2^32 : ℕ) := by
  have hlt := w.toNat_lt
  have h : w.toInt32.toInt = (w.toNat : ℤ).bmod (2^32) := w.toBitVec.toInt_eq_toNat_bmod
  rw [value,if_neg nofun,toNat_toUInt64,Int32.toInt_toInt64,h,Int.bmod]
  split_ifs <;> omega

lemma print_long (ll : Bool) (k : Kind) (w : UInt64) : (Piece.long ll k w).print =
    if (Piece.long ll k w).text.length ≤ 16 then some (Piece.long ll k w).text else none :=
  printint_eq w.toInt64 (by cases k <;> simp [Kind.base]) k.sign

lemma print_int (k : Kind) (w : UInt32) : (Piece.int k w).print =
    if (numeral k.base (value w.toInt32.toInt64 k.sign)).length ≤ 16 then
      some (numeral k.base (value w.toInt32.toInt64 k.sign)) else none :=
  printint_eq _ (by cases k <;> simp [Kind.base]) k.sign

/-- What fits is printed as it should be. -/
lemma Piece.Fits.print_eq (h : q.Fits) : q.print = some q.text := by
  cases q with
  | long ll k w => exact (print_long ll k w).trans (if_pos h)
  | ptr w => rw [Piece.print,printptr_eq,Piece.text]
  | int k w =>
    have hb : 1 < k.base := by cases k <;> decide
    have hv : value w.toInt32.toInt64 k.sign =
        if k.sign then w.toInt32.toInt else w.toNat := by
      by_cases hs : k.sign = true
      · rw [hs,value,if_pos rfl,Int32.toInt_toInt64]
        rfl
      · have hw := h.resolve_left hs
        rw [Bool.eq_false_iff.mpr hs,value_int,if_pos hw]
        rfl
    have hlen : (numeral k.base (value w.toInt32.toInt64 k.sign)).length ≤ 16 := by
      refine numeral_length_le hb ?_
      have h₁ := w.toInt32.le_toInt
      have h₂ := w.toInt32.toInt_lt
      have h₃ := w.toNat_lt
      have h₄ : 10^15 ≤ k.base^15 := by cases k <;> decide
      rw [hv]
      split_ifs <;> omega
    rw [print_int,if_pos hlen,hv,Piece.text]
  | _ => rfl

/-- What does not is not printed, or with too many digits. -/
lemma Piece.length_lt (h : ¬q.Fits) {o : List Char} (ho : q.print = some o) :
    q.text.length < o.length := by
  cases q with
  | long ll k w =>
    cases ho.symm.trans ((print_long ll k w).trans (if_neg h))
  | int k w =>
    obtain ⟨hs,hw⟩ := not_or.mp h
    have hlt := w.toNat_lt
    have hv := value_int w
    rw [if_neg hw] at hv
    rw [print_int,Bool.eq_false_iff.mpr hs,hv] at ho
    simp only [Piece.text,Bool.eq_false_iff.mpr hs,Bool.false_eq_true,if_false]
    have hn (n : ℕ) : numeral k.base n = k.base.toDigits n := if_neg (by omega)
    rw [hn] at ho
    rw [hn]
    cases k with
    | d => exact absurd rfl hs
    | u =>
      have hlen := mt (Nat.length_toDigits_le_iff (b := 10) (n := w.toNat+(2^64-2^32)) (k := 16)
        (by norm_num) (by norm_num)).mp (by omega)
      rw [Kind.base,if_neg hlen] at ho
      cases ho
    | x =>
      have hlen := mt (Nat.length_toDigits_le_iff (b := 16) (n := w.toNat+(2^64-2^32)) (k := 15)
        (by norm_num) (by norm_num)).mp (by omega)
      have hshort := (Nat.length_toDigits_le_iff (b := 16) (n := w.toNat) (k := 8)
        (by norm_num) (by norm_num)).mpr (by omega)
      rw [Kind.base] at ho ⊢
      split_ifs at ho
      cases ho
      omega
  | _ => exact absurd trivial h

/-- The output is never too short, and has the right length only if every piece fits. -/
lemma length_printAll {o : List Char} (ho : printAll ps = some o) :
    (ps.flatMap Piece.text).length ≤ o.length ∧
      ((ps.flatMap Piece.text).length = o.length → ∀ q ∈ ps, q.Fits) := by
  induction ps generalizing o with
  | nil => exact ⟨Nat.zero_le _,fun _ => nofun⟩
  | cons q ps ih =>
    obtain ⟨o₁,h₁,h₂⟩ := Option.bind_eq_some_iff.mp ho
    obtain ⟨o₂,h₃,rfl⟩ := Option.map_eq_some_iff.mp h₂
    obtain ⟨hle,hfit⟩ := ih h₃
    rw [flatMap_cons,length_append,length_append]
    by_cases hq : q.Fits
    · rw [hq.print_eq] at h₁
      cases h₁
      refine ⟨by omega,fun he => forall_mem_cons.mpr ⟨hq,hfit (by omega)⟩⟩
    · have := Piece.length_lt hq h₁
      exact ⟨by omega,fun he => absurd he (by omega)⟩

lemma printAll_of_fits (h : ∀ q ∈ ps, q.Fits) : printAll ps = some (ps.flatMap Piece.text) := by
  induction ps with
  | nil => rfl
  | cons q ps ih =>
    rw [printAll,(h q mem_cons_self).print_eq,ih fun q' hq' => h q' (mem_cons_of_mem _ hq')]
    rfl

end Pieces

/-- For a format of literal characters and conversions with arguments of their types, `printf` takes
one argument for each conversion and prints the text, exactly when every argument fits. -/
theorem printf_iff (ps : List Piece) (hlit : ∀ q ∈ ps, q.Literal) :
    (∀ rest, printf (ps.flatMap Piece.fmt) (ps.flatMap Piece.args++rest) =
      some (ps.flatMap Piece.text,rest)) ↔ ∀ q ∈ ps, q.Fits := by
  simp only [printf,printfFrom_eq hlit le_rfl]
  constructor
  · intro h
    obtain ⟨o,ho,he⟩ := Option.map_eq_some_iff.mp (h [])
    exact (length_printAll ho).2 (by rw [← (Prod.mk.inj he).1])
  · intro h rest
    rw [printAll_of_fits h]
    rfl

/-- `printf("%x%%", 0x7fffffff)` -/
theorem printf_largest : printf ['%','x','%','%'] [.int 0x7fffffff] =
    some ("7fffffff%".toList,[]) :=
  (printf_iff [.int .x 0x7fffffff,.percent] (by simp [Piece.Literal])).mpr
    (by simp [Piece.Fits]) []

/-- `printf("%x", 0x80000000)` prints 16 digits, and `printf("%u", 0x80000000)` leaves the buffer. -/
theorem printf_widened : printf ['%','x'] [.int 0x80000000] = some ("ffffffff80000000".toList,[]) ∧
    (Piece.int .x 0x80000000).text = "80000000".toList ∧
    printf ['%','u'] [.int 0x80000000] = none := by
  decide +kernel

end Xv6.Printf
