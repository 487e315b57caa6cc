import Mathlib.Data.Nat.Digits.Defs
import Mathlib.Data.UInt

/-!
# Printing and reading integers (`console.c`, `printf.c`, `ulib.c`)

The kernel's `cprintf` and the user library's `printf` print `%d` and `%x` with a `printint`
of their own: the two differ only in their digit tables (`abcdef` in the kernel, `ABCDEF` in
user space) and in how they spell the sign test, so both are `printintWith` applied to their
table. `printint` turns a signed argument negative only when its sign flag is set, fills
`char buf[16]` with the digits from the last to the first, adds the `-`, and prints the buffer
backwards. `atoi` reads the decimal digits at the start of a string back.

The digits go out as characters, one `consputc` or `putc` each. `int` arithmetic is `Int32`,
`uint` is `UInt32`, and `-xx` wraps as the compiled code does, so `INT_MIN` stays `INT_MIN` and
reads as `2^31` unsigned.

## Main definitions

* `digitLoop`, `printintWith`: the digit loop and the body of both `printint`s.
* `Console.printint`, `Printf.printint`: the kernel's and the user library's.
* `atoi`: `atoi` of `ulib.c`.
* `canonical`: the digits of an `int` read signed or unsigned, as `Nat.toDigits` writes them.

## Main results

* `digitLoop_eq`: the digit loop yields the digits of its argument, the last first.
* `printint_canonical`: both `printint`s print the canonical digits within the sixteen bytes of
  `buf`, and `atoi` reads a non-negative `int` back from its decimal form.
-/

namespace Xv6.Format

/-- The size of `char buf[16]`. -/
def bufLen : ℕ := 16

/-- `do { buf[i++] = digits[x % base]; } while((x /= base) != 0);`, appending to `buf`: `none`
when a store would go past `buf`, a read past `digits`, or when `fuel` passes do not reach `0`.
Thirty-two passes are enough for any base from two up. -/
def digitLoop (digits : List Char) (base : UInt32) : ℕ → UInt32 → List Char → Option (List Char)
  | 0, _, _ => none
  | fuel + 1, x, buf => do
    if bufLen ≤ buf.length then none
    let c ← digits[(x % base).toNat]?
    if x / base ≠ 0 then digitLoop digits base fuel (x / base) (buf ++ [c]) else some (buf ++ [c])

/-- The body of `printint(xx, base, sign)` with the digit table `digits`: the characters it
prints, in order. -/
def printintWith (digits : List Char) (xx : Int32) (base : UInt32) (sign : Bool) :
    Option (List Char) := do
  -- `if(sign && (sign = xx < 0)) x = -xx; else x = xx;`
  let neg := sign && decide (xx < 0)
  let x : UInt32 := if neg then (-xx).toUInt32 else xx.toUInt32
  let buf ← digitLoop digits base 32 x []
  -- `if(sign) buf[i++] = '-';`
  let buf ← if neg then (if bufLen ≤ buf.length then none else some (buf ++ ['-'])) else some buf
  -- `while(--i >= 0) consputc(buf[i]);`
  return buf.reverse

namespace Console

/-- `digits` of `console.c`, `"0123456789abcdef"`. -/
def digits : List Char :=
  ['0', '1', '2', '3', '4', '5', '6', '7', '8', '9', 'a', 'b', 'c', 'd', 'e', 'f']

/-- `printint(xx, base, sign)` of `console.c`. -/
def printint (xx : Int32) (base : UInt32) (sign : Bool) : Option (List Char) :=
  printintWith digits xx base sign

end Console

namespace Printf

/-- `digits` of `printf.c`, `"0123456789ABCDEF"`. -/
def digits : List Char :=
  ['0', '1', '2', '3', '4', '5', '6', '7', '8', '9', 'A', 'B', 'C', 'D', 'E', 'F']

/-- `printint(fd, xx, base, sgn)` of `printf.c`, without the descriptor it writes to. -/
def printint (xx : Int32) (base : UInt32) (sgn : Bool) : Option (List Char) :=
  printintWith digits xx base sgn

end Printf

/-- The loop of `atoi`: `while('0' <= *s && *s <= '9') n = n*10 + *s++ - '0';`. -/
def atoiLoop : List Char → Int32 → Int32
  | [], n => n
  | c :: cs, n => if '0' ≤ c ∧ c ≤ '9' then atoiLoop cs (n * 10 + Int32.ofNat c.toNat - 48) else n

/-- `atoi(s)` on the characters of `s` before its NUL. -/
def atoi (s : List Char) : Int32 :=
  atoiLoop s 0

/-- The base-`base` digits of `xx`, most significant first, as `Nat.toDigits` writes them: of
its absolute value after a `-` when `sign` is set and `xx` is negative, and of `xx` read as an
unsigned number otherwise. -/
def canonical (xx : Int32) (base : UInt32) (sign : Bool) : List Char :=
  if sign ∧ xx < 0 then '-' :: Nat.toDigits base.toNat xx.toInt.natAbs
  else Nat.toDigits base.toNat xx.toUInt32.toNat

/-! ## The digit loop -/

section DigitLoop

variable {digits : List Char} {g : Char → Char} {base : UInt32}

/-- One pass of the digit loop when `buf` has room: it stores the last digit of `x` and goes on
with `x / base` unless that is `0`. -/
theorem digitLoop_succ (htable : ∀ d < 16, digits[d]? = some (g (Nat.digitChar d)))
    (hb : 0 < base.toNat) (hb16 : base.toNat ≤ 16) (fuel : ℕ) (x : UInt32) {buf : List Char}
    (hroom : buf.length < bufLen) :
    digitLoop digits base (fuel + 1) x buf =
      if base.toNat ≤ x.toNat then
        digitLoop digits base fuel (x / base) (buf ++ [g (Nat.digitChar (x.toNat % base.toNat))])
      else some (buf ++ [g (Nat.digitChar (x.toNat % base.toNat))]) := by
  have hc : digits[(x % base).toNat]? = some (g (Nat.digitChar (x.toNat % base.toNat))) := by
    rw [UInt32.toNat_mod]
    exact htable _ (lt_of_lt_of_le (Nat.mod_lt _ hb) hb16)
  have hdiv : x / base ≠ 0 ↔ base.toNat ≤ x.toNat := by
    rw [ne_eq, ← UInt32.toNat_inj, UInt32.toNat_div, UInt32.toNat_zero, Nat.div_eq_zero_iff]
    omega
  simp only [digitLoop, if_neg (not_le.mpr hroom), hc, hdiv]
  rfl

/-- A `buf` that the digits of some number fit behind has room for one more. -/
theorem length_lt_of_fit {b n : ℕ} {buf : List Char}
    (hfit : buf.length + (Nat.toDigits b n).length ≤ bufLen) : buf.length < bufLen := by
  have := List.length_pos_of_ne_nil (Nat.toDigits_ne_nil (n := n) (b := b))
  omega

/-- A one-digit `x` takes one pass. -/
theorem digitLoop_of_lt (htable : ∀ d < 16, digits[d]? = some (g (Nat.digitChar d)))
    (hb16 : base.toNat ≤ 16) (fuel : ℕ) {x : UInt32} {buf : List Char}
    (hlt : x.toNat < base.toNat) (hroom : buf.length < bufLen) :
    digitLoop digits base (fuel + 1) x buf = some (buf ++ [g (Nat.digitChar x.toNat)]) := by
  rw [digitLoop_succ htable (by omega) hb16 fuel x hroom, if_neg (not_le.mpr hlt),
    Nat.mod_eq_of_lt hlt]

/-- The digit loop puts the digits of `x` behind `buf`, the last first, when the table maps each
digit value `d` to `g (Nat.digitChar d)`, `fuel + 1` passes reach `0`, and the digits fit. The
induction is on the passes left, each taking the last digit off `x`. -/
theorem digitLoop_eq (htable : ∀ d < 16, digits[d]? = some (g (Nat.digitChar d)))
    (hb : 2 ≤ base.toNat) (hb16 : base.toNat ≤ 16) (fuel : ℕ) (x : UInt32) (buf : List Char)
    (hx : x.toNat < base.toNat ^ (fuel + 1))
    (hfit : buf.length + (Nat.toDigits base.toNat x.toNat).length ≤ bufLen) :
    digitLoop digits base (fuel + 1) x buf =
      some (buf ++ ((Nat.toDigits base.toNat x.toNat).map g).reverse) := by
  induction fuel generalizing x buf with
  | zero =>
    have hlt : x.toNat < base.toNat := by simpa using hx
    rw [digitLoop_of_lt htable hb16 0 hlt (length_lt_of_fit hfit), Nat.toDigits_of_lt_base hlt]
    simp
  | succ fuel ih =>
    by_cases hlt : x.toNat < base.toNat
    · rw [digitLoop_of_lt htable hb16 _ hlt (length_lt_of_fit hfit), Nat.toDigits_of_lt_base hlt]
      simp
    · -- the other digits are those of `x / base`
      have hdiv : (x / base).toNat = x.toNat / base.toNat := UInt32.toNat_div x base
      have hsplit : Nat.toDigits base.toNat x.toNat =
          Nat.toDigits base.toNat (x.toNat / base.toNat) ++
            [Nat.digitChar (x.toNat % base.toNat)] := by
        rw [Nat.toDigits_eq_if (by omega), if_neg hlt]
      have hroom := length_lt_of_fit hfit
      rw [hsplit, List.length_append, List.length_singleton] at hfit
      rw [digitLoop_succ htable (by omega) hb16 _ x hroom,
        if_pos (not_lt.mp hlt), ih, hdiv, hsplit]
      · simp
      · rw [hdiv, Nat.div_lt_iff_lt_mul (by omega), ← Nat.pow_succ]
        exact hx
      · rw [hdiv, List.length_append, List.length_singleton]
        omega

end DigitLoop

/-! ## `printint` -/

theorem Console.digits_getElem? : ∀ d < 16, Console.digits[d]? = some (id (Nat.digitChar d)) := by
  decide

theorem Printf.digits_getElem? :
    ∀ d < 16, Printf.digits[d]? = some (Char.toUpper (Nat.digitChar d)) := by
  decide

/-- `-xx` read as a `uint`, for a negative `xx`, is the absolute value of `xx`; for `INT_MIN`
the negation wraps to itself, which reads as `2^31`. -/
theorem toNat_toUInt32_neg {xx : Int32} (h : xx < 0) : ((-xx).toUInt32).toNat = xx.toInt.natAbs := by
  have h1 : xx.toBitVec.toInt < 0 := Int32.lt_iff_toInt_lt.mp h
  rw [Int32.toUInt32_neg, UInt32.toNat_neg]
  show (UInt32.size - xx.toBitVec.toNat) % UInt32.size = xx.toBitVec.toInt.natAbs
  rw [BitVec.toInt_eq_toNat_cond] at h1 ⊢
  have := xx.toBitVec.isLt
  split at h1 <;> simp [UInt32.size] at * <;> omega

/-- A `uint` has at most ten digits in base 10 or 16. -/
theorem toDigits_length_le_ten {base : UInt32} (hbase : base = 10 ∨ base = 16) {n : ℕ}
    (hn : n < 2 ^ 32) : (Nat.toDigits base.toNat n).length ≤ 10 := by
  apply Nat.toDigits_length _ _ 10 (by norm_num)
  rcases hbase with rfl | rfl
  · exact lt_of_lt_of_le hn (by decide)
  · exact lt_of_lt_of_le hn (by decide)

/-- `printintWith` prints the canonical digits through the table, when the table maps each digit
value `d` to `g (Nat.digitChar d)` and `g` keeps `-`. -/
theorem printintWith_eq {digits : List Char} {g : Char → Char}
    (htable : ∀ d < 16, digits[d]? = some (g (Nat.digitChar d))) (hminus : g '-' = '-')
    {base : UInt32} (hbase : base = 10 ∨ base = 16) (xx : Int32) (sign : Bool) :
    printintWith digits xx base sign = some ((canonical xx base sign).map g) := by
  have hb : 2 ≤ base.toNat ∧ base.toNat ≤ 16 := by
    rcases hbase with rfl | rfl <;> decide
  -- thirty-two passes reach `0` from any `uint`, and ten digits fit in `buf`
  have hloop : ∀ x : UInt32, digitLoop digits base 32 x [] =
      some ((Nat.toDigits base.toNat x.toNat).map g).reverse := fun x => by
    have hx : x.toNat < 2 ^ 32 := x.toNat_lt
    simpa using digitLoop_eq htable hb.1 hb.2 31 x []
      (lt_of_lt_of_le hx (Nat.pow_le_pow_left hb.1 32))
      (by simpa [bufLen] using (toDigits_length_le_ten hbase hx).trans (by norm_num))
  unfold printintWith canonical
  by_cases hneg : sign = true ∧ xx < 0
  · -- signed and negative: the digits of `-xx`, then the `-`
    obtain ⟨rfl, hlt⟩ := hneg
    have hlen := toDigits_length_le_ten hbase (n := ((-xx).toUInt32).toNat) (UInt32.toNat_lt _)
    rw [toNat_toUInt32_neg hlt] at hlen
    have hroom : ¬ 16 ≤ (Nat.toDigits base.toNat xx.toInt.natAbs).length := by omega
    simp only [hlt, decide_true, Bool.and_self, true_and, if_true, hloop, toNat_toUInt32_neg hlt]
    simp [bufLen, hminus, hroom]
  · have hneg' : (sign && decide (xx < 0)) = false := by
      simpa using hneg
    simp only [hneg', hloop, if_neg hneg]
    simp

/-! ## `atoi` -/

/-- `atoi` reads the digits of a number from the first: what it has read so far is the value of
the first digits. -/
theorem atoiLoop_append_digit (l : List Char) (hl : ∀ c ∈ l, '0' ≤ c ∧ c ≤ '9') {d : ℕ}
    (hd : d < 10) (acc : Int32) :
    atoiLoop (l ++ [Nat.digitChar d]) acc = atoiLoop l acc * 10 + Int32.ofNat d := by
  induction l generalizing acc with
  | nil =>
    have hdigit : ∀ d < 10, '0' ≤ Nat.digitChar d ∧ Nat.digitChar d ≤ '9' := by decide
    simp only [List.nil_append, atoiLoop, if_pos (hdigit d hd), Nat.toNat_digitChar_of_lt_ten hd,
      Int32.ofNat_add]
    have h48 : Int32.ofNat 48 = 48 := rfl
    rw [h48]
    grind
  | cons c l ih =>
    have hc := hl c (.head _)
    simp only [List.cons_append, atoiLoop, if_pos hc]
    exact ih (fun c hc => hl c (.tail _ hc)) _

/-- `atoi` reads back the decimal digits of any number, modulo `2^32` as `int` arithmetic is. -/
theorem atoi_toDigits (n : ℕ) : atoi (Nat.toDigits 10 n) = Int32.ofNat n := by
  induction n using Nat.strong_induction_on with
  | _ n ih =>
    have hdigits : ∀ m, ∀ c ∈ Nat.toDigits 10 m, '0' ≤ c ∧ c ≤ '9' := by
      intro m c hc
      have := Nat.isDigit_of_mem_toDigits (by norm_num) le_rfl hc
      simpa [Char.isDigit, Char.le_def] using this
    rw [Nat.toDigits_eq_if (by norm_num)]
    split
    · -- one digit
      rename_i hlt
      have := atoiLoop_append_digit [] (by simp) hlt 0
      simpa [atoi, atoiLoop] using this
    · -- the digits of `n / 10`, then the last one
      rename_i hlt
      rw [atoi, atoiLoop_append_digit _ (hdigits _) (Nat.mod_lt _ (by norm_num)), ← atoi,
        ih _ (Nat.div_lt_self (by omega) (by norm_num))]
      have h10 : Int32.ofNat 10 = 10 := rfl
      rw [← h10, ← Int32.ofNat_mul, ← Int32.ofNat_add, Nat.div_add_mod']

/-! ## Both `printint`s -/

/-- A non-negative `int` reads as the same number unsigned. -/
theorem toNat_toUInt32_of_nonneg {n : Int32} (h : 0 ≤ n) : n.toUInt32.toNat = n.toInt.toNat := by
  have h1 : 0 ≤ n.toBitVec.toInt := Int32.le_iff_toInt_le.mp h
  show n.toBitVec.toNat = n.toBitVec.toInt.toNat
  rw [BitVec.toInt_eq_toNat_cond] at h1 ⊢
  split at h1 <;> simp at * <;> omega

theorem ofNat_toNat_toInt {n : Int32} (h : 0 ≤ n) : Int32.ofNat n.toInt.toNat = n := by
  have h1 : 0 ≤ n.toInt := Int32.le_iff_toInt_le.mp h
  apply Int32.toInt_inj.mp
  rw [Int32.toInt_ofNat_of_lt]
  · omega
  · have := n.toInt_lt
    omega

/-- Upper case leaves decimal digits alone. -/
theorem map_toUpper_toDigits_ten (m : ℕ) : (Nat.toDigits 10 m).map Char.toUpper = Nat.toDigits 10 m := by
  conv_rhs => rw [← List.map_id (Nat.toDigits 10 m)]
  apply List.map_congr_left
  intro c hc
  have := Nat.isDigit_of_mem_toDigits (by norm_num) le_rfl hc
  simp only [Char.isDigit, Bool.and_eq_true, decide_eq_true_eq] at this
  delta Char.toUpper
  simp only [id]
  rw [dif_neg]
  -- a digit is below `a`
  rintro ⟨h1, -⟩
  have h2 := this.2
  rw [UInt32.le_iff_toNat_le] at h1 h2
  exact absurd (h1.trans h2) (by decide)

/-- Both `printint`s print the canonical digits of `xx` in base 10 or 16, the kernel's with
lowercase and the user library's with uppercase hex letters, within the sixteen bytes of `buf`;
and `atoi` reads every non-negative `int` back from the decimal form either prints. -/
theorem printint_canonical (xx : Int32) (base : UInt32) (sign : Bool)
    (hbase : base = 10 ∨ base = 16) :
    Console.printint xx base sign = some (canonical xx base sign) ∧
      Printf.printint xx base sign = some ((canonical xx base sign).map Char.toUpper) ∧
      (canonical xx base sign).length ≤ bufLen ∧
      ∀ n : Int32, 0 ≤ n →
        (Console.printint n 10 true).map atoi = some n ∧
          (Printf.printint n 10 true).map atoi = some n := by
  have hconsole : ∀ xx base sign, (base = 10 ∨ base = 16) →
      Console.printint xx base sign = some (canonical xx base sign) := fun xx base sign hbase => by
    simpa [Console.printint] using printintWith_eq Console.digits_getElem? rfl hbase xx sign
  have hprintf : ∀ xx base sign, (base = 10 ∨ base = 16) →
      Printf.printint xx base sign = some ((canonical xx base sign).map Char.toUpper) :=
    fun xx base sign hbase => printintWith_eq Printf.digits_getElem? rfl hbase xx sign
  refine ⟨hconsole xx base sign hbase, hprintf xx base sign hbase, ?_, fun n hn => ?_⟩
  · -- at most ten digits and the sign
    unfold canonical bufLen
    split
    · rename_i hneg
      have := toDigits_length_le_ten hbase (UInt32.toNat_lt (-xx).toUInt32)
      rw [toNat_toUInt32_neg hneg.2] at this
      simp only [List.length_cons]
      omega
    · have := toDigits_length_le_ten hbase (UInt32.toNat_lt xx.toUInt32)
      omega
  · -- the decimal form of a non-negative `n` is its digits, which `atoi` reads back
    have hform : canonical n 10 true = Nat.toDigits 10 n.toInt.toNat := by
      rw [canonical, if_neg (by simpa using hn), toNat_toUInt32_of_nonneg hn]
      rfl
    rw [hconsole n 10 true (.inl rfl), hprintf n 10 true (.inl rfl), hform,
      map_toUpper_toDigits_ten, Option.map_some, atoi_toDigits, ofNat_toNat_toInt hn]
    exact ⟨rfl, rfl⟩

/-- The kernel prints `INT_MIN` in decimal as `-2147483648`. -/
theorem printint_canonical_int_min :
    ((10 : UInt32) = 10 ∨ (10 : UInt32) = 16) ∧
      Console.printint (-2147483648) 10 true = some (canonical (-2147483648) 10 true) :=
  ⟨.inl rfl, (printint_canonical (-2147483648) 10 true (.inl rfl)).1⟩

end Xv6.Format
