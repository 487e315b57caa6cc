import Mathlib.Data.UInt
import Mathlib.Tactic

/-!
# Little-endian 32-bit words in byte vectors

A C structure of `int` fields laid over a byte buffer, as `(struct logheader *) buf->data` does
on x86, reads field `i` from bytes `4 * i` to `4 * i + 3`, least significant byte first. This
file gives that view of a `Vector UInt8 n`:

* `wordAt b i`: the word stored at word index `i`;
* `setWordAt b i w`: the buffer with word `i` replaced by `w`, every other byte kept;
* `wordAt_setWordAt_self`, `wordAt_setWordAt_of_ne`: reading back a word written, and a word
  not written;
* `setWords b i ws`: a structure of words stored from word index `i` on (`wordAt_setWords`);
* `copyAt b j src`, `bytesAt b j m`: `memmove` of a byte string into the buffer at byte `j`, and
  the `m` bytes from byte `j` on.
-/

namespace Xv6.LittleEndian

variable {n : ℕ}

/-- Byte `j` of a buffer, `0` past its end. -/
def byteAt (b : Vector UInt8 n) (j : ℕ) : UInt8 := b[j]?.getD 0

/-- The word at word index `i`, least significant byte first. -/
def wordAt (b : Vector UInt8 n) (i : ℕ) : UInt32 :=
  UInt32.ofNat ((byteAt b (4 * i)).toNat + 256 * (byteAt b (4 * i + 1)).toNat +
    65536 * (byteAt b (4 * i + 2)).toNat + 16777216 * (byteAt b (4 * i + 3)).toNat)

/-- Byte `k` (`k < 4`) of a word, least significant first. -/
def wordByte (w : UInt32) (k : ℕ) : UInt8 := UInt8.ofNat (w.toNat / 256 ^ k % 256)

/-- Store the word `w` at word index `i`; bytes past the end of the buffer are dropped. -/
def setWordAt (b : Vector UInt8 n) (i : ℕ) (w : UInt32) : Vector UInt8 n :=
  (((b.setIfInBounds (4 * i) (wordByte w 0)).setIfInBounds (4 * i + 1) (wordByte w 1)).setIfInBounds
    (4 * i + 2) (wordByte w 2)).setIfInBounds (4 * i + 3) (wordByte w 3)

theorem byteAt_setIfInBounds_self {b : Vector UInt8 n} {j : ℕ} (hj : j < n) (x : UInt8) :
    byteAt (b.setIfInBounds j x) j = x := by
  simp [byteAt, hj]

theorem byteAt_setIfInBounds_ne {b : Vector UInt8 n} {i j : ℕ} (h : i ≠ j) (x : UInt8) :
    byteAt (b.setIfInBounds i x) j = byteAt b j := by
  simp [byteAt, Vector.getElem?_setIfInBounds_ne h]

/-- The four bytes of a word read back as the word. -/
theorem wordByte_recombine (w : UInt32) :
    UInt32.ofNat ((wordByte w 0).toNat + 256 * (wordByte w 1).toNat +
      65536 * (wordByte w 2).toNat + 16777216 * (wordByte w 3).toNat) = w := by
  have hw := w.toNat_lt
  apply UInt32.toNat.inj
  simp only [wordByte, UInt8.toNat_ofNat', UInt32.toNat_ofNat', pow_zero, pow_one]
  omega

/-- A word written at index `i` reads back, when it lies inside the buffer. -/
theorem wordAt_setWordAt_self {b : Vector UInt8 n} {i : ℕ} (hi : 4 * i + 3 < n) (w : UInt32) :
    wordAt (setWordAt b i w) i = w := by
  -- each of the four bytes is read back from the last write to its position
  unfold wordAt setWordAt
  simp (disch := omega) only [byteAt_setIfInBounds_self, byteAt_setIfInBounds_ne]
  exact wordByte_recombine w

/-- Writing word `i` leaves every byte outside `[4 * i, 4 * i + 4)` alone. -/
theorem byteAt_setWordAt_of_lt_or_le {b : Vector UInt8 n} {i j : ℕ} (h : j < 4 * i ∨ 4 * i + 4 ≤ j)
    (w : UInt32) : byteAt (setWordAt b i w) j = byteAt b j := by
  unfold setWordAt
  rw [byteAt_setIfInBounds_ne (by omega), byteAt_setIfInBounds_ne (by omega),
    byteAt_setIfInBounds_ne (by omega), byteAt_setIfInBounds_ne (by omega)]

/-- Writing word `i` leaves every other word alone. -/
theorem wordAt_setWordAt_of_ne {b : Vector UInt8 n} {i j : ℕ} (h : i ≠ j) (w : UInt32) :
    wordAt (setWordAt b i w) j = wordAt b j := by
  have hsep : ∀ k < 4, 4 * j + k < 4 * i ∨ 4 * i + 4 ≤ 4 * j + k := by omega
  unfold wordAt
  rw [byteAt_setWordAt_of_lt_or_le (by simpa using hsep 0 (by norm_num)),
    byteAt_setWordAt_of_lt_or_le (hsep 1 (by norm_num)),
    byteAt_setWordAt_of_lt_or_le (hsep 2 (by norm_num)),
    byteAt_setWordAt_of_lt_or_le (hsep 3 (by norm_num))]


/-! ## Structures of words -/

/-- Store the words `ws` at word indices `i, i + 1, …`, as copying a structure of `int` and
`uint` fields into the buffer does. -/
def setWords : Vector UInt8 n → ℕ → List UInt32 → Vector UInt8 n
  | b, _, [] => b
  | b, i, w :: ws => setWords (setWordAt b i w) (i + 1) ws

/-- The words of a stored structure read back, and every other word is kept. -/
theorem wordAt_setWords {b : Vector UInt8 n} {i : ℕ} {ws : List UInt32}
    (hn : 4 * (i + ws.length) ≤ n) (j : ℕ) :
    wordAt (setWords b i ws) j = if i ≤ j ∧ j < i + ws.length then ws.getD (j - i) 0
      else wordAt b j := by
  induction ws generalizing b i with
  | nil => simp [setWords]
  | cons w ws ih =>
    simp only [List.length_cons] at hn
    rw [setWords, ih (by omega)]
    -- word `i` is the first one written; the later writes start at `i + 1`
    by_cases hj : j = i
    · subst hj
      simp [wordAt_setWordAt_self (show 4 * j + 3 < n by omega)]
    · rw [wordAt_setWordAt_of_ne (Ne.symm hj)]
      by_cases hin : i + 1 ≤ j ∧ j < i + 1 + ws.length
      · rw [if_pos hin, if_pos (by simp only [List.length_cons]; omega),
          show j - i = j - (i + 1) + 1 by omega]
        simp
      · rw [if_neg hin, if_neg (by simp only [List.length_cons]; omega)]

/-! ## Byte strings -/

/-- `memmove(b + j, src, len)`: the bytes of `src` from byte `j` on, the rest kept. -/
def copyAt (b : Vector UInt8 n) (j : ℕ) (src : List UInt8) : Vector UInt8 n :=
  Vector.ofFn fun k => if j ≤ k.val ∧ k.val < j + src.length then src.getD (k.val - j) 0 else b[k]

/-- The `m` bytes of the buffer from byte `j` on. -/
def bytesAt (b : Vector UInt8 n) (j m : ℕ) : List UInt8 := (List.range m).map fun k => byteAt b (j + k)

@[simp]
theorem length_bytesAt (b : Vector UInt8 n) (j m : ℕ) : (bytesAt b j m).length = m := by
  simp [bytesAt]

theorem byteAt_copyAt (b : Vector UInt8 n) (j : ℕ) (src : List UInt8) (k : ℕ) :
    byteAt (copyAt b j src) k =
      if k < n ∧ j ≤ k ∧ k < j + src.length then src.getD (k - j) 0 else byteAt b k := by
  by_cases hk : k < n
  · simp [byteAt, copyAt, hk]
  · simp [byteAt, hk]

end Xv6.LittleEndian
