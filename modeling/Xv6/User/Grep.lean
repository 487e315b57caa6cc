import Mathlib.Data.List.Basic
import Mathlib.Data.UInt

/-!
# `grep` (`grep.c`)

The matcher of Kernighan and Pike for patterns with `^`, `.`, `*` and `$`, and the loop of
`grep` that reads its input into a 1024-byte buffer and writes each line the pattern matches.

Patterns, texts and lines are the bytes before their terminating NUL. `matchhere` recurses on
the pattern; `matchstar` takes the matcher of the rest of the pattern as an argument, so the
three functions of `grep.c` need no termination measure. The reference semantics `PrefixMatch`
says what a pattern matches token by token: `c*`, a final `$`, and a literal or `.` otherwise.

`read` delivers the input stream in chunks, at most the count it is asked for; a pipe or the
console may cut the stream anywhere.

## Main definitions

* `matchstar`, `matchhere`, `matchLoop`, `«match»`: the matcher of `grep.c`.
* `PrefixMatch`, `Matches`: what a pattern matches.
* `strchr`, `readChunk`, `scanLines`, `grepLoop`, `grep`: the reading loop.
* `matchingLines`: the lines of a stream that the pattern matches.

## Main results

* `matchhere_iff`: `matchhere` decides `PrefixMatch`.
* `match_iff`: `match` returns `1` exactly when the pattern matches the text.
* `grep_misses_split_line`: a line cut by a read without a newline is lost.
-/

namespace Xv6.Grep

/-- `'^'`. -/
def caret : UInt8 := 94
/-- `'.'`. -/
def dot : UInt8 := 46
/-- `'*'`. -/
def star : UInt8 := 42
/-- `'$'`. -/
def dollar : UInt8 := 36
/-- `'\n'`. -/
def newline : UInt8 := 10

/-! ## The matcher -/

/-- `matchstar(c, re, text)`, with `matchhere(re, ·)` given as `here`: `here` is tried at
`text` and after each leading byte equal to `c` (any byte for `.`). -/
def matchstar (c : UInt8) (here : List UInt8 → Bool) : List UInt8 → Bool
  | [] => here []
  | t :: ts => here (t :: ts) || ((t == c || c == dot) && matchstar c here ts)

/-- The last line of `matchhere`: `c` consumes one byte that it matches, and `here` goes on
from there. -/
def matchOne (c : UInt8) (here : List UInt8 → Bool) : List UInt8 → Bool
  | [] => false
  | t :: ts => (c == dot || c == t) && here ts

/-- `matchhere(re, text)`: the pattern matches a prefix of the text. The checks come in the
order of `grep.c`: the end of the pattern, `c*`, a final `$`, then one byte. -/
def matchhere : List UInt8 → List UInt8 → Bool
  | [], _ => true
  | c :: d :: re, text =>
    if d = star then matchstar c (matchhere re) text else matchOne c (matchhere (d :: re)) text
  | [c], text => if c = dollar then text.isEmpty else matchOne c (matchhere []) text

/-- The `do`-`while` loop of `match`: `matchhere` at each suffix of the text, the empty one
last. -/
def matchLoop (re : List UInt8) : List UInt8 → Bool
  | [] => matchhere re []
  | t :: ts => matchhere re (t :: ts) || matchLoop re ts

/-- `match(re, text)`: a leading `^` anchors the pattern at the start of the text. -/
def «match» (re text : List UInt8) : Bool :=
  match re with
  | c :: re' => if c = caret then matchhere re' text else matchLoop (c :: re') text
  | [] => matchLoop [] text

/-! ## What a pattern matches -/

/-- `PrefixMatch re text`: the pattern `re` matches a prefix of `text`. The pattern is read as
tokens: `c*` matches a run of `c` (of any bytes for `.`), a `$` at the end matches only at the
end of the text, and any other byte matches itself (`.` any byte). -/
inductive PrefixMatch : List UInt8 → List UInt8 → Prop
  | nil (text : List UInt8) : PrefixMatch [] text
  | starRun {c : UInt8} {re pre text : List UInt8} (hpre : ∀ t ∈ pre, t = c ∨ c = dot)
      (hre : PrefixMatch re text) : PrefixMatch (c :: star :: re) (pre ++ text)
  | dollarEnd : PrefixMatch [dollar] []
  | one {c t : UInt8} {re text : List UInt8} (hstar : re.head? ≠ some star)
      (hend : ¬ (c = dollar ∧ re = [])) (ht : c = dot ∨ c = t) (hre : PrefixMatch re text) :
      PrefixMatch (c :: re) (t :: text)

/-- `Matches re text`: with a leading `^` the rest of the pattern matches a prefix of the text;
otherwise the pattern matches a prefix of some suffix of the text, the empty one included. -/
def Matches (re text : List UInt8) : Prop :=
  (re.head? = some caret ∧ PrefixMatch re.tail text) ∨
    (re.head? ≠ some caret ∧ ∃ k ≤ text.length, PrefixMatch re (text.drop k))

namespace PrefixMatch

theorem starRun_iff {c : UInt8} {re text : List UInt8} :
    PrefixMatch (c :: star :: re) text ↔
      ∃ pre rest, text = pre ++ rest ∧ (∀ t ∈ pre, t = c ∨ c = dot) ∧ PrefixMatch re rest := by
  constructor
  · rintro (_ | ⟨hpre, hre⟩ | _ | ⟨hstar, -, -, -⟩)
    · exact ⟨_, _, rfl, hpre, hre⟩
    · exact absurd rfl hstar
  · rintro ⟨pre, rest, rfl, hpre, hre⟩
    exact .starRun hpre hre

theorem one_iff {c : UInt8} {re text : List UInt8} (hstar : re.head? ≠ some star)
    (hend : ¬ (c = dollar ∧ re = [])) :
    PrefixMatch (c :: re) text ↔ ∃ t ts, text = t :: ts ∧ (c = dot ∨ c = t) ∧ PrefixMatch re ts := by
  constructor
  · rintro (_ | ⟨-, -⟩ | _ | ⟨-, -, ht, hre⟩)
    · exact absurd rfl hstar
    · exact absurd ⟨rfl, rfl⟩ hend
    · exact ⟨_, _, rfl, ht, hre⟩
  · rintro ⟨t, ts, rfl, ht, hre⟩
    exact .one hstar hend ht hre

theorem dollarEnd_iff {text : List UInt8} : PrefixMatch [dollar] text ↔ text = [] := by
  constructor
  · rintro (_ | _ | _ | ⟨-, hend, -, -⟩)
    · rfl
    · exact absurd ⟨rfl, rfl⟩ hend
  · rintro rfl
    exact .dollarEnd

end PrefixMatch

/-! ## The matcher decides `PrefixMatch` -/

theorem matchstar_eq_true {c : UInt8} {here : List UInt8 → Bool} {text : List UInt8} :
    matchstar c here text = true ↔
      ∃ pre rest, text = pre ++ rest ∧ (∀ t ∈ pre, t = c ∨ c = dot) ∧ here rest = true := by
  induction text with
  | nil =>
    simp only [matchstar, List.nil_eq_append_iff]
    constructor
    · intro h
      exact ⟨[], [], ⟨rfl, rfl⟩, by simp, h⟩
    · rintro ⟨pre, rest, ⟨-, rfl⟩, -, h⟩
      exact h
  | cons t ts ih =>
    rw [matchstar, Bool.or_eq_true, Bool.and_eq_true, Bool.or_eq_true, beq_iff_eq, beq_iff_eq, ih]
    constructor
    · rintro (h | ⟨hc, pre, rest, rfl, hpre, hrest⟩)
      · exact ⟨[], t :: ts, rfl, by simp, h⟩
      · refine ⟨t :: pre, rest, rfl, ?_, hrest⟩
        simpa [hc] using hpre
    · rintro ⟨_ | ⟨p, pre⟩, rest, htext, hpre, hrest⟩
      · -- nothing consumed: `here` holds at the text itself
        rw [List.nil_append] at htext
        exact .inl (htext ▸ hrest)
      · obtain ⟨rfl, rfl⟩ := List.cons_eq_cons.mp htext
        refine .inr ⟨?_, pre, rest, rfl, fun u hu => hpre u (.tail _ hu), hrest⟩
        exact hpre t (.head _)

theorem matchOne_eq_true {c : UInt8} {here : List UInt8 → Bool} {text : List UInt8} :
    matchOne c here text = true ↔ ∃ t ts, text = t :: ts ∧ (c = dot ∨ c = t) ∧ here ts = true := by
  cases text with
  | nil => simp [matchOne]
  | cons t ts => simp [matchOne]

@[simp]
theorem matchhere_nil (text : List UInt8) : matchhere [] text = true := rfl

/-- `matchhere` decides `PrefixMatch`. The recursion on the pattern goes by one byte or, past
`c*`, by two, so the induction takes both steps. -/
theorem matchhere_iff (re text : List UInt8) : matchhere re text = true ↔ PrefixMatch re text := by
  induction re using List.twoStepInduction generalizing text with
  | nil => simpa using PrefixMatch.nil text
  | singleton c =>
    by_cases hc : c = dollar
    · -- a final `$`
      subst hc
      rw [matchhere, if_pos rfl, PrefixMatch.dollarEnd_iff, List.isEmpty_iff]
    · -- a final literal or `.`
      rw [matchhere, if_neg hc, matchOne_eq_true, PrefixMatch.one_iff (by simp) (by simp [hc])]
      simp only [matchhere_nil, PrefixMatch.nil, and_true]
  | cons_cons c d re ih ih' =>
    by_cases hd : d = star
    · -- `c*`: a run of `c`, then the rest of the pattern
      subst hd
      rw [matchhere, if_pos rfl, matchstar_eq_true, PrefixMatch.starRun_iff]
      simp only [ih]
    · -- a literal or `.` followed by more pattern
      rw [matchhere, if_neg hd, matchOne_eq_true,
        PrefixMatch.one_iff (by simpa using hd) (by simp)]
      simp only [ih']

theorem matchLoop_iff (re text : List UInt8) :
    matchLoop re text = true ↔ ∃ k ≤ text.length, PrefixMatch re (text.drop k) := by
  induction text with
  | nil => simp [matchLoop, matchhere_iff]
  | cons t ts ih =>
    rw [matchLoop, Bool.or_eq_true, ih, matchhere_iff]
    constructor
    · rintro (h | ⟨k, hk, h⟩)
      · exact ⟨0, by simp, h⟩
      · exact ⟨k + 1, by simpa using hk, h⟩
    · rintro ⟨_ | k, hk, h⟩
      · exact .inl h
      · exact .inr ⟨k, by simpa using hk, h⟩

/-- `match(re, text)` returns `1` exactly when `re` matches `text`. -/
theorem match_iff (re text : List UInt8) : «match» re text = true ↔ Matches re text := by
  unfold «match» Matches
  rcases re with _ | ⟨c, re⟩
  · simp [matchLoop_iff]
  · by_cases hc : c = caret
    · simp [hc, matchhere_iff]
    · simp [hc, matchLoop_iff]

/-! ## The reading loop -/

/-- `sizeof(buf)`. -/
def bufSize : ℕ := 1024

/-- `strchr(s, c)` on the bytes of `s` up to its NUL: the offset of the first `c`. -/
def strchr (c : UInt8) : List UInt8 → Option ℕ
  | [] => none
  | x :: xs => if x = 0 then none else if x = c then some 0 else (strchr c xs).map (· + 1)

/-- `read(fd, buf + m, n)` on a stream that arrives in `chunks`: the next chunk, cut to at most
`n` bytes, with what is cut off left for the next read. No chunk left is the end of the file. -/
def readChunk (n : ℕ) : List (List UInt8) → List UInt8 × List (List UInt8)
  | [] => ([], [])
  | c :: cs => if c.length ≤ n then (c, cs) else (c.take n, c.drop n :: cs)

/-- The inner loop of `grep` over the bytes `buf` held, from offset `p` on: each line up to a
newline is written, with its newline, when the pattern matches it. Returns what was written and
the offset `p` of the first byte after the last newline. -/
def scanLines (pattern buf : List UInt8) : ℕ → ℕ → List UInt8 × ℕ
  | 0, p => ([], p)
  | fuel + 1, p =>
    match strchr newline (buf.drop p) with
    | none => ([], p)
    | some i =>
      -- `*q = 0` ends the line for `match`, and a match puts the newline back to write it
      let line := (buf.drop p).take i
      let (out, p') := scanLines pattern buf fuel (p + i + 1)
      ((if «match» pattern line then line ++ [newline] else []) ++ out, p')

/-- The outer loop of `grep`, with `buf` holding the `m` bytes kept from earlier reads: read at
most `sizeof(buf) - m - 1` more, write the complete lines, and keep the rest. -/
def grepLoop (pattern : List UInt8) : ℕ → List UInt8 → List (List UInt8) → List UInt8
  | 0, _, _ => []
  | fuel + 1, buf, chunks =>
    let (data, chunks) := readChunk (bufSize - buf.length - 1) chunks
    if data.length = 0 then []
    else
      let buf := buf ++ data
      let (out, p) := scanLines pattern buf (buf.length + 1) 0
      -- `if(p == buf) m = 0`: a buffer without a newline is dropped, whatever its length
      let buf := if p = 0 then [] else buf.drop p
      out ++ grepLoop pattern fuel buf chunks

/-- `grep(pattern, fd)` on a stream that `read` delivers in `chunks`. Each read but the last
takes at least one byte, so the loop runs at most once per byte and once more. -/
def grep (pattern : List UInt8) (chunks : List (List UInt8)) : List UInt8 :=
  grepLoop pattern ((chunks.map List.length).sum + 1) [] chunks

/-- The lines of `stream` that end in a newline and that `pattern` matches, each with its
newline, in order. -/
def matchingLines (pattern stream : List UInt8) : List UInt8 :=
  ((stream.splitOn newline).dropLast.filter («match» pattern)).flatMap (· ++ [newline])

/-- A line whose first bytes arrive in a read without a newline is lost: `grep a` on the stream
`ab\n` writes the line when it comes in one read, and nothing when `a` comes alone first. -/
theorem grep_misses_split_line :
    matchingLines [97] [97, 98, 10] = [97, 98, 10] ∧ grep [97] [[97, 98, 10]] = [97, 98, 10] ∧
      grep [97] [[97], [98, 10]] = [] := by
  decide +kernel

end Xv6.Grep
