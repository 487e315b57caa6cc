import Xv6.Lib.Ring
import Xv6.Lib.Trace

/-!
# Console input (`console.c`)

Typed characters go into the ring `input.buf` of `INPUT_BUF` bytes through three free-running
unsigned indices: `consoleread` reads at `r`, the characters before `w` are committed (a line
ended by a newline or `^D`, or a full buffer), and the line being edited ends at `e`.
`consoleintr` handles one character at a time: `^U` erases the line being edited, `^H` and
`DEL` its last character, and any other non-zero character is appended while the buffer has
room. `consoleread` copies committed characters until it has `n` bytes, copies a newline, or
meets a `^D`; a `^D` after data is put back, so that the next read returns 0.

The interrupt handler and the reader both hold `cons.lock`, and the reader releases it only
to sleep on an empty buffer. The system (`consStep`) takes one character of `consoleintr` at a
time, which allows more interleavings than the lock does, and one run of a `consoleread` to its
sleep or its return; successive reads are made by one reader. Beside the kernel's state, the
system records every character committed and every byte read returned.

## Main definitions

* `Input`, `consoleintr`, `killLine`, `consolereadLoop`: the `input` buffer and the functions
  of `console.c`.
* `consStep`, `consBoot`: interrupts and successive reads after boot; `aliveStep` leaves out
  `kill`.

## Main results

* `consoleintr_committed`: a character never changes the committed characters not yet read;
  it may only commit more.
* `consolereadLoop_eof_kept`, `consStep_read_eof`: a `^D` after data ends the read and is put
  back, and a read that starts at a `^D` returns `0`.
* `LineInv.reachable`: when the reader is not killed, `r ≤ w ≤ e ≤ r + INPUT_BUF` and the bytes
  returned, followed by those the current read has copied and the unread committed characters,
  are the committed characters, `^D` left out, in every reachable state.
* `killed_read_loses_committed_line`: a read by a killed process consumes committed characters
  and returns `-1`, so they are never returned.
-/

namespace Xv6.Dev

/-- `INPUT_BUF`. -/
def inputBuf : ℕ := 128

/-- `C(x)`: control-`x`. -/
def ctrl (x : Char) : UInt8 := x.toUInt8 - '@'.toUInt8

/-- `input`: the buffer and its read, write and edit indices. -/
structure Input where
  buf : ℕ → UInt8
  r : UInt32
  w : UInt32
  e : UInt32

/-- The loop of kill-line (`^U`): erase characters of the line being edited back to a
newline. It erases at most `e - w` of them, the fuel `consoleintr` gives it. -/
def killLine : ℕ → Input → Input
  | 0, input => input
  | fuel + 1, input =>
    if input.e ≠ input.w ∧ input.buf ((input.e - 1).toNat % inputBuf) ≠ '\n'.toUInt8 then
      killLine fuel { input with e := input.e - 1 }
    else input

/-- One character `c` of the loop of `consoleintr`, as `getc` returns it. The process listing
of `^P` runs after the lock is released and is not modelled, nor is the echo. -/
def consoleintr (input : Input) (c : UInt8) : Input :=
  if c = ctrl 'P' then input
  else if c = ctrl 'U' then killLine (input.e - input.w).toNat input
  else if c = ctrl 'H' ∨ c = 0x7f then
    if input.e ≠ input.w then { input with e := input.e - 1 } else input
  else if c ≠ 0 ∧ input.e - input.r < 128 then
    let c := if c = '\r'.toUInt8 then '\n'.toUInt8 else c
    let input := { input with buf := Function.update input.buf (input.e.toNat % inputBuf) c,
                              e := input.e + 1 }
    if c = '\n'.toUInt8 ∨ c = ctrl 'D' ∨ input.e = input.r + 128 then { input with w := input.e }
    else input
  else input

/-- How a run of `consoleread` ends: asleep on an empty buffer, returning `-1` to a killed
process, or out of the loop. -/
inductive ReadExit where
  | sleeps
  | killed
  | done
  deriving DecidableEq, Repr

/-- The loop of `consoleread(ip, dst, n)` for a read of `target` bytes, with `n` bytes left and
`dst` copied so far. The loop copies at most `n` bytes, and the system passes more fuel than
that. -/
def consolereadLoop (killed : Bool) (target : UInt32) :
    ℕ → Int32 → List UInt8 → Input → Input × Int32 × List UInt8 × ReadExit
  | 0, n, dst, input => (input, n, dst, .sleeps)
  | fuel + 1, n, dst, input =>
    if n > 0 then
      if input.r = input.w then
        if killed then (input, n, dst, .killed) else (input, n, dst, .sleeps)
      else
        let c := input.buf (input.r.toNat % inputBuf)
        let input := { input with r := input.r + 1 }
        if c = ctrl 'D' then
          -- a `^D` after data is saved for the next read
          ((if n.toUInt32 < target then { input with r := input.r - 1 } else input), n, dst, .done)
        else if c = '\n'.toUInt8 then (input, n - 1, dst ++ [c], .done)
        else consolereadLoop killed target fuel (n - 1) (dst ++ [c]) input
    else (input, n, dst, .done)

/-! ## Interrupts and successive reads -/

/-- The reader: outside `consoleread`, or asleep in a read of `target` bytes with `n` left and
`dst` copied. -/
inductive Reader where
  | idle
  | reading (target : UInt32) (n : Int32) (dst : List UInt8)
  deriving DecidableEq, Repr

/-- The bytes the current read has copied to `dst`. -/
def Reader.pending : Reader → List UInt8
  | .idle => []
  | .reading _ _ dst => dst

/-- The input buffer, the reader, and what was committed and returned so far. -/
structure ConsSys where
  input : Input
  reader : Reader
  /-- `killed` of the reader's process. -/
  killed : Bool
  /-- Every character committed, in order. -/
  committed : List UInt8
  /-- The bytes every finished read returned, in order. -/
  returned : List UInt8

/-- `consoleintr` takes character `c`; the characters it commits join `committed`. -/
def ConsSys.intr (s : ConsSys) (c : UInt8) : ConsSys :=
  let input := consoleintr s.input c
  { s with input, committed := s.committed ++ Ring.view input.buf inputBuf s.input.w input.w }

/-- The reader ends a read: `consoleread` returns `ret`, so the bytes it returned are the first
`ret` of `dst`. -/
def ConsSys.finishRead (s : ConsSys) (input : Input) (ret : Int32) (dst : List UInt8) :
    ConsSys :=
  { s with input, reader := .idle, returned := s.returned ++ dst.take ret.toInt.toNat }

/-- The reader runs `consoleread` for `target` bytes, with `n` left and `dst` copied, to its
sleep or its return of `-1` or `target - n`. -/
def ConsSys.runRead (s : ConsSys) (target : UInt32) (n : Int32) (dst : List UInt8) : ConsSys :=
  match consolereadLoop s.killed target (n.toInt.toNat + 1) n dst s.input with
  | (input, n', dst', .sleeps) => { s with input, reader := .reading target n' dst' }
  | (input, _, dst', .killed) => s.finishRead input (-1) dst'
  | (input, n', dst', .done) => s.finishRead input (target - n'.toUInt32).toInt32 dst'

/-- One step of the system. -/
inductive ConsEvent where
  /-- `consoleintr` takes character `c`. -/
  | intr (c : UInt8)
  /-- The reader calls `consoleread(ip, dst, n)`. -/
  | read (n : Int32)
  /-- The reader, asleep on the buffer, runs again. -/
  | wake
  /-- `kill` sets `killed` of the reader's process. -/
  | kill
  deriving DecidableEq, Repr

/-- One step, or `none` when it is not enabled: a read while one is in progress, or a wakeup of
a reader that is not asleep. -/
def consStep (s : ConsSys) : ConsEvent → Option ConsSys
  | .intr c => some (s.intr c)
  | .read n =>
    match s.reader with
    | .idle => some (s.runRead n.toUInt32 n [])
    | .reading .. => none
  | .wake =>
    match s.reader with
    | .idle => none
    | .reading target n dst => some (s.runRead target n dst)
  | .kill => some { s with killed := true }

/-- The steps of a reader that is not killed. -/
def aliveStep (s : ConsSys) (e : ConsEvent) : Option ConsSys :=
  if e = .kill then none else consStep s e

/-- The system at boot: `input` is zero, and no read is in progress. -/
def consBoot : ConsSys := ⟨⟨fun _ => 0, 0, 0, 0⟩, .idle, false, [], []⟩

theorem inputBuf_dvd : inputBuf ∣ 2 ^ 32 := ⟨2 ^ 25, rfl⟩

/-! ## What a character does to the buffer -/

/-- `r ≤ w ≤ e ≤ r + INPUT_BUF`, as distances from `r`. -/
structure Input.Ok (input : Input) : Prop where
  w_le_e : (input.w - input.r).toNat ≤ (input.e - input.r).toNat
  e_le : (input.e - input.r).toNat ≤ inputBuf

/-- `input'` is `input` after an edit that keeps the committed characters: `r` stays, `w` only
moves forward, and the characters from `r` to the old `w` are unchanged. -/
structure Keeps (input input' : Input) : Prop where
  ok : input'.Ok
  r_eq : input'.r = input.r
  w_le : (input.w - input.r).toNat ≤ (input'.w - input.r).toNat
  view_eq : Ring.view input'.buf inputBuf input.r input.w = Ring.view input.buf inputBuf input.r input.w

theorem Keeps.refl {input : Input} (h : input.Ok) : Keeps input input := ⟨h, rfl, le_rfl, rfl⟩

variable {input : Input}

/-- Erasing the last character of the line being edited. -/
theorem Keeps.erase (h : input.Ok) (hne : input.e ≠ input.w) :
    Keeps input { input with e := input.e - 1 } := by
  have hlt : (input.w - input.r).toNat < (input.e - input.r).toNat := by
    have hne' : (input.w - input.r).toNat ≠ (input.e - input.r).toNat := fun heq =>
      hne (sub_left_inj.mp (UInt32.toNat_inj.mp heq)).symm
    have := h.w_le_e
    omega
  -- `e` is past `r`, so `e - 1` is one closer to it
  have hre : input.r ≠ input.e := fun heq => by rw [heq, sub_self] at hlt; simp at hlt
  have hd := Ring.toNat_sub_succ hre
  have he1 : input.e - 1 - input.r = input.e - (input.r + 1) := by rw [sub_sub, add_comm]
  refine ⟨⟨?_, ?_⟩, rfl, le_rfl, rfl⟩
  · show (input.w - input.r).toNat ≤ (input.e - 1 - input.r).toNat
    rw [he1]
    omega
  · show (input.e - 1 - input.r).toNat ≤ inputBuf
    have := h.e_le
    rw [he1]
    omega

theorem Keeps.trans {input' input'' : Input} (h : Keeps input input') (h' : Keeps input' input'')
    (hw : input'.w = input.w) : Keeps input input'' := by
  refine ⟨h'.ok, h'.r_eq.trans h.r_eq, ?_, ?_⟩
  · have := h'.w_le
    rw [h.r_eq] at this
    exact h.w_le.trans this
  · have := h'.view_eq
    rw [h.r_eq, hw] at this
    rw [this, h.view_eq]

/-- Kill-line erases characters of the line being edited only. -/
theorem killLine_keeps (h : input.Ok) (fuel : ℕ) : Keeps input (killLine fuel input) := by
  induction fuel generalizing input with
  | zero => exact Keeps.refl h
  | succ fuel ih =>
    simp only [killLine]
    split_ifs with hk
    · have he := Keeps.erase h hk.1
      exact he.trans (ih he.ok) rfl
    · exact Keeps.refl h

/-- Appending character `c` at `e`, with room for it, keeps the committed characters, whether
it commits the line or not. -/
theorem Keeps.append (h : input.Ok) (hroom : input.e - input.r < 128) (c : UInt8) :
    Keeps input
      (let input' := { input with buf := Function.update input.buf (input.e.toNat % inputBuf) c,
                                  e := input.e + 1 }
       if c = '\n'.toUInt8 ∨ c = ctrl 'D' ∨ input'.e = input'.r + 128 then { input' with w := input'.e }
       else input') := by
  have hr : (input.e - input.r).toNat < inputBuf := by
    simpa [inputBuf] using UInt32.lt_iff_toNat_lt.mp hroom
  have hsucc : (input.e + 1 - input.r).toNat = (input.e - input.r).toNat + 1 :=
    Ring.toNat_add_one_sub (by unfold inputBuf at hr; omega)
  -- the new character goes to a cell past the committed ones
  have hview : Ring.view (Function.update input.buf (input.e.toNat % inputBuf) c) inputBuf input.r
      input.w = Ring.view input.buf inputBuf input.r input.w :=
    Ring.view_update_of_le inputBuf_dvd h.w_le_e hr c
  have hw := h.w_le_e
  dsimp only
  split
  · exact ⟨⟨by simp only; omega, by simp only; omega⟩, rfl, by simp only; omega, hview⟩
  · exact ⟨⟨by simp only; omega, by simp only; omega⟩, rfl, le_rfl, hview⟩

/-- A character of `consoleintr` keeps the committed characters: `^U`, `^H` and `DEL` erase
from the line being edited only, and other characters are appended after it. -/
theorem consoleintr_keeps (h : input.Ok) (c : UInt8) : Keeps input (consoleintr input c) := by
  unfold consoleintr
  split_ifs with hp hu hh he hroom hcr
  · exact Keeps.refl h
  · exact killLine_keeps h _
  · exact Keeps.erase h he
  · exact Keeps.refl h
  · -- `\r` is stored as `\n`
    exact Keeps.append h hroom.2 _
  · exact Keeps.append h hroom.2 _
  · exact Keeps.refl h

/-- A character of `consoleintr` never changes the committed characters not yet read: they stay
a prefix of those after it. -/
theorem consoleintr_committed (h : input.Ok) (c : UInt8) :
    Ring.view input.buf inputBuf input.r input.w <+:
      Ring.view (consoleintr input c).buf inputBuf input.r (consoleintr input c).w := by
  have hk := consoleintr_keeps h c
  rw [Ring.view_append inputBuf_dvd hk.w_le, hk.view_eq]
  exact List.prefix_append _ _

/-! ## What a read takes from the buffer -/

/-- The characters other than `^D`. -/
def noEof (l : List UInt8) : List UInt8 := l.filter fun c => c != ctrl 'D'

@[simp]
theorem noEof_append (l l' : List UInt8) : noEof (l ++ l') = noEof l ++ noEof l' :=
  List.filter_append ..

theorem noEof_cons_eof (l : List UInt8) : noEof (ctrl 'D' :: l) = noEof l := by
  simp [noEof]

theorem noEof_cons_of_ne {c : UInt8} (hc : c ≠ ctrl 'D') (l : List UInt8) :
    noEof (c :: l) = c :: noEof l := by
  simp [noEof, hc]

/-- Taking the character at `r` out of a non-empty committed region. -/
theorem Input.Ok.consume (h : input.Ok) (hne : input.r ≠ input.w) :
    { input with r := input.r + 1 }.Ok := by
  have hw := Ring.toNat_sub_succ hne
  -- `e` is at or past `w`, which is past `r`
  have hre : input.r ≠ input.e := fun heq => by
    have := h.w_le_e
    rw [← heq, sub_self] at this
    simp only [UInt32.toNat_zero, Nat.le_zero] at this
    omega
  have he := Ring.toNat_sub_succ hre
  have := h.w_le_e
  have := h.e_le
  exact ⟨by simp only; omega, by simp only; omega⟩

/-- `input'` and `dst'` are `input` and `dst` after the read loop took characters from the
committed region: what was copied followed by the committed characters left, `^D` aside, is
the same. -/
structure Drains (input : Input) (dst : List UInt8) (input' : Input) (dst' : List UInt8) :
    Prop where
  ok : input'.Ok
  buf_eq : input'.buf = input.buf
  w_eq : input'.w = input.w
  e_eq : input'.e = input.e
  lines : dst' ++ noEof (Ring.view input'.buf inputBuf input'.r input'.w) =
    dst ++ noEof (Ring.view input.buf inputBuf input.r input.w)

variable {dst dst' : List UInt8}

theorem Drains.refl (h : input.Ok) (dst : List UInt8) : Drains input dst input dst :=
  ⟨h, rfl, rfl, rfl, rfl⟩

theorem Drains.trans {input' input'' : Input} {dst'' : List UInt8}
    (h : Drains input dst input' dst') (h' : Drains input' dst' input'' dst'') :
    Drains input dst input'' dst'' :=
  ⟨h'.ok, h'.buf_eq.trans h.buf_eq, h'.w_eq.trans h.w_eq, h'.e_eq.trans h.e_eq,
    h'.lines.trans h.lines⟩

/-- Taking the character `c` at `r`: copied to `dst`, or dropped when it is `^D`. -/
theorem Drains.take (h : input.Ok) (hne : input.r ≠ input.w) (dst : List UInt8) {c : UInt8}
    (hc : input.buf (input.r.toNat % inputBuf) = c) :
    Drains input dst { input with r := input.r + 1 } (if c = ctrl 'D' then dst else dst ++ [c]) := by
  refine ⟨h.consume hne, rfl, rfl, rfl, ?_⟩
  show _ ++ noEof (Ring.view input.buf inputBuf (input.r + 1) input.w) = _
  rw [Ring.view_pop inputBuf_dvd hne, hc]
  split_ifs with hd
  · rw [hd, noEof_cons_eof]
  · rw [noEof_cons_of_ne hd, List.append_assoc, List.singleton_append]

/-- The read loop only takes committed characters, from `r` on. -/
theorem consolereadLoop_drains {killed : Bool} {target : UInt32} {fuel : ℕ} {n n' : Int32}
    {input' : Input} {exit : ReadExit}
    (hl : consolereadLoop killed target fuel n dst input = (input', n', dst', exit))
    (h : input.Ok) : Drains input dst input' dst' := by
  induction fuel generalizing n dst input with
  | zero =>
    cases hl
    exact Drains.refl h _
  | succ fuel ih =>
    simp only [consolereadLoop] at hl
    split_ifs at hl with hn hempty hkilled hd hpush hnl
    · cases hl
      exact Drains.refl h _
    · cases hl
      exact Drains.refl h _
    · -- a `^D` after data is put back: nothing is taken
      cases hl
      have hr : input.r + 1 - 1 = input.r := add_sub_cancel_right _ _
      simp only [hr]
      exact Drains.refl h _
    · -- a `^D` at the start of the read is taken and dropped
      cases hl
      simpa [hd] using Drains.take h hempty _ rfl
    · cases hl
      simpa [hd] using Drains.take h hempty _ rfl
    · have ht := Drains.take h hempty dst rfl
      simp only [hd, if_false] at ht
      exact ht.trans (ih hl ht.ok)
    · cases hl
      exact Drains.refl h _

/-! ## What a read returns -/

/-- A read of `target` bytes with `n` left has copied `target - n` bytes, fewer than `2^31`. -/
def CountOk (target : UInt32) (n : Int32) (dst : List UInt8) : Prop :=
  target - n.toUInt32 = UInt32.ofNat dst.length ∧ dst.length + n.toNatClampNeg < 2 ^ 31

variable {target : UInt32} {n : Int32}

theorem countOk_start (n : Int32) : CountOk n.toUInt32 n [] :=
  ⟨by simp, by simpa using Int32.toNatClampNeg_lt n⟩

/-- Copying a byte takes one from `n`. -/
theorem CountOk.copy (h : CountOk target n dst) (hn : 0 < n) (c : UInt8) :
    CountOk target (n - 1) (dst ++ [c]) := by
  have hpos : 0 < n.toNatClampNeg := (Int32.toNatClampNeg_pos_iff n).mpr hn
  have hone : (1 : Int32) ≤ n := by
    have := Int32.lt_iff_toInt_lt.mp hn
    exact Int32.le_iff_toInt_le.mpr (by simp at this ⊢; omega)
  have hsub : (n - 1).toNatClampNeg = n.toNatClampNeg - 1 :=
    Int32.toNatClampNeg_sub_of_le (by decide) hone
  refine ⟨?_, ?_⟩
  · rw [Int32.toUInt32_sub, sub_sub_eq_add_sub, add_sub_right_comm, h.1]
    simp [UInt32.ofNat_add, show Int32.toUInt32 1 = 1 from rfl]
  · have := h.2
    simp only [List.length_append, List.length_singleton, hsub]
    omega

/-- `consoleread` returns the number of bytes it copied. -/
theorem CountOk.result (h : CountOk target n dst) :
    (target - n.toUInt32).toInt32.toInt.toNat = dst.length := by
  rw [h.1, UInt32.toInt32_ofNat', Int32.toNat_toInt,
    Int32.toNatClampNeg_ofNat_of_lt (by have := h.2; omega)]

theorem consolereadLoop_count {killed : Bool} {fuel : ℕ} {n' : Int32} {input input' : Input}
    {exit : ReadExit} (hl : consolereadLoop killed target fuel n dst input = (input', n', dst', exit))
    (hc : CountOk target n dst) : CountOk target n' dst' := by
  induction fuel generalizing n dst input with
  | zero =>
    cases hl
    exact hc
  | succ fuel ih =>
    simp only [consolereadLoop] at hl
    split_ifs at hl with hn hempty hkilled hd hpush hnl
    · cases hl
      exact hc
    · cases hl
      exact hc
    · cases hl
      exact hc
    · cases hl
      exact hc
    · cases hl
      exact hc.copy hn _
    · exact ih hl (hc.copy hn _)
    · cases hl
      exact hc

/-- The read loop ends by the kill test only for a killed process. -/
theorem consolereadLoop_killed {killed : Bool} {fuel : ℕ} {n' : Int32} {input input' : Input}
    (hl : consolereadLoop killed target fuel n dst input = (input', n', dst', .killed)) :
    killed = true := by
  induction fuel generalizing n dst input with
  | zero => cases hl
  | succ fuel ih =>
    simp only [consolereadLoop] at hl
    split_ifs at hl with hn hempty hkilled hd hpush hnl
    · exact hkilled
    all_goals first | cases hl | exact ih hl

/-- A read that meets `^D` after copying data ends and puts the `^D` back. -/
theorem consolereadLoop_eof_kept {killed : Bool} {fuel : ℕ} {input : Input} (hn : 0 < n)
    (hne : input.r ≠ input.w) (hd : input.buf (input.r.toNat % inputBuf) = ctrl 'D')
    (hdata : n.toUInt32 < target) :
    consolereadLoop killed target (fuel + 1) n dst input = (input, n, dst, .done) := by
  have hr : input.r + 1 - 1 = input.r := add_sub_cancel_right _ _
  simp [consolereadLoop, hn, hne, hd, hdata, hr]

/-- A read of `n > 0` bytes whose first unread committed character is `^D` takes it and returns
`0`. -/
theorem consStep_read_eof {s : ConsSys} (hidle : s.reader = .idle) (hn : 0 < n)
    (hne : s.input.r ≠ s.input.w) (hd : s.input.buf (s.input.r.toNat % inputBuf) = ctrl 'D') :
    consStep s (.read n) = some (s.finishRead { s.input with r := s.input.r + 1 } 0 []) := by
  simp [consStep, hidle, ConsSys.runRead, consolereadLoop, hn, hne, hd]

/-! ## Every interleaving -/

/-- What holds in every state a reader that is not killed reaches. -/
structure LineInv (s : ConsSys) : Prop where
  ok : s.input.Ok
  lines : s.returned ++ s.reader.pending ++
    noEof (Ring.view s.input.buf inputBuf s.input.r s.input.w) = noEof s.committed
  count : ∀ target n dst, s.reader = .reading target n dst → CountOk target n dst
  alive : s.killed = false

variable {s s' : ConsSys}

theorem intr_inv (hs : LineInv s) (c : UInt8) : LineInv (s.intr c) := by
  have hk := consoleintr_keeps hs.ok c
  refine ⟨hk.ok, ?_, hs.count, hs.alive⟩
  -- the characters the interrupt commits follow the unread ones, which it keeps
  show s.returned ++ s.reader.pending ++ noEof (Ring.view (consoleintr s.input c).buf inputBuf
    (consoleintr s.input c).r (consoleintr s.input c).w) =
      noEof (s.committed ++ Ring.view (consoleintr s.input c).buf inputBuf s.input.w
        (consoleintr s.input c).w)
  rw [hk.r_eq, Ring.view_append inputBuf_dvd hk.w_le, hk.view_eq, noEof_append, noEof_append,
    ← hs.lines]
  simp only [List.append_assoc]

/-- A run of `consoleread` from where the reader is: `dst` is what it has copied so far. -/
theorem runRead_inv (hs : LineInv s) {target : UInt32} {n : Int32} {dst : List UInt8}
    (hpend : s.reader.pending = dst) (hc : CountOk target n dst) :
    LineInv (s.runRead target n dst) := by
  unfold ConsSys.runRead
  rcases hl : consolereadLoop s.killed target (n.toInt.toNat + 1) n dst s.input with
    ⟨input', n', dst', exit⟩
  have hd := consolereadLoop_drains hl hs.ok
  have hc' := consolereadLoop_count hl hc
  have hlines : s.returned ++ dst' ++ noEof (Ring.view input'.buf inputBuf input'.r input'.w) =
      noEof s.committed := by
    rw [List.append_assoc, hd.lines, ← List.append_assoc, ← hpend, hs.lines]
  cases exit with
  | sleeps =>
    dsimp only
    refine ⟨hd.ok, hlines, ?_, hs.alive⟩
    intro _ _ _ hr
    cases hr
    exact hc'
  | killed =>
    -- a reader that is not killed never takes the kill exit
    exact absurd (consolereadLoop_killed hl) (by rw [hs.alive]; decide)
  | done =>
    -- `consoleread` returns the number of bytes it copied: all of `dst'` is returned
    dsimp only
    refine ⟨hd.ok, ?_, ?_, hs.alive⟩
    · show s.returned ++ dst'.take (target - n'.toUInt32).toInt32.toInt.toNat ++ [] ++ _ = _
      rw [hc'.result, List.take_length, List.append_nil]
      exact hlines
    · intro _ _ _ hr
      cases hr

theorem aliveStep_inv {e : ConsEvent} (hs : LineInv s) (h : aliveStep s e = some s') :
    LineInv s' := by
  unfold aliveStep at h
  split_ifs at h with hkill
  cases e with
  | intr c =>
    cases h
    exact intr_inv hs c
  | read n =>
    simp only [consStep] at h
    split at h
    · rename_i hidle
      cases h
      exact runRead_inv hs (by rw [hidle]; rfl) (countOk_start n)
    · cases h
  | wake =>
    simp only [consStep] at h
    split at h
    · cases h
    · -- the reader resumes the read it slept in
      rename_i target n dst hread
      cases h
      exact runRead_inv hs (by rw [hread]; rfl) (hs.count _ _ _ hread)
  | kill => exact absurd rfl hkill

theorem consBoot_inv : LineInv consBoot where
  ok := ⟨by decide, by decide⟩
  lines := by simp [consBoot, Reader.pending, noEof]
  count := fun _ _ _ hr => by cases hr
  alive := rfl

theorem LineInv.reachable (hs : Trace.Reachable aliveStep consBoot s) : LineInv s :=
  Trace.Reachable.induction_of_step consBoot_inv (fun _ _ _ hs h => aliveStep_inv hs h) hs

/-- For a reader that is not killed: `r ≤ w ≤ e ≤ r + INPUT_BUF` as distances from `r`; a
character never changes the committed characters not yet read; and the bytes the reads
returned, then those the current read has copied, then the unread committed characters, are
the committed characters with `^D` left out, in order. A `^D` met after data ends the read and
stays unread, and a read that starts at a `^D` takes it and returns `0`. -/
theorem console_reads_committed_lines (hs : Trace.Reachable aliveStep consBoot s) :
    (s.input.w - s.input.r).toNat ≤ (s.input.e - s.input.r).toNat ∧
      (s.input.e - s.input.r).toNat ≤ inputBuf ∧
      (∀ c, (consoleintr s.input c).r = s.input.r ∧
        Ring.view s.input.buf inputBuf s.input.r s.input.w <+:
          Ring.view (consoleintr s.input c).buf inputBuf s.input.r (consoleintr s.input c).w) ∧
      s.returned <+: noEof s.committed ∧
      s.returned ++ s.reader.pending ++
        noEof (Ring.view s.input.buf inputBuf s.input.r s.input.w) = noEof s.committed ∧
      (∀ (killed : Bool) (target : UInt32) (fuel : ℕ) (n : Int32) (dst : List UInt8)
        (input : Input), 0 < n → input.r ≠ input.w →
        input.buf (input.r.toNat % inputBuf) = ctrl 'D' → n.toUInt32 < target →
        consolereadLoop killed target (fuel + 1) n dst input = (input, n, dst, .done)) ∧
      ∀ n : Int32, s.reader = .idle → 0 < n → s.input.r ≠ s.input.w →
        s.input.buf (s.input.r.toNat % inputBuf) = ctrl 'D' →
        consStep s (.read n) = some (s.finishRead { s.input with r := s.input.r + 1 } 0 []) := by
  have hi := LineInv.reachable hs
  refine ⟨hi.ok.w_le_e, hi.ok.e_le, fun c => ⟨(consoleintr_keeps hi.ok c).r_eq,
    consoleintr_committed hi.ok c⟩, ?_, hi.lines, fun _ _ _ _ _ _ => consolereadLoop_eof_kept,
    fun _ => consStep_read_eof⟩
  rw [← hi.lines, List.append_assoc]
  exact List.prefix_append _ _

/-- The line `a` ended by `^D`, then a read of 10 bytes. -/
def dataThenEof : List ConsEvent := [.intr 0x61, .intr (ctrl 'D'), .read 10]

/-- The read of 10 bytes returns `a` and leaves the `^D` unread, so that the next read of 10
bytes takes it and returns `0`. -/
theorem console_reads_committed_lines_eof : ∃ s,
    Trace.run aliveStep consBoot dataThenEof = some s ∧ s.returned = [0x61] ∧
      consStep s (.read 10) = some (s.finishRead { s.input with r := s.input.r + 1 } 0 []) := by
  have hsome : (Trace.run aliveStep consBoot dataThenEof).isSome = true := by decide
  obtain ⟨s, hrun⟩ := Option.isSome_iff_exists.mp hsome
  -- what the three events leave: the `a` returned, the reader idle, and the `^D` next
  have hret : (Trace.run aliveStep consBoot dataThenEof).map ConsSys.returned = some [0x61] := by
    decide
  have hidle : (Trace.run aliveStep consBoot dataThenEof).map ConsSys.reader = some .idle := by
    decide
  have hnext : (Trace.run aliveStep consBoot dataThenEof).map (fun s =>
      decide (s.input.r ≠ s.input.w ∧ s.input.buf (s.input.r.toNat % inputBuf) = ctrl 'D')) =
        some true := by
    decide
  rw [hrun, Option.map_some, Option.some.injEq] at hret hidle hnext
  obtain ⟨hne, hd⟩ := of_decide_eq_true hnext
  have hs : Trace.Reachable aliveStep consBoot s := Trace.Reachable.init.of_run hrun
  exact ⟨s, hrun, hret, (console_reads_committed_lines hs).2.2.2.2.2.2 10 hidle (by decide) hne hd⟩

/-- The reader sleeps in a read of 200 bytes on an empty buffer; 128 characters without a
newline fill the buffer, which commits them and wakes the reader; its process is killed before
it runs again. -/
def killedFullLineRead : List ConsEvent :=
  [.read 200] ++ List.replicate 128 (.intr 0x61) ++ [.kill, .wake]

/-- A killed reader takes all committed characters and returns `-1`: the characters are never
returned. -/
theorem killed_read_loses_committed_line :
    ∃ s, Trace.Reachable consStep consBoot s ∧ s.reader = .idle ∧ s.input.r = s.input.w ∧
      s.returned ≠ noEof s.committed := by
  have hrun : (Trace.run consStep consBoot killedFullLineRead).map (fun s =>
      decide (s.reader = .idle ∧ s.input.r = s.input.w ∧ s.returned ≠ noEof s.committed)) =
        some true := by
    decide +kernel
  obtain ⟨s, hs, hbad⟩ := Trace.exists_of_run hrun
  exact ⟨s, hs, of_decide_eq_true hbad⟩

end Xv6.Dev
