import Xv6.Proc.Table

/-!
# The path of a swap file (`fs.c`)

`createSwapFile` and `removeSwapFile` name the swap file of a process `/.swap<pid>`. The path
is built in `char path[DIGITS]` on the stack: `memmove` copies the six bytes of `/.swap`, and
`itoa` writes the decimal digits of the pid after them, followed by a NUL. `allocproc` creates
the file for every pid above `2`, with the pid it has just taken from `nextpid`.

`itoa` is modelled by the stores it makes, as offsets from its buffer in the order it makes
them: its first loop only counts the digits to find where the NUL goes, and its second loop
stores the digits from the last back to the first.

## Main definitions

* `itoaWidth`, `itoaStores`, `itoa`: the two loops of `itoa` and the whole function.
* `swapPathStores`: the stores that build the path of a swap file.

## Main results

* `swap_path_overruns`: `nextpid` reaches `10000000`, and the path of that process's swap file
  ends one byte past `path`.
-/

namespace Xv6.SwapPath

open ProcTable

/-- `DIGITS`, the size of `path`. -/
def digits : ℕ := 14

/-- An `int` has at most ten decimal digits: iterations enough for either loop of `itoa`. -/
def itoaFuel : ℕ := 10

/-- `'-'`. -/
def minus : UInt8 := 45

/-- `digit[d]` of the table `"0123456789"`; `none` for an index outside it, which `i % 10` is
for a negative `i`. -/
def digitAt (d : Int32) : Option UInt8 :=
  if 0 ≤ d ∧ d < 10 then some (48 + UInt8.ofNat d.toNatClampNeg) else none

/-- The first loop of `itoa`, `do { ++p; shifter = shifter/10; } while(shifter)`: the number of
steps `p` takes. -/
def itoaWidth : ℕ → Int32 → ℕ
  | 0, _ => 0
  | fuel + 1, shifter => if shifter / 10 = 0 then 1 else itoaWidth fuel (shifter / 10) + 1

/-- The second loop of `itoa`, `do { *--p = digit[i%10]; i = i/10; } while(i)`, from the offset
`p`: its stores in order, or `none` when it reads outside `digit`. -/
def itoaStores : ℕ → Int32 → ℕ → Option (List (ℕ × UInt8))
  | 0, _, _ => some []
  | fuel + 1, i, p => do
    let d ← digitAt (i % 10)
    if i / 10 = 0 then return [(p - 1, d)]
    return (p - 1, d) :: (← itoaStores fuel (i / 10) (p - 1))

/-- `itoa(i, b)`: its stores at offsets from `b`. A negative `i` gets a `-` and is negated with
`i *= -1`; the NUL goes where the first loop leaves `p`. -/
def itoa (i : Int32) : Option (List (ℕ × UInt8)) := do
  let (sign, i) := if i < 0 then ([(0, minus)], i * -1) else ([], i)
  let p := sign.length + itoaWidth itoaFuel i
  return sign ++ (p, 0) :: (← itoaStores itoaFuel i p)

/-- The bytes of `"/.swap"`. -/
def swapPrefix : List UInt8 := [47, 46, 115, 119, 97, 112]

/-- The stores that build the path of the swap file of the process with pid `pid`:
`memmove(path, "/.swap", 6)`, then `itoa(pid, path + 6)`. -/
def swapPathStores (pid : Int32) : Option (List (ℕ × UInt8)) := do
  let s ← itoa pid
  return (List.range 6).zip swapPrefix ++ s.map fun st => (6 + st.1, st.2)

/-- After `10000000 - 2` rounds of `fork`, `exit` and `wait` by `initproc`, the next `fork` gives
its child the pid `10000000`, above `2`, so `allocproc` creates its swap file; building the path
stores the NUL at `path[14]`, one byte past the `DIGITS` bytes of `path`. -/
theorem swap_path_overruns :
    ∃ t, Trace.Reachable step (.ok boot) (.ok t) ∧
      ∃ i, (t.procs i).state ≠ .unused ∧ 2 < (t.procs i).pid ∧
        ∃ stores, swapPathStores (t.procs i).pid = some stores ∧ (digits, 0) ∈ stores := by
  have hpid : (2 : Int32) + Int32.ofNat (10000000 - 2) = 10000000 := by decide
  have hrun : Trace.run step (.ok boot)
      ((List.replicate (10000000 - 2) cycle).flatten ++ [.fork 0 true]) =
        some (.ok ⟨Function.update boot.procs 1 (childSlot .runnable 10000000), 10000000 + 1, 0⟩) := by
    rw [Trace.run_append, show boot = canon 2 from rfl, run_cycles, Option.bind_some, hpid,
      Trace.run_cons, step_fork_canon, Option.bind_some, Trace.run_nil]
    rfl
  refine ⟨_, Trace.Reachable.init.of_run hrun, 1, by decide, by decide, ?_⟩
  simp only [Function.update_self, childSlot]
  exact ⟨_, rfl, by decide⟩

end Xv6.SwapPath
