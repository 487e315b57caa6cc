import Xv6.User.Grep

/-!
# The shell's parser (`sh.c`)

`parsecmd` turns a command line into a tree of `execcmd`, `redircmd`, `pipecmd`, `listcmd`
and `backcmd` nodes by recursive descent, and `nulterminate` then ends each word of the tree
with a NUL written into the line itself.

The line is the bytes before its NUL, and a pointer into it is an offset: `es` is the length,
and `*s` at `es` is the NUL (`charAt`). `gettoken` and `peek` give the offsets they leave in
`*ps`, `*q` and `*eq`. A word of a command is the pair `(q, eq)` of offsets of its first byte
and of the byte after it, as `argv[i]` and `eargv[i]` are, and a `redircmd`'s file is
`(file, efile)`. `strchr` is the one of `ulib.c`, which never finds the NUL.

The four parse functions call one another, and the loops of `parseline`, `parseredirs` and
`parseexec` run while the next token fits. Each takes a `fuel` argument that bounds the depth
of the calls and the turns of the loops; running out is the fault `outOfFuel`, which `sh.c`
does not have, and the fuel `parsecmd` gives is never used up (`ShParse`). `panic` prints its
message and exits the shell: it is the fault `panic msg`. The `printf` of the leftovers before
`panic("syntax")` is output only and is left out, and so is `malloc`: a node is a value.

## Main definitions

* `gettoken`, `peek`: the tokenizer.
* `Cmd`: the parse tree.
* `parseredirs`, `parselineLoop`, `parseexecLoop`: the loops.
* `parseline`, `parsepipe`, `parseblock`, `parseexec`, `parsecmd`: the parser.
* `nulterminate`: the NULs written after the words of a tree.
-/

namespace Xv6.Sh

/-- `MAXARGS`: the size of an `execcmd`'s `argv`, its last entry being the `0` that ends it. -/
def maxargs : ℕ := 10

/-- `O_RDONLY` of `fcntl.h`. -/
def oRdonly : ℕ := 0x000
/-- `O_WRONLY` of `fcntl.h`. -/
def oWronly : ℕ := 0x001
/-- `O_CREATE` of `fcntl.h`. -/
def oCreate : ℕ := 0x200

/-- The bytes of `whitespace[] = " \t\r\n\v"`. -/
def whitespace : List UInt8 := [32, 9, 13, 10, 11]

/-- The bytes of `symbols[] = "<|>&;()"`. -/
def symbols : List UInt8 := [60, 124, 62, 38, 59, 40, 41]

/-- `strchr(whitespace, c)`. -/
def isSpace (c : UInt8) : Bool := (Grep.strchr c whitespace).isSome

/-- `!strchr(whitespace, c) && !strchr(symbols, c)`: the test of `gettoken`'s word loop. -/
def isWordByte (c : UInt8) : Bool :=
  !(Grep.strchr c whitespace).isSome && !(Grep.strchr c symbols).isSome

/-- `*s` for `s` at offset `p` of the line: the NUL at `es`. -/
def charAt (s : List UInt8) (p : ℕ) : UInt8 := s.getD p 0

/-- `while(s < es && P(*s)) s++` started at offset `p`: it stops at the first byte from `p` on
that fails `P`, or at `es`. -/
def skipWhile (P : UInt8 → Bool) (s : List UInt8) (p : ℕ) : ℕ :=
  p + ((s.drop p).takeWhile P).length

/-! ## The tokenizer -/

/-- What `gettoken(ps, es, &q, &eq)` gives: its return value and the offsets it leaves in
`*q`, `*eq` and `*ps`. -/
structure Gettoken where
  /-- The returned `int`: `0` at the end, the symbol, `'+'` for `>>`, `'a'` for a word. -/
  ret : UInt8
  /-- `*q`: where the token starts. -/
  q : ℕ
  /-- `*eq`: the offset after the token. -/
  eq : ℕ
  /-- `*ps`: the offset after the token and the whitespace after it. -/
  ps : ℕ
  deriving Repr, DecidableEq

/-- The `switch(*s)` of `gettoken` at the token's first byte `q`: the return value and `*eq`.
The end of the line gives `0`; one of `|();&<` gives itself; `>` gives itself, or `'+'` when a
second `>` follows; anything else starts a word, which runs to whitespace, a symbol or `es`. -/
def gettokenSwitch (s : List UInt8) (q : ℕ) : UInt8 × ℕ :=
  let c := charAt s q
  if c = 0 then (0, q)
  else if c ∈ [124, 40, 41, 59, 38, 60] then (c, q + 1)
  else if c = 62 then (if charAt s (q + 1) = 62 then (43, q + 2) else (62, q + 1))
  else (97, skipWhile isWordByte s q)

/-- `gettoken(ps, es, &q, &eq)` with `*ps = ps`. -/
def gettoken (s : List UInt8) (ps : ℕ) : Gettoken :=
  let q := skipWhile isSpace s ps
  let eq := (gettokenSwitch s q).2
  { ret := (gettokenSwitch s q).1, q, eq, ps := skipWhile isSpace s eq }

-- ` >>a`: the blank is skipped and `>>` is one token, `'+'`
example : gettoken [32, 62, 62, 97] 0 = ⟨43, 1, 3, 3⟩ := by decide

/-- `peek(ps, es, toks)` with `*ps = ps`: whether the byte after the whitespace is one of
`toks`, and the offset `*ps` is moved to, past the whitespace. -/
def peek (s : List UInt8) (ps : ℕ) (toks : List UInt8) : Bool × ℕ :=
  let p := skipWhile isSpace s ps
  (charAt s p != 0 && (Grep.strchr (charAt s p) toks).isSome, p)

/-! ## The parse tree -/

/-- A parsed command: `struct cmd` and the five node types of `sh.c`. -/
inductive Cmd where
  /-- `execcmd`: its words `(argv[i], eargv[i])`. -/
  | exec (argv : List (ℕ × ℕ))
  /-- `redircmd(cmd, file, efile, mode, fd)`. -/
  | redir (cmd : Cmd) (file efile mode fd : ℕ)
  /-- `pipecmd(left, right)`. -/
  | pipe (left right : Cmd)
  /-- `listcmd(left, right)`. -/
  | list (left right : Cmd)
  /-- `backcmd(cmd)`. -/
  | back (cmd : Cmd)
  deriving Repr, DecidableEq

/-- The command with the words `argv` in the `execcmd` under its redirections: `parseexec`
fills in `cmd->argv` through the pointer it kept to the `execcmd`, after `parseredirs` has
wrapped it. -/
def Cmd.setArgv : Cmd → List (ℕ × ℕ) → Cmd
  | .exec _, argv => .exec argv
  | .redir cmd file efile mode fd, argv => .redir (cmd.setArgv argv) file efile mode fd
  | cmd, _ => cmd

/-- How a parse stops short of a tree. -/
inductive Fault where
  /-- `panic(msg)`: the shell prints `msg` and exits. -/
  | panic (msg : String)
  /-- The fuel ran out: not a behaviour of `sh.c`. -/
  | outOfFuel
  deriving Repr, DecidableEq

/-! ## The parser -/

/-- The `switch(tok)` of `parseredirs`: `<` opens the file `(q, eq)` for reading on fd 0,
`>` and `>>` (`'+'`) for writing on fd 1; any other token leaves `cmd` as it is. -/
def redirOf (tok : UInt8) (cmd : Cmd) (q eq : ℕ) : Cmd :=
  if tok = 60 then .redir cmd q eq oRdonly 0
  else if tok = 62 then .redir cmd q eq (oWronly ||| oCreate) 1
  else if tok = 43 then .redir cmd q eq (oWronly ||| oCreate) 1
  else cmd

/-- `parseredirs(cmd, ps, es)`: while the next byte is `<` or `>`, read the operator and the
file word after it. -/
def parseredirs (s : List UInt8) : ℕ → Cmd → ℕ → Except Fault (Cmd × ℕ)
  | 0, _, _ => .error .outOfFuel
  | fuel + 1, cmd, ps =>
    let pk := peek s ps [60, 62]
    if pk.1 then
      let tok := gettoken s pk.2
      let file := gettoken s tok.ps
      if file.ret ≠ 97 then .error (.panic "missing file for redirection")
      else parseredirs s fuel (redirOf tok.ret cmd file.q file.eq) file.ps
    else .ok (cmd, pk.2)

/-- The `while(peek(ps, es, "&"))` loop of `parseline`: each `&` wraps `cmd` in a `backcmd`. -/
def parselineLoop (s : List UInt8) : ℕ → Cmd → ℕ → Except Fault (Cmd × ℕ)
  | 0, _, _ => .error .outOfFuel
  | fuel + 1, cmd, ps =>
    let pk := peek s ps [38]
    if pk.1 then parselineLoop s fuel (.back cmd) (gettoken s pk.2).ps else .ok (cmd, pk.2)

/-- The `while(!peek(ps, es, "|)&;"))` loop of `parseexec`: `ret` is the command with the
redirections so far and `argv` the words so far; it gives both, and the offset it stops at. -/
def parseexecLoop (s : List UInt8) :
    ℕ → Cmd → List (ℕ × ℕ) → ℕ → Except Fault ((Cmd × List (ℕ × ℕ)) × ℕ)
  | 0, _, _, _ => .error .outOfFuel
  | fuel + 1, ret, argv, ps =>
    let pk := peek s ps [124, 41, 38, 59]
    if pk.1 then .ok ((ret, argv), pk.2) else
    let tok := gettoken s pk.2
    if tok.ret = 0 then .ok ((ret, argv), tok.ps)
    else if tok.ret ≠ 97 then .error (.panic "syntax")
    -- `argc++; if(argc >= MAXARGS) panic(...)`
    else if maxargs ≤ argv.length + 1 then .error (.panic "too many args")
    else do
      let (ret, ps) ← parseredirs s fuel ret tok.ps
      parseexecLoop s fuel ret (argv ++ [(tok.q, tok.eq)]) ps

mutual

/-- `parseline(ps, es)`: a pipeline, the `&`s after it, and a `;` with the line after it. -/
def parseline (s : List UInt8) : ℕ → ℕ → Except Fault (Cmd × ℕ)
  | 0, _ => .error .outOfFuel
  | fuel + 1, ps => do
    let (cmd, ps) ← parsepipe s fuel ps
    let (cmd, ps) ← parselineLoop s fuel cmd ps
    let pk := peek s ps [59]
    if pk.1 then do
      let (right, ps) ← parseline s fuel (gettoken s pk.2).ps
      pure (.list cmd right, ps)
    else pure (cmd, pk.2)

/-- `parsepipe(ps, es)`: a command, and a `|` with the pipeline after it. -/
def parsepipe (s : List UInt8) : ℕ → ℕ → Except Fault (Cmd × ℕ)
  | 0, _ => .error .outOfFuel
  | fuel + 1, ps => do
    let (cmd, ps) ← parseexec s fuel ps
    let pk := peek s ps [124]
    if pk.1 then do
      let (right, ps) ← parsepipe s fuel (gettoken s pk.2).ps
      pure (.pipe cmd right, ps)
    else pure (cmd, pk.2)

/-- `parseblock(ps, es)`: `(`, a line, `)` and the redirections after it. -/
def parseblock (s : List UInt8) : ℕ → ℕ → Except Fault (Cmd × ℕ)
  | 0, _ => .error .outOfFuel
  | fuel + 1, ps =>
    let pk := peek s ps [40]
    if !pk.1 then .error (.panic "parseblock") else do
    let (cmd, ps) ← parseline s fuel (gettoken s pk.2).ps
    let pk := peek s ps [41]
    if !pk.1 then .error (.panic "syntax - missing )")
    else parseredirs s fuel cmd (gettoken s pk.2).ps

/-- `parseexec(ps, es)`: a block, or redirections and words. -/
def parseexec (s : List UInt8) : ℕ → ℕ → Except Fault (Cmd × ℕ)
  | 0, _ => .error .outOfFuel
  | fuel + 1, ps =>
    let pk := peek s ps [40]
    if pk.1 then parseblock s fuel pk.2 else do
    let (ret, ps) ← parseredirs s fuel (.exec []) pk.2
    let ((ret, argv), ps) ← parseexecLoop s fuel ret [] ps
    pure (ret.setArgv argv, ps)

end

/-! ## `nulterminate` and `parsecmd` -/

/-- `nulterminate(cmd)` on the memory `mem` the line lies in: a NUL at each `eargv[i]` of
each `execcmd` and at each `efile`, left subtrees first. -/
def nulterminate : Cmd → (ℕ → UInt8) → ℕ → UInt8
  | .exec argv, mem => argv.foldl (fun mem w => Function.update mem w.2 0) mem
  | .redir cmd _ efile _ _, mem => Function.update (nulterminate cmd mem) efile 0
  | .pipe left right, mem => nulterminate right (nulterminate left mem)
  | .list left right, mem => nulterminate right (nulterminate left mem)
  | .back cmd, mem => nulterminate cmd mem

/-- The fuel `parsecmd` gives the parser: four calls deep for each byte of the line, and four
more (`parseline` to `parseblock`) at its end. -/
def parseFuel (s : List UInt8) : ℕ := 4 * s.length + 4

/-- `parsecmd(s)`: the tree of the whole line, and the line's memory after `nulterminate`. -/
def parsecmd (s : List UInt8) : Except Fault (Cmd × (ℕ → UInt8)) := do
  let (cmd, ps) ← parseline s (parseFuel s) 0
  if (peek s ps []).2 ≠ s.length then .error (.panic "syntax")
  else pure (cmd, nulterminate cmd (charAt s))

-- `a>b`: the command `a` with its output sent to the file `b`
example : (parsecmd [97, 62, 98]).map Prod.fst = .ok (.redir (.exec [(0, 1)]) 2 3 513 1) := by
  decide +kernel

end Xv6.Sh
