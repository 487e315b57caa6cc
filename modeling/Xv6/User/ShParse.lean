import Xv6.User.ShLex
import Xv6.Lib.Writes
import Xv6.Lib.StateExcept

/-!
# What `parsecmd` parses (`sh.c`)

The grammar of the shell's commands, over the tokens of the line, with the tree each phrase
gives (`Derives`):

    line   ::= pipe {'&'} [';' line]
    pipe   ::= exec ['|' pipe]
    exec   ::= '(' line ')' redirs | redirs {word redirs}
    redirs ::= {('<' | '>' | '>>') word}

with fewer than `MAXARGS` words in an `exec`. A parse function that returns read a phrase of
it, from the offset it was called at to the one it returns (`Sound`), whatever its fuel; the
fuel `parsecmd` gives is never used up (`Enough`); and `nulterminate` ends each word of the
tree in place without touching any byte a word holds.

## Main definitions

* `Redirs`, `Words`, `Derives`: the grammar.
* `Parsed`, `Sound`: a parse reads a phrase of the grammar.
* `Enough`: a parse does not run out of fuel.
* `Cmd.words`, `StrAt`: the words of a tree, and a NUL-terminated string in memory.

## Main results

* `parse_sound`: the four parse functions read phrases of the grammar.
* `parse_enough`: four calls per byte of the line are enough fuel.
* `nulterminate_eq`: `nulterminate` writes a NUL at the end of each word of the tree.
* `parsecmd_spec`: `parsecmd` terminates; a tree it returns is a parse of the line; after
  `nulterminate` each word is the string of its bytes, and the only bytes changed are word ends.
-/

namespace Xv6.Sh

open StateExcept

/-! ## The grammar -/

/-- `redirs ::= {('<' | '>' | '>>') word}`: the redirections `ts` wrap `cmd` into `cmd'`, the
first one innermost, with the mode and fd `parseredirs` gives each operator. -/
inductive Redirs : Cmd → List Token → Cmd → Prop
  | nil (cmd : Cmd) : Redirs cmd [] cmd
  | lt {cmd cmd' : Cmd} {q eq : ℕ} {ts : List Token} :
      Redirs (.redir cmd q eq oRdonly 0) ts cmd' → Redirs cmd (.lt :: .word q eq :: ts) cmd'
  | gt {cmd cmd' : Cmd} {q eq : ℕ} {ts : List Token} :
      Redirs (.redir cmd q eq (oWronly ||| oCreate) 1) ts cmd' →
        Redirs cmd (.gt :: .word q eq :: ts) cmd'
  | append {cmd cmd' : Cmd} {q eq : ℕ} {ts : List Token} :
      Redirs (.redir cmd q eq (oWronly ||| oCreate) 1) ts cmd' →
        Redirs cmd (.append :: .word q eq :: ts) cmd'

/-- `{word redirs}`: words, each with the redirections after it; the redirections wrap `cmd`
into `cmd'`, and `argv` are the words. -/
inductive Words : Cmd → List Token → Cmd → List (ℕ × ℕ) → Prop
  | nil (cmd : Cmd) : Words cmd [] cmd []
  | cons {cmd cmd' cmd'' : Cmd} {q eq : ℕ} {rs ts : List Token} {argv : List (ℕ × ℕ)} :
      Redirs cmd rs cmd' → Words cmd' ts cmd'' argv →
        Words cmd (.word q eq :: rs ++ ts) cmd'' ((q, eq) :: argv)

/-- The nonterminals `line`, `pipe` and `exec` of the grammar. -/
inductive Phrase where
  | line
  | pipe
  | exec

/-- The grammar of `sh.c`'s parser, with the tree each phrase gives:
`line ::= pipe {'&'} [';' line]`, `pipe ::= exec ['|' pipe]`,
`exec ::= '(' line ')' redirs | redirs {word redirs}`, the words of an `exec` fewer than
`MAXARGS`. -/
inductive Derives : Phrase → List Token → Cmd → Prop
  /-- `line ::= pipe {'&'}`: each `&` wraps the pipeline in a `backcmd`. -/
  | line {ts : List Token} {cmd : Cmd} (k : ℕ) :
      Derives .pipe ts cmd → Derives .line (ts ++ List.replicate k .amp) (Cmd.back^[k] cmd)
  /-- `line ::= pipe {'&'} ';' line`. -/
  | list {ts ts' : List Token} {cmd cmd' : Cmd} (k : ℕ) :
      Derives .pipe ts cmd → Derives .line ts' cmd' →
        Derives .line (ts ++ List.replicate k .amp ++ .semi :: ts') (.list (Cmd.back^[k] cmd) cmd')
  /-- `pipe ::= exec`. -/
  | exec {ts : List Token} {cmd : Cmd} : Derives .exec ts cmd → Derives .pipe ts cmd
  /-- `pipe ::= exec '|' pipe`. -/
  | pipe {ts ts' : List Token} {cmd cmd' : Cmd} :
      Derives .exec ts cmd → Derives .pipe ts' cmd' →
        Derives .pipe (ts ++ .pipe :: ts') (.pipe cmd cmd')
  /-- `exec ::= '(' line ')' redirs`. -/
  | block {ts rs : List Token} {cmd cmd' : Cmd} :
      Derives .line ts cmd → Redirs cmd rs cmd' →
        Derives .exec (.lparen :: ts ++ .rparen :: rs) cmd'
  /-- `exec ::= redirs {word redirs}`: the words go into the `execcmd` under the
  redirections. -/
  | words {rs ts : List Token} {cmd cmd' : Cmd} {argv : List (ℕ × ℕ)} :
      Redirs (.exec []) rs cmd → Words cmd ts cmd' argv → argv.length < maxargs →
        Derives .exec (rs ++ ts) (cmd'.setArgv argv)

/-! ## Soundness -/

section Sound

variable {s : List UInt8} {α : Type}

/-- A parse from offset `p` that stopped at `p'` read a phrase: the tokens from `p` on are the
tokens `ts` with `G ts a`, then the tokens from `p'` on. -/
def Parsed (s : List UInt8) (G : List Token → α → Prop) (p : ℕ) (a : α) (p' : ℕ) : Prop :=
  p ≤ p' ∧ ∃ ts, tokensFrom s p = ts ++ tokensFrom s p' ∧ G ts a

/-- Every parse `f` completes, from any offset, read a phrase `G`. -/
def Sound (s : List UInt8) (f : ℕ → Except Fault (α × ℕ)) (G : List Token → α → Prop) : Prop :=
  ∀ {p : ℕ} {a : α} {p' : ℕ}, f p = .ok (a, p') → Parsed s G p a p'

/-- The whitespace a `peek` skipped holds no token. -/
theorem Parsed.of_peek {G : List Token → α → Prop} {p p' : ℕ} {a : α} {toks : List UInt8}
    (h : Parsed s G (peek s p toks).2 a p') : Parsed s G p a p' := by
  obtain ⟨hle, ts, hts, hG⟩ := h
  exact ⟨(le_skipWhile _ _ _).trans hle, ts, by rw [← tokensFrom_peek s p toks, hts], hG⟩

/-- A parse that reads nothing. -/
theorem Parsed.peek_nil {G : List Token → α → Prop} {p : ℕ} {a : α} {toks : List UInt8}
    (h : G [] a) : Parsed s G p a (peek s p toks).2 :=
  ⟨le_skipWhile _ _ _, [], by rw [tokensFrom_peek, List.nil_append], h⟩

/-- Peeking the one-byte symbol `c` finds the token `gettoken` then reads. -/
theorem tokensFrom_of_peek {p : ℕ} {c : UInt8} (hc : c ∈ [124, 40, 41, 59, 38, 60])
    (h : (peek s p [c]).1 = true) :
    (gettoken s p).ret = c ∧
      tokensFrom s p = (gettoken s p).token :: tokensFrom s (gettoken s (peek s p [c]).2).ps := by
  have hret := gettoken_ret_of_peek hc h
  refine ⟨hret, ?_⟩
  rw [gettoken_peek, tokensFrom_of_ret_ne_zero]
  rintro h0
  rw [hret] at h0
  subst h0
  simp at hc

theorem le_peek_gettoken (s : List UInt8) (p : ℕ) (toks : List UInt8) :
    p ≤ (gettoken s (peek s p toks).2).ps :=
  (le_skipWhile _ _ _).trans (le_gettoken_ps _ _)

/-- The operator and the file `parseredirs` reads are one redirection of the grammar. -/
theorem Redirs.cons_redirOf {cmd cmd' : Cmd} {g f : Gettoken} {ts : List Token}
    (hg : g.ret = 60 ∨ g.ret = 62 ∨ g.ret = 43) (hf : f.ret = 97)
    (h : Redirs (redirOf g.ret cmd f.q f.eq) ts cmd') :
    Redirs cmd (g.token :: f.token :: ts) cmd' := by
  rw [Gettoken.token_of_ret_eq_word hf]
  rcases hg with hg | hg | hg <;> simp only [redirOf, hg] at h <;>
    simp only [Gettoken.token, hg]
  · exact Redirs.lt h
  · exact Redirs.gt (by simpa using h)
  · exact Redirs.append (by simpa using h)

theorem parseredirs_sound (fuel : ℕ) (cmd : Cmd) :
    Sound s (parseredirs s fuel cmd) (Redirs cmd) := by
  -- induction on the fuel: one turn of the loop reads an operator and a file
  induction fuel generalizing cmd with
  | zero => intro p a p' h; cases h
  | succ fuel ih =>
    intro p a p' h
    rw [parseredirs] at h
    by_cases hpk : (peek s p [60, 62]).1 = true
    · rw [if_pos hpk] at h
      have hg := gettoken_ret_of_peek_redir hpk
      rw [gettoken_peek] at h
      dsimp only at h
      by_cases hf : (gettoken s (gettoken s p).ps).ret = 97
      swap
      · rw [if_pos hf] at h
        cases h
      rw [if_neg (not_not.mpr hf)] at h
      obtain ⟨hle, ts, hts, hG⟩ := ih _ h
      have hg0 : (gettoken s p).ret ≠ 0 := by rcases hg with hg | hg | hg <;> rw [hg] <;> decide
      refine ⟨(le_gettoken_ps _ _).trans ((le_gettoken_ps _ _).trans hle),
        (gettoken s p).token :: (gettoken s (gettoken s p).ps).token :: ts, ?_,
        Redirs.cons_redirOf hg hf hG⟩
      rw [tokensFrom_of_ret_ne_zero hg0, tokensFrom_of_ret_ne_zero (by rw [hf]; decide), hts]
      rfl
    · rw [if_neg hpk] at h
      cases h
      exact Parsed.peek_nil (Redirs.nil _)


theorem parselineLoop_sound (fuel : ℕ) (cmd : Cmd) :
    Sound s (parselineLoop s fuel cmd)
      (fun ts cmd' => ∃ k, ts = List.replicate k .amp ∧ cmd' = Cmd.back^[k] cmd) := by
  -- induction on the fuel: one turn of the loop reads a `&`
  induction fuel generalizing cmd with
  | zero => intro p a p' h; cases h
  | succ fuel ih =>
    intro p a p' h
    rw [parselineLoop] at h
    by_cases hpk : (peek s p [38]).1 = true
    · rw [if_pos hpk] at h
      obtain ⟨hret, htok⟩ := tokensFrom_of_peek (by decide) hpk
      obtain ⟨hle, ts, hts, k, rfl, rfl⟩ := ih _ h
      have hamp : (gettoken s p).token = .amp := by simp [Gettoken.token, hret]
      refine ⟨(le_peek_gettoken s p [38]).trans hle, List.replicate (k + 1) .amp, ?_, k + 1, rfl,
        (Function.iterate_succ_apply _ _ _).symm⟩
      rw [htok, hts, hamp, List.replicate_succ, List.cons_append]
    · rw [if_neg hpk] at h
      cases h
      exact Parsed.peek_nil ⟨0, rfl, rfl⟩

theorem parseexecLoop_sound (fuel : ℕ) (ret : Cmd) (argv : List (ℕ × ℕ))
    (hlen : argv.length < maxargs) :
    Sound s (parseexecLoop s fuel ret argv)
      (fun ts r => ∃ more, Words ret ts r.1 more ∧ r.2 = argv ++ more ∧ r.2.length < maxargs) := by
  -- induction on the fuel: one turn of the loop reads a word and the redirections after it
  induction fuel generalizing ret argv with
  | zero => intro p a p' h; cases h
  | succ fuel ih =>
    intro p a p' h
    rw [parseexecLoop] at h
    dsimp only at h
    by_cases hpk : (peek s p [124, 41, 38, 59]).1 = true
    · rw [if_pos hpk] at h
      cases h
      exact Parsed.peek_nil ⟨[], Words.nil _, by simp, hlen⟩
    rw [if_neg hpk, gettoken_peek] at h
    by_cases h0 : (gettoken s p).ret = 0
    · -- the end of the line
      rw [if_pos h0] at h
      cases h
      refine ⟨le_gettoken_ps _ _, [], ?_, [], Words.nil _, by simp, hlen⟩
      rw [tokensFrom_of_ret_eq_zero h0, tokensFrom_ps_of_ret_eq_zero h0, List.nil_append]
    rw [if_neg h0] at h
    by_cases ha : (gettoken s p).ret = 97
    swap
    · rw [if_pos ha] at h
      cases h
    rw [if_neg (not_not.mpr ha)] at h
    by_cases hmax : maxargs ≤ argv.length + 1
    · rw [if_pos hmax] at h
      cases h
    rw [if_neg hmax] at h
    -- a word, then the redirections after it, then the rest of the loop
    obtain ⟨⟨r, p₁⟩, h₁, h⟩ := bind_eq_ok h
    obtain ⟨hle₁, rs, hrs, hr⟩ := parseredirs_sound fuel ret h₁
    have hlen' : (argv ++ [((gettoken s p).q, (gettoken s p).eq)]).length < maxargs := by
      rw [List.length_append, List.length_singleton]
      omega
    obtain ⟨hle₂, ts, hts, more, hw, hargv, hlen''⟩ := ih r _ hlen' h
    refine ⟨(le_gettoken_ps _ _).trans (hle₁.trans hle₂), .word (gettoken s p).q (gettoken s p).eq :: rs ++ ts,
      ?_, ((gettoken s p).q, (gettoken s p).eq) :: more, Words.cons hr hw, ?_, hlen''⟩
    · rw [tokensFrom_of_ret_ne_zero h0, Gettoken.token_of_ret_eq_word ha, hrs, hts]
      simp
    · rw [hargv]
      simp


/-- A step of `parseline`: a pipeline, its `&`s, and a `;` with a line after it. -/
theorem parseline_sound_succ {fuel : ℕ} (hpipe : Sound s (parsepipe s fuel) (Derives .pipe))
    (hline : Sound s (parseline s fuel) (Derives .line)) :
    Sound s (parseline s (fuel + 1)) (Derives .line) := by
  intro p a p' h
  rw [parseline] at h
  obtain ⟨⟨c₁, p₁⟩, h₁, h⟩ := bind_eq_ok h
  obtain ⟨⟨c₂, p₂⟩, h₂, h⟩ := bind_eq_ok h
  obtain ⟨hle₁, ts₁, hts₁, hd₁⟩ := hpipe h₁
  obtain ⟨hle₂, ts₂, hts₂, k, rfl, rfl⟩ := parselineLoop_sound fuel c₁ h₂
  dsimp only at h
  by_cases hsemi : (peek s p₂ [59]).1 = true
  · rw [if_pos hsemi] at h
    obtain ⟨⟨c₃, p₃⟩, h₃, h⟩ := bind_eq_ok h
    cases h
    obtain ⟨hle₃, ts₃, hts₃, hd₃⟩ := hline h₃
    obtain ⟨hret, htok⟩ := tokensFrom_of_peek (by decide) hsemi
    have hsemi' : (gettoken s p₂).token = .semi := by simp [Gettoken.token, hret]
    refine ⟨hle₁.trans (hle₂.trans ((le_peek_gettoken s p₂ [59]).trans hle₃)),
      ts₁ ++ List.replicate k .amp ++ .semi :: ts₃, ?_, Derives.list k hd₁ hd₃⟩
    rw [hts₁, hts₂, htok, hsemi', hts₃]
    simp
  · rw [if_neg hsemi] at h
    cases h
    refine ⟨hle₁.trans (hle₂.trans (le_skipWhile _ _ _)), ts₁ ++ List.replicate k .amp, ?_,
      Derives.line k hd₁⟩
    rw [hts₁, hts₂, tokensFrom_peek, List.append_assoc]

/-- A step of `parsepipe`: a command, and a `|` with a pipeline after it. -/
theorem parsepipe_sound_succ {fuel : ℕ} (hexec : Sound s (parseexec s fuel) (Derives .exec))
    (hpipe : Sound s (parsepipe s fuel) (Derives .pipe)) :
    Sound s (parsepipe s (fuel + 1)) (Derives .pipe) := by
  intro p a p' h
  rw [parsepipe] at h
  obtain ⟨⟨c₁, p₁⟩, h₁, h⟩ := bind_eq_ok h
  obtain ⟨hle₁, ts₁, hts₁, hd₁⟩ := hexec h₁
  dsimp only at h
  by_cases hbar : (peek s p₁ [124]).1 = true
  · rw [if_pos hbar] at h
    obtain ⟨⟨c₂, p₂⟩, h₂, h⟩ := bind_eq_ok h
    cases h
    obtain ⟨hle₂, ts₂, hts₂, hd₂⟩ := hpipe h₂
    obtain ⟨hret, htok⟩ := tokensFrom_of_peek (by decide) hbar
    have hbar' : (gettoken s p₁).token = .pipe := by simp [Gettoken.token, hret]
    refine ⟨hle₁.trans ((le_peek_gettoken s p₁ [124]).trans hle₂), ts₁ ++ .pipe :: ts₂, ?_,
      Derives.pipe hd₁ hd₂⟩
    rw [hts₁, htok, hbar', hts₂]
    simp
  · rw [if_neg hbar] at h
    cases h
    exact ⟨hle₁.trans (le_skipWhile _ _ _), ts₁, by rw [hts₁, tokensFrom_peek], Derives.exec hd₁⟩

/-- A step of `parseblock`: `(`, a line, `)` and the redirections after it. -/
theorem parseblock_sound_succ {fuel : ℕ} (hline : Sound s (parseline s fuel) (Derives .line)) :
    Sound s (parseblock s (fuel + 1)) (Derives .exec) := by
  intro p a p' h
  rw [parseblock] at h
  dsimp only at h
  by_cases hl : (peek s p [40]).1 = true
  swap
  · rw [if_pos (by simpa using hl)] at h
    cases h
  rw [if_neg (by simpa using hl)] at h
  obtain ⟨⟨c₁, p₁⟩, h₁, h⟩ := bind_eq_ok h
  obtain ⟨hle₁, ts₁, hts₁, hd₁⟩ := hline h₁
  dsimp only at h
  by_cases hr : (peek s p₁ [41]).1 = true
  swap
  · rw [if_pos (by simpa using hr)] at h
    cases h
  rw [if_neg (by simpa using hr)] at h
  obtain ⟨hle₂, rs, hrs, hred⟩ := parseredirs_sound fuel c₁ h
  obtain ⟨hretl, htokl⟩ := tokensFrom_of_peek (by decide) hl
  obtain ⟨hretr, htokr⟩ := tokensFrom_of_peek (by decide) hr
  have hlp : (gettoken s p).token = .lparen := by simp [Gettoken.token, hretl]
  have hrp : (gettoken s p₁).token = .rparen := by simp [Gettoken.token, hretr]
  refine ⟨(le_peek_gettoken s p [40]).trans (hle₁.trans ((le_peek_gettoken s p₁ [41]).trans hle₂)),
    .lparen :: ts₁ ++ .rparen :: rs, ?_, Derives.block hd₁ hred⟩
  rw [htokl, hlp, hts₁, htokr, hrp, hrs]
  simp

/-- A step of `parseexec`: a block, or redirections and words. -/
theorem parseexec_sound_succ {fuel : ℕ} (hblock : Sound s (parseblock s fuel) (Derives .exec)) :
    Sound s (parseexec s (fuel + 1)) (Derives .exec) := by
  intro p a p' h
  rw [parseexec] at h
  dsimp only at h
  by_cases hl : (peek s p [40]).1 = true
  · rw [if_pos hl] at h
    exact Parsed.of_peek (hblock h)
  rw [if_neg hl] at h
  obtain ⟨⟨r, p₁⟩, h₁, h⟩ := bind_eq_ok h
  obtain ⟨⟨⟨r', argv⟩, p₂⟩, h₂, h⟩ := bind_eq_ok h
  cases h
  obtain ⟨hle₁, rs, hrs, hred⟩ := parseredirs_sound fuel (.exec []) h₁
  obtain ⟨hle₂, ts, hts, more, hw, hargv, hlen⟩ := parseexecLoop_sound fuel r [] (by decide) h₂
  rw [List.nil_append] at hargv
  subst hargv
  exact Parsed.of_peek ⟨hle₁.trans hle₂, rs ++ ts, by rw [hrs, hts, List.append_assoc],
    Derives.words hred hw hlen⟩

/-- The parse functions read the phrases of the grammar, with any fuel. -/
theorem parse_sound (fuel : ℕ) :
    Sound s (parseline s fuel) (Derives .line) ∧ Sound s (parsepipe s fuel) (Derives .pipe) ∧
      Sound s (parseexec s fuel) (Derives .exec) ∧ Sound s (parseblock s fuel) (Derives .exec) := by
  -- induction on the fuel, each function's step from the others' with one less
  induction fuel with
  | zero =>
    -- no fuel: every call stops with `outOfFuel`
    refine ⟨fun h => ?_, fun h => ?_, fun h => ?_, fun h => ?_⟩
    · rw [parseline] at h; cases h
    · rw [parsepipe] at h; cases h
    · rw [parseexec] at h; cases h
    · rw [parseblock] at h; cases h
  | succ fuel ih =>
    obtain ⟨hline, hpipe, hexec, hblock⟩ := ih
    exact ⟨parseline_sound_succ hpipe hline, parsepipe_sound_succ hexec hpipe,
      parseexec_sound_succ hblock, parseblock_sound_succ hline⟩

end Sound

/-! ## Enough fuel -/

section Fuel

variable {s : List UInt8} {α : Type}

theorem panic_ne_outOfFuel {α : Type} (msg : String) :
    (Except.error (Fault.panic msg) : Except Fault α) ≠ .error .outOfFuel := by
  simp

theorem ok_ne_outOfFuel {α : Type} (a : α) : (Except.ok a : Except Fault α) ≠ .error .outOfFuel :=
  nofun

theorem parseredirs_fuel {fuel : ℕ} {cmd : Cmd} {p : ℕ} (h : s.length - p < fuel) :
    parseredirs s fuel cmd p ≠ .error .outOfFuel := by
  -- induction on the fuel: each turn reads an operator off the line
  induction fuel generalizing cmd p with
  | zero => omega
  | succ fuel ih =>
    rw [parseredirs]
    dsimp only
    by_cases hpk : (peek s p [60, 62]).1 = true
    · rw [if_pos hpk, gettoken_peek]
      have hg0 : (gettoken s p).ret ≠ 0 := by
        rcases gettoken_ret_of_peek_redir hpk with hg | hg | hg <;> rw [hg] <;> decide
      by_cases hf : (gettoken s (gettoken s p).ps).ret = 97
      · rw [if_neg (not_not.mpr hf)]
        apply ih
        have hadv := gettoken_advance hg0
        have hle := le_gettoken_ps s (gettoken s p).ps
        omega
      · rw [if_pos hf]
        exact panic_ne_outOfFuel _
    · rw [if_neg hpk]
      exact ok_ne_outOfFuel _

theorem parselineLoop_fuel {fuel : ℕ} {cmd : Cmd} {p : ℕ} (h : s.length - p < fuel) :
    parselineLoop s fuel cmd p ≠ .error .outOfFuel := by
  -- induction on the fuel: each turn reads a `&` off the line
  induction fuel generalizing cmd p with
  | zero => omega
  | succ fuel ih =>
    rw [parselineLoop]
    by_cases hpk : (peek s p [38]).1 = true
    · rw [if_pos hpk, gettoken_peek]
      apply ih
      have hadv := gettoken_advance
        (by rw [gettoken_ret_of_peek (by decide) hpk]; decide : (gettoken s p).ret ≠ 0)
      omega
    · rw [if_neg hpk]
      exact ok_ne_outOfFuel _

theorem parseexecLoop_fuel {fuel : ℕ} {ret : Cmd} {argv : List (ℕ × ℕ)} {p : ℕ}
    (h : s.length - p < fuel) : parseexecLoop s fuel ret argv p ≠ .error .outOfFuel := by
  -- induction on the fuel: each turn reads a word off the line
  induction fuel generalizing ret argv p with
  | zero => omega
  | succ fuel ih =>
    rw [parseexecLoop]
    dsimp only
    by_cases hpk : (peek s p [124, 41, 38, 59]).1 = true
    · rw [if_pos hpk]
      exact ok_ne_outOfFuel _
    rw [if_neg hpk, gettoken_peek]
    by_cases h0 : (gettoken s p).ret = 0
    · rw [if_pos h0]
      exact ok_ne_outOfFuel _
    rw [if_neg h0]
    by_cases ha : (gettoken s p).ret = 97
    swap
    · rw [if_pos ha]
      exact panic_ne_outOfFuel _
    rw [if_neg (not_not.mpr ha)]
    by_cases hmax : maxargs ≤ argv.length + 1
    · rw [if_pos hmax]
      exact panic_ne_outOfFuel _
    rw [if_neg hmax]
    have hadv := gettoken_advance h0
    apply bind_ne_error (parseredirs_fuel (by omega))
    rintro ⟨r, p₁⟩ h₁
    have hle := (parseredirs_sound fuel ret h₁).1
    exact ih (by omega)

/-- `f` does not run out of fuel from an offset with `(fuel - k) / 4` bytes or fewer left. -/
def Enough (s : List UInt8) (f : ℕ → Except Fault (α × ℕ)) (k fuel : ℕ) : Prop :=
  ∀ p, 4 * (s.length - p) + k ≤ fuel → f p ≠ .error .outOfFuel

theorem parseline_enough_succ {fuel : ℕ} (hpipe : Enough s (parsepipe s fuel) 3 fuel)
    (hline : Enough s (parseline s fuel) 4 fuel) :
    Enough s (parseline s (fuel + 1)) 4 (fuel + 1) := by
  intro p hp
  rw [parseline]
  apply bind_ne_error (hpipe p (by omega))
  rintro ⟨c₁, p₁⟩ h₁
  have hle₁ := ((parse_sound fuel).2.1 h₁).1
  apply bind_ne_error (parselineLoop_fuel (by omega))
  rintro ⟨c₂, p₂⟩ h₂
  have hle₂ := (parselineLoop_sound fuel c₁ h₂).1
  dsimp only
  by_cases hsemi : (peek s p₂ [59]).1 = true
  · rw [if_pos hsemi]
    -- the line after the `;` starts at least one byte further on
    have hadv := gettoken_advance
      (by rw [gettoken_ret_of_peek (by decide) hsemi]; decide : (gettoken s p₂).ret ≠ 0)
    apply bind_ne_error (hline _ (by rw [gettoken_peek]; omega))
    intro _ _
    exact ok_ne_outOfFuel _
  · rw [if_neg hsemi]
    exact ok_ne_outOfFuel _

theorem parsepipe_enough_succ {fuel : ℕ} (hexec : Enough s (parseexec s fuel) 2 fuel)
    (hpipe : Enough s (parsepipe s fuel) 3 fuel) :
    Enough s (parsepipe s (fuel + 1)) 3 (fuel + 1) := by
  intro p hp
  rw [parsepipe]
  apply bind_ne_error (hexec p (by omega))
  rintro ⟨c₁, p₁⟩ h₁
  have hle₁ := ((parse_sound fuel).2.2.1 h₁).1
  dsimp only
  by_cases hbar : (peek s p₁ [124]).1 = true
  · rw [if_pos hbar]
    -- the pipeline after the `|` starts at least one byte further on
    have hadv := gettoken_advance
      (by rw [gettoken_ret_of_peek (by decide) hbar]; decide : (gettoken s p₁).ret ≠ 0)
    apply bind_ne_error (hpipe _ (by rw [gettoken_peek]; omega))
    intro _ _
    exact ok_ne_outOfFuel _
  · rw [if_neg hbar]
    exact ok_ne_outOfFuel _

theorem parseblock_enough_succ {fuel : ℕ} (hline : Enough s (parseline s fuel) 4 fuel) :
    Enough s (parseblock s (fuel + 1)) 1 (fuel + 1) := by
  intro p hp
  rw [parseblock]
  dsimp only
  by_cases hl : (peek s p [40]).1 = true
  swap
  · rw [if_pos (by simpa using hl)]
    exact panic_ne_outOfFuel _
  rw [if_neg (by simpa using hl)]
  -- the line inside starts after the `(`
  have hadv := gettoken_advance
    (by rw [gettoken_ret_of_peek (by decide) hl]; decide : (gettoken s p).ret ≠ 0)
  apply bind_ne_error (hline _ (by rw [gettoken_peek]; omega))
  rintro ⟨c₁, p₁⟩ h₁
  have hle₁ := ((parse_sound fuel).1 h₁).1
  dsimp only
  by_cases hr : (peek s p₁ [41]).1 = true
  swap
  · rw [if_pos (by simpa using hr)]
    exact panic_ne_outOfFuel _
  rw [if_neg (by simpa using hr)]
  apply parseredirs_fuel
  have hle₂ := le_gettoken_ps s p₁
  rw [gettoken_peek] at hle₁ ⊢
  omega

theorem parseexec_enough_succ {fuel : ℕ} (hblock : Enough s (parseblock s fuel) 1 fuel) :
    Enough s (parseexec s (fuel + 1)) 2 (fuel + 1) := by
  intro p hp
  rw [parseexec]
  dsimp only
  have hle : p ≤ (peek s p [40]).2 := le_skipWhile _ _ _
  by_cases hl : (peek s p [40]).1 = true
  · rw [if_pos hl]
    exact hblock _ (by omega)
  rw [if_neg hl]
  apply bind_ne_error (parseredirs_fuel (by omega))
  rintro ⟨r, p₁⟩ h₁
  have hle₁ := (parseredirs_sound fuel (.exec []) h₁).1
  apply bind_ne_error (parseexecLoop_fuel (by omega))
  intro _ _
  exact ok_ne_outOfFuel _

/-- Four calls deep for each byte left, and four at the end, are enough fuel. -/
theorem parse_enough (fuel : ℕ) :
    Enough s (parseline s fuel) 4 fuel ∧ Enough s (parsepipe s fuel) 3 fuel ∧
      Enough s (parseexec s fuel) 2 fuel ∧ Enough s (parseblock s fuel) 1 fuel := by
  -- induction on the fuel, each function's step from the others' with one less
  induction fuel with
  | zero => refine ⟨?_, ?_, ?_, ?_⟩ <;> intro p hp <;> omega
  | succ fuel ih =>
    obtain ⟨hline, hpipe, hexec, hblock⟩ := ih
    exact ⟨parseline_enough_succ hpipe hline, parsepipe_enough_succ hexec hpipe,
      parseexec_enough_succ hblock, parseblock_enough_succ hline⟩

/-- `parsecmd` terminates: the parse never uses up the fuel it is given. -/
theorem parsecmd_ne_outOfFuel (s : List UInt8) : parsecmd s ≠ .error .outOfFuel := by
  rw [parsecmd]
  apply bind_ne_error ((parse_enough (parseFuel s)).1 0 (by rw [parseFuel]; omega))
  rintro ⟨cmd, ps⟩ -
  dsimp only
  split_ifs
  · exact panic_ne_outOfFuel _
  · exact ok_ne_outOfFuel _

end Fuel

/-! ## The words and their NULs -/

open Writes

/-- The words of a tree: each `execcmd`'s `argv` and each `redircmd`'s file, in the order
`nulterminate` visits them. -/
def Cmd.words : Cmd → List (ℕ × ℕ)
  | .exec argv => argv
  | .redir cmd file efile _ _ => cmd.words ++ [(file, efile)]
  | .pipe left right => left.words ++ right.words
  | .list left right => left.words ++ right.words
  | .back cmd => cmd.words

/-- `nulterminate` writes a NUL at the end of each word of the tree. -/
theorem nulterminate_eq (cmd : Cmd) (mem : ℕ → UInt8) :
    nulterminate cmd mem = applyWrites (cmd.words.map fun w => (w.2, 0)) mem := by
  induction cmd generalizing mem with
  | exec argv => simp only [nulterminate, Cmd.words, applyWrites, List.foldl_map]
  | redir cmd file efile mode fd ih =>
    rw [nulterminate, ih, Cmd.words, List.map_append, applyWrites_append]
    rfl
  | pipe left right ihl ihr =>
    rw [nulterminate, ihl, ihr, Cmd.words, List.map_append, applyWrites_append]
  | list left right ihl ihr =>
    rw [nulterminate, ihl, ihr, Cmd.words, List.map_append, applyWrites_append]
  | back cmd ih => rw [nulterminate, ih, Cmd.words]

theorem Cmd.words_iterate_back (k : ℕ) (cmd : Cmd) : (Cmd.back^[k] cmd).words = cmd.words := by
  induction k with
  | zero => rfl
  | succ k ih => rw [Function.iterate_succ_apply', Cmd.words, ih]

theorem Cmd.mem_words_setArgv {cmd : Cmd} {argv : List (ℕ × ℕ)} {w : ℕ × ℕ}
    (h : w ∈ (cmd.setArgv argv).words) : w ∈ argv ∨ w ∈ cmd.words := by
  induction cmd with
  | exec _ => exact .inl h
  | redir cmd file efile mode fd ih =>
    simp only [Cmd.setArgv, Cmd.words, List.mem_append, List.mem_singleton] at h ⊢
    rcases h with h | h
    · exact (ih h).imp id .inl
    · exact .inr (.inr h)
  | pipe => exact .inr h
  | list => exact .inr h
  | back => exact .inr h

/-- The files redirections add are words among their tokens. -/
theorem Redirs.mem_words {cmd cmd' : Cmd} {ts : List Token} (h : Redirs cmd ts cmd') :
    ∀ w ∈ cmd'.words, w ∈ cmd.words ∨ Token.word w.1 w.2 ∈ ts := by
  induction h with
  | nil => exact fun w hw => .inl hw
  | lt _ ih | gt _ ih | append _ ih =>
    intro w hw
    rcases ih w hw with h | h
    · simp only [Cmd.words, List.mem_append, List.mem_singleton] at h
      rcases h with h | rfl
      · exact .inl h
      · exact .inr (by simp)
    · exact .inr (by simp [h])

theorem Words.mem_words {cmd cmd' : Cmd} {ts : List Token} {argv : List (ℕ × ℕ)}
    (h : Words cmd ts cmd' argv) :
    (∀ w ∈ cmd'.words, w ∈ cmd.words ∨ Token.word w.1 w.2 ∈ ts) ∧
      ∀ w ∈ argv, Token.word w.1 w.2 ∈ ts := by
  induction h with
  | nil => exact ⟨fun w hw => .inl hw, fun w hw => absurd hw List.not_mem_nil⟩
  | cons hr _ ih =>
    refine ⟨fun w hw => ?_, fun w hw => ?_⟩
    · rcases ih.1 w hw with h | h
      · exact (hr.mem_words w h).imp id (fun h => by simp [h])
      · exact .inr (by simp [h])
    · rcases List.mem_cons.mp hw with rfl | h
      · simp
      · simp [ih.2 w h]

/-- Every word of a parsed tree is a word token of the phrase. -/
theorem Derives.mem_words {ph : Phrase} {ts : List Token} {cmd : Cmd} (h : Derives ph ts cmd) :
    ∀ w ∈ cmd.words, Token.word w.1 w.2 ∈ ts := by
  induction h with
  | line k _ ih =>
    intro w hw
    rw [Cmd.words_iterate_back] at hw
    exact List.mem_append_left _ (ih w hw)
  | list k _ _ ih ih' =>
    intro w hw
    rw [Cmd.words, Cmd.words_iterate_back, List.mem_append] at hw
    rcases hw with hw | hw
    · simp [ih w hw]
    · simp [ih' w hw]
  | exec _ ih => exact ih
  | pipe _ _ ih ih' =>
    intro w hw
    rw [Cmd.words, List.mem_append] at hw
    rcases hw with hw | hw
    · simp [ih w hw]
    · simp [ih' w hw]
  | block _ hr ih =>
    intro w hw
    rcases hr.mem_words w hw with h | h
    · simp [ih w h]
    · simp [h]
  | words hr hw' _ =>
    intro w hw
    rcases Cmd.mem_words_setArgv hw with h | h
    · simp [hw'.mem_words.2 w h]
    rcases hw'.mem_words.1 w h with h | h
    · rcases hr.mem_words w h with h | h
      · simp [Cmd.words] at h
      · simp [h]
    · simp [h]

/-- The NUL-terminated string at offset `p` of `mem` is `w`: its bytes, none of them NUL, then
a NUL. -/
def StrAt (mem : ℕ → UInt8) (p : ℕ) (w : List UInt8) : Prop :=
  (∀ i (hi : i < w.length), mem (p + i) = w[i] ∧ w[i] ≠ 0) ∧ mem (p + w.length) = 0

section Nul

variable {s : List UInt8} {cmd : Cmd}

/-- No word ends inside another: a word's end is `es` or a byte no word holds. -/
theorem end_not_mem_word (hwords : ∀ w ∈ cmd.words, Token.word w.1 w.2 ∈ tokensFrom s 0)
    {w w' : ℕ × ℕ} (hw : w ∈ cmd.words) (hw' : w' ∈ cmd.words) (hlo : w.1 ≤ w'.2)
    (hhi : w'.2 < w.2) : False := by
  obtain ⟨-, hle, hin, -⟩ := word_of_mem_tokensFrom (hwords w hw)
  obtain ⟨-, -, -, hend⟩ := word_of_mem_tokensFrom (hwords w' hw')
  have := hend (by omega)
  rw [hin _ hlo hhi] at this
  exact absurd this (by decide)

/-- After `nulterminate`, each word of the tree is the NUL-terminated string of its bytes. -/
theorem strAt_nulterminate (hs : 0 ∉ s)
    (hwords : ∀ w ∈ cmd.words, Token.word w.1 w.2 ∈ tokensFrom s 0) {w : ℕ × ℕ}
    (hw : w ∈ cmd.words) :
    StrAt (nulterminate cmd (charAt s)) w.1 ((s.drop w.1).take (w.2 - w.1)) := by
  obtain ⟨hlt, hle, -, -⟩ := word_of_mem_tokensFrom (hwords w hw)
  have hlen : ((s.drop w.1).take (w.2 - w.1)).length = w.2 - w.1 := by simp; omega
  rw [nulterminate_eq]
  refine ⟨fun i hi => ?_, ?_⟩
  · rw [hlen] at hi
    -- no word ends inside this one, so its bytes are the line's
    have hkeep : ∀ v ∈ cmd.words.map (fun w => (w.2, (0 : UInt8))), v.1 ≠ w.1 + i := by
      simp only [List.mem_map]
      rintro _ ⟨w', hw', rfl⟩ heq
      exact end_not_mem_word hwords hw hw' (by simp at heq; omega) (by simp at heq; omega)
    have hbyte : ((s.drop w.1).take (w.2 - w.1))[i] = s[w.1 + i] := by simp
    rw [applyWrites_of_not_mem hkeep, charAt_of_lt (by omega), hbyte]
    exact ⟨rfl, fun h0 => hs (h0 ▸ List.getElem_mem _)⟩
  · -- the end of the word holds the NUL written there
    rw [hlen, show w.1 + (w.2 - w.1) = w.2 by omega]
    refine applyWrites_eq_of_mem (fun v hv _ => ?_) ⟨(w.2, 0), List.mem_map.mpr ⟨w, hw, rfl⟩, rfl⟩ _
    obtain ⟨_, _, rfl⟩ := List.mem_map.mp hv
    rfl

/-- `nulterminate` changes only ends of words of the tree, each to a NUL. -/
theorem nulterminate_changes (hwords : ∀ w ∈ cmd.words, Token.word w.1 w.2 ∈ tokensFrom s 0)
    {i : ℕ} (h : nulterminate cmd (charAt s) i ≠ charAt s i) :
    nulterminate cmd (charAt s) i = 0 ∧ i ≤ s.length ∧ ∃ w ∈ cmd.words, w.2 = i := by
  rw [nulterminate_eq] at h ⊢
  have hmem : ∃ v ∈ cmd.words.map (fun w => (w.2, (0 : UInt8))), v.1 = i := by
    by_contra hnone
    push Not at hnone
    exact h (applyWrites_of_not_mem hnone _)
  obtain ⟨_, hv, rfl⟩ := hmem
  obtain ⟨w, hw, rfl⟩ := List.mem_map.mp hv
  refine ⟨applyWrites_eq_of_mem (fun v hv' _ => ?_) ⟨_, hv, rfl⟩ _,
    (word_of_mem_tokensFrom (hwords w hw)).2.1, w, hw, rfl⟩
  obtain ⟨_, _, rfl⟩ := List.mem_map.mp hv'
  rfl

end Nul

/-- `parsecmd` on a line: it terminates; a tree it returns is a parse of the line's tokens
under the grammar, each word of the tree a token of the line; after `nulterminate` each word
is the NUL-terminated string of its bytes, and the only bytes changed are word ends, each
now a NUL. -/
theorem parsecmd_spec (s : List UInt8) (hs : 0 ∉ s) :
    parsecmd s ≠ .error .outOfFuel ∧
      ∀ cmd mem, parsecmd s = .ok (cmd, mem) →
        Derives .line (tokensFrom s 0) cmd ∧
        (∀ w ∈ cmd.words, Token.word w.1 w.2 ∈ tokensFrom s 0 ∧
          StrAt mem w.1 ((s.drop w.1).take (w.2 - w.1))) ∧
        ∀ i, mem i ≠ charAt s i → mem i = 0 ∧ i ≤ s.length ∧ ∃ w ∈ cmd.words, w.2 = i := by
  refine ⟨parsecmd_ne_outOfFuel s, fun cmd mem h => ?_⟩
  rw [parsecmd] at h
  obtain ⟨⟨c, ps⟩, h₁, h⟩ := bind_eq_ok h
  dsimp only at h
  by_cases hend : (peek s ps []).2 = s.length
  swap
  · rw [if_pos hend] at h
    cases h
  rw [if_neg (not_not.mpr hend)] at h
  cases h
  -- the parse read every token of the line
  obtain ⟨-, ts, hts, hd⟩ := (parse_sound (parseFuel s)).1 h₁
  rw [← tokensFrom_peek s ps [], hend, tokensFrom_length, List.append_nil] at hts
  subst hts
  have hwords := hd.mem_words
  exact ⟨hd, fun w hw => ⟨hwords w hw, strAt_nulterminate hs hwords hw⟩,
    fun i hi => nulterminate_changes hwords hi⟩

/-- The line `a>b`: `parsecmd` returns the command `a` with its output sent to `b`, derived from
the tokens of the line, and the word `a` ends with a NUL in the memory it returns. -/
theorem parsecmd_spec_redir : ∃ cmd mem, parsecmd [97, 62, 98] = .ok (cmd, mem) ∧
    cmd = .redir (.exec [(0, 1)]) 2 3 513 1 ∧ Derives .line (tokensFrom [97, 62, 98] 0) cmd ∧
    StrAt mem 0 [97] := by
  have hcmd : (parsecmd [97, 62, 98]).toOption.map Prod.fst =
      some (.redir (.exec [(0, 1)]) 2 3 513 1) := by
    decide +kernel
  rcases h : parsecmd [97, 62, 98] with _ | ⟨cmd, mem⟩
  · rw [h] at hcmd
    cases hcmd
  rw [h] at hcmd
  obtain rfl : cmd = .redir (.exec [(0, 1)]) 2 3 513 1 :=
    Option.some.inj (hcmd : some cmd = some _)
  obtain ⟨hd, hwords, -⟩ := (parsecmd_spec [97, 62, 98] (by decide)).2 _ mem h
  exact ⟨_, mem, rfl, rfl, hd, (hwords (0, 1) (by decide)).2⟩

end Xv6.Sh
