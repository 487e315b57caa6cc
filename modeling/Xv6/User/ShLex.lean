import Xv6.User.Sh

/-!
# The tokens of a line (`sh.c`)

The tokens of a line are what successive `gettoken` calls read, up to the one that returns `0`
(`tokensFrom`); they are the terminals of the grammar that `parsecmd` parses (`ShParse`). A
word is a maximal run of bytes that are neither whitespace nor symbols, and each symbol is a
token of its own, except that `>>` is one.

## Main definitions

* `Token`, `Gettoken.token`: the terminals, and the one a `gettoken` call read.
* `tokensFrom`: the tokens of a line from an offset on.

## Main results

* `skipWhile_mem`, `skipWhile_stop`: the bytes a skipping loop passes, and the one it stops at.
* `gettokenSwitch_cases`: what the `switch` of `gettoken` can do.
* `gettoken_advance`: a token other than the end is read off the rest of the line.
* `gettoken_ret_of_peek`, `gettoken_ret_of_peek_redir`: what a `peek` promises `gettoken` reads.
* `word_of_mem_tokensFrom`: a word is a run of word bytes, ended by `es` or by a byte that is
  not one.
-/

namespace Xv6.Sh

variable {s : List UInt8} {p : ℕ}

/-! ## Bytes of the line -/

theorem strchr_isSome_iff {c : UInt8} {l : List UInt8} (h : 0 ∉ l) :
    (Grep.strchr c l).isSome ↔ c ∈ l := by
  induction l with
  | nil => simp [Grep.strchr]
  | cons x xs ih =>
    have hx : x ≠ 0 := fun hx => h (hx ▸ List.mem_cons_self)
    by_cases hxc : x = c
    · subst hxc
      simp [Grep.strchr, hx]
    · simp [Grep.strchr, hx, hxc, ih (fun h0 => h (List.mem_cons_of_mem _ h0)), Ne.symm hxc]

theorem isSpace_iff (c : UInt8) : isSpace c = true ↔ c ∈ whitespace :=
  strchr_isSome_iff (by decide)

theorem isWordByte_iff (c : UInt8) : isWordByte c = true ↔ c ∉ whitespace ∧ c ∉ symbols := by
  rw [← strchr_isSome_iff (by decide : (0 : UInt8) ∉ whitespace),
    ← strchr_isSome_iff (by decide : (0 : UInt8) ∉ symbols)]
  simp [isWordByte]

theorem charAt_of_lt (h : p < s.length) : charAt s p = s[p] := by
  simp [charAt, h]

theorem charAt_of_le (h : s.length ≤ p) : charAt s p = 0 := by
  simp [charAt, h]

theorem lt_of_charAt_ne_zero (h : charAt s p ≠ 0) : p < s.length := by
  by_contra hp
  exact h (charAt_of_le (by omega))

/-! ## The skipping loops -/

variable {P : UInt8 → Bool}

/-- One turn of the loop. -/
theorem skipWhile_eq (P : UInt8 → Bool) (s : List UInt8) (p : ℕ) :
    skipWhile P s p = if p < s.length ∧ P (charAt s p) then skipWhile P s (p + 1) else p := by
  unfold skipWhile
  by_cases hp : p < s.length
  · rw [List.drop_eq_getElem_cons hp, charAt_of_lt hp]
    by_cases hP : P s[p]
    · simp only [List.takeWhile_cons, hP, if_true, List.length_cons, hp, true_and]
      omega
    · simp only [List.takeWhile_cons, hP, hp, true_and]
      simp
  · simp [hp, List.drop_eq_nil_of_le (by omega : s.length ≤ p)]

theorem le_skipWhile (P : UInt8 → Bool) (s : List UInt8) (p : ℕ) : p ≤ skipWhile P s p :=
  Nat.le_add_right _ _

theorem skipWhile_of_le (P : UInt8 → Bool) (h : s.length ≤ p) : skipWhile P s p = p := by
  rw [skipWhile_eq, if_neg (fun hc => by omega)]

theorem skipWhile_le (P : UInt8 → Bool) (h : p ≤ s.length) : skipWhile P s p ≤ s.length := by
  have : ((s.drop p).takeWhile P).length ≤ (s.drop p).length :=
    (List.takeWhile_sublist P).length_le
  simp only [skipWhile, List.length_drop] at this ⊢
  omega

/-- Every byte the loop steps over passes the test. -/
theorem skipWhile_mem {i : ℕ} (hp : p ≤ i) (hi : i < skipWhile P s p) :
    i < s.length ∧ P (charAt s i) = true := by
  -- induction on how far `i` lies past the start
  induction hk : i - p generalizing p with
  | zero =>
    obtain rfl : i = p := by omega
    rw [skipWhile_eq] at hi
    split_ifs at hi with hc
    · exact hc
    · omega
  | succ k ih =>
    rw [skipWhile_eq] at hi
    split_ifs at hi with hc
    · exact ih (by omega) hi (by omega)
    · omega

/-- The loop stops at a byte that fails the test, unless it reached `es`. -/
theorem skipWhile_stop (h : skipWhile P s p < s.length) : P (charAt s (skipWhile P s p)) = false := by
  -- induction on the bytes left from `p`
  induction hk : s.length - p generalizing p with
  | zero => rw [skipWhile_of_le P (by omega)] at h; omega
  | succ k ih =>
    by_cases hc : p < s.length ∧ P (charAt s p)
    · rw [skipWhile_eq, if_pos hc] at h ⊢
      exact ih h (by omega)
    · rw [skipWhile_eq, if_neg hc] at h ⊢
      simpa [h] using hc

theorem skipWhile_idem (P : UInt8 → Bool) (s : List UInt8) (p : ℕ) :
    skipWhile P s (skipWhile P s p) = skipWhile P s p := by
  by_cases h : skipWhile P s p < s.length
  · rw [skipWhile_eq, if_neg (by simp [skipWhile_stop h])]
  · exact skipWhile_of_le P (by omega)


/-! ## `gettoken` and `peek` -/

/-- What the `switch(*s)` of `gettoken` can do. -/
theorem gettokenSwitch_cases (s : List UInt8) (q : ℕ) :
    (charAt s q = 0 ∧ gettokenSwitch s q = (0, q)) ∨
    (charAt s q ∈ [124, 40, 41, 59, 38, 60] ∧ gettokenSwitch s q = (charAt s q, q + 1)) ∨
    (charAt s q = 62 ∧ charAt s (q + 1) = 62 ∧ gettokenSwitch s q = (43, q + 2)) ∨
    (charAt s q = 62 ∧ charAt s (q + 1) ≠ 62 ∧ gettokenSwitch s q = (62, q + 1)) ∨
    (charAt s q ≠ 0 ∧ charAt s q ∉ [124, 40, 41, 59, 38, 60] ∧ charAt s q ≠ 62 ∧
      gettokenSwitch s q = (97, skipWhile isWordByte s q)) := by
  dsimp only [gettokenSwitch]
  by_cases h0 : charAt s q = 0
  · exact .inl ⟨h0, by rw [if_pos h0]⟩
  by_cases hsym : charAt s q ∈ [124, 40, 41, 59, 38, 60]
  · exact .inr (.inl ⟨hsym, by rw [if_neg h0, if_pos hsym]⟩)
  by_cases hgt : charAt s q = 62
  · by_cases hgt2 : charAt s (q + 1) = 62
    · exact .inr (.inr (.inl ⟨hgt, hgt2, by rw [if_neg h0, if_neg hsym, if_pos hgt, if_pos hgt2]⟩))
    · exact .inr (.inr (.inr (.inl ⟨hgt, hgt2,
        by rw [if_neg h0, if_neg hsym, if_pos hgt, if_neg hgt2]⟩)))
  · exact .inr (.inr (.inr (.inr ⟨h0, hsym, hgt, by rw [if_neg h0, if_neg hsym, if_neg hgt]⟩)))

theorem gettoken_q (s : List UInt8) (p : ℕ) : (gettoken s p).q = skipWhile isSpace s p := rfl

theorem gettoken_ret (s : List UInt8) (p : ℕ) :
    (gettoken s p).ret = (gettokenSwitch s (gettoken s p).q).1 := rfl

theorem gettoken_eq (s : List UInt8) (p : ℕ) :
    (gettoken s p).eq = (gettokenSwitch s (gettoken s p).q).2 := rfl

theorem gettoken_ps (s : List UInt8) (p : ℕ) :
    (gettoken s p).ps = skipWhile isSpace s (gettoken s p).eq := rfl

/-- `gettoken` skips the whitespace `peek` has already skipped. -/
theorem gettoken_skip (s : List UInt8) (p : ℕ) :
    gettoken s (skipWhile isSpace s p) = gettoken s p := by
  simp only [gettoken, skipWhile_idem]

theorem gettoken_peek (s : List UInt8) (p : ℕ) (toks : List UInt8) :
    gettoken s (peek s p toks).2 = gettoken s p :=
  gettoken_skip s p

/-- The byte a token starts at is not whitespace. -/
theorem isSpace_charAt_q (h : (gettoken s p).q < s.length) :
    isSpace (charAt s (gettoken s p).q) = false :=
  skipWhile_stop h

theorem gettoken_ret_eq_zero_iff : (gettoken s p).ret = 0 ↔ charAt s (gettoken s p).q = 0 := by
  rw [gettoken_ret]
  rcases gettokenSwitch_cases s (gettoken s p).q with
    ⟨h0, hsw⟩ | ⟨-, hsw⟩ | ⟨hgt, -, hsw⟩ | ⟨hgt, -, hsw⟩ | ⟨h0, -, -, hsw⟩ <;> rw [hsw]
  -- the one-byte symbols return their byte, and `rw` closes that case
  · simp [h0]
  · simp [hgt]
  · simp [hgt]
  · simp [h0]


/-- At the end of the line `gettoken` moves past the whitespace only. -/
theorem gettoken_ps_of_ret_eq_zero (h : (gettoken s p).ret = 0) :
    (gettoken s p).ps = (gettoken s p).q := by
  have hc : charAt s (gettoken s p).q = 0 := gettoken_ret_eq_zero_iff.mp h
  have heq : (gettoken s p).eq = (gettoken s p).q := by
    rw [gettoken_eq]
    rcases gettokenSwitch_cases s (gettoken s p).q with
      ⟨-, hsw⟩ | ⟨hsym, -⟩ | ⟨hgt, -, -⟩ | ⟨hgt, -, -⟩ | ⟨h0, -, -, -⟩
    · rw [hsw]
    · rw [hc] at hsym; simp at hsym
    · rw [hc] at hgt; simp at hgt
    · rw [hc] at hgt; simp at hgt
    · exact absurd hc h0
  rw [gettoken_ps, heq, gettoken_q, skipWhile_idem]

/-- The symbols are the one-byte tokens and `>`. -/
theorem eq_gt_of_mem_symbols {c : UInt8} (h : c ∈ symbols) (hsym : c ∉ [124, 40, 41, 59, 38, 60]) :
    c = 62 := by
  simp only [symbols, List.mem_cons, List.not_mem_nil, or_false] at h hsym
  rcases h with h | h | h | h | h | h | h <;> simp_all

/-- A token other than the end starts inside the line, and ends after its first byte. -/
theorem gettoken_q_lt_eq (h : (gettoken s p).ret ≠ 0) :
    (gettoken s p).q < s.length ∧ (gettoken s p).q < (gettoken s p).eq := by
  have hq : (gettoken s p).q < s.length :=
    lt_of_charAt_ne_zero (mt gettoken_ret_eq_zero_iff.mpr h)
  refine ⟨hq, ?_⟩
  rw [gettoken_eq]
  rcases gettokenSwitch_cases s (gettoken s p).q with
    ⟨h0, -⟩ | ⟨-, hsw⟩ | ⟨-, -, hsw⟩ | ⟨-, -, hsw⟩ | ⟨-, hsym, hgt, hsw⟩
  · exact absurd (gettoken_ret_eq_zero_iff.mpr h0) h
  · rw [hsw]; omega
  · rw [hsw]; omega
  · rw [hsw]; omega
  · -- a word: its first byte is neither whitespace nor a symbol, so the word loop takes it
    have hw : isWordByte (charAt s (gettoken s p).q) = true := by
      rw [isWordByte_iff]
      refine ⟨fun hws => ?_, fun hsy => hgt (eq_gt_of_mem_symbols hsy hsym)⟩
      have := isSpace_charAt_q hq
      rw [(isSpace_iff _).mpr hws] at this
      exact absurd this (by decide)
    rw [hsw, skipWhile_eq, if_pos ⟨hq, hw⟩]
    exact Nat.lt_of_lt_of_le (Nat.lt_succ_self _) (le_skipWhile _ _ _)

theorem q_le_gettoken_eq (s : List UInt8) (p : ℕ) : (gettoken s p).q ≤ (gettoken s p).eq := by
  by_cases h : (gettoken s p).ret = 0
  · rw [gettoken_eq]
    rcases gettokenSwitch_cases s (gettoken s p).q with
      ⟨-, hsw⟩ | ⟨-, hsw⟩ | ⟨-, -, hsw⟩ | ⟨-, -, hsw⟩ | ⟨-, -, -, hsw⟩ <;> rw [hsw]
    all_goals first | exact le_skipWhile _ _ _ | omega
  · exact (gettoken_q_lt_eq h).2.le

theorem le_gettoken_ps (s : List UInt8) (p : ℕ) : p ≤ (gettoken s p).ps :=
  calc p ≤ (gettoken s p).q := le_skipWhile _ _ _
    _ ≤ (gettoken s p).eq := q_le_gettoken_eq s p
    _ ≤ (gettoken s p).ps := le_skipWhile _ _ _

/-- A token other than the end is read off the rest of the line. -/
theorem gettoken_advance (h : (gettoken s p).ret ≠ 0) :
    s.length - (gettoken s p).ps < s.length - p := by
  have hq := gettoken_q_lt_eq h
  have hp : p ≤ (gettoken s p).q := le_skipWhile _ _ _
  have hps : (gettoken s p).eq ≤ (gettoken s p).ps := le_skipWhile _ _ _
  omega

/-- The values `gettoken` returns. -/
theorem gettoken_ret_mem (s : List UInt8) (p : ℕ) :
    (gettoken s p).ret ∈ [0, 124, 40, 41, 59, 38, 60, 62, 43, 97] := by
  rw [gettoken_ret]
  rcases gettokenSwitch_cases s (gettoken s p).q with
    ⟨-, hsw⟩ | ⟨hsym, hsw⟩ | ⟨-, -, hsw⟩ | ⟨-, -, hsw⟩ | ⟨-, -, -, hsw⟩ <;> rw [hsw]
  · simp
  · simp only [List.mem_cons, List.not_mem_nil, or_false] at hsym ⊢
    tauto
  all_goals simp

/-- A word runs from its first byte over the bytes that pass the word test, and ends at `es`
or at a byte that fails it. -/
theorem gettoken_word (h : (gettoken s p).ret = 97) :
    (gettoken s p).q < (gettoken s p).eq ∧ (gettoken s p).eq ≤ s.length ∧
      (∀ i, (gettoken s p).q ≤ i → i < (gettoken s p).eq → isWordByte (charAt s i) = true) ∧
      ((gettoken s p).eq < s.length → isWordByte (charAt s (gettoken s p).eq) = false) := by
  obtain ⟨hq, hlt⟩ := gettoken_q_lt_eq (s := s) (p := p) (by rw [h]; decide)
  have heq : (gettoken s p).eq = skipWhile isWordByte s (gettoken s p).q := by
    rw [gettoken_ret] at h
    rw [gettoken_eq]
    rcases gettokenSwitch_cases s (gettoken s p).q with
      ⟨-, hsw⟩ | ⟨hsym, hsw⟩ | ⟨-, -, hsw⟩ | ⟨-, -, hsw⟩ | ⟨-, -, -, hsw⟩ <;> rw [hsw] at h ⊢
    -- the word case is closed by the rewrite; the others do not return `'a'`
    · simp at h
    · simp only [List.mem_cons, List.not_mem_nil, or_false] at hsym
      rcases hsym with hc | hc | hc | hc | hc | hc <;> simp [hc] at h
    · simp at h
    · simp at h
  refine ⟨hlt, heq ▸ skipWhile_le _ hq.le, fun i hi hi' => ?_, fun he => ?_⟩
  · exact (skipWhile_mem hi (heq ▸ hi')).2
  · rw [heq] at he ⊢
    exact skipWhile_stop he


/-- Peeking a byte of `toks`, none of them NUL, looks at the first byte of the next token. -/
theorem peek_fst_iff {toks : List UInt8} (h0 : 0 ∉ toks) :
    (peek s p toks).1 = true ↔ charAt s (gettoken s p).q ∈ toks := by
  show (charAt s (gettoken s p).q != 0 &&
    (Grep.strchr (charAt s (gettoken s p).q) toks).isSome) = true ↔ _
  rw [Bool.and_eq_true, strchr_isSome_iff h0]
  constructor
  · exact fun h => h.2
  · intro h
    refine ⟨?_, h⟩
    rw [bne_iff_ne]
    exact fun hc => h0 (hc ▸ h)

/-- Peeking one of the one-byte symbols finds the token `gettoken` reads next. -/
theorem gettoken_ret_of_peek {c : UInt8} (hc : c ∈ [124, 40, 41, 59, 38, 60])
    (h : (peek s p [c]).1 = true) : (gettoken s p).ret = c := by
  have hc0 : (0 : UInt8) ∉ [c] := by
    rw [List.mem_singleton]
    rintro rfl
    simp at hc
  have hq : charAt s (gettoken s p).q = c := List.mem_singleton.mp ((peek_fst_iff hc0).mp h)
  rw [gettoken_ret]
  rcases gettokenSwitch_cases s (gettoken s p).q with
    ⟨h0, -⟩ | ⟨-, hsw⟩ | ⟨hgt, -, -⟩ | ⟨hgt, -, -⟩ | ⟨-, hsym, -, -⟩
  · exact absurd (hq ▸ h0) (fun h => hc0 (List.mem_singleton.mpr h.symm))
  · rw [hsw, hq]
  · rw [hq] at hgt; subst hgt; simp at hc
  · rw [hq] at hgt; subst hgt; simp at hc
  · exact absurd (hq ▸ hc) hsym

/-- Peeking `<` or `>` finds `<`, `>` or `>>`. -/
theorem gettoken_ret_of_peek_redir (h : (peek s p [60, 62]).1 = true) :
    (gettoken s p).ret = 60 ∨ (gettoken s p).ret = 62 ∨ (gettoken s p).ret = 43 := by
  have hq : charAt s (gettoken s p).q ∈ [60, 62] := (peek_fst_iff (by decide)).mp h
  rw [gettoken_ret]
  rcases gettokenSwitch_cases s (gettoken s p).q with
    ⟨h0, -⟩ | ⟨hsym, hsw⟩ | ⟨-, -, hsw⟩ | ⟨-, -, hsw⟩ | ⟨-, hsym, hgt, -⟩
  · rw [h0] at hq; simp at hq
  · rw [hsw]
    simp only [List.mem_cons, List.not_mem_nil, or_false] at hq hsym ⊢
    rcases hq with hq | hq
    · exact .inl hq
    · rw [hq] at hsym; simp at hsym
  · rw [hsw]; simp
  · rw [hsw]; simp
  · simp only [List.mem_cons, List.not_mem_nil, or_false] at hq hsym
    rcases hq with hq | hq
    · rw [hq] at hsym; simp at hsym
    · exact absurd hq hgt

/-! ## The tokens of a line -/

/-- The terminals of the grammar of `sh.c`'s parser: a word, with the offsets of its first byte
and of the byte after it, and the symbols, `>>` among them. -/
inductive Token where
  | word (q eq : ℕ)
  | pipe
  | lparen
  | rparen
  | semi
  | amp
  | lt
  | gt
  | append
  deriving Repr, DecidableEq

/-- The terminal a `gettoken` call read, by what it returned. -/
def Gettoken.token (g : Gettoken) : Token :=
  if g.ret = 124 then .pipe else if g.ret = 40 then .lparen else if g.ret = 41 then .rparen
  else if g.ret = 59 then .semi else if g.ret = 38 then .amp else if g.ret = 60 then .lt
  else if g.ret = 62 then .gt else if g.ret = 43 then .append else .word g.q g.eq

/-- The tokens of the line from offset `p` on: what successive `gettoken` calls read, up to the
one that returns `0`. -/
def tokensFrom (s : List UInt8) (p : ℕ) : List Token :=
  if _h : (gettoken s p).ret = 0 then []
  else (gettoken s p).token :: tokensFrom s (gettoken s p).ps
termination_by s.length - p
decreasing_by exact gettoken_advance _h

theorem tokensFrom_of_ret_eq_zero (h : (gettoken s p).ret = 0) : tokensFrom s p = [] := by
  rw [tokensFrom, dif_pos h]

theorem tokensFrom_of_ret_ne_zero (h : (gettoken s p).ret ≠ 0) :
    tokensFrom s p = (gettoken s p).token :: tokensFrom s (gettoken s p).ps := by
  rw [tokensFrom, dif_neg h]

/-- The tokens do not depend on the whitespace before them. -/
theorem tokensFrom_skip (s : List UInt8) (p : ℕ) :
    tokensFrom s (skipWhile isSpace s p) = tokensFrom s p := by
  by_cases h : (gettoken s p).ret = 0
  · rw [tokensFrom_of_ret_eq_zero (by rwa [gettoken_skip]), tokensFrom_of_ret_eq_zero h]
  · rw [tokensFrom_of_ret_ne_zero (by rwa [gettoken_skip]), tokensFrom_of_ret_ne_zero h,
      gettoken_skip]

theorem tokensFrom_peek (s : List UInt8) (p : ℕ) (toks : List UInt8) :
    tokensFrom s (peek s p toks).2 = tokensFrom s p :=
  tokensFrom_skip s p

/-- Nothing is read after the end of the line. -/
theorem tokensFrom_ps_of_ret_eq_zero (h : (gettoken s p).ret = 0) :
    tokensFrom s (gettoken s p).ps = [] := by
  rw [gettoken_ps_of_ret_eq_zero h, gettoken_q, tokensFrom_skip, tokensFrom_of_ret_eq_zero h]

/-- Nothing is left at the end of the line. -/
theorem tokensFrom_length (s : List UInt8) : tokensFrom s s.length = [] := by
  apply tokensFrom_of_ret_eq_zero
  rw [gettoken_ret_eq_zero_iff, gettoken_q, skipWhile_of_le _ le_rfl]
  exact charAt_of_le le_rfl

theorem Gettoken.token_of_ret_eq_word {g : Gettoken} (h : g.ret = 97) :
    g.token = .word g.q g.eq := by
  simp [Gettoken.token, h]

/-- A word of the line is a run of word bytes, ended by `es` or by a byte that is not one. -/
theorem word_of_mem_tokensFrom {q eq : ℕ} (h : Token.word q eq ∈ tokensFrom s p) :
    q < eq ∧ eq ≤ s.length ∧ (∀ i, q ≤ i → i < eq → isWordByte (charAt s i) = true) ∧
      (eq < s.length → isWordByte (charAt s eq) = false) := by
  -- induction along the tokens: the word is the first one or among the rest
  induction p using tokensFrom.induct s with
  | case1 p h0 => rw [tokensFrom_of_ret_eq_zero h0] at h; simp at h
  | case2 p h0 ih =>
    rw [tokensFrom_of_ret_ne_zero h0] at h
    rcases List.mem_cons.mp h with hw | hw
    · have hret : (gettoken s p).ret = 97 := by
        have hmem := gettoken_ret_mem s p
        unfold Gettoken.token at hw
        simp only [List.mem_cons, List.not_mem_nil, or_false] at hmem
        rcases hmem with hr | hr | hr | hr | hr | hr | hr | hr | hr | hr <;> simp [hr] at hw h0 ⊢
      rw [Gettoken.token_of_ret_eq_word hret, Token.word.injEq] at hw
      obtain ⟨rfl, rfl⟩ := hw
      exact gettoken_word hret
    · exact ih hw


end Xv6.Sh
