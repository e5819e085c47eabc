import Mathlib.Data.List.Basic
import PetProject.Foundation.Tally
import PetProject.Foundation.TextSearch

/-!
# A lexer for SQL text

The lexer is a machine that reads one character at a time (`step`), so the tokens of a text depend
on what stands before it only through the mode at its start (`run_append`). A literal is written in
single quotes and a quote in its value is written twice.

A program that puts a string `u` between two quotes of a statement text produces one literal with
the value `u` if and only if `u` has no quote (`slot_tokens`, `quoteFree_of_mem`): the first quote
in `u` closes the literal or is read together with the next one, and the quotes of the text are too
few for a later literal with the value `u` (`weight_run`).
-/

set_option autoImplicit false

namespace PetProject.Foundation.SqlLexer

open PetProject.Foundation.TextSearch PetProject.Foundation.Tally

/-! ## Tokens -/

/-- The quote of literals. -/
def quote : Char := '\x27'

/-- The quote of delimited names. -/
def nameQuote : Char := '\x22'

inductive Token where
  /-- A keyword, a name or a number. -/
  | word (w : Text)
  /-- A delimited name. -/
  | name (v : Text)
  | literal (v : Text)
  | symbol (c : Char)
  /-- The rest of the text after a quote that nothing closes. -/
  | unclosed (v : Text)
  deriving DecidableEq, Repr

/-- Where the machine is in the text. -/
inductive Mode where
  | neutral
  | word (w : Text)
  | literal (v : Text)
  /-- After a quote in a literal: the end of the literal or half of a doubled quote. -/
  | literalQuote (v : Text)
  | name (v : Text)
  | nameQuote (v : Text)
  | dash
  | lineComment
  | slash
  | blockComment
  | blockStar
  deriving DecidableEq, Repr

def isWordChar (c : Char) : Bool :=
  c.isAlphanum || c == '_' || c == '$' || decide (128 ≤ c.toNat)

/-- A character outside of every token. -/
def plain (c : Char) : Mode × List Token :=
  if c = quote then (.literal [], [])
  else if c = nameQuote then (.name [], [])
  else if c = '-' then (.dash, [])
  else if c = '/' then (.slash, [])
  else if c.isWhitespace then (.neutral, [])
  else if isWordChar c then (.word [c], [])
  else (.neutral, [.symbol c])

/-- A token ends before the character. -/
def plainAfter (t : Token) (c : Char) : Mode × List Token := ((plain c).1, t :: (plain c).2)

/-- One character: the next mode and the tokens that it completes. -/
def step : Mode → Char → Mode × List Token
  | .neutral, c => plain c
  | .word w, c => if isWordChar c then (.word (w ++ [c]), []) else plainAfter (.word w) c
  | .literal v, c => if c = quote then (.literalQuote v, []) else (.literal (v ++ [c]), [])
  | .literalQuote v, c =>
      if c = quote then (.literal (v ++ [c]), []) else plainAfter (.literal v) c
  | .name v, c => if c = nameQuote then (.nameQuote v, []) else (.name (v ++ [c]), [])
  | .nameQuote v, c => if c = nameQuote then (.name (v ++ [c]), []) else plainAfter (.name v) c
  | .dash, c => if c = '-' then (.lineComment, []) else plainAfter (.symbol '-') c
  | .lineComment, c => if c = '\n' then (.neutral, []) else (.lineComment, [])
  | .slash, c => if c = '*' then (.blockComment, []) else plainAfter (.symbol '/') c
  | .blockComment, c => if c = '*' then (.blockStar, []) else (.blockComment, [])
  | .blockStar, c =>
      if c = '/' then (.neutral, []) else if c = '*' then (.blockStar, []) else (.blockComment, [])

/-- The tokens that the end of the text completes. -/
def flush : Mode → List Token
  | .word w => [.word w]
  | .literal v => [.unclosed v]
  | .literalQuote v => [.literal v]
  | .name v => [.unclosed v]
  | .nameQuote v => [.name v]
  | .dash => [.symbol '-']
  | .slash => [.symbol '/']
  | .neutral | .lineComment | .blockComment | .blockStar => []

/-- The mode after a text and the tokens completed in it. -/
def run (m : Mode) : Text → Mode × List Token
  | [] => (m, [])
  | c :: cs => ((run (step m c).1 cs).1, (step m c).2 ++ (run (step m c).1 cs).2)

/-- The tokens from a mode to the end of the text. -/
def tokensFrom (m : Mode) (s : Text) : List Token := (run m s).2 ++ flush (run m s).1

/-- The tokens of a text. -/
def tokens (s : Text) : List Token := tokensFrom .neutral s

/-! ## Composition -/

@[simp] theorem run_nil (m : Mode) : run m [] = (m, []) := rfl

@[simp] theorem run_cons (m : Mode) (c : Char) (cs : Text) :
    run m (c :: cs) = ((run (step m c).1 cs).1, (step m c).2 ++ (run (step m c).1 cs).2) := rfl

theorem run_append (m : Mode) (s t : Text) :
    run m (s ++ t) = ((run (run m s).1 t).1, (run m s).2 ++ (run (run m s).1 t).2) := by
  induction s generalizing m with
  | nil => simp
  | cons c cs ih =>
    rw [List.cons_append, run_cons, run_cons, ih]
    simp

theorem tokensFrom_append {m m' : Mode} {s : Text} {ts : List Token} (h : run m s = (m', ts))
    (t : Text) : tokensFrom m (s ++ t) = ts ++ tokensFrom m' t := by
  unfold tokensFrom
  rw [run_append, h, List.append_assoc]

/-- A text without a quote is the value of a literal as it stands. -/
theorem run_literal_of_quoteFree {u : Text} (hu : quote ∉ u) (v : Text) :
    run (.literal v) u = (.literal (v ++ u), []) := by
  induction u generalizing v with
  | nil => simp
  | cons c cs ih =>
    rw [List.mem_cons, not_or] at hu
    obtain ⟨hne, hcs⟩ := hu
    have hstep : step (.literal v) c = (.literal (v ++ [c]), []) := if_neg (Ne.symm hne)
    rw [run_cons, hstep, ih hcs]
    simp

/-- A quote and another character close a literal. -/
theorem tokensFrom_literalQuote (v : Text) {c : Char} (hc : c ≠ quote) (cs : Text) :
    tokensFrom (.literalQuote v) (c :: cs) = .literal v :: tokensFrom .neutral (c :: cs) := by
  unfold tokensFrom
  have hstep : step (.literalQuote v) c = plainAfter (.literal v) c := if_neg hc
  rw [run_cons, hstep, run_cons]
  rfl

/-- A string without a quote and the text that closes its literal. -/
theorem tokensFrom_slot {u post : Text} {m : Mode} {ts : List Token} (hu : quote ∉ u)
    (hpost : ∀ v, run (.literal v) post = (m, .literal v :: ts)) (rest : Text) :
    tokensFrom (.literal []) (u ++ (post ++ rest)) = .literal u :: (ts ++ tokensFrom m rest) := by
  rw [tokensFrom_append (run_literal_of_quoteFree hu []), List.nil_append, List.nil_append,
    tokensFrom_append (hpost u), List.cons_append]

theorem run_slot {u post : Text} {m : Mode} {ts : List Token} (hu : quote ∉ u)
    (hpost : ∀ v, run (.literal v) post = (m, .literal v :: ts)) (rest : Text) :
    run (.literal []) (u ++ (post ++ rest)) =
      ((run m rest).1, .literal u :: (ts ++ (run m rest).2)) := by
  rw [run_append, run_literal_of_quoteFree hu [], run_append, List.nil_append, hpost]
  rfl

theorem tokensFrom_lastSlot {u post : Text} {m : Mode} {ts : List Token} (hu : quote ∉ u)
    (hpost : ∀ v, run (.literal v) post = (m, .literal v :: ts)) :
    tokensFrom (.literal []) (u ++ post) = .literal u :: (ts ++ flush m) := by
  have hslot := tokensFrom_slot hu hpost []
  rwa [List.append_nil] at hslot

/-! ## A string between two quotes -/

section Slot

variable {pre cs : Text} {P : List Token} {c : Char}

/-- A string without a quote that is put between two quotes is one literal. -/
theorem slot_tokens (hpre : run .neutral pre = (.literal [], P)) (hc : c ≠ quote) {u : Text}
    (hu : quote ∉ u) :
    tokens (pre ++ (u ++ quote :: c :: cs)) = P ++ .literal u :: tokens (c :: cs) := by
  have hclose : tokensFrom (.literal u) (quote :: c :: cs) =
      tokensFrom (.literalQuote u) (c :: cs) := by
    unfold tokensFrom
    rw [run_cons]
    rfl
  unfold tokens
  rw [tokensFrom_append hpre, tokensFrom_append (run_literal_of_quoteFree hu []), List.nil_append,
    List.nil_append, hclose, tokensFrom_literalQuote u hc]

/-- The value of a literal and the text after it, read after the opening quote. -/
def readLiteral : Text → Option (Text × Text)
  | [] => none
  | [c] => if c = quote then some ([], []) else none
  | c :: d :: cs =>
      if c = quote then
        if d = quote then (readLiteral cs).map fun r => (quote :: r.1, r.2) else some ([], d :: cs)
      else (readLiteral (d :: cs)).map fun r => (c :: r.1, r.2)

/-- The machine reads literals as `readLiteral` does. -/
theorem tokensFrom_literal (t v : Text) :
    (∃ w, readLiteral t = none ∧ tokensFrom (.literal v) t = [.unclosed w]) ∨
      ∃ w rest, readLiteral t = some (w, rest) ∧
        tokensFrom (.literal v) t = .literal (v ++ w) :: tokens rest := by
  induction t using readLiteral.induct generalizing v with
  | case1 =>
    left
    exact ⟨v, rfl, rfl⟩
  | case2 =>
    right
    exact ⟨[], [], by simp [readLiteral], by simp [tokensFrom, tokens, step, flush]⟩
  | case3 c hc =>
    left
    exact ⟨v ++ [c], by simp [readLiteral, hc], by simp [tokensFrom, step, flush, hc]⟩
  | case4 cs ih =>
    -- a doubled quote is one quote of the value
    have hstep : tokensFrom (.literal v) (quote :: quote :: cs) =
        tokensFrom (.literal (v ++ [quote])) cs := by
      simp [tokensFrom, step]
    rcases ih (v ++ [quote]) with ⟨w, hnone, htok⟩ | ⟨w, rest, hsome, htok⟩
    · left
      exact ⟨w, by simp [readLiteral, hnone], hstep.trans htok⟩
    · right
      refine ⟨quote :: w, rest, by simp [readLiteral, hsome], ?_⟩
      rw [hstep, htok, List.append_assoc, List.singleton_append]
  | case5 d cs hd =>
    right
    refine ⟨[], d :: cs, by simp [readLiteral, hd], ?_⟩
    have hclose : tokensFrom (.literal v) (quote :: d :: cs) =
        tokensFrom (.literalQuote v) (d :: cs) := by
      unfold tokensFrom
      rw [run_cons]
      rfl
    rw [hclose, tokensFrom_literalQuote v hd, List.append_nil]
    rfl
  | case6 c d cs hc ih =>
    have hstep : tokensFrom (.literal v) (c :: d :: cs) =
        tokensFrom (.literal (v ++ [c])) (d :: cs) := by
      have hone : step (.literal v) c = (.literal (v ++ [c]), []) := if_neg hc
      unfold tokensFrom
      rw [run_cons, hone]
      rfl
    rcases ih (v ++ [c]) with ⟨w, hnone, htok⟩ | ⟨w, rest, hsome, htok⟩
    · left
      exact ⟨w, by simp [readLiteral, hc, hnone], hstep.trans htok⟩
    · right
      refine ⟨c :: w, rest, by simp [readLiteral, hc, hsome], ?_⟩
      rw [hstep, htok, List.append_assoc, List.singleton_append]

/-- A quote and another character end the literal. -/
theorem readLiteral_closed (hc : c ≠ quote) :
    readLiteral (quote :: c :: cs) = some ([], c :: cs) := by
  rw [readLiteral, if_pos rfl, if_neg hc]

/-- A doubled quote is one quote of the value. -/
theorem readLiteral_doubled {w rest : Text}
    (h : readLiteral (quote :: quote :: cs) = some (w, rest)) :
    ∃ w', w = quote :: w' ∧ readLiteral cs = some (w', rest) := by
  rw [readLiteral, if_pos rfl, if_pos rfl] at h
  obtain ⟨⟨w', rest'⟩, hread, heq⟩ := Option.map_eq_some_iff.mp h
  cases heq
  exact ⟨w', rfl, hread⟩

/-- Any other character is a character of the value. -/
theorem readLiteral_plain {w rest : Text} (hc : c ≠ quote)
    (h : readLiteral (c :: cs) = some (w, rest)) :
    ∃ w', w = c :: w' ∧ readLiteral cs = some (w', rest) := by
  cases cs with
  | nil =>
    rw [readLiteral, if_neg hc] at h
    cases h
  | cons d cs =>
    rw [readLiteral, if_neg hc] at h
    obtain ⟨⟨w', rest'⟩, hread, heq⟩ := Option.map_eq_some_iff.mp h
    cases heq
    exact ⟨w', rfl, hread⟩

/-- The quotes of a text that a literal takes from it. -/
theorem count_readLiteral {t w rest : Text} (h : readLiteral t = some (w, rest)) :
    t.count quote = 2 * w.count quote + 1 + rest.count quote := by
  induction t using readLiteral.induct generalizing w with
  | case1 => cases h
  | case2 =>
    simp [readLiteral] at h
    obtain ⟨rfl, rfl⟩ := h
    simp
  | case3 c hc => simp [readLiteral, hc] at h
  | case4 cs ih =>
    obtain ⟨w', rfl, hread⟩ := readLiteral_doubled h
    have := ih hread
    simp only [List.count_cons_self] at *
    omega
  | case5 d cs hd =>
    rw [readLiteral_closed hd] at h
    cases h
    simp only [List.count_cons_self, List.count_nil]
    omega
  | case6 c d cs hc ih =>
    obtain ⟨w', rfl, hread⟩ := readLiteral_plain hc h
    rw [List.count_cons_of_ne (fun h => hc h), List.count_cons_of_ne (fun h => hc h)]
    exact ih hread

/-- A literal that starts before `u` and a closing quote does not have the value `u`, when `u` has a
quote. The quotes `k` in front of `u` are those that doubling has already left over. -/
theorem readLiteral_ne {u rest : Text} (hc : c ≠ quote) (k : Nat)
    (h : readLiteral (u ++ quote :: c :: cs) = some (List.replicate k quote ++ u, rest)) :
    k = 0 ∧ quote ∉ u := by
  -- on the length: a doubled quote takes two characters of `u` and leaves one quote over
  induction hn : u.length using Nat.strongRecOn generalizing u k with
  | ind n ih =>
    cases u with
    | nil =>
      rw [List.nil_append, readLiteral_closed hc, List.append_nil] at h
      have hk : [] = List.replicate k quote := (Prod.mk.inj (Option.some.inj h)).1
      exact ⟨by simpa using hk.symm, List.not_mem_nil⟩
    | cons d u =>
      by_cases hd : d = quote
      · subst hd
        exfalso
        cases u with
        | nil =>
          -- the closing quote is read as the second half of a doubled quote
          obtain ⟨w, hw, hread⟩ := readLiteral_doubled h
          obtain ⟨w', rfl, -⟩ := readLiteral_plain hc hread
          rw [← List.replicate_succ', List.replicate_succ, List.cons.injEq] at hw
          cases k with
          | zero => cases hw.2
          | succ k =>
            rw [List.replicate_succ, List.cons.injEq] at hw
            exact hc hw.2.1.symm
        | cons e u =>
          by_cases he : e = quote
          · subst he
            obtain ⟨w, hw, hread⟩ := readLiteral_doubled h
            -- the doubled quote leaves one more quote in front of the rest
            have hmove : List.replicate k quote ++ quote :: quote :: u =
                quote :: (List.replicate (k + 1) quote ++ u) := by
              rw [List.replicate_succ', List.append_assoc, List.singleton_append,
                ← List.cons_append, ← List.replicate_succ, List.replicate_succ',
                List.append_assoc, List.singleton_append]
            rw [hmove, List.cons.injEq] at hw
            rw [← hw.2] at hread
            have hlt : u.length < n := by
              rw [← hn]
              simp only [List.length_cons]
              omega
            have := ih u.length hlt (k + 1) hread rfl
            omega
          · -- the quote closes the literal with the empty value
            rw [List.cons_append, List.cons_append, readLiteral_closed he] at h
            have hnil : [] = List.replicate k quote ++ quote :: e :: u :=
              (Prod.mk.inj (Option.some.inj h)).1
            simp at hnil
      · -- an ordinary character is the first one of the value
        obtain ⟨w, hw, hread⟩ := readLiteral_plain hd h
        cases k with
        | succ k =>
          rw [List.replicate_succ, List.cons_append, List.cons.injEq] at hw
          exact absurd hw.1.symm hd
        | zero =>
          rw [List.replicate_zero, List.nil_append, List.cons.injEq] at hw
          rw [← hw.2] at hread
          have hlt : u.length < n := by
            rw [← hn]
            simp only [List.length_cons]
            omega
          obtain ⟨-, hmem⟩ := ih u.length hlt 0 hread rfl
          refine ⟨rfl, ?_⟩
          rw [List.mem_cons, not_or]
          exact ⟨Ne.symm hd, hmem⟩

/-! ## Quotes of a text and quotes of its tokens -/

/-- The quotes that the text of a token has at least. -/
def Token.weight : Token → Nat
  | .literal v => 2 + 2 * v.count quote
  | _ => 0

/-- The quotes read so far of a literal in progress. -/
def Mode.weight : Mode → Nat
  | .literal v => 1 + 2 * v.count quote
  | .literalQuote v => 2 + 2 * v.count quote
  | _ => 0

theorem weight_plain (c : Char) :
    (plain c).1.weight + tally Token.weight (plain c).2 ≤ [c].count quote := by
  unfold plain
  split
  · rename_i h
    simp [h, Mode.weight]
  · repeat' split
    all_goals simp [Mode.weight, Token.weight]

theorem weight_step (m : Mode) (c : Char) :
    (step m c).1.weight + tally Token.weight (step m c).2 ≤ m.weight + [c].count quote := by
  have hplain := weight_plain c
  cases m with
  | literal v =>
    simp only [step]
    split
    · rename_i h
      simp [h, Mode.weight]
      omega
    · rename_i h
      simp [Mode.weight, h]
  | literalQuote v =>
    simp only [step]
    split
    · rename_i h
      simp [h, Mode.weight]
      omega
    · change (plain c).1.weight + tally Token.weight (.literal v :: (plain c).2) ≤
        2 + 2 * v.count quote + [c].count quote
      rw [tally_cons, Token.weight]
      omega
  | _ =>
    simp only [step]
    repeat' split
    all_goals simp [plainAfter, Mode.weight, Token.weight] at *
    all_goals omega

theorem weight_run (m : Mode) (s : Text) :
    (run m s).1.weight + tally Token.weight (run m s).2 ≤ m.weight + s.count quote := by
  induction s generalizing m with
  | nil => simp
  | cons c cs ih =>
    have hstep := weight_step m c
    have hrest := ih (step m c).1
    have hcount : (c :: cs).count quote = [c].count quote + cs.count quote := by
      rw [← List.count_append, List.singleton_append]
    simp only [run_cons, tally_append]
    omega

/-- A literal among the tokens of a text takes its quotes from the text. -/
theorem weight_le_count {v s : Text} (h : .literal v ∈ tokens s) :
    2 + 2 * v.count quote ≤ s.count quote := by
  have hrun := weight_run .neutral s
  have hinit : Mode.neutral.weight = 0 := rfl
  rcases List.mem_append.mp h with hdone | hflush
  · obtain ⟨i, hi⟩ := List.mem_iff_getElem?.mp hdone
    have hle := le_tally Token.weight hi
    rw [Token.weight] at hle
    omega
  · -- the end of the text completes a literal only behind its closing quote
    have hlast : (run .neutral s).1 = .literalQuote v := by
      cases hm : (run .neutral s).1 <;> simp_all [flush]
    rw [hlast] at hrun
    simp only [Mode.weight] at hrun
    omega

theorem literal_notMem_of_weight {P : List Token} (h : ∀ x ∈ P, x.weight = 0) (v : Text) :
    .literal v ∉ P := by
  intro hmem
  have hweight := h _ hmem
  rw [Token.weight] at hweight
  omega

/-- A string with a quote, put between two quotes, is not the value of any literal. The text behind
it has at most two more quotes. -/
theorem quoteFree_of_mem (hpre : run .neutral pre = (.literal [], P))
    (hP : ∀ v, .literal v ∈ P → quote ∉ v) (hc : c ≠ quote) (hcs : cs.count quote ≤ 2) {u : Text}
    (h : .literal u ∈ tokens (pre ++ (u ++ quote :: c :: cs))) : quote ∉ u := by
  unfold tokens at h
  rw [tokensFrom_append hpre, List.mem_append] at h
  rcases h with hfixed | hslot
  · exact hP u hfixed
  rcases tokensFrom_literal (u ++ quote :: c :: cs) [] with ⟨w, -, htok⟩ | ⟨w, rest, hread, htok⟩
  · rw [htok] at hslot
    cases List.mem_singleton.mp hslot
  rw [htok, List.nil_append, List.mem_cons] at hslot
  rcases hslot with hfirst | hlater
  · cases hfirst
    exact (readLiteral_ne hc 0 hread).2
  · -- a later literal with the value `u` needs more quotes than are left
    have hcount := count_readLiteral hread
    have hweight := weight_le_count hlater
    rw [List.count_append, List.count_cons_self, List.count_cons_of_ne hc] at hcount
    intro hmem
    have := List.count_pos_iff.mpr hmem
    omega

/-- The two texts have the same tokens but for one literal, whose values are `u` and `v`. -/
def SameButLiteral (s t u v : Text) : Prop :=
  ∃ before after, tokens s = before ++ .literal u :: after ∧
    tokens t = before ++ .literal v :: after

/-- Two strings put into the same place between quotes change the value of one literal only, if and
only if neither has a quote. -/
theorem sameButLiteral_iff (hpre : run .neutral pre = (.literal [], P))
    (hP : ∀ v, .literal v ∈ P → quote ∉ v) (hc : c ≠ quote) (hcs : cs.count quote ≤ 2)
    (u v : Text) :
    SameButLiteral (pre ++ (u ++ quote :: c :: cs)) (pre ++ (v ++ quote :: c :: cs)) u v ↔
      quote ∉ u ∧ quote ∉ v := by
  constructor
  · rintro ⟨before, after, hs, ht⟩
    constructor
    · apply quoteFree_of_mem hpre hP hc hcs
      rw [hs]
      simp
    · apply quoteFree_of_mem hpre hP hc hcs
      rw [ht]
      simp
  · rintro ⟨hu, hv⟩
    exact ⟨P, tokens (c :: cs), slot_tokens hpre hc hu, slot_tokens hpre hc hv⟩

end Slot

end PetProject.Foundation.SqlLexer
