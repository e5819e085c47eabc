import Mathlib.Data.List.Basic
import Mathlib.Data.List.Forall2
import PetProject.Foundation.TextSearch

/-!
# The tokens of a JSON text

`tokens` reads a text from left to right with a mode for the token in progress. White space between
tokens leaves no trace, and a string token holds the string that its escapes denote.

The texts that programs print are put together with `stringText`, `arrayText` and `objectText`. A
text that is followed by a delimiter keeps its tokens (`tokens_delimiter`), so the tokens of a
printed text are put together in the same way (`tokens_arrayText`, `tokens_objectText`).
-/

set_option autoImplicit false

namespace PetProject.Foundation.JsonText

open PetProject.Foundation.TextSearch

inductive Token where
  | openArray
  | closeArray
  | openObject
  | closeObject
  | comma
  | colon
  | str (s : Text)
  /-- A number or one of the three names. -/
  | atom (s : Text)
  deriving DecidableEq

def quotationMark : Char := '\x22'

def backslash : Char := '\x5c'

def openBrace : Char := '\x7b'

def closeBrace : Char := '\x7d'

def isWhitespace (c : Char) : Bool := c = ' ' || c = '\t' || c = '\n' || c = '\r'

/-- The characters of numbers and names. -/
def isAtomChar (c : Char) : Bool := c.isAlphanum || c = '+' || c = '-' || c = '.'

/-- The token of a character that ends the token before it. -/
def delimiter (c : Char) : Option (List Token) :=
  if isWhitespace c then some []
  else if c = '[' then some [.openArray]
  else if c = ']' then some [.closeArray]
  else if c = openBrace then some [.openObject]
  else if c = closeBrace then some [.closeObject]
  else if c = ',' then some [.comma]
  else if c = ':' then some [.colon]
  else none

/-! ## Reading -/

inductive Mode where
  | outside
  | atom (s : Text)
  | str (s : Text)
  | escape (s : Text)
  /-- Behind `\u`: the digits that are missing, and the value of the others. -/
  | hex (s : Text) (missing value : Nat)
  deriving DecidableEq

/-- The token in progress, where the text may end. -/
def Mode.pending : Mode → Option (List Token)
  | .outside => some []
  | .atom s => some [.atom s]
  | _ => none

/-- The character that an escape of two characters denotes. -/
def unescape (c : Char) : Option Char :=
  if c = quotationMark || c = backslash || c = '/' then some c
  else if c = 'b' then some '\x08'
  else if c = 'f' then some '\x0c'
  else if c = 'n' then some '\n'
  else if c = 'r' then some '\r'
  else if c = 't' then some '\t'
  else none

def hexValue (c : Char) : Option Nat :=
  if c.isDigit then some (c.toNat - '0'.toNat)
  else if 'a' ≤ c ∧ c ≤ 'f' then some (c.toNat - 'a'.toNat + 10)
  else if 'A' ≤ c ∧ c ≤ 'F' then some (c.toNat - 'A'.toNat + 10)
  else none

/-- A character outside of a token. -/
def start (c : Char) : Option (Mode × List Token) :=
  if c = quotationMark then some (.str [], [])
  else if isAtomChar c then some (.atom [c], [])
  else (delimiter c).map fun ts => (.outside, ts)

def step : Mode → Char → Option (Mode × List Token)
  | .outside, c => start c
  | .atom s, c =>
      if isAtomChar c then some (.atom (s ++ [c]), [])
      else (start c).map fun r => (r.1, .atom s :: r.2)
  | .str s, c =>
      if c = quotationMark then some (.outside, [.str s])
      else if c = backslash then some (.escape s, [])
      else if c.toNat < 32 then none
      else some (.str (s ++ [c]), [])
  | .escape s, c =>
      if c = 'u' then some (.hex s 4 0, []) else (unescape c).map fun d => (.str (s ++ [d]), [])
  | .hex s missing value, c =>
      match hexValue c, missing with
      | some d, 1 =>
          -- the halves of a surrogate pair are not characters
          if (16 * value + d).isValidChar then
            some (.str (s ++ [Char.ofNat (16 * value + d)]), [])
          else none
      | some d, missing + 1 => some (.hex s missing (16 * value + d), [])
      | _, _ => none

def scan : Mode → Text → Option (Mode × List Token)
  | m, [] => some (m, [])
  | m, c :: cs =>
      (step m c).bind fun r => (scan r.1 cs).map fun r' => (r'.1, r.2 ++ r'.2)

/-- The tokens of a text; `none` when it has a character outside of every token or ends inside of
a string. -/
def tokens (text : Text) : Option (List Token) :=
  (scan .outside text).bind fun r => r.1.pending.map (r.2 ++ ·)

theorem scan_append (m : Mode) (a b : Text) :
    scan m (a ++ b) =
      (scan m a).bind fun r => (scan r.1 b).map fun r' => (r'.1, r.2 ++ r'.2) := by
  induction a generalizing m with
  | nil => simp [scan]
  | cons c cs ih =>
    simp only [List.cons_append, scan]
    cases step m c with
    | none => rfl
    | some r =>
      simp only [Option.bind_some, ih]
      cases scan r.1 cs with
      | none => rfl
      | some r' =>
        simp [Option.map_map, Function.comp_def, List.append_assoc]

theorem tokens_nil : tokens [] = some [] := rfl

theorem mem_of_delimiter {c : Char} {ds : List Token} (h : delimiter c = some ds) :
    c ∈ [' ', '\t', '\n', '\r', '[', ']', openBrace, closeBrace, ',', ':'] := by
  by_contra hnone
  simp only [List.mem_cons, List.not_mem_nil, or_false, not_or] at hnone
  simp [delimiter, isWhitespace, hnone] at h

/-- A delimiter ends the token before it. -/
theorem start_of_delimiter {c : Char} {ds : List Token} (h : delimiter c = some ds) :
    start c = some (.outside, ds) ∧ isAtomChar c = false := by
  have hchars : ([' ', '\t', '\n', '\r', '[', ']', openBrace, closeBrace, ',', ':'].all fun d =>
      decide (d ≠ quotationMark ∧ isAtomChar d = false)) = true := by
    decide
  obtain ⟨hquote, hatom⟩ := of_decide_eq_true (List.all_eq_true.mp hchars c (mem_of_delimiter h))
  refine ⟨?_, hatom⟩
  unfold start
  rw [if_neg hquote, hatom, if_neg Bool.false_ne_true, h]
  rfl

theorem step_delimiter {m : Mode} {c : Char} {ps ds : List Token} (hm : m.pending = some ps)
    (hc : delimiter c = some ds) : step m c = some (.outside, ps ++ ds) := by
  obtain ⟨hstart, hatom⟩ := start_of_delimiter hc
  cases m with
  | outside =>
    cases hm
    exact hstart
  | atom s =>
    cases hm
    simp only [step, hatom, hstart, Bool.false_eq_true, if_false, Option.map_some]
    rfl
  | str s => cases hm
  | escape s => cases hm
  | hex s missing value => cases hm

/-- A text keeps its tokens in front of a delimiter. -/
theorem tokens_delimiter {a b : Text} {c : Char} {ts ds : List Token} (ha : tokens a = some ts)
    (hc : delimiter c = some ds) :
    tokens (a ++ c :: b) = (tokens b).map fun us => ts ++ (ds ++ us) := by
  -- the mode at the end of `a` is one in which the delimiter completes the token
  obtain ⟨⟨m, us⟩, hscan, hpending⟩ := Option.bind_eq_some_iff.mp ha
  obtain ⟨ps, hm, rfl⟩ := Option.map_eq_some_iff.mp hpending
  unfold tokens
  rw [scan_append, hscan]
  simp only [Option.bind_some, scan, step_delimiter hm hc]
  cases scan .outside b with
  | none => rfl
  | some r =>
    simp only [Option.map_some, Option.bind_some]
    cases r.1.pending with
    | none => rfl
    | some vs => simp [List.append_assoc]

theorem tokens_whitespace {ws b : Text} (h : ∀ c ∈ ws, isWhitespace c = true) :
    tokens (ws ++ b) = tokens b := by
  induction ws with
  | nil => rfl
  | cons c ws ih =>
    have hc : delimiter c = some [] := by
      unfold delimiter
      rw [if_pos (h c (by simp))]
    have hrest := ih fun c' hc' => h c' (List.mem_cons_of_mem _ hc')
    have hcons : tokens ([] ++ c :: (ws ++ b)) =
        (tokens (ws ++ b)).map fun us => [] ++ ([] ++ us) :=
      tokens_delimiter tokens_nil hc
    rw [List.nil_append] at hcons
    rw [List.cons_append, hcons, hrest]
    simp

/-! ## Strings -/

def hexDigit (n : Nat) : Char := "0123456789abcdef".toList.getD n '0'

/-- The letter of the short escape of a control character. -/
def shortEscape (c : Char) : Option Char :=
  if c = '\x08' then some 'b'
  else if c = '\x0c' then some 'f'
  else if c = '\n' then some 'n'
  else if c = '\r' then some 'r'
  else if c = '\t' then some 't'
  else none

/-- A character as printers write it in a string. -/
def escapeChar (c : Char) : Text :=
  if c = quotationMark || c = backslash then [backslash, c]
  else if 32 ≤ c.toNat then [c]
  else
    match shortEscape c with
    | some d => [backslash, d]
    | none => [backslash, 'u', '0', '0', hexDigit (c.toNat / 16), hexDigit (c.toNat % 16)]

/-- The text of a string. -/
def stringText (s : Text) : Text := quotationMark :: (s.flatMap escapeChar ++ [quotationMark])

theorem hexValue_hexDigit : ∀ n < 16, hexValue (hexDigit n) = some n := by decide

/-- The short escape of a control character denotes it. -/
theorem unescape_shortEscape {c d : Char} (h : shortEscape c = some d) :
    d ≠ 'u' ∧ unescape d = some c := by
  unfold shortEscape at h
  repeat' split at h
  all_goals cases h
  all_goals simp_all [unescape, quotationMark, backslash]

/-- The escape of a control character denotes it. -/
theorem scan_escape_control (s : Text) {c : Char} (h : c.toNat < 32) :
    scan (.str s) (escapeChar c) = some (.str (s ++ [c]), []) := by
  have hspecial : ¬ (c = quotationMark || c = backslash) = true := by
    simp only [Bool.or_eq_true, decide_eq_true_eq, not_or]
    constructor
    · rintro rfl
      exact absurd h (by decide)
    · rintro rfl
      exact absurd h (by decide)
  unfold escapeChar
  rw [if_neg hspecial, if_neg (Nat.not_le_of_lt h)]
  cases hshort : shortEscape c with
  | some d =>
    obtain ⟨hu, hd⟩ := unescape_shortEscape hshort
    have hback : step (.str s) backslash = some (.escape s, []) := rfl
    have hescape : step (.escape s) d = some (.str (s ++ [c]), []) := by
      simp only [step, if_neg hu, hd, Option.map_some]
    simp [scan, hback, hescape]
  | none =>
    have hback : step (.str s) backslash = some (.escape s, []) := rfl
    have hu : step (.escape s) 'u' = some (.hex s 4 0, []) := rfl
    have hzero : step (.hex s 4 0) '0' = some (.hex s 3 0, []) := rfl
    have hzero' : step (.hex s 3 0) '0' = some (.hex s 2 0, []) := rfl
    have hhigh : step (.hex s 2 0) (hexDigit (c.toNat / 16)) =
        some (.hex s 1 (16 * 0 + c.toNat / 16), []) := by
      simp only [step, hexValue_hexDigit _ (by omega : c.toNat / 16 < 16)]
    have hvalue : 16 * (16 * 0 + c.toNat / 16) + c.toNat % 16 = c.toNat := by omega
    have hlow : step (.hex s 1 (16 * 0 + c.toNat / 16)) (hexDigit (c.toNat % 16)) =
        some (.str (s ++ [c]), []) := by
      simp only [step, hexValue_hexDigit _ (Nat.mod_lt _ (by decide) : c.toNat % 16 < 16), hvalue]
      have hvalid : c.toNat.isValidChar := c.valid
      rw [if_pos hvalid, Char.ofNat_toNat]
    simp only [scan, hback, hu, hzero, hzero', hhigh, hlow, Option.bind_some, Option.map_some]
    rfl

theorem scan_escapeChar (s : Text) (c : Char) :
    scan (.str s) (escapeChar c) = some (.str (s ++ [c]), []) := by
  by_cases hspecial : c = quotationMark ∨ c = backslash
  · rcases hspecial with rfl | rfl
    · rfl
    · rfl
  · by_cases hcontrol : c.toNat < 32
    · exact scan_escape_control s hcontrol
    · rw [not_or] at hspecial
      have hplain : escapeChar c = [c] := by
        simp [escapeChar, hspecial, Nat.le_of_not_lt hcontrol]
      rw [hplain]
      simp [scan, step, hspecial, hcontrol]

theorem scan_escaped (s t : Text) :
    scan (.str s) (t.flatMap escapeChar) = some (.str (s ++ t), []) := by
  induction t generalizing s with
  | nil => simp [scan]
  | cons c t ih =>
    rw [List.flatMap_cons, scan_append, scan_escapeChar]
    simp [ih]

theorem tokens_stringText (s : Text) : tokens (stringText s) = some [.str s] := by
  unfold tokens stringText
  rw [← List.singleton_append, ← List.append_assoc, scan_append, scan_append]
  have hopen : scan .outside [quotationMark] = some (.str [], []) := rfl
  have hclose : ∀ t, scan (.str t) [quotationMark] = some (.outside, [.str t]) := fun _ => rfl
  rw [hopen]
  simp only [Option.bind_some, scan_escaped, Option.map_some, hclose]
  rfl

/-! ## Numbers and names -/

theorem scan_atom (s t : Text) (h : ∀ c ∈ t, isAtomChar c = true) :
    scan (.atom s) t = some (.atom (s ++ t), []) := by
  induction t generalizing s with
  | nil => simp [scan]
  | cons c t ih =>
    have hc := h c (by simp)
    simp only [scan, step, hc, if_true, Option.bind_some]
    rw [ih _ fun c' hc' => h c' (List.mem_cons_of_mem _ hc')]
    simp

theorem tokens_atom {s : Text} (hne : s ≠ []) (h : ∀ c ∈ s, isAtomChar c = true) :
    tokens s = some [.atom s] := by
  cases s with
  | nil => exact absurd rfl hne
  | cons c t =>
    have hc := h c (by simp)
    have hquote : c ≠ quotationMark := by
      rintro rfl
      exact absurd hc (by decide)
    have ht : ∀ c' ∈ t, isAtomChar c' = true := fun c' hc' => h c' (List.mem_cons_of_mem _ hc')
    simp only [tokens, scan, step, start, if_neg hquote, hc, if_true, Option.bind_some,
      scan_atom [c] t ht, Option.map_some, List.nil_append, Mode.pending]
    rfl

/-! ## Arrays and objects -/

/-- The text of an array; `ws` stands behind every comma. -/
def arrayText (ws : Text) (items : List Text) : Text :=
  '[' :: ((',' :: ws).intercalate items ++ [']'])

/-- The text of an object, from names and texts of values. -/
def objectText (members : List (Text × Text)) : Text :=
  openBrace :: ([','].intercalate (members.map fun m => stringText m.1 ++ ':' :: m.2) ++
    [closeBrace])

theorem tokens_intercalate {ws : Text} (hws : ∀ c ∈ ws, isWhitespace c = true) {items : List Text}
    {tss : List (List Token)} (h : List.Forall₂ (fun x ts => tokens x = some ts) items tss) :
    tokens ((',' :: ws).intercalate items) = some ([Token.comma].intercalate tss) := by
  induction h with
  | nil => rfl
  | @cons x ts items tss hx hrest ih =>
    -- a last item stands alone, any other one in front of a comma
    cases hrest with
    | nil => simpa [List.intercalate] using hx
    | @cons y us items tss hy hrest =>
      have hsplit : (',' :: ws).intercalate (x :: y :: items) =
          x ++ ',' :: (ws ++ (',' :: ws).intercalate (y :: items)) := by
        simp [List.intercalate]
      have hcomma : delimiter ',' = some [.comma] := rfl
      rw [hsplit, tokens_delimiter hx hcomma, tokens_whitespace hws, ih]
      simp [List.intercalate]

/-- The tokens of an array, from the tokens of its elements. -/
def arrayTokens (items : List (List Token)) : List Token :=
  .openArray :: ([Token.comma].intercalate items ++ [.closeArray])

theorem tokens_arrayText {ws : Text} (hws : ∀ c ∈ ws, isWhitespace c = true) {items : List Text}
    {tss : List (List Token)} (h : List.Forall₂ (fun x ts => tokens x = some ts) items tss) :
    tokens (arrayText ws items) = some (arrayTokens tss) := by
  have hopen := tokens_delimiter (b := (',' :: ws).intercalate items ++ [']']) tokens_nil
    (rfl : delimiter '[' = some [.openArray])
  have hclose := tokens_delimiter (b := []) (tokens_intercalate hws h)
    (rfl : delimiter ']' = some [.closeArray])
  rw [List.nil_append] at hopen
  rw [arrayText, hopen, hclose, tokens_nil]
  rfl

/-- The tokens of an object, from names and tokens of values. -/
def objectTokens (members : List (Text × List Token)) : List Token :=
  .openObject :: ([Token.comma].intercalate (members.map fun m => .str m.1 :: .colon :: m.2) ++
    [.closeObject])

theorem tokens_objectText {members : List (Text × Text)} {ms : List (Text × List Token)}
    (h : List.Forall₂ (fun m n => m.1 = n.1 ∧ tokens m.2 = some n.2) members ms) :
    tokens (objectText members) = some (objectTokens ms) := by
  have hmembers : List.Forall₂ (fun x ts => tokens x = some ts)
      (members.map fun m => stringText m.1 ++ ':' :: m.2)
      (ms.map fun m => .str m.1 :: .colon :: m.2) := by
    rw [List.forall₂_map_left_iff, List.forall₂_map_right_iff]
    apply h.imp
    rintro m n ⟨hname, hvalue⟩
    have hcolon : delimiter ':' = some [.colon] := rfl
    rw [tokens_delimiter (tokens_stringText m.1) hcolon, hvalue, hname]
    rfl
  have hopen := tokens_delimiter
    (b := [','].intercalate (members.map fun m => stringText m.1 ++ ':' :: m.2) ++ [closeBrace])
    tokens_nil (rfl : delimiter openBrace = some [.openObject])
  have hitems :
      tokens ([','].intercalate (members.map fun m => stringText m.1 ++ ':' :: m.2)) = _ :=
    tokens_intercalate (by simp) hmembers
  have hclose := tokens_delimiter (b := []) hitems
    (rfl : delimiter closeBrace = some [.closeObject])
  rw [List.nil_append] at hopen
  rw [objectText, hopen, hclose, tokens_nil]
  rfl

end PetProject.Foundation.JsonText
