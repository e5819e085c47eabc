import PetProject.Foundation.JsonTokens

/-!
# JSON documents

`parse` builds the value of a text from its tokens, with a stack of the arrays and objects that are
open. The tokens of a value are read as that value in front of any tokens and under any stack
(`Denotes`), so what is known of the parts of an array or object is known of the whole
(`denotes_array`, `denotes_object`), and the printed texts are parsed back (`represents_array`,
`represents_object`, `parse_of_represents`).

Two documents are the same when every path leads to the same in both: the order of the members of an
object does not matter.
-/

set_option autoImplicit false

namespace PetProject.Foundation.JsonText

open PetProject.Foundation.TextSearch

inductive Json where
  /-- A number as it is written, `true`, `false` or `null`. -/
  | atom (s : Text)
  | str (s : Text)
  | arr (items : List Json)
  | obj (members : List (Text × Json))

/-! ## Numbers -/

/-- At least one digit and nothing else. -/
def isDigits (s : Text) : Bool := s ≠ [] && s.all Char.isDigit

/-- `0`, or digits of which the first one is not `0`. -/
def isInteger (s : Text) : Bool := isDigits s && (s = ['0'] || s.head? ≠ some '0')

def isExponent : Text → Bool
  | [] => true
  | e :: s =>
      (e = 'e' || e = 'E') &&
        match s with
        | '+' :: ds | '-' :: ds => isDigits ds
        | ds => isDigits ds

def isFraction : Text → Bool
  | '.' :: s => isDigits (s.takeWhile Char.isDigit) && isExponent (s.dropWhile Char.isDigit)
  | s => isExponent s

def isUnsigned (s : Text) : Bool :=
  isInteger (s.takeWhile Char.isDigit) && isFraction (s.dropWhile Char.isDigit)

def isNumber : Text → Bool
  | '-' :: s => isUnsigned s
  | s => isUnsigned s

/-- The atoms that a document may hold. -/
def isAtom (s : Text) : Bool :=
  s = "null".toList || s = "true".toList || s = "false".toList || isNumber s

/-! ## The parser -/

/-- An array or object that is open; an object waits for the value of a name. -/
inductive Frame where
  | arr (items : List Json)
  | obj (members : List (Text × Json)) (name : Text)

inductive Control where
  /-- A value has to follow. -/
  | value (stack : List Frame)
  /-- Behind `[`. -/
  | firstItem (stack : List Frame)
  /-- Behind the opening brace of an object. -/
  | firstName (stack : List Frame)
  /-- A name has to follow. -/
  | name (members : List (Text × Json)) (stack : List Frame)
  | colon (members : List (Text × Json)) (name : Text) (stack : List Frame)
  /-- A value is complete. -/
  | after (j : Json) (stack : List Frame)

/-- The first token of a value. -/
def stepValue (stack : List Frame) : Token → Option Control
  | .str s => some (.after (.str s) stack)
  | .atom s => if isAtom s then some (.after (.atom s) stack) else none
  | .openArray => some (.firstItem stack)
  | .openObject => some (.firstName stack)
  | _ => none

def Control.step : Control → Token → Option Control
  | .value stack, t => stepValue stack t
  | .firstItem stack, .closeArray => some (.after (.arr []) stack)
  | .firstItem stack, t => stepValue (.arr [] :: stack) t
  | .firstName stack, .closeObject => some (.after (.obj []) stack)
  | .firstName stack, .str k => some (.colon [] k stack)
  | .name members stack, .str k => some (.colon members k stack)
  | .colon members k stack, .colon => some (.value (.obj members k :: stack))
  | .after j (.arr items :: stack), .comma => some (.value (.arr (items ++ [j]) :: stack))
  | .after j (.arr items :: stack), .closeArray => some (.after (.arr (items ++ [j])) stack)
  | .after j (.obj members k :: stack), .comma => some (.name (members ++ [(k, j)]) stack)
  | .after j (.obj members k :: stack), .closeObject =>
      some (.after (.obj (members ++ [(k, j)])) stack)
  | _, _ => none

def Control.run : Control → List Token → Option Control
  | c, [] => some c
  | c, t :: ts => (c.step t).bind fun c' => c'.run ts

def parseTokens (ts : List Token) : Option Json :=
  match (Control.value []).run ts with
  | some (.after j []) => some j
  | _ => none

/-- The value of a text; `none` for a text that is not a document. -/
def parse (text : Text) : Option Json := (tokens text).bind parseTokens

/-! ## Tokens that denote a value -/

/-- The tokens are read as the value, whatever is open and whatever follows. -/
structure Denotes (ts : List Token) (j : Json) : Prop where
  starts : ts.head? ≠ some .closeArray ∧ ts ≠ []
  reads : ∀ stack rest, (Control.value stack).run (ts ++ rest) = (Control.after j stack).run rest

theorem denotes_str (s : Text) : Denotes [.str s] (.str s) where
  starts := by simp
  reads _ _ := rfl

theorem denotes_atom {s : Text} (h : isAtom s = true) : Denotes [.atom s] (.atom s) where
  starts := by simp
  reads stack rest := by simp [Control.run, Control.step, stepValue, h]

/-- The first item of an array is read like any other. -/
theorem Denotes.reads_first {ts : List Token} {j : Json} (h : Denotes ts j) (stack : List Frame)
    (rest : List Token) :
    (Control.firstItem stack).run (ts ++ rest) =
      (Control.after j (.arr [] :: stack)).run rest := by
  rw [← h.reads]
  obtain ⟨hclose, hne⟩ := h.starts
  cases ts with
  | nil => exact absurd rfl hne
  | cons t ts =>
    have hstep : (Control.firstItem stack).step t = (Control.value (.arr [] :: stack)).step t := by
      cases t with
      | closeArray => exact absurd rfl hclose
      | _ => rfl
    simp only [List.cons_append, Control.run, hstep]

theorem intercalate_cons {α : Type} (c : α) (x : List α) (xs : List (List α)) :
    [c].intercalate (x :: xs) = x ++ xs.flatMap (c :: ·) := by
  induction xs generalizing x with
  | nil => simp [List.intercalate]
  | cons y ys ih =>
    have hsplit : [c].intercalate (x :: y :: ys) = x ++ c :: [c].intercalate (y :: ys) := by
      simp [List.intercalate]
    rw [hsplit, ih, List.flatMap_cons]
    rfl

/-- The items of an array behind a complete one. -/
theorem run_items {tss : List (List Token)} {js : List Json} (h : List.Forall₂ Denotes tss js)
    (j : Json) (items : List Json) (stack : List Frame) (rest : List Token) :
    (Control.after j (.arr items :: stack)).run
        (tss.flatMap (.comma :: ·) ++ .closeArray :: rest) =
      (Control.after (.arr (items ++ j :: js)) stack).run rest := by
  -- on the items that follow, with those before them on the stack
  induction h generalizing j items with
  | nil => rfl
  | @cons ts j' tss js hnext _ ih =>
    have hmore := ih j' (items ++ [j])
    rw [List.append_assoc, List.singleton_append] at hmore
    rw [List.flatMap_cons, List.append_assoc, ← hmore]
    exact hnext.reads (.arr (items ++ [j]) :: stack) _

theorem denotes_array {tss : List (List Token)} {js : List Json}
    (h : List.Forall₂ Denotes tss js) : Denotes (arrayTokens tss) (.arr js) := by
  refine ⟨by simp [arrayTokens], fun stack rest => ?_⟩
  cases h with
  | nil => rfl
  | @cons ts j tss js hfirst hrest =>
    have hitems := run_items hrest j [] stack rest
    rw [List.nil_append] at hitems
    unfold arrayTokens
    rw [intercalate_cons, List.append_assoc, List.cons_append, List.append_assoc,
      List.append_assoc, ← hitems, ← hfirst.reads_first]
    rfl

/-- The members of an object behind a complete one. -/
theorem run_members {ms : List (Text × List Token)} {ns : List (Text × Json)}
    (h : List.Forall₂ (fun m n => m.1 = n.1 ∧ Denotes m.2 n.2) ms ns) (k : Text) (j : Json)
    (members : List (Text × Json)) (stack : List Frame) (rest : List Token) :
    (Control.after j (.obj members k :: stack)).run
        ((ms.map fun m => Token.str m.1 :: .colon :: m.2).flatMap (.comma :: ·) ++
          .closeObject :: rest) =
      (Control.after (.obj (members ++ (k, j) :: ns)) stack).run rest := by
  induction h generalizing k j members with
  | nil => rfl
  | @cons m n ms ns hnext _ ih =>
    obtain ⟨hname, hvalue⟩ := hnext
    have hmore := ih n.1 n.2 (members ++ [(k, j)])
    rw [List.append_assoc, List.singleton_append] at hmore
    rw [List.map_cons, List.flatMap_cons, List.append_assoc, ← hmore, hname]
    exact hvalue.reads (.obj (members ++ [(k, j)]) n.1 :: stack) _

theorem denotes_object {ms : List (Text × List Token)} {ns : List (Text × Json)}
    (h : List.Forall₂ (fun m n => m.1 = n.1 ∧ Denotes m.2 n.2) ms ns) :
    Denotes (objectTokens ms) (.obj ns) := by
  refine ⟨by simp [objectTokens], fun stack rest => ?_⟩
  cases h with
  | nil => rfl
  | @cons m n ms ns hfirst hrest =>
    obtain ⟨hname, hvalue⟩ := hfirst
    have hmembers := run_members hrest n.1 n.2 [] stack rest
    rw [List.nil_append] at hmembers
    unfold objectTokens
    rw [List.map_cons, intercalate_cons, List.append_assoc, List.cons_append, List.append_assoc,
      List.append_assoc, ← hmembers, hname, ← hvalue.reads (.obj [] n.1 :: stack)]
    rfl

/-! ## Texts that represent a value -/

/-- The text consists of tokens that denote the value. -/
def Represents (text : Text) (j : Json) : Prop := ∃ ts, tokens text = some ts ∧ Denotes ts j

/-- A text that represents a value is parsed to it. -/
theorem parse_of_represents {text : Text} {j : Json} (h : Represents text j) :
    parse text = some j := by
  obtain ⟨ts, htokens, hdenotes⟩ := h
  have hrun := hdenotes.reads [] []
  rw [List.append_nil] at hrun
  unfold parse
  rw [htokens, Option.bind_some, parseTokens, hrun]
  rfl

theorem represents_string (s : Text) : Represents (stringText s) (.str s) :=
  ⟨[.str s], tokens_stringText s, denotes_str s⟩

theorem represents_atom {s : Text} (hne : s ≠ []) (hchars : ∀ c ∈ s, isAtomChar c = true)
    (h : isAtom s = true) : Represents s (.atom s) :=
  ⟨[.atom s], tokens_atom hne hchars, denotes_atom h⟩

theorem represents_array {ws : Text} (hws : ∀ c ∈ ws, isWhitespace c = true) {items : List Text}
    {js : List Json} (h : List.Forall₂ Represents items js) :
    Represents (arrayText ws items) (.arr js) := by
  obtain ⟨tss, htokens, hdenotes⟩ : ∃ tss,
      List.Forall₂ (fun x ts => tokens x = some ts) items tss ∧ List.Forall₂ Denotes tss js := by
    induction h with
    | nil => exact ⟨[], List.Forall₂.nil, List.Forall₂.nil⟩
    | cons hx _ ih =>
      obtain ⟨ts, hts, hden⟩ := hx
      obtain ⟨tss, htss, hdens⟩ := ih
      exact ⟨ts :: tss, List.Forall₂.cons hts htss, List.Forall₂.cons hden hdens⟩
  exact ⟨arrayTokens tss, tokens_arrayText hws htokens, denotes_array hdenotes⟩

theorem represents_object {members : List (Text × Text)} {ns : List (Text × Json)}
    (h : List.Forall₂ (fun m n => m.1 = n.1 ∧ Represents m.2 n.2) members ns) :
    Represents (objectText members) (.obj ns) := by
  obtain ⟨ms, htokens, hdenotes⟩ : ∃ ms : List (Text × List Token),
      List.Forall₂ (fun m n => m.1 = n.1 ∧ tokens m.2 = some n.2) members ms ∧
        List.Forall₂ (fun m n => m.1 = n.1 ∧ Denotes m.2 n.2) ms ns := by
    induction h with
    | nil => exact ⟨[], List.Forall₂.nil, List.Forall₂.nil⟩
    | @cons m n _ _ hm _ ih =>
      obtain ⟨hname, ts, hts, hden⟩ := hm
      obtain ⟨ms, hms, hdens⟩ := ih
      exact ⟨(n.1, ts) :: ms, List.Forall₂.cons ⟨hname, hts⟩ hms,
        List.Forall₂.cons ⟨rfl, hden⟩ hdens⟩
  exact ⟨objectTokens ms, tokens_objectText htokens, denotes_object hdenotes⟩

/-! ## Numbers in decimal notation -/

theorem toDigits_all_isDigit (n : Nat) : ∀ c ∈ Nat.toDigits 10 n, c.isDigit = true := by
  intro c hc
  exact Nat.isDigit_of_mem_toDigits (by decide) (by decide) hc

/-- The first digit of a positive number is not `0`. -/
theorem head_toDigits {n : Nat} (h : 0 < n) : (Nat.toDigits 10 n).head? ≠ some '0' := by
  induction n using Nat.strongRecOn with
  | ind n ih =>
    by_cases hsmall : n < 10
    · have hdigits : ∀ m < 10, 0 < m → m.digitChar ≠ '0' := by decide
      rw [Nat.toDigits_of_lt_base hsmall]
      simpa using hdigits n hsmall h
    · -- the first digit is that of the quotient
      have hlead := ih (n / 10) (by omega) (by omega)
      rw [Nat.toDigits_of_base_le (by decide) (by omega),
        List.head?_append_of_ne_nil _ Nat.toDigits_ne_nil]
      exact hlead

theorem isNumber_toDigits (n : Nat) : isNumber (Nat.toDigits 10 n) = true := by
  have hdigits := toDigits_all_isDigit n
  have htake : (Nat.toDigits 10 n).takeWhile Char.isDigit = Nat.toDigits 10 n :=
    List.takeWhile_eq_self_iff.mpr hdigits
  have hdrop : (Nat.toDigits 10 n).dropWhile Char.isDigit = [] :=
    List.dropWhile_eq_nil_iff.mpr hdigits
  have hinteger : isInteger (Nat.toDigits 10 n) = true := by
    have hlead : Nat.toDigits 10 n = ['0'] ∨ (Nat.toDigits 10 n).head? ≠ some '0' := by
      rcases Nat.eq_zero_or_pos n with rfl | hpos
      · exact Or.inl rfl
      · exact Or.inr (head_toDigits hpos)
    have hall : (Nat.toDigits 10 n).all Char.isDigit = true := List.all_eq_true.mpr hdigits
    unfold isInteger isDigits
    rw [hall]
    simpa [Nat.toDigits_ne_nil] using hlead
  have hunsigned : isUnsigned (Nat.toDigits 10 n) = true := by
    unfold isUnsigned
    rw [htake, hdrop, hinteger]
    rfl
  unfold isNumber
  split
  · rename_i ds hminus
    -- a digit is no minus sign
    exact absurd (hdigits '-' (by simp [hminus])) (by decide)
  · exact hunsigned

theorem represents_decimal (n : Nat) :
    Represents (Nat.toDigits 10 n) (.atom (Nat.toDigits 10 n)) := by
  apply represents_atom Nat.toDigits_ne_nil
  · intro c hc
    have hdigit : c.isDigit = true := toDigits_all_isDigit n c hc
    simp [isAtomChar, Char.isAlphanum, hdigit]
  · unfold isAtom
    rw [isNumber_toDigits, Bool.or_true]

/-! ## The same document -/

inductive PathStep where
  | index (i : Nat)
  | name (k : Text)

/-- What a path leads to; of members with one name the first counts. -/
def Json.get? : Json → List PathStep → Option Json
  | j, [] => some j
  | .arr items, .index i :: path => items[i]?.bind fun j => j.get? path
  | .obj members, .name k :: path =>
      (members.find? fun m => m.1 = k).bind fun m => m.2.get? path
  | _, _ => none

/-- What a value is, apart from its parts. -/
inductive Kind where
  | atom (s : Text)
  | str (s : Text)
  | arr (length : Nat)
  | obj
  deriving DecidableEq

def Json.kind : Json → Kind
  | .atom s => .atom s
  | .str s => .str s
  | .arr items => .arr items.length
  | .obj _ => .obj

/-- Every path leads to values of one kind, or nowhere in both. -/
def Json.Same (j j' : Json) : Prop :=
  ∀ path, (j.get? path).map Json.kind = (j'.get? path).map Json.kind

/-- Two texts are the same document, whatever their white space, escapes and order of members. -/
def SameDocument (a b : Text) : Prop :=
  ∃ j j', parse a = some j ∧ parse b = some j' ∧ j.Same j'

theorem sameDocument_iff {a b : Text} {j j' : Json} (ha : parse a = some j)
    (hb : parse b = some j') : SameDocument a b ↔ j.Same j' := by
  constructor
  · rintro ⟨i, i', hi, hi', hsame⟩
    rw [ha] at hi
    rw [hb] at hi'
    cases hi
    cases hi'
    exact hsame
  · intro hsame
    exact ⟨j, j', ha, hb, hsame⟩

end PetProject.Foundation.JsonText
