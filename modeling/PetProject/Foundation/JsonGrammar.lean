import Mathlib.Data.List.Basic
import PetProject.Foundation.JsonTokens

/-!
# The grammar of JSON

A JSON text as bytes: a value as its tokens, with white space in front of any of them. The grammar
is that of the JSON standard but for one parameter: which values may be the label of an object
member.

A function of values is an `Algebra`, and `Value.fold` runs it over a value with its parts. `tokens`
and `depth` are such functions.
-/

set_option autoImplicit false

namespace PetProject.Foundation.JsonGrammar

open PetProject.Foundation.JsonText

universe u

/-! ## Characters -/

def isSpace (c : UInt8) : Bool := c = 0x20 || c = 0x09 || c = 0x0a || c = 0x0d

def isDigit (c : UInt8) : Bool := '0'.toUInt8 ≤ c && c ≤ '9'.toUInt8

def isHexDigit (c : UInt8) : Bool :=
  isDigit c || ('a'.toUInt8 ≤ c && c ≤ 'f'.toUInt8) || ('A'.toUInt8 ≤ c && c ≤ 'F'.toUInt8)

def isLetter (c : UInt8) : Bool :=
  ('a'.toUInt8 ≤ c && c ≤ 'z'.toUInt8) || ('A'.toUInt8 ≤ c && c ≤ 'Z'.toUInt8)

def AllSpace (z : List UInt8) : Prop := ∀ c ∈ z, isSpace c = true

def AllDigits (z : List UInt8) : Prop := ∀ c ∈ z, isDigit c = true

/-- A byte that may follow a value: it continues no number and no name. -/
def Ends (c : UInt8) : Prop :=
  isDigit c = false ∧ isLetter c = false ∧ c ≠ '.'.toUInt8

/-! ## Numbers -/

/-- `0`, or digits without a leading zero. -/
inductive IsInt : List UInt8 → Prop
  | zero : IsInt ['0'.toUInt8]
  | digits {d : UInt8} {ds : List UInt8} (hd : isDigit d = true) (hzero : d ≠ '0'.toUInt8)
      (hds : AllDigits ds) : IsInt (d :: ds)

inductive IsFrac : List UInt8 → Prop
  | none : IsFrac []
  | point {ds : List UInt8} (hne : ds ≠ []) (hds : AllDigits ds) : IsFrac ('.'.toUInt8 :: ds)

inductive IsExp : List UInt8 → Prop
  | none : IsExp []
  | digits {e : UInt8} {ds : List UInt8} (he : e = 'e'.toUInt8 ∨ e = 'E'.toUInt8) (hne : ds ≠ [])
      (hds : AllDigits ds) : IsExp (e :: ds)
  | signed {e s : UInt8} {ds : List UInt8} (he : e = 'e'.toUInt8 ∨ e = 'E'.toUInt8)
      (hs : s = '+'.toUInt8 ∨ s = '-'.toUInt8) (hne : ds ≠ []) (hds : AllDigits ds) :
      IsExp (e :: s :: ds)

/-- A number without a sign. -/
def IsUnsigned (z : List UInt8) : Prop :=
  ∃ int frac exp, IsInt int ∧ IsFrac frac ∧ IsExp exp ∧ z = int ++ (frac ++ exp)

inductive IsNumber : List UInt8 → Prop
  | unsigned {z : List UInt8} (h : IsUnsigned z) : IsNumber z
  | minus {z : List UInt8} (h : IsUnsigned z) : IsNumber ('-'.toUInt8 :: z)

theorem IsNumber.ne_nil {z : List UInt8} (h : IsNumber z) : z ≠ [] := by
  cases h with
  | unsigned h =>
    obtain ⟨int, frac, exp, hint, -, -, rfl⟩ := h
    cases hint <;> exact List.cons_ne_nil _ _
  | minus _ => exact List.cons_ne_nil _ _

/-- A number that is no integer as it is written. -/
def isReal (z : List UInt8) : Bool :=
  z.any fun c => c = '.'.toUInt8 || c = 'e'.toUInt8 || c = 'E'.toUInt8

/-! ## Strings -/

/-- The letters of the escapes of two characters. -/
def escapeLetters : List UInt8 :=
  [quotationMark.toUInt8, backslash.toUInt8, '/'.toUInt8, 'b'.toUInt8, 'f'.toUInt8, 'n'.toUInt8,
    'r'.toUInt8, 't'.toUInt8]

/-- A byte that stands for itself in a string. -/
def isUnescaped (c : UInt8) : Bool :=
  0x20 ≤ c && c ≠ quotationMark.toUInt8 && c ≠ backslash.toUInt8

/-- What stands between the quotation marks. -/
inductive Chars : List UInt8 → Prop
  | nil : Chars []
  | plain {c : UInt8} {s : List UInt8} (hc : isUnescaped c = true) (hs : Chars s) : Chars (c :: s)
  | escape {c : UInt8} {s : List UInt8} (hc : c ∈ escapeLetters) (hs : Chars s) :
      Chars (backslash.toUInt8 :: c :: s)
  | unicode {h₁ h₂ h₃ h₄ : UInt8} {s : List UInt8} (hhex : [h₁, h₂, h₃, h₄].all isHexDigit = true)
      (hs : Chars s) : Chars (backslash.toUInt8 :: 'u'.toUInt8 :: h₁ :: h₂ :: h₃ :: h₄ :: s)

/-! ## Values -/

/-- A number and a string are the bytes that the text has for them. -/
inductive Value where
  | null
  | bool (b : Bool)
  | number (z : List UInt8)
  | string (s : List UInt8)
  | array (items : List Value)
  | object (members : List (Value × Value))

structure Algebra (β : Type u) where
  null : β
  bool : Bool → β
  number : List UInt8 → β
  string : List UInt8 → β
  array : List β → β
  object : List (β × β) → β

section Fold

variable {β : Type u} (A : Algebra β)

mutual

def Value.fold : Value → β
  | .null => A.null
  | .bool b => A.bool b
  | .number z => A.number z
  | .string s => A.string s
  | .array items => A.array (foldItems items)
  | .object members => A.object (foldMembers members)

def foldItems : List Value → List β
  | [] => []
  | v :: vs => v.fold :: foldItems vs

def foldMembers : List (Value × Value) → List (β × β)
  | [] => []
  | (l, v) :: ms => (l.fold, v.fold) :: foldMembers ms

end

theorem foldItems_eq (items : List Value) : foldItems A items = items.map (Value.fold A) := by
  induction items with
  | nil => rfl
  | cons v vs ih => rw [foldItems, ih, List.map_cons]

theorem foldMembers_eq (members : List (Value × Value)) :
    foldMembers A members = members.map (Prod.map (Value.fold A) (Value.fold A)) := by
  induction members with
  | nil => rfl
  | cons m ms ih => rw [foldMembers, ih, List.map_cons]; rfl

theorem fold_array (items : List Value) :
    (Value.array items).fold A = A.array (items.map (Value.fold A)) := by
  rw [Value.fold, foldItems_eq]

theorem fold_object (members : List (Value × Value)) :
    (Value.object members).fold A =
      A.object (members.map (Prod.map (Value.fold A) (Value.fold A))) := by
  rw [Value.fold, foldMembers_eq]

end Fold

/-! ## Texts -/

abbrev Tokens := List (List UInt8)

def mark (c : Char) : Tokens := [[c.toUInt8]]

/-- The parts with a comma between two of them. -/
def commaSeparated : List Tokens → Tokens
  | [] => []
  | [x] => x
  | x :: y :: xs => x ++ (mark ',' ++ commaSeparated (y :: xs))

theorem commaSeparated_cons {xs : List Tokens} (hne : xs ≠ []) (x : Tokens) :
    commaSeparated (x :: xs) = x ++ (mark ',' ++ commaSeparated xs) := by
  cases xs with
  | nil => exact absurd rfl hne
  | cons y xs => rfl

def stringToken (s : List UInt8) : List UInt8 :=
  quotationMark.toUInt8 :: (s ++ [quotationMark.toUInt8])

def nullToken : List UInt8 := ['n'.toUInt8, 'u'.toUInt8, 'l'.toUInt8, 'l'.toUInt8]

def trueToken : List UInt8 := ['t'.toUInt8, 'r'.toUInt8, 'u'.toUInt8, 'e'.toUInt8]

def falseToken : List UInt8 := ['f'.toUInt8, 'a'.toUInt8, 'l'.toUInt8, 's'.toUInt8, 'e'.toUInt8]

def memberTokens (m : Tokens × Tokens) : Tokens := m.1 ++ (mark ':' ++ m.2)

def tokensAlgebra : Algebra Tokens where
  null := [nullToken]
  bool b := [if b then trueToken else falseToken]
  number z := [z]
  string s := [stringToken s]
  array items := mark '[' ++ (commaSeparated items ++ mark ']')
  object members :=
    mark openBrace ++ (commaSeparated (members.map memberTokens) ++ mark closeBrace)

def Value.tokens (v : Value) : Tokens := v.fold tokensAlgebra

theorem tokens_array (items : List Value) :
    (Value.array items).tokens =
      mark '[' ++ (commaSeparated (items.map Value.tokens) ++ mark ']') :=
  fold_array tokensAlgebra items

/-- A member is its label, a colon and its value. -/
def tokensOfMember (m : Value × Value) : Tokens := m.1.tokens ++ (mark ':' ++ m.2.tokens)

theorem tokens_object (members : List (Value × Value)) :
    (Value.object members).tokens =
      mark openBrace ++ (commaSeparated (members.map tokensOfMember) ++ mark closeBrace) := by
  refine (fold_object tokensAlgebra members).trans ?_
  change mark openBrace ++ (commaSeparated (List.map memberTokens (List.map _ members)) ++ _) = _
  rw [List.map_map]
  rfl

/-- How deep arrays and objects are nested. -/
def depthAlgebra : Algebra Nat where
  null := 0
  bool _ := 0
  number _ := 0
  string _ := 0
  array items := 1 + items.foldr max 0
  object members := 1 + (members.map fun m => max m.1 m.2).foldr max 0

def Value.depth (v : Value) : Nat := v.fold depthAlgebra

theorem foldr_max_le {ns : List Nat} {d : Nat} : ns.foldr max 0 ≤ d ↔ ∀ n ∈ ns, n ≤ d := by
  induction ns with
  | nil => simp
  | cons n ns ih => rw [List.foldr_cons, Nat.max_le, ih, List.forall_mem_cons]

theorem depth_array_le {items : List Value} {d : Nat} :
    (Value.array items).depth ≤ d + 1 ↔ ∀ v ∈ items, v.depth ≤ d := by
  have hfold : (Value.array items).depth = 1 + (items.map Value.depth).foldr max 0 :=
    fold_array depthAlgebra items
  rw [hfold, Nat.add_comm, Nat.add_le_add_iff_right, foldr_max_le, List.forall_mem_map]

theorem depth_object_le {members : List (Value × Value)} {d : Nat} :
    (Value.object members).depth ≤ d + 1 ↔ ∀ m ∈ members, m.1.depth ≤ d ∧ m.2.depth ≤ d := by
  have hfold : (Value.object members).depth =
      1 + (members.map fun m => max m.1.depth m.2.depth).foldr max 0 := by
    refine (fold_object depthAlgebra members).trans ?_
    change 1 + (List.map _ (List.map _ members)).foldr max 0 = _
    rw [List.map_map]
    rfl
  rw [hfold, Nat.add_comm, Nat.add_le_add_iff_right, foldr_max_le, List.forall_mem_map]
  simp only [Nat.max_le]

theorem depth_array_pos (items : List Value) : 1 ≤ (Value.array items).depth := by
  rw [Value.depth, fold_array]
  exact Nat.le_add_right _ _

theorem depth_object_pos (members : List (Value × Value)) : 1 ≤ (Value.object members).depth := by
  rw [Value.depth, fold_object]
  exact Nat.le_add_right _ _

/-! ### White space -/

/-- The tokens, each behind white space. -/
inductive Spaced : Tokens → List UInt8 → Prop
  | nil : Spaced [] []
  | cons {t : List UInt8} {ts : Tokens} {ws z : List UInt8} (hws : AllSpace ws) (h : Spaced ts z) :
      Spaced (t :: ts) (ws ++ (t ++ z))

theorem Spaced.append {ts us : Tokens} {x y : List UInt8} (hx : Spaced ts x) (hy : Spaced us y) :
    Spaced (ts ++ us) (x ++ y) := by
  induction hx with
  | nil => exact hy
  | cons hws _ ih =>
    rw [List.append_assoc, List.append_assoc]
    exact Spaced.cons hws ih

theorem Spaced.split {ts us : Tokens} {z : List UInt8} (h : Spaced (ts ++ us) z) :
    ∃ x y, z = x ++ y ∧ Spaced ts x ∧ Spaced us y := by
  induction ts generalizing z with
  | nil => exact ⟨[], z, rfl, Spaced.nil, h⟩
  | cons t ts ih =>
    cases h with
    | @cons _ _ ws z' hws h =>
      obtain ⟨x, y, rfl, hx, hy⟩ := ih h
      exact ⟨ws ++ (t ++ x), y, by simp only [List.append_assoc], Spaced.cons hws hx, hy⟩

theorem Spaced.singleton {t z : List UInt8} (h : Spaced [t] z) :
    ∃ ws, AllSpace ws ∧ z = ws ++ t := by
  cases h with
  | @cons _ _ ws _ hws h =>
    cases h
    exact ⟨ws, hws, by rw [List.append_nil]⟩

theorem Spaced.one {t ws : List UInt8} (hws : AllSpace ws) : Spaced [t] (ws ++ t) := by
  have h : Spaced [t] (ws ++ (t ++ [])) := Spaced.cons hws Spaced.nil
  rwa [List.append_nil] at h

/-! ### Documents -/

/-- The numbers and the strings are well formed, and the labels are values that may be labels. -/
inductive Proper (ok : Value → Prop) : Value → Prop
  | null : Proper ok .null
  | bool (b : Bool) : Proper ok (.bool b)
  | number {z : List UInt8} (h : IsNumber z) : Proper ok (.number z)
  | string {s : List UInt8} (h : Chars s) : Proper ok (.string s)
  | array {items : List Value} (h : ∀ v ∈ items, Proper ok v) : Proper ok (.array items)
  | object {members : List (Value × Value)} (hlabel : ∀ m ∈ members, Proper ok m.1)
      (hok : ∀ m ∈ members, ok m.1) (hvalue : ∀ m ∈ members, Proper ok m.2) :
      Proper ok (.object members)

/-- The text is one value, and white space around and within it. -/
def Document (ok : Value → Prop) (v : Value) (z : List UInt8) : Prop :=
  Proper ok v ∧ ∃ body ws, z = body ++ ws ∧ Spaced v.tokens body ∧ AllSpace ws

/-- The labels of the standard. -/
def IsString (v : Value) : Prop := ∃ s, v = .string s

theorem Proper.mono {ok ok' : Value → Prop} (hok : ∀ v, ok v → ok' v) {v : Value}
    (h : Proper ok v) : Proper ok' v := by
  induction h with
  | null => exact .null
  | bool b => exact .bool b
  | number h => exact .number h
  | string h => exact .string h
  | array _ ih => exact .array ih
  | object _ hlabel _ ih₁ ih₂ => exact .object ih₁ (fun m hm => hok _ (hlabel m hm)) ih₂

end PetProject.Foundation.JsonGrammar
