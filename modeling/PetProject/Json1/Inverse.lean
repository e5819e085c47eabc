import PetProject.Foundation.JsonGrammar
import PetProject.Json1.Functions

/-!
# The search of the inverse

`jsonGroupInverse` of `TDB_workers/src/json1.c` drops the first row of a window from the text of the
rows without a parse: it searches for the first comma that is outside of strings and brackets. The
search passes over a text that is a document (`transparent_document`), and so over every value that
`jsonAppendValue` appends (`regular_passed`).
-/

set_option autoImplicit false

namespace PetProject.Json1

open PetProject.Foundation PetProject.Foundation.GrowingBuffer PetProject.Foundation.Handles
open PetProject.Foundation.TextSearch PetProject.Foundation.JsonText

/-! ## The function -/

/-- The search of `jsonGroupInverse`: the bytes behind the comma. -/
def afterComma (inStr : Bool) (nNest : Int) : Bytes → Option Bytes
  | [] => none
  | c :: z =>
      if c = ','.toUInt8 ∧ inStr = false ∧ nNest = 0 then some z
      else if c = quotationMark.toUInt8 then afterComma (!inStr) nNest z
      else if c = backslash.toUInt8 then
        match z with
        | [] => none
        | _ :: z => afterComma inStr nNest z
      else if inStr = false then
        if c = openBrace.toUInt8 ∨ c = '['.toUInt8 then afterComma inStr (nNest + 1) z
        else if c = closeBrace.toUInt8 ∨ c = ']'.toUInt8 then afterComma inStr (nNest - 1) z
        else afterComma inStr nNest z
      else afterComma inStr nNest z

/-- `jsonGroupInverse` with an accumulator. The text is empty only behind an error, and the byte
that is then kept is one that was in the buffer before. -/
def dropFirstRow (stale : UInt8) (pStr : JsonString) : Option JsonString :=
  let kept :=
    match pStr.zBuf.used with
    | [] => [stale]
    | c :: z => c :: (afterComma false 0 z).getD []
  ((Buffer.empty pStr.nAlloc).putAll kept).map fun zBuf => { pStr with zBuf := zBuf }

/-- `jsonGroupInverse`. The file defines `NEVER` itself, so its test of the pointer is compiled:
without an accumulator nothing happens. -/
def jsonGroupInverse (stale : UInt8) (pStr : Option JsonString) : Option (Option JsonString) :=
  match pStr with
  | none => some none
  | some pStr => (dropFirstRow stale pStr).map some

/-! ## What the search passes over -/

/-- The search goes on behind a text in another state. -/
def Passes (inStr : Bool) (nNest : Int) (z : Bytes) (inStr' : Bool) (nNest' : Int) : Prop :=
  ∀ rest, afterComma inStr nNest (z ++ rest) = afterComma inStr' nNest' rest

/-- A text that means the same to the search as nothing, however deep it is nested. -/
def Transparent (z : Bytes) : Prop := ∀ nNest, 0 ≤ nNest → Passes false nNest z false nNest

/-- A byte that the search does not look for. -/
def isPlain (c : UInt8) : Bool :=
  c ≠ ','.toUInt8 && c ≠ quotationMark.toUInt8 && c ≠ backslash.toUInt8 &&
    c ≠ openBrace.toUInt8 && c ≠ '['.toUInt8 && c ≠ closeBrace.toUInt8 && c ≠ ']'.toUInt8

section Passes

variable {inStr inStr' inStr'' : Bool} {nNest nNest' nNest'' : Int} {y z : Bytes} {c : UInt8}

theorem Passes.nil : Passes inStr nNest [] inStr nNest := fun _ => rfl

theorem Passes.append (h : Passes inStr nNest y inStr' nNest')
    (h' : Passes inStr' nNest' z inStr'' nNest'') :
    Passes inStr nNest (y ++ z) inStr'' nNest'' := by
  intro rest
  rw [List.append_assoc, h, h']

theorem Passes.cons (h : Passes inStr nNest [c] inStr' nNest')
    (h' : Passes inStr' nNest' z inStr'' nNest'') :
    Passes inStr nNest (c :: z) inStr'' nNest'' := h.append h'

/-- One round of the loop. -/
theorem afterComma_cons (inStr : Bool) (nNest : Int) (c : UInt8) (z : Bytes) :
    afterComma inStr nNest (c :: z) =
      if c = ','.toUInt8 ∧ inStr = false ∧ nNest = 0 then some z
      else if c = quotationMark.toUInt8 then afterComma (!inStr) nNest z
      else if c = backslash.toUInt8 then z.tail?.bind (afterComma inStr nNest)
      else if inStr = false then
        if c = openBrace.toUInt8 ∨ c = '['.toUInt8 then afterComma inStr (nNest + 1) z
        else if c = closeBrace.toUInt8 ∨ c = ']'.toUInt8 then afterComma inStr (nNest - 1) z
        else afterComma inStr nNest z
      else afterComma inStr nNest z := by
  cases z <;> rfl

theorem passes_quotationMark :
    Passes inStr nNest [quotationMark.toUInt8] (!inStr) nNest := by
  intro rest
  rw [List.singleton_append, afterComma_cons, if_neg (fun h => absurd h.1 (by decide)), if_pos rfl]

theorem passes_escape : Passes inStr nNest [backslash.toUInt8, c] inStr nNest := by
  intro rest
  rw [List.cons_append, afterComma_cons, if_neg (fun h => absurd h.1 (by decide)),
    if_neg (by decide), if_pos rfl]
  rfl

/-- Inside of a string only the quotation mark and the backslash count. -/
theorem passes_inString (hquote : c ≠ quotationMark.toUInt8) (hback : c ≠ backslash.toUInt8) :
    Passes true nNest [c] true nNest := by
  intro rest
  rw [List.singleton_append, afterComma_cons, if_neg (fun h => absurd h.2.1 (by decide)),
    if_neg hquote, if_neg hback, if_neg (by decide)]

theorem passes_open (hc : c = openBrace.toUInt8 ∨ c = '['.toUInt8) :
    Passes false nNest [c] false (nNest + 1) := by
  intro rest
  rw [List.singleton_append, afterComma_cons, if_neg, if_neg, if_neg, if_pos rfl, if_pos hc]
  · rcases hc with rfl | rfl <;> decide
  · rcases hc with rfl | rfl <;> decide
  · rcases hc with rfl | rfl <;> exact fun h => absurd h.1 (by decide)

theorem passes_close (hc : c = closeBrace.toUInt8 ∨ c = ']'.toUInt8) :
    Passes false nNest [c] false (nNest - 1) := by
  intro rest
  rw [List.singleton_append, afterComma_cons, if_neg, if_neg, if_neg, if_pos rfl, if_neg,
    if_pos hc]
  · rcases hc with rfl | rfl <;> decide
  · rcases hc with rfl | rfl <;> decide
  · rcases hc with rfl | rfl <;> decide
  · rcases hc with rfl | rfl <;> exact fun h => absurd h.1 (by decide)

theorem passes_comma (hnest : nNest ≠ 0) : Passes false nNest [','.toUInt8] false nNest := by
  intro rest
  rw [List.singleton_append, afterComma_cons, if_neg (fun h => hnest h.2.2), if_neg (by decide),
    if_neg (by decide), if_pos rfl, if_neg (by decide), if_neg (by decide)]

theorem passes_plain (hc : isPlain c = true) : Passes inStr nNest [c] inStr nNest := by
  intro rest
  simp only [isPlain, Bool.and_eq_true, decide_eq_true_eq] at hc
  obtain ⟨⟨⟨⟨⟨⟨h₁, h₂⟩, h₃⟩, h₄⟩, h₅⟩, h₆⟩, h₇⟩ := hc
  rw [List.singleton_append, afterComma_cons, if_neg (fun h => h₁ h.1), if_neg h₂, if_neg h₃,
    if_neg (not_or.mpr ⟨h₄, h₅⟩), if_neg (not_or.mpr ⟨h₆, h₇⟩), ite_self]

theorem transparent_append (hy : Transparent y) (hz : Transparent z) : Transparent (y ++ z) :=
  fun n hn => (hy n hn).append (hz n hn)

/-- Numbers and names. -/
theorem transparent_plain (h : ∀ c ∈ z, isPlain c = true) : Transparent z := by
  intro n hn
  induction z with
  | nil => exact Passes.nil
  | cons c z ih =>
    exact (passes_plain (h c List.mem_cons_self)).cons
      (ih fun d hd => h d (List.mem_cons_of_mem c hd))

/-- The control characters one by one. -/
theorem forall_control {P : UInt8 → Bool}
    (h : ((List.range 32).all fun n => P (UInt8.ofNat n)) = true) (hc : c ≤ 0x1f) : P c = true := by
  have hlt : c.toNat < 32 := Nat.lt_succ_of_le (UInt8.le_iff_toNat_le.mp hc)
  have hP := List.all_eq_true.mp h c.toNat (List.mem_range.mpr hlt)
  rwa [UInt8.ofNat_toNat] at hP

theorem passes_escapeByte (c : UInt8) : Passes true nNest (escapeByte c) true nNest := by
  rw [escapeByte]
  by_cases hquote : c = quotationMark.toUInt8 ∨ c = backslash.toUInt8
  · rw [if_pos hquote]
    exact passes_escape
  · rw [if_neg hquote]
    rw [not_or] at hquote
    by_cases hcontrol : c ≤ 0x1f
    · rw [if_pos hcontrol]
      by_cases hspecial : aSpecial c ≠ 0
      · rw [if_pos hspecial]
        exact passes_escape
      · -- `\u00` and two digits, none of which the search looks for
        rw [if_neg hspecial]
        have hhigh : isPlain ('0'.toUInt8 + (c >>> 4)) = true :=
          forall_control (P := fun c => isPlain ('0'.toUInt8 + (c >>> 4))) (by decide) hcontrol
        have hlow : isPlain (hexByte c) = true :=
          forall_control (P := fun c => isPlain (hexByte c)) (by decide) hcontrol
        refine passes_escape.append (Passes.cons (passes_plain (by decide)) ?_)
        refine Passes.cons (passes_plain (by decide)) ?_
        exact Passes.cons (passes_plain hhigh) (passes_plain hlow)
    · rw [if_neg hcontrol]
      exact passes_inString hquote.1 hquote.2

theorem transparent_quoted (z : Bytes) : Transparent (quoted z) := by
  intro n hn
  have hbody : ∀ z : Bytes, Passes true n (z.flatMap escapeByte) true n := by
    intro z
    induction z with
    | nil => exact Passes.nil
    | cons c z ih =>
      rw [List.flatMap_cons]
      exact (passes_escapeByte c).append ih
  exact passes_quotationMark.cons ((hbody z).append passes_quotationMark)

end Passes

/-! ## Documents -/

section Documents

variable {z ws : Bytes} {c : UInt8}

/-- A set of bytes without the marks is one of bytes that the search does not look for. -/
theorem isPlain_of {P : UInt8 → Bool} (hmarks : [','.toUInt8, quotationMark.toUInt8,
    backslash.toUInt8, openBrace.toUInt8, '['.toUInt8, closeBrace.toUInt8,
    ']'.toUInt8].all (fun c => !P c) = true) (hc : P c = true) : isPlain c = true := by
  have hne : ∀ d ∈ [','.toUInt8, quotationMark.toUInt8, backslash.toUInt8, openBrace.toUInt8,
      '['.toUInt8, closeBrace.toUInt8, ']'.toUInt8], c ≠ d := by
    rintro d hd rfl
    have hmark := List.all_eq_true.mp hmarks c hd
    rw [hc] at hmark
    cases hmark
  simp only [List.forall_mem_cons] at hne
  obtain ⟨h₁, h₂, h₃, h₄, h₅, h₆, h₇, -⟩ := hne
  simp only [isPlain, Bool.and_eq_true, decide_eq_true_eq]
  exact ⟨⟨⟨⟨⟨⟨h₁, h₂⟩, h₃⟩, h₄⟩, h₅⟩, h₆⟩, h₇⟩

theorem transparent_spaces (hws : JsonGrammar.AllSpace ws) : Transparent ws :=
  transparent_plain fun c hc => isPlain_of (by decide) (hws c hc)

theorem transparent_digits (hz : JsonGrammar.AllDigits z) : Transparent z :=
  transparent_plain fun c hc => isPlain_of (by decide) (hz c hc)

theorem transparent_byte (hc : isPlain c = true) : Transparent [c] := by
  apply transparent_plain
  intro d hd
  rwa [List.mem_singleton.mp hd]

theorem transparent_unsigned (h : JsonGrammar.IsUnsigned z) : Transparent z := by
  obtain ⟨int, frac, exp, hint, hfrac, hexp, rfl⟩ := h
  have hmark {e : UInt8} (he : e = 'e'.toUInt8 ∨ e = 'E'.toUInt8) : Transparent [e] := by
    rcases he with rfl | rfl <;> exact transparent_byte (by decide)
  have hsign {s : UInt8} (hs : s = '+'.toUInt8 ∨ s = '-'.toUInt8) : Transparent [s] := by
    rcases hs with rfl | rfl <;> exact transparent_byte (by decide)
  refine transparent_append ?_ (transparent_append ?_ ?_)
  · cases hint with
    | zero => exact transparent_byte (by decide)
    | digits hd _ hds =>
      exact transparent_append (transparent_byte (isPlain_of (by decide) hd))
        (transparent_digits hds)
  · cases hfrac with
    | none => exact transparent_digits (fun _ h => absurd h List.not_mem_nil)
    | point _ hds =>
      exact transparent_append (y := ['.'.toUInt8]) (transparent_byte (by decide))
        (transparent_digits hds)
  · cases hexp with
    | none => exact transparent_digits (fun _ h => absurd h List.not_mem_nil)
    | digits he _ hds => exact transparent_append (hmark he) (transparent_digits hds)
    | signed he hs _ hds =>
      exact transparent_append (hmark he) (transparent_append (hsign hs) (transparent_digits hds))

theorem transparent_number (h : JsonGrammar.IsNumber z) : Transparent z := by
  cases h with
  | unsigned h => exact transparent_unsigned h
  | minus h =>
    exact transparent_append (y := ['-'.toUInt8]) (transparent_byte (by decide))
      (transparent_unsigned h)

/-- Inside of a string the escapes hide quotation marks. -/
theorem passes_chars {nNest : Int} (h : JsonGrammar.Chars z) : Passes true nNest z true nNest := by
  induction h with
  | nil => exact Passes.nil
  | @plain c s hc hs ih =>
    simp only [JsonGrammar.isUnescaped, Bool.and_eq_true, decide_eq_true_eq] at hc
    exact (passes_inString hc.1.2 hc.2).cons ih
  | escape hc hs ih => exact passes_escape.append ih
  | @unicode h₁ h₂ h₃ h₄ s hhex hs ih =>
    have hall : ∀ c ∈ [h₁, h₂, h₃, h₄], isPlain c = true := fun c hc =>
      isPlain_of (P := JsonGrammar.isHexDigit) (by decide) (List.all_eq_true.mp hhex c hc)
    simp only [List.forall_mem_cons] at hall
    obtain ⟨p₁, p₂, p₃, p₄, -⟩ := hall
    refine passes_escape.append (Passes.cons (passes_plain p₁) ?_)
    refine Passes.cons (passes_plain p₂) (Passes.cons (passes_plain p₃) ?_)
    exact Passes.cons (passes_plain p₄) ih

theorem transparent_string (h : JsonGrammar.Chars z) :
    Transparent (JsonGrammar.stringToken z) := by
  intro n hn
  exact passes_quotationMark.cons ((passes_chars h).append passes_quotationMark)

/-- The text of one token. -/
theorem transparent_token {t : Bytes} (ht : Transparent t) (hz : JsonGrammar.Spaced [t] z) :
    Transparent z := by
  obtain ⟨ws, hws, rfl⟩ := hz.singleton
  exact transparent_append (transparent_spaces hws) ht

/-- The tokens mean the same to the search as nothing, wherever white space stands. -/
def TransparentTokens (ts : JsonGrammar.Tokens) : Prop :=
  ∀ z, JsonGrammar.Spaced ts z → Transparent z

theorem transparentTokens_append {ts us : JsonGrammar.Tokens} (hts : TransparentTokens ts)
    (hus : TransparentTokens us) : TransparentTokens (ts ++ us) := by
  intro z hz
  obtain ⟨x, y, rfl, hx, hy⟩ := hz.split
  exact transparent_append (hts x hx) (hus y hy)

/-- The commas between the parts are nested. -/
theorem passes_commaSeparated {nNest : Int} (hnest : 0 < nNest) {ts : List JsonGrammar.Tokens}
    (hts : ∀ t ∈ ts, TransparentTokens t)
    (hz : JsonGrammar.Spaced (JsonGrammar.commaSeparated ts) z) :
    Passes false nNest z false nNest := by
  induction ts generalizing z with
  | nil =>
    cases hz
    exact Passes.nil
  | cons t ts ih =>
    have ht := hts t List.mem_cons_self
    have hrest := fun u hu => hts u (List.mem_cons_of_mem t hu)
    by_cases hne : ts = []
    · subst hne
      exact ht z hz nNest (Int.le_of_lt hnest)
    · rw [JsonGrammar.commaSeparated_cons hne] at hz
      obtain ⟨x, y, rfl, hx, hy⟩ := hz.split
      obtain ⟨yc, y', rfl, hc, hy'⟩ := hy.split
      obtain ⟨ws, hws, rfl⟩ := hc.singleton
      have hcomma := (transparent_spaces hws nNest (Int.le_of_lt hnest)).append
        (passes_comma (Int.ne_of_gt hnest))
      exact (ht x hx nNest (Int.le_of_lt hnest)).append (hcomma.append (ih hrest hy'))

/-- The parts of an array or an object in their brackets. -/
theorem transparentTokens_bracketed {opening closing : Char} {ts : List JsonGrammar.Tokens}
    (hopen : opening.toUInt8 = openBrace.toUInt8 ∨ opening.toUInt8 = '['.toUInt8)
    (hclose : closing.toUInt8 = closeBrace.toUInt8 ∨ closing.toUInt8 = ']'.toUInt8)
    (hts : ∀ t ∈ ts, TransparentTokens t) :
    TransparentTokens (JsonGrammar.mark opening ++
      (JsonGrammar.commaSeparated ts ++ JsonGrammar.mark closing)) := by
  intro z hz n hn
  obtain ⟨x, y, rfl, hx, hy⟩ := hz.split
  obtain ⟨y₁, y₂, rfl, hy₁, hy₂⟩ := hy.split
  obtain ⟨ws, hws, rfl⟩ := hx.singleton
  obtain ⟨ws', hws', rfl⟩ := hy₂.singleton
  have hnest : 0 < n + 1 := Int.lt_add_one_of_le hn
  have hend : Passes false (n + 1) [closing.toUInt8] false (n + 1 - 1) := passes_close hclose
  rw [Int.add_sub_cancel] at hend
  have hbegin := (transparent_spaces hws n hn).append (passes_open hopen)
  exact hbegin.append ((passes_commaSeparated hnest hts hy₁).append
    ((transparent_spaces hws' (n + 1) (Int.le_of_lt hnest)).append hend))

theorem transparentTokens_value {ok : JsonGrammar.Value → Prop} {v : JsonGrammar.Value}
    (h : JsonGrammar.Proper ok v) : TransparentTokens v.tokens := by
  induction h with
  | null =>
    intro z hz
    exact transparent_token (transparent_plain (List.all_eq_true.mp
      (by decide : JsonGrammar.nullToken.all isPlain = true))) hz
  | bool b =>
    intro z hz
    cases b with
    | true =>
      exact transparent_token (transparent_plain (List.all_eq_true.mp
        (by decide : JsonGrammar.trueToken.all isPlain = true))) hz
    | false =>
      exact transparent_token (transparent_plain (List.all_eq_true.mp
        (by decide : JsonGrammar.falseToken.all isPlain = true))) hz
  | number h => exact fun z hz => transparent_token (transparent_number h) hz
  | string h => exact fun z hz => transparent_token (transparent_string h) hz
  | array _ ih =>
    rw [JsonGrammar.tokens_array]
    refine transparentTokens_bracketed (Or.inr rfl) (Or.inr rfl) ?_
    exact List.forall_mem_map.mpr ih
  | object _ _ _ ih₁ ih₂ =>
    rw [JsonGrammar.tokens_object]
    refine transparentTokens_bracketed (Or.inl rfl) (Or.inl rfl) (List.forall_mem_map.mpr ?_)
    intro m hm
    refine transparentTokens_append (ih₁ m hm) (transparentTokens_append ?_ (ih₂ m hm))
    exact fun z hz => transparent_token (transparent_byte (by decide)) hz

theorem transparent_document {ok : JsonGrammar.Value → Prop} {v : JsonGrammar.Value}
    (h : JsonGrammar.Document ok v z) : Transparent z := by
  obtain ⟨hproper, body, ws, rfl, hbody, hws⟩ := h
  exact transparent_append (transparentTokens_value hproper body hbody) (transparent_spaces hws)

/-- A value starts with a token. -/
theorem document_ne_nil {ok : JsonGrammar.Value → Prop} {v : JsonGrammar.Value}
    (h : JsonGrammar.Document ok v z) : z ≠ [] := by
  obtain ⟨hproper, body, ws, rfl, hbody, -⟩ := h
  have hsome : ∃ t ts, v.tokens = t :: ts ∧ t ≠ [] := by
    cases hproper with
    | null => exact ⟨_, [], rfl, List.cons_ne_nil _ _⟩
    | bool b => cases b <;> exact ⟨_, [], rfl, List.cons_ne_nil _ _⟩
    | number h => exact ⟨_, [], rfl, h.ne_nil⟩
    | string _ => exact ⟨_, [], rfl, List.cons_ne_nil _ _⟩
    | array _ => exact ⟨_, _, JsonGrammar.tokens_array _, List.cons_ne_nil _ _⟩
    | object _ _ _ => exact ⟨_, _, JsonGrammar.tokens_object _, List.cons_ne_nil _ _⟩
  obtain ⟨t, ts, htokens, hne⟩ := hsome
  rw [htokens] at hbody
  cases hbody with
  | cons _ _ => simp [hne]

end Documents

/-! ## Values -/

/-- What a value is like that an SQL function can be called with: a number has the bytes of numbers,
a text could be converted, and a value with the subtype of JSON is a document. -/
def sqlite3_value.Regular : sqlite3_value → Prop
  | .integer z | .float z => z ≠ [] ∧ z.all isPlain = true
  | .text none _ => False
  | .text (some z) true => ∃ v, JsonGrammar.Document (fun _ => True) v z
  | .text (some _) false | .null | .blob _ => True

theorem regular_passed {v : sqlite3_value} (hv : v.Regular) {z : Bytes}
    (hz : v.rendered = some z) : z ≠ [] ∧ Transparent z := by
  cases v with
  | null =>
    cases hz
    exact ⟨List.cons_ne_nil _ _,
      transparent_plain (List.all_eq_true.mp (by decide : nullText.all isPlain = true))⟩
  | integer y | float y =>
    cases hz
    exact ⟨hv.1, transparent_plain (List.all_eq_true.mp hv.2)⟩
  | blob y => cases hz
  | text y subtype =>
    cases y with
    | none => exact hv.elim
    | some y =>
      cases subtype with
      | false =>
        cases hz
        exact ⟨List.cons_ne_nil _ _, transparent_quoted y⟩
      | true =>
        cases hz
        obtain ⟨w, hw⟩ := hv
        exact ⟨document_ne_nil hw, transparent_document hw⟩

/-! ## What is kept -/

section Keeps

variable {p : JsonString}

theorem afterComma_length {inStr : Bool} {nNest : Int} {z rest : Bytes}
    (h : afterComma inStr nNest z = some rest) : rest.length < z.length := by
  fun_induction afterComma inStr nNest z with
  | case1 => cases h
  | case2 =>
    cases h
    exact Nat.lt_succ_self _
  | case4 => cases h
  | case5 inStr nNest d z hcomma hquote ih =>
    exact Nat.lt_succ_of_lt (Nat.lt_succ_of_lt (ih h))
  | case3 _ _ _ _ ih | case6 _ _ _ _ _ _ _ ih | case7 _ _ _ _ _ _ _ _ ih
  | case8 _ _ _ _ _ _ _ _ ih | case9 _ _ _ _ _ _ _ _ ih => exact Nat.lt_succ_of_lt (ih h)

/-- What is kept fits, and the errors stay as they are. -/
theorem dropFirstRow_keeps (hp : p.Valid) (stale : UInt8)
    (hne : p.bErr = 0 → p.zBuf.used ≠ []) :
    ∃ q, dropFirstRow stale p = some q ∧ q.Valid ∧ q.answers = p.answers ∧ q.bErr = p.bErr ∧
      ∀ c z, p.zBuf.used = c :: z → q.zBuf.used = c :: (afterComma false 0 z).getD [] := by
  have hput (kept : Bytes) (hfits : kept.length ≤ p.nAlloc) :
      ∃ b, (Buffer.empty p.nAlloc).putAll kept = some b ∧ b.used = kept ∧
        ({ p with zBuf := b } : JsonString).Valid := by
    have hroom : (Buffer.empty p.nAlloc : Buffer UInt8).size + kept.length ≤ p.nAlloc := by
      rw [show (Buffer.empty p.nAlloc : Buffer UInt8).size = 0 from rfl, Nat.zero_add]
      exact hfits
    obtain ⟨b, hb, hused, hcap⟩ := Buffer.putAll_eq_some hroom
    exact ⟨b, hb, hused, hp.sound, hp.outstanding, fun h => hcap.trans (hp.static h), hp.failed,
      hp.refused⟩
  unfold dropFirstRow
  cases hused : p.zBuf.used with
  | nil =>
    -- behind an error the buffer is the first one, which has room for the byte
    have herr : p.bErr ≠ 0 := fun h => hne h hused
    obtain ⟨b, hb, -, hvalid⟩ := hput [stale] (by
      rw [hp.static (hp.failed herr)]
      exact (by decide : 1 ≤ spaceSize))
    refine ⟨_, ?_, hvalid, rfl, rfl, fun c z h => by cases h⟩
    simp only [hb, Option.map_some]
  | cons c z =>
    have hfits : (c :: (afterComma false 0 z).getD []).length ≤ p.nAlloc := by
      have hle : p.zBuf.used.length ≤ p.nAlloc := p.zBuf.fits
      rw [hused, List.length_cons] at hle
      rw [List.length_cons]
      cases hrest : afterComma false 0 z with
      | none =>
        rw [Option.getD_none, List.length_nil]
        omega
      | some rest =>
        have hlt := afterComma_length hrest
        rw [Option.getD_some]
        omega
    obtain ⟨b, hb, hkept, hvalid⟩ := hput _ hfits
    refine ⟨_, ?_, hvalid, rfl, rfl, fun d y h => ?_⟩
    · simp only [hb, Option.map_some]
    · cases h
      exact hkept

end Keeps

end PetProject.Json1
