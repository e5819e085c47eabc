import PetProject.Json1.Parsing

/-!
# What the parser accepts

Every document that is nested no deeper than `JSON_MAX_DEPTH` is read to its end (`proper_reached`),
by induction on the value. With what the parser reads this says exactly which texts `jsonParse`
accepts, and which nodes it makes of them (`jsonParse_accepts`).
-/

set_option autoImplicit false

namespace PetProject.Json1

open PetProject.Foundation.GrowingBuffer PetProject.Foundation.JsonGrammar
open PetProject.Foundation.TextSearch PetProject.Foundation.JsonText

section

variable {p q r : JsonParse} {v : Value} {z t rest : Bytes} {x : Parsed} {fuel : Nat}

/-! ## Calls -/

/-- A call of `jsonParseValue` that has fuel for its text. -/
structure Called (fuel : Nat) (p : JsonParse) (z : Bytes) (x : Parsed) (q : JsonParse) : Prop where
  restarts : Restarts p.zJson
  iDepth : p.iDepth ≤ JSON_MAX_DEPTH
  enough : 2 * z.length + 1 ≤ fuel
  run : jsonParseValue fuel p z = some (x, q)

theorem exists_called {fuel : Nat} (hrestarts : Restarts p.zJson) (hp : p.iDepth ≤ JSON_MAX_DEPTH)
    (hfuel : 2 * z.length + 1 ≤ fuel) : ∃ x q, Called fuel p z x q ∧ Outcome p z x q := by
  obtain ⟨x, q, hrun, hout⟩ := (jsonParse_ok fuel).1 p z hrestarts hp hfuel
  exact ⟨x, q, ⟨hrestarts, hp, hfuel, hrun⟩, hout⟩

/-- The value is read to the end of its text, unless an allocation is refused. -/
def Reached (v : Value) : Prop :=
  ∀ fuel p t rest x q, Called fuel p (t ++ rest) x q → Spaced v.tokens t → Ends (first rest) →
    p.iDepth + v.depth ≤ JSON_MAX_DEPTH → q.oom = false →
    x = .past rest ∧ q.aNode.used = p.aNode.used ++ nodesOf v ∧ q.iDepth = p.iDepth

/-! ## Tokens -/

theorem ends_of_space {c : UInt8} (h : isSpace c = true) : Ends c := by
  have hall : ∀ c, isSpace c = true → isDigit c = false ∧ isLetter c = false ∧ c ≠ '.'.toUInt8 :=
    fun c => of_decide_eq_true (forall_byte (P := fun c => decide (isSpace c = true →
      isDigit c = false ∧ isLetter c = false ∧ c ≠ '.'.toUInt8)) (by decide +kernel) c)
  exact hall c h

/-- A token behind white space. -/
theorem skipSpaces_token {c : UInt8} {t' : Bytes} (h : Spaced [c :: t'] t)
    (hc : isSpace c = false) (rest : Bytes) : skipSpaces (t ++ rest) = c :: (t' ++ rest) := by
  obtain ⟨ws, hws, rfl⟩ := h.singleton
  rw [List.append_assoc]
  exact skipSpaces_append hws hc

theorem ends_mark {c : Char} (h : Spaced (mark c) t) (hc : Ends c.toUInt8) (rest : Bytes) :
    Ends (first (t ++ rest)) := by
  obtain ⟨ws, hws, rfl⟩ := h.singleton
  cases ws with
  | nil => exact hc
  | cons w ws => exact ends_of_space (hws w (List.mem_cons_self ..))

theorem isName_complete (name : Bytes) (hrest : Ends (first rest)) :
    isName name (name ++ rest) = true := by
  unfold isName safe_isalnum
  rw [List.take_left, List.drop_left, hrest.1, hrest.2.1]
  simp

/-! ## Names, numbers and strings -/

/-- A call that reads a token behind white space, as far as the branch that reads it. -/
theorem reached_of_adds (htokens : v.tokens = [z])
    (hread : ∀ fuel p t rest, Spaced [z] t → Ends (first rest) →
      ∃ q, jsonParseValue (fuel + 1) p (t ++ rest) = some (.past rest, q) ∧ Adds p v q) :
    Reached v := by
  intro fuel p t rest x q hcall ht hrest _ hoom
  obtain ⟨fuel, rfl⟩ : ∃ n, fuel = n + 1 :=
    Nat.exists_eq_succ_of_ne_zero (by have := hcall.enough; omega)
  rw [htokens] at ht
  obtain ⟨q', hrun, hadds⟩ := hread fuel p t rest ht hrest
  rw [hcall.run] at hrun
  cases hrun
  exact ⟨rfl, hadds.nodes hoom, hadds.iDepth⟩

theorem null_reached : Reached .null := by
  refine reached_of_adds rfl fun fuel p t rest ht hrest => ?_
  have hskip : skipSpaces (t ++ rest) = nullToken ++ rest := skipSpaces_token ht (by decide) rest
  obtain ⟨q, hparse, hadds⟩ := parseName_adds (v := .null) rfl p rest
  refine ⟨q, Eq.trans ?_ hparse, hadds⟩
  simp only [jsonParseValue, hskip, isName_complete nullToken hrest, if_true]
  rfl

theorem bool_reached (b : Bool) : Reached (.bool b) := by
  refine reached_of_adds rfl fun fuel p t rest ht hrest => ?_
  cases b with
  | true =>
    have hskip : skipSpaces (t ++ rest) = trueToken ++ rest := skipSpaces_token ht (by decide) rest
    obtain ⟨q, hparse, hadds⟩ := parseName_adds (v := .bool true) rfl p rest
    refine ⟨q, Eq.trans ?_ hparse, hadds⟩
    simp only [jsonParseValue, hskip, isName_complete trueToken hrest, if_true]
    rfl
  | false =>
    have hskip : skipSpaces (t ++ rest) = falseToken ++ rest := skipSpaces_token ht (by decide) rest
    obtain ⟨q, hparse, hadds⟩ := parseName_adds (v := .bool false) rfl p rest
    refine ⟨q, Eq.trans ?_ hparse, hadds⟩
    simp only [jsonParseValue, hskip, isName_complete falseToken hrest, if_true]
    rfl

theorem string_reached {s : Bytes} (hs : Chars s) : Reached (.string s) := by
  refine reached_of_adds rfl fun fuel p t rest ht hrest => ?_
  have hskip : skipSpaces (t ++ rest) = stringToken s ++ rest :=
    skipSpaces_token ht (by decide) rest
  obtain ⟨q, hparse, hadds⟩ := parseString_adds hs p rest
  refine ⟨q, Eq.trans ?_ hparse, hadds⟩
  simp only [jsonParseValue, hskip]
  rfl

/-- The first byte of a number starts none of the other values. -/
theorem first_number {w : Bytes} (hw : IsNumber w) : ∃ c w', w = c :: w' ∧
    (c = '-'.toUInt8 ∨ isDigit c = true) := by
  cases hw with
  | unsigned h =>
    have hend : Ends (first ([] : Bytes)) := ⟨rfl, rfl, by decide⟩
    have hdigit := (numberLoop_unsigned_complete h hend 0).1
    cases w with
    | nil => exact absurd hdigit (by decide)
    | cons c w => exact ⟨c, w, rfl, Or.inr hdigit⟩
  | minus _ => exact ⟨_, _, rfl, Or.inl rfl⟩

theorem number_byte {c : UInt8} (h : c = '-'.toUInt8 ∨ isDigit c = true) :
    isSpace c = false ∧ c ≠ openBrace.toUInt8 ∧ c ≠ '['.toUInt8 ∧ c ≠ quotationMark.toUInt8 ∧
      c ≠ 'n'.toUInt8 ∧ c ≠ 't'.toUInt8 ∧ c ≠ 'f'.toUInt8 :=
  of_decide_eq_true (forall_byte (P := fun c => decide ((c = '-'.toUInt8 ∨ isDigit c = true) →
    isSpace c = false ∧ c ≠ openBrace.toUInt8 ∧ c ≠ '['.toUInt8 ∧ c ≠ quotationMark.toUInt8 ∧
      c ≠ 'n'.toUInt8 ∧ c ≠ 't'.toUInt8 ∧ c ≠ 'f'.toUInt8)) (by decide +kernel) c) h

theorem isName_of_ne {c d : UInt8} {name : Bytes} (h : d ≠ c) :
    isName (c :: name) (d :: z) = false := by
  unfold isName
  rw [List.length_cons, List.take_succ_cons]
  simp [h]

theorem number_reached {w : Bytes} (hw : IsNumber w) : Reached (.number w) := by
  refine reached_of_adds rfl fun fuel p t rest ht hrest => ?_
  obtain ⟨c, w', rfl, hc⟩ := first_number hw
  obtain ⟨hspace, hbrace, hbracket, hquote, hn, ht', hf⟩ := number_byte hc
  have hskip : skipSpaces (t ++ rest) = c :: w' ++ rest := skipSpaces_token ht hspace rest
  obtain ⟨q, hparse, hadds⟩ := parseNumber_adds (scanNumber_complete hw hrest) p
  refine ⟨q, Eq.trans ?_ hparse, hadds⟩
  have hfirst : first (c :: w' ++ rest) = c := rfl
  have hnull : isName nullToken (c :: w' ++ rest) = false := isName_of_ne hn
  have htrue : isName trueToken (c :: w' ++ rest) = false := isName_of_ne ht'
  have hfalse : isName falseToken (c :: w' ++ rest) = false := isName_of_ne hf
  simp only [jsonParseValue, hskip, hfirst, hnull, htrue, hfalse, if_neg hbrace, if_neg hbracket,
    if_neg hquote, if_pos hc, Bool.false_eq_true, if_false]

/-! ## Arrays and objects -/

section Containers

variable {α : Type} {k : Parts α} {a : α} {iThis : Nat} {before done : List JsonNode}
  {loop : Nat → Nat → JsonParse → Bytes → Option (Parsed × JsonParse)}

/-- A call of a loop over the parts of a container, with fuel for its text. -/
structure LoopCalled (loop : Nat → Nat → JsonParse → Bytes → Option (Parsed × JsonParse))
    (fuel iThis : Nat) (p : JsonParse) (z : Bytes) (x : Parsed) (r : JsonParse) : Prop where
  restarts : Restarts p.zJson
  inside : iThis < p.nNode
  enough : 2 * z.length + 2 ≤ fuel
  run : loop fuel iThis p z = some (x, r)

/-- The loop reads the part and goes on behind it. -/
def PartReached (k : Parts α)
    (loop : Nat → Nat → JsonParse → Bytes → Option (Parsed × JsonParse)) (a : α) : Prop :=
  ∀ fuel iThis p t rest x r, LoopCalled loop (fuel + 1) iThis p (t ++ rest) x r →
    Spaced (k.tokens a) t → Ends (first rest) → p.iDepth + 1 ≤ JSON_MAX_DEPTH →
    k.Good (p.iDepth + 1) a → r.oom = false →
    ∃ q, behind k (loop fuel iThis) iThis q rest = some (x, r) ∧ Restarts q.zJson ∧
      q.aNode.used = p.aNode.used ++ k.nodes a ∧ q.iDepth = p.iDepth

/-- What is read when the loop has come to the end of the container. -/
def Closed (k : Parts α) (p : JsonParse) (before nodes : List JsonNode) (rest : Bytes) (x : Parsed)
    (r : JsonParse) : Prop :=
  x = .past rest ∧ r.aNode.used = before ++ container k.eType nodes ∧ r.iDepth = p.iDepth

theorem behind_close (hclose : isSpace k.close.toUInt8 = false ∧ k.close.toUInt8 ≠ ','.toUInt8)
    (ht : Spaced (mark k.close) t) (hopened : Opened k q iThis before done)
    {go : JsonParse → Bytes → Option (Parsed × JsonParse)}
    (hrun : behind k go iThis q (t ++ rest) = some (x, r)) : Closed k q before done rest x r := by
  have hskip : skipSpaces (t ++ rest) = k.close.toUInt8 :: rest :=
    skipSpaces_token ht hclose.1 rest
  have hfirst : first (k.close.toUInt8 :: rest) = k.close.toUInt8 := rfl
  have hthis : iThis < q.nNode := by
    change iThis < q.aNode.used.length
    rw [hopened.2, ← hopened.1, List.length_append, List.length_cons]
    omega
  unfold behind at hrun
  rw [hskip, hfirst, if_neg hclose.2, if_neg (not_not_intro rfl), List.tail_cons] at hrun
  obtain ⟨r', hcontainer, -, hiDepth, -, hnodes⟩ := closeContainer_fills hthis rest
  rw [hcontainer] at hrun
  cases hrun
  exact ⟨rfl, hnodes before _ _ hopened.1 hopened.2, hiDepth⟩

theorem behind_comma {t' : Bytes} (ht : Spaced (mark ',') t)
    {go : JsonParse → Bytes → Option (Parsed × JsonParse)} :
    behind k go iThis q (t ++ (t' ++ rest)) = go q (t' ++ rest) := by
  have hskip : skipSpaces (t ++ (t' ++ rest)) = ','.toUInt8 :: (t' ++ rest) :=
    skipSpaces_token ht (by decide) _
  have hfirst : first (','.toUInt8 :: (t' ++ rest)) = ','.toUInt8 := rfl
  unfold behind
  rw [hskip, hfirst, if_pos rfl, List.tail_cons]

/-- Elements and members are read one after the other. -/
theorem parts_reached (hclose : isSpace k.close.toUInt8 = false ∧ k.close.toUInt8 ≠ ','.toUInt8)
    (hends : Ends k.close.toUInt8) {as : List α} (hparts : ∀ b ∈ a :: as, PartReached k loop b)
    (hcall : LoopCalled loop fuel iThis p (t ++ rest) x r)
    (ht : Spaced (commaSeparated ((a :: as).map k.tokens) ++ mark k.close) t)
    (hp : p.iDepth + 1 ≤ JSON_MAX_DEPTH) (hgood : ∀ b ∈ a :: as, k.Good (p.iDepth + 1) b)
    (hoom : r.oom = false) (hopened : Opened k p iThis before done) :
    Closed k p before (done ++ (a :: as).flatMap k.nodes) rest x r := by
  -- the nodes of the parts before are in `done`
  induction as generalizing a fuel p t done with
  | nil =>
    obtain ⟨fuel, rfl⟩ : ∃ n, fuel = n + 1 :=
      Nat.exists_eq_succ_of_ne_zero (by have := hcall.enough; omega)
    obtain ⟨ta, tm, rfl, hta, htm⟩ := ht.split
    rw [List.append_assoc] at hcall
    obtain ⟨q, hrun, -, hused, hiDepth⟩ := hparts a (List.mem_singleton_self a) fuel iThis p ta
      (tm ++ rest) x r hcall hta (ends_mark htm hends rest) hp (hgood a (List.mem_singleton_self a))
      hoom
    have hopened' : Opened k q iThis before (done ++ k.nodes a) := by
      refine ⟨hopened.1, ?_⟩
      rw [hused, hopened.2, List.append_assoc, List.cons_append]
    obtain ⟨hx, hnodes, hdepth⟩ := behind_close hclose htm hopened' hrun
    refine ⟨hx, ?_, hdepth.trans hiDepth⟩
    rw [hnodes, List.flatMap_singleton]
  | cons b as ih =>
    obtain ⟨fuel, rfl⟩ : ∃ n, fuel = n + 1 :=
      Nat.exists_eq_succ_of_ne_zero (by have := hcall.enough; omega)
    rw [List.map_cons, commaSeparated_cons (by rw [List.map_cons]; exact List.cons_ne_nil _ _),
      List.append_assoc, List.append_assoc] at ht
    obtain ⟨ta, t', rfl, hta, ht'⟩ := ht.split
    obtain ⟨tc, ts, rfl, htc, hts⟩ := ht'.split
    rw [List.append_assoc, List.append_assoc] at hcall
    obtain ⟨q, hrun, hrestarts, hused, hiDepth⟩ := hparts a (List.mem_cons_self ..) fuel iThis p ta
      (tc ++ (ts ++ rest)) x r hcall hta (ends_mark htc ⟨rfl, rfl, by decide⟩ _) hp
      (hgood a (List.mem_cons_self ..)) hoom
    rw [behind_comma htc] at hrun
    have hlen : 2 * (ta.length + (tc.length + (ts ++ rest).length)) + 2 ≤ fuel + 1 := by
      rw [← List.length_append, ← List.length_append]
      exact hcall.enough
    have htc' : 1 ≤ tc.length := by
      obtain ⟨ws, -, rfl⟩ := htc.singleton
      rw [List.length_append]
      exact Nat.le_add_left _ _
    have hopened' : Opened k q iThis before (done ++ k.nodes a) := by
      refine ⟨hopened.1, ?_⟩
      rw [hused, hopened.2, List.append_assoc, List.cons_append]
    have hinside : iThis < q.nNode := by
      change iThis < q.aNode.used.length
      rw [hused, List.length_append]
      exact Nat.lt_of_lt_of_le hcall.inside (Nat.le_add_right _ _)
    obtain ⟨hx, hnodes, hdepth⟩ := ih (fun c hc => hparts c (List.mem_cons_of_mem _ hc))
      ⟨hrestarts, hinside, by omega, hrun⟩ hts (hiDepth ▸ hp)
      (fun c hc => hiDepth ▸ hgood c (List.mem_cons_of_mem _ hc)) hopened'
    refine ⟨hx, ?_, hdepth.trans hiDepth⟩
    rw [hnodes, List.append_assoc]
    rfl

theorem behind_advance (hok : LoopOk k fuel (loop fuel)) (hrestarts : Restarts q.zJson)
    (hinside : iThis < q.nNode) (henough : 2 * rest.length ≤ fuel)
    (hrun : behind k (loop fuel iThis) iThis q rest = some (x, r)) : Advance q r := by
  unfold behind at hrun
  by_cases hcomma : first (skipSpaces rest) = ','.toUInt8
  · rw [if_pos hcomma] at hrun
    obtain ⟨-, -, -, hlt⟩ := spaced_mark (c := ',') (by decide) hcomma
    obtain ⟨x', r', hrun', hout⟩ := hok iThis q (skipSpaces rest).tail hrestarts hinside (by omega)
    rw [hrun] at hrun'
    cases hrun'
    cases hout with
    | past hadv _ _ | error hadv => exact hadv
  · rw [if_neg hcomma] at hrun
    split at hrun
    · cases hrun
      exact Advance.refl q
    · obtain ⟨r', hcontainer, hadv, -⟩ := closeContainer_fills hinside (skipSpaces rest).tail
      rw [hcontainer] at hrun
      cases hrun
      exact hadv

/-- A refused allocation of the value is still known behind it. -/
theorem behind_oom (hok : LoopOk k fuel (loop fuel))
    (hclose : k.close.toUInt8 ∈ [']'.toUInt8, closeBrace.toUInt8]) {z' : Bytes}
    (hout : Outcome p z (.past z') q) (hrestarts : Restarts p.zJson) (hinside : iThis < p.nNode)
    (henough : 2 * z.length ≤ fuel + 1) {iDepth : Nat}
    (hrun : behind k (loop fuel iThis) iThis { q with iDepth := iDepth } z' = some (x, r))
    (hoom : r.oom = false) : q.oom = false := by
  have hadv : Advance { q with iDepth := iDepth } r := by
    cases hout with
    | atEnd _ =>
      have hend : ∃ x' r', behind k (loop fuel iThis) iThis { p with iDepth := iDepth } p.zJson =
          some (x', r') ∧ LoopOutcome k iThis { p with iDepth := iDepth } z x' r' :=
        behind_end hrestarts hclose (Advance.refl _) _
      obtain ⟨x', r', hrun', hout'⟩ := hend
      rw [hrun] at hrun'
      cases hrun'
      cases hout' with
      | past hadv _ _ | error hadv => exact hadv
    | past hadv hlt _ =>
      exact behind_advance hok (hadv.zJson.symm ▸ hrestarts)
        (Nat.lt_of_lt_of_le hinside hadv.size) (by omega) hrun
  exact hadv.oom hoom

end Containers

/-- An element of an array. -/
theorem element_reached (hv : Reached v) : PartReached elementParts arrayLoop v := by
  intro fuel iThis p t rest x r hcall ht hrest hp hgood hoom
  have hrun := hcall.run
  have henough := hcall.enough
  simp only [arrayLoop, jsonParseValue_skipSpaces, if_neg (Nat.not_lt_of_le hp)] at hrun
  have hfuel : 2 * (t ++ rest).length + 1 ≤ fuel := by omega
  obtain ⟨x', q, hcall', hout⟩ :=
    exists_called (p := { p with iDepth := p.iDepth + 1 }) hcall.restarts hp hfuel
  rw [hcall'.run] at hrun
  simp only [Option.bind_some] at hrun
  have hq : q.oom = false := by
    cases x' with
    | past z' =>
      exact behind_oom (k := elementParts) (jsonParse_ok fuel).2.1 (by decide) hout hcall.restarts
        hcall.inside (by omega) hrun hoom
    | error | closeObject =>
      cases hrun
      exact hoom
    | closeArray =>
      simp only at hrun
      split at hrun <;> (cases hrun; exact hoom)
  obtain ⟨rfl, hused, hiDepth⟩ := hv fuel _ t rest x' q hcall' ht hrest hgood.2 hq
  refine ⟨{ q with iDepth := q.iDepth - 1 }, hrun, ?_, hused, ?_⟩
  · exact hout.advance.zJson.symm ▸ hcall.restarts
  · change q.iDepth - 1 = p.iDepth
    rw [hiDepth]
    rfl

/-- A member of an object: the label, the colon and the value. -/
theorem member_reached {m : Value × Value} (hl : Reached m.1) (hv : Reached m.2) :
    PartReached memberParts objectLoop m := by
  intro fuel iThis p t rest x r hcall ht hrest hp hgood hoom
  obtain ⟨tl, t', rfl, htl, ht'⟩ := ht.split
  obtain ⟨tc, tv, rfl, htc, htv⟩ := ht'.split
  have hrun := hcall.run
  have henough := hcall.enough
  rw [List.append_assoc, List.append_assoc] at hrun henough
  simp only [objectLoop, jsonParseValue_skipSpaces, if_neg (Nat.not_lt_of_le hp)] at hrun
  have hfuel : 2 * (tl ++ (tc ++ (tv ++ rest))).length + 1 ≤ fuel := by omega
  obtain ⟨x₁, q₁, hcall₁, hout₁⟩ :=
    exists_called (p := { p with iDepth := p.iDepth + 1 }) hcall.restarts hp hfuel
  rw [hcall₁.run] at hrun
  simp only [Option.bind_some] at hrun
  -- `oom` is never cleared, so the answer of the label was not refused either
  have hq₁ : q₁.oom = false := by
    by_contra htrue
    have hoom₁ : q₁.oom = true := Bool.of_not_eq_false htrue
    cases x₁ with
    | past z' =>
      simp only [if_pos hoom₁] at hrun
      cases hrun
      exact htrue hoom
    | error | closeArray =>
      cases hrun
      exact htrue hoom
    | closeObject =>
      simp only at hrun
      split at hrun <;> (cases hrun; exact htrue hoom)
  have hends : Ends (first (tc ++ (tv ++ rest))) := ends_mark htc ⟨rfl, rfl, by decide⟩ _
  obtain ⟨rfl, hused₁, hiDepth₁⟩ := hl fuel _ tl _ x₁ q₁ hcall₁ htl hends hgood.2.2.2.1 hq₁
  have hthis₁ : iThis < q₁.nNode := Nat.lt_of_lt_of_le hcall.inside hout₁.advance.size
  obtain ⟨node, hnode, b, hupdate, hb, hsize⟩ := exists_last_node hthis₁
  have hstring : node.eType = .JSON_STRING := by
    obtain ⟨last, hlast, hstring⟩ := hgood.2.1
    rw [← getElem?_last p.aNode.used, ← hused₁] at hlast
    cases hlast.symm.trans hnode
    exact hstring
  have hoom₁ : ¬ q₁.oom = true := by
    rw [hq₁]
    decide
  have hskip : skipSpaces (tc ++ (tv ++ rest)) = ':'.toUInt8 :: (tv ++ rest) :=
    skipSpaces_token htc (by decide) _
  have hcolon : ¬ first (':'.toUInt8 :: (tv ++ rest)) ≠ ':'.toUInt8 := not_not_intro rfl
  simp only [if_neg hoom₁, hnode, Option.bind_some, hupdate, if_neg (not_not_intro hstring), hskip,
    if_neg hcolon, List.tail_cons] at hrun
  have hfuel₂ : 2 * (tv ++ rest).length + 1 ≤ fuel := by
    simp only [List.length_append] at henough ⊢
    omega
  have hmax₂ : q₁.iDepth ≤ JSON_MAX_DEPTH := by
    rw [hiDepth₁]
    exact hp
  have hrestarts₁ : Restarts q₁.zJson := hout₁.advance.zJson.symm ▸ hcall.restarts
  obtain ⟨x₂, q₂, hcall₂, hout₂⟩ :=
    exists_called (p := { q₁ with aNode := b }) hrestarts₁ hmax₂ hfuel₂
  rw [hcall₂.run] at hrun
  simp only [Option.bind_some] at hrun
  -- the same for the value behind the colon
  have hq₂ : q₂.oom = false := by
    cases x₂ with
    | past z' =>
      exact behind_oom (k := memberParts) (jsonParse_ok fuel).2.2 (by decide) hout₂ hrestarts₁
        (Nat.lt_of_lt_of_le hthis₁ hsize.ge) (by omega) hrun hoom
    | error | closeArray | closeObject =>
      cases hrun
      exact hoom
  have hdepth₂ : q₁.iDepth + m.2.depth ≤ JSON_MAX_DEPTH := by
    rw [hiDepth₁]
    exact hgood.2.2.2.2
  obtain ⟨rfl, hused₂, hiDepth₂⟩ := hv fuel _ tv rest x₂ q₂ hcall₂ htv hrest hdepth₂ hq₂
  refine ⟨{ q₂ with iDepth := q₂.iDepth - 1 }, hrun, ?_, ?_, ?_⟩
  · exact hout₂.advance.zJson.symm ▸ hrestarts₁
  · change q₂.aNode.used = p.aNode.used ++ (markLabel (nodesOf m.1) ++ nodesOf m.2)
    rw [hused₂, hb, hused₁, markLabel_append, List.append_assoc]
  · change q₂.iDepth - 1 = p.iDepth
    rw [hiDepth₂]
    change q₁.iDepth - 1 = p.iDepth
    rw [hiDepth₁]
    rfl

/-- The closing mark of an empty array. -/
theorem empty_array_reached {iThis : Nat} {before : List JsonNode}
    (hcall : LoopCalled arrayLoop fuel iThis p (t ++ rest) x r) (ht : Spaced (mark ']') t)
    (hp : p.iDepth + 1 ≤ JSON_MAX_DEPTH) (hopened : Opened elementParts p iThis before []) :
    Closed elementParts p before [] rest x r := by
  obtain ⟨fuel, rfl⟩ : ∃ n, fuel = n + 2 :=
    Nat.exists_eq_add_of_le' (by have := hcall.enough; omega)
  have hrun := hcall.run
  have hskip : skipSpaces (t ++ rest) = ']'.toUInt8 :: rest := skipSpaces_token ht (by decide) rest
  have hparse (q : JsonParse) :
      jsonParseValue (fuel + 1) q (']'.toUInt8 :: rest) = some (.closeArray, q) := by
    have hskip' : skipSpaces (']'.toUInt8 :: rest) = ']'.toUInt8 :: rest :=
      hskip ▸ skipSpaces_skipSpaces (t ++ rest)
    simp only [jsonParseValue, hskip']
    rfl
  have hnone : p.nNode = iThis + 1 := by
    change p.aNode.used.length = iThis + 1
    rw [hopened.2, ← hopened.1, List.length_append, List.length_singleton]
  have hnone' : ({ p with iDepth := p.iDepth + 1 - 1 } : JsonParse).nNode = iThis + 1 := hnone
  -- no node was added behind the one of the container, so the mark is taken
  simp only [arrayLoop, if_neg (Nat.not_lt_of_le hp), hskip, hparse, Option.bind_some,
    if_pos hnone', List.tail_cons] at hrun
  cases hrun
  exact ⟨rfl, hopened.2, rfl⟩

/-- The closing mark of an empty object. -/
theorem empty_object_reached {iThis : Nat} {before : List JsonNode}
    (hcall : LoopCalled objectLoop fuel iThis p (t ++ rest) x r) (ht : Spaced (mark closeBrace) t)
    (hp : p.iDepth + 1 ≤ JSON_MAX_DEPTH) (hopened : Opened memberParts p iThis before []) :
    Closed memberParts p before [] rest x r := by
  obtain ⟨fuel, rfl⟩ : ∃ n, fuel = n + 2 :=
    Nat.exists_eq_add_of_le' (by have := hcall.enough; omega)
  have hrun := hcall.run
  have hskip : skipSpaces (t ++ rest) = closeBrace.toUInt8 :: rest :=
    skipSpaces_token ht (by decide) rest
  have hparse (q : JsonParse) :
      jsonParseValue (fuel + 1) q (closeBrace.toUInt8 :: rest) = some (.closeObject, q) := by
    have hskip' : skipSpaces (closeBrace.toUInt8 :: rest) = closeBrace.toUInt8 :: rest :=
      hskip ▸ skipSpaces_skipSpaces (t ++ rest)
    simp only [jsonParseValue, hskip']
    rfl
  have hnone : p.nNode = iThis + 1 := by
    change p.aNode.used.length = iThis + 1
    rw [hopened.2, ← hopened.1, List.length_append, List.length_singleton]
  have hnone' : ({ p with iDepth := p.iDepth + 1 - 1 } : JsonParse).nNode = iThis + 1 := hnone
  simp only [objectLoop, if_neg (Nat.not_lt_of_le hp), hskip, hparse, Option.bind_some,
    if_pos hnone', List.tail_cons] at hrun
  cases hrun
  exact ⟨rfl, hopened.2, rfl⟩

/-- The loop over the parts comes to the end of the container. -/
def LoopReached {α : Type} (k : Parts α)
    (loop : Nat → Nat → JsonParse → Bytes → Option (Parsed × JsonParse)) (as : List α) : Prop :=
  ∀ fuel iThis p t rest x r before, LoopCalled loop fuel iThis p (t ++ rest) x r →
    Spaced (commaSeparated (as.map k.tokens) ++ mark k.close) t → p.iDepth + 1 ≤ JSON_MAX_DEPTH →
    (∀ a ∈ as, k.Good (p.iDepth + 1) a) → r.oom = false → Opened k p iThis before [] →
    Closed k p before (as.flatMap k.nodes) rest x r

/-- The node of a container, its opening mark and the loop over its parts. -/
theorem container_reached {α : Type} (k : Parts α)
    (loop : Nat → Nat → JsonParse → Bytes → Option (Parsed × JsonParse)) {c : Char} {as : List α}
    (htokens : v.tokens = mark c ++ (commaSeparated (as.map k.tokens) ++ mark k.close))
    (hnodes : nodesOf v = container k.eType (as.flatMap k.nodes))
    (hgood : ∀ d, d + v.depth ≤ JSON_MAX_DEPTH →
      d + 1 ≤ JSON_MAX_DEPTH ∧ ∀ a ∈ as, k.Good (d + 1) a)
    (hc : isSpace c.toUInt8 = false)
    (hvalue : ∀ fuel p z tail, skipSpaces z = c.toUInt8 :: tail →
      jsonParseValue (fuel + 1) p z = (jsonParseAddNode p k.eType 0 []).bind fun (iThis, p) =>
        match iThis with
        | none => some (.error, p)
        | some iThis => loop fuel iThis p tail)
    (hloop : LoopReached k loop as) : Reached v := by
  intro fuel p t rest x r hcall ht hrest hdepth hoom
  obtain ⟨fuel, rfl⟩ : ∃ n, fuel = n + 1 :=
    Nat.exists_eq_succ_of_ne_zero (by have := hcall.enough; omega)
  rw [htokens] at ht
  obtain ⟨tc, t', rfl, htc, ht'⟩ := ht.split
  have hrun := hcall.run
  have henough := hcall.enough
  have hskip : skipSpaces (tc ++ t' ++ rest) = c.toUInt8 :: (t' ++ rest) := by
    rw [List.append_assoc]
    exact skipSpaces_token htc hc _
  have hlen : 1 ≤ tc.length := by
    obtain ⟨ws, -, rfl⟩ := htc.singleton
    rw [List.length_append]
    exact Nat.le_add_left _ _
  rw [hvalue fuel p _ _ hskip] at hrun
  obtain ⟨i, q, hadd, hadded⟩ := jsonParseAddNode_added p k.eType 0 []
  rw [hadd] at hrun
  simp only [Option.bind_some] at hrun
  rcases hadded.answer with ⟨rfl, hrefused⟩ | ⟨rfl, hused⟩
  · cases hrun
    rw [hoom] at hrefused
    cases hrefused
  · have hinside : p.nNode < q.nNode := by
      change p.aNode.used.length < q.aNode.used.length
      rw [hused, List.length_append]
      exact Nat.lt_succ_self _
    obtain ⟨hmax, hall⟩ := hgood _ hdepth
    have hfuel : 2 * (t' ++ rest).length + 2 ≤ fuel := by
      simp only [List.length_append] at henough ⊢
      omega
    obtain ⟨hx, hclosed, hiDepth⟩ := hloop fuel p.nNode q t' rest x r p.aNode.used
      ⟨hadded.advance.zJson.symm ▸ hcall.restarts, hinside, hfuel, hrun⟩ ht'
      (hadded.iDepth.symm ▸ hmax) (hadded.iDepth.symm ▸ hall) hoom ⟨rfl, hused⟩
    exact ⟨hx, hnodes.symm ▸ hclosed, hiDepth.trans hadded.iDepth⟩

theorem array_reached {vs : List Value} (hproper : ∀ v ∈ vs, Proper EndsInString v)
    (hvs : ∀ v ∈ vs, Reached v) : Reached (.array vs) := by
  refine container_reached elementParts arrayLoop (tokens_array vs) (nodes_array vs)
    (fun d hd => ?_) (by decide) (fun fuel p z tail hskip => ?_) ?_
  · have hpos := depth_array_pos vs
    have hdepth : (Value.array vs).depth ≤ JSON_MAX_DEPTH - (d + 1) + 1 := by omega
    refine ⟨by omega, fun v hv => ⟨hproper v hv, ?_⟩⟩
    have := depth_array_le.mp hdepth v hv
    omega
  · simp only [jsonParseValue, hskip]
    rfl
  · intro fuel iThis p t rest x r before hcall ht hp hgood hoom hopened
    cases vs with
    | nil => exact empty_array_reached hcall ht hp hopened
    | cons v vs =>
      exact parts_reached (k := elementParts) (by decide) ⟨rfl, rfl, by decide⟩
        (fun w hw => element_reached (hvs w hw)) hcall ht hp hgood hoom hopened

theorem object_reached {ms : List (Value × Value)} (hlabel : ∀ m ∈ ms, Proper EndsInString m.1)
    (hok : ∀ m ∈ ms, EndsInString m.1) (hvalue : ∀ m ∈ ms, Proper EndsInString m.2)
    (hls : ∀ m ∈ ms, Reached m.1) (hvs : ∀ m ∈ ms, Reached m.2) : Reached (.object ms) := by
  refine container_reached memberParts objectLoop (tokens_object ms) (nodes_object ms)
    (fun d hd => ?_) (by decide) (fun fuel p z tail hskip => ?_) ?_
  · have hpos := depth_object_pos ms
    have hdepth : (Value.object ms).depth ≤ JSON_MAX_DEPTH - (d + 1) + 1 := by omega
    refine ⟨by omega, fun m hm => ⟨hlabel m hm, hok m hm, hvalue m hm, ?_, ?_⟩⟩
    · have := (depth_object_le.mp hdepth m hm).1
      omega
    · have := (depth_object_le.mp hdepth m hm).2
      omega
  · simp only [jsonParseValue, hskip]
    rfl
  · intro fuel iThis p t rest x r before hcall ht hp hgood hoom hopened
    cases ms with
    | nil => exact empty_object_reached hcall ht hp hopened
    | cons m ms =>
      exact parts_reached (k := memberParts) (by decide) ⟨rfl, rfl, by decide⟩
        (fun n hn => member_reached (hls n hn) (hvs n hn)) hcall ht hp hgood hoom hopened

theorem proper_reached (h : Proper EndsInString v) : Reached v := by
  induction h with
  | null => exact null_reached
  | bool b => exact bool_reached b
  | number h => exact number_reached h
  | string h => exact string_reached h
  | array hproper ih => exact array_reached hproper ih
  | object hlabel hok hvalue ih₁ ih₂ => exact object_reached hlabel hok hvalue ih₁ ih₂

/-! ## Texts -/

/-- The text is one of the value, which is not nested too deep. -/
def Accepted (v : Value) (z : Bytes) : Prop :=
  Document EndsInString v z ∧ v.depth ≤ JSON_MAX_DEPTH

/-- A value starts with none of the marks that stand behind values. -/
theorem tokens_start {ok : Value → Prop} (h : Proper ok v) : ∃ c w ts, v.tokens = (c :: w) :: ts ∧
    isSpace c = false ∧ c ≠ 0 ∧
    c ∉ [','.toUInt8, ':'.toUInt8, ']'.toUInt8, closeBrace.toUInt8] := by
  cases h with
  | null => exact ⟨_, _, [], rfl, by decide, by decide, by decide⟩
  | bool b => cases b <;> exact ⟨_, _, [], rfl, by decide, by decide, by decide⟩
  | string _ => exact ⟨_, _, [], rfl, by decide, by decide, by decide⟩
  | number hw =>
    obtain ⟨c, w, rfl, hc⟩ := first_number hw
    have hall : ∀ c, (c = '-'.toUInt8 ∨ isDigit c = true) → isSpace c = false ∧ c ≠ 0 ∧
        c ∉ [','.toUInt8, ':'.toUInt8, ']'.toUInt8, closeBrace.toUInt8] :=
      fun c => of_decide_eq_true (forall_byte (P := fun c => decide
        ((c = '-'.toUInt8 ∨ isDigit c = true) → isSpace c = false ∧ c ≠ 0 ∧
          c ∉ [','.toUInt8, ':'.toUInt8, ']'.toUInt8, closeBrace.toUInt8])) (by decide +kernel) c)
    exact ⟨c, w, [], rfl, hall c hc⟩
  | array _ => exact ⟨_, _, _, tokens_array _, by decide, by decide, by decide⟩
  | object _ _ _ => exact ⟨_, _, _, tokens_object _, by decide, by decide, by decide⟩

theorem Accepted.restarts (h : Accepted v z) : Restarts z := by
  obtain ⟨⟨hproper, body, ws, rfl, hbody, -⟩, -⟩ := h
  obtain ⟨c, w, ts, htokens, hspace, -, hmark⟩ := tokens_start hproper
  rw [htokens, ← List.singleton_append] at hbody
  obtain ⟨tc, t', rfl, htc, -⟩ := hbody.split
  have hskip : skipSpaces (tc ++ (t' ++ ws)) = c :: (w ++ (t' ++ ws)) :=
    skipSpaces_token htc hspace _
  unfold Restarts
  rw [List.append_assoc, hskip]
  exact hmark

theorem skipSpaces_allSpace {ws : Bytes} (h : AllSpace ws) : skipSpaces ws = [] := by
  have hskip : skipSpaces (ws ++ []) = [] := skipSpaces_append h rfl
  rwa [List.append_nil] at hskip

theorem ends_allSpace {ws : Bytes} (h : AllSpace ws) : Ends (first ws) := by
  cases ws with
  | nil => exact ⟨rfl, rfl, by decide⟩
  | cons c ws => exact ends_of_space (h c (List.mem_cons_self ..))

/-- A text that starts with a mark is no value, and the parser says so at once. -/
theorem jsonParseValue_mark (fuel : Nat) (p : JsonParse) (h : ¬ Restarts z) :
    ∃ x, jsonParseValue (fuel + 1) p z = some (x, p) ∧ ∀ rest, x ≠ .past rest := by
  have hmark := not_not.mp h
  simp only [List.mem_cons, List.not_mem_nil, or_false] at hmark
  rcases hmark with hc | hc | hc | hc
  all_goals
    obtain ⟨tail, hskip⟩ : ∃ tail, skipSpaces z = _ :: tail :=
      ⟨_, eq_cons_of_first (by decide) hc⟩
    simp only [jsonParseValue, hskip]
  · exact ⟨.error, rfl, fun _ h => by cases h⟩
  · exact ⟨.error, rfl, fun _ h => by cases h⟩
  · exact ⟨.closeArray, rfl, fun _ h => by cases h⟩
  · exact ⟨.closeObject, rfl, fun _ h => by cases h⟩

/-- How the call for a whole text ends. -/
theorem parse_text (ctx : sqlite3_context) {z : Bytes} (hz : 0 ∉ z) :
    ∃ x q, jsonParseValue (2 * z.length + 2) (started ctx z) z = some (x, q) ∧
      Advance (started ctx z) q ∧
      (complete z x q = true → ∃ v, Accepted v z) ∧
      ∀ v, Accepted v z → q.oom = false → complete z x q = true ∧ q.aNode.used = nodesOf v := by
  by_cases hrestarts : Restarts z
  swap
  · obtain ⟨x, hrun, hx⟩ := jsonParseValue_mark (2 * z.length + 1) (started ctx z) hrestarts
    refine ⟨x, _, hrun, Advance.refl _, fun hcomplete => ?_,
      fun v hv => absurd hv.restarts hrestarts⟩
    cases x with
    | past rest => exact absurd rfl (hx rest)
    | error | closeObject | closeArray => cases hcomplete
  obtain ⟨x, q, hcall, hout⟩ := exists_called (p := started ctx z) (z := z) hrestarts
    (Nat.zero_le _) (Nat.le_succ _)
  refine ⟨x, q, hcall.run, hout.advance, fun hcomplete => ?_, fun v hv hoom => ?_⟩
  · cases x with
    | error | closeObject | closeArray => cases hcomplete
    | past rest =>
      simp only [complete, Bool.and_eq_true, Bool.not_eq_true', decide_eq_true_eq] at hcomplete
      obtain ⟨⟨hoom, hlt⟩, hend⟩ := hcomplete
      cases hout with
      | atEnd _ => exact absurd hlt (Nat.lt_irrefl _)
      | past _ _ hreads =>
        obtain ⟨v, hv⟩ := hreads hoom
        obtain ⟨t, heq, ht⟩ := hv.text
        obtain ⟨ws, hws, hrest⟩ := exists_skipSpaces rest
        have hnil : skipSpaces rest = [] := by
          cases hskip : skipSpaces rest with
          | nil => rfl
          | cons c tail =>
            -- the byte behind the white space would be a NUL
            rw [hskip] at hend hrest
            obtain rfl : c = 0 := hend
            exact absurd (by rw [heq, hrest]; simp) hz
        rw [hnil, List.append_nil] at hrest
        have hdepth := hv.depth
        rw [show (started ctx z).iDepth = 0 from rfl, Nat.zero_add] at hdepth
        exact ⟨v, ⟨hv.proper, t, rest, heq, ht, hrest ▸ hws⟩, hdepth⟩
  · obtain ⟨⟨hproper, body, ws, heq, hbody, hws⟩, hdepth⟩ := hv
    have hcall' : Called (2 * z.length + 2) (started ctx z) (body ++ ws) x q := heq ▸ hcall
    obtain ⟨rfl, hused, -⟩ := proper_reached hproper _ _ body ws x q hcall' hbody
      (ends_allSpace hws) ((Nat.zero_add _).symm ▸ hdepth) hoom
    refine ⟨?_, hused⟩
    obtain ⟨c, w, ts, htokens, -⟩ := tokens_start hproper
    rw [htokens] at hbody
    have hpos : 0 < body.length := by
      cases hbody with
      | cons _ _ =>
        simp only [List.length_append, List.length_cons]
        omega
    simp only [complete, hoom, skipSpaces_allSpace hws, heq, List.length_append, Bool.and_eq_true,
      Bool.not_false, decide_eq_true_eq, true_and]
    exact ⟨by omega, rfl⟩

theorem zero_notMem_cString (z : Bytes) : 0 ∉ cString z := by
  intro h
  have hne := List.mem_takeWhile_imp h
  exact of_decide_eq_true hne rfl

/-- How `jsonParse` ends for a text, and what it reports. -/
inductive ParseResult (ctx : sqlite3_context) (report : Bool) (z : Bytes) :
    Bool → JsonParse → sqlite3_context → Prop
  | accepted {p : JsonParse} {ctx' : sqlite3_context} (haccepted : ∃ v, Accepted v z)
      (hnodes : ∀ v, Accepted v z → p.aNode.used = nodesOf v)
      (hresult : ctx'.result = ctx.result) : ParseResult ctx report z false p ctx'
  | malformed {p : JsonParse} {ctx' : sqlite3_context} (hnone : ∀ v, ¬ Accepted v z)
      (hreset : p.aNode = Buffer.empty 0)
      (hresult : ctx'.result = if report then some (.error malformedMessage) else ctx.result) :
      ParseResult ctx report z true p ctx'
  | nomem {p : JsonParse} {ctx' : sqlite3_context} (hrefused : false ∈ p.answers)
      (hreset : p.aNode = Buffer.empty 0)
      (hresult : ctx'.result = if report then some .nomem else ctx.result) :
      ParseResult ctx report z true p ctx'

theorem jsonParse_result (ctx : sqlite3_context) (report : Bool) (z : Bytes) :
    ∃ rc p ctx', jsonParse ctx report (some z) = some (rc, p, ctx') ∧
      ParseResult ctx report (cString z) rc p ctx' ∧
      (ctx.Generous → ctx'.Generous ∧ false ∉ p.answers) := by
  obtain ⟨x, q, hrun, hadv, hsound, hcomplete⟩ := parse_text ctx (zero_notMem_cString z)
  have hasked : false ∈ q.answers ↔ q.oom = true := by
    refine hadv.refused ?_
    change false ∈ [] ↔ false = true
    simp
  have hgen (h : ctx.Generous) : (∀ n, q.malloc n = true) ∧ false ∉ q.answers := by
    refine ⟨(hadv.generous h).1, ?_⟩
    rw [hasked, (hadv.generous h).2 rfl]
    decide
  simp only [jsonParse, hrun, Option.map_some]
  by_cases hdone : complete (cString z) x q = true
  · rw [if_pos hdone]
    have hoom : q.oom = false := by
      cases x with
      | past rest =>
        simp only [complete, Bool.and_eq_true, Bool.not_eq_true'] at hdone
        exact hdone.1.1
      | error | closeObject | closeArray => cases hdone
    have hnodes : ∀ v, Accepted v (cString z) → q.aNode.used = nodesOf v := fun v hv =>
      (hcomplete v hv hoom).2
    exact ⟨_, _, _, rfl, ParseResult.accepted (hsound hdone) hnodes rfl, hgen⟩
  · rw [if_neg hdone]
    have hnone (hoom : q.oom = false) (v : Value) : ¬ Accepted v (cString z) :=
      fun hv => hdone (hcomplete v hv hoom).1
    cases hoom : q.oom with
    | false =>
      cases report with
      | false => exact ⟨_, _, _, rfl, ParseResult.malformed (hnone hoom) rfl rfl, hgen⟩
      | true => exact ⟨_, _, _, rfl, ParseResult.malformed (hnone hoom) rfl rfl, hgen⟩
    | true =>
      have hrefused : false ∈ q.answers := hasked.mpr hoom
      cases report with
      | false => exact ⟨_, _, _, rfl, ParseResult.nomem hrefused rfl rfl, hgen⟩
      | true => exact ⟨_, _, _, rfl, ParseResult.nomem hrefused rfl rfl, hgen⟩

theorem accepted_of_standard (h : Document IsString v z) (hdepth : v.depth ≤ JSON_MAX_DEPTH) :
    Accepted v z :=
  ⟨⟨h.1.mono fun _ => endsInString_of_isString, h.2⟩, hdepth⟩

/-- `jsonParse` accepts the documents up to the first NUL that are not nested too deep, and no other
text; the nodes are those of the value. It reports a refused allocation only when one that it asked
for was refused. -/
theorem jsonParse_accepts (ctx : sqlite3_context) (report : Bool) (z : Bytes) :
    ∃ rc p ctx', jsonParse ctx report (some z) = some (rc, p, ctx') ∧
      (rc = false → (∃ v, Accepted v (cString z)) ∧
        (∀ v, Accepted v (cString z) → p.aNode.used = nodesOf v) ∧ ctx'.result = ctx.result) ∧
      (rc = true → p.aNode = Buffer.empty 0 ∧ (report = false → ctx'.result = ctx.result) ∧
        (report = true → ctx'.result = some (.error malformedMessage) ∧
            (∀ v, ¬ Accepted v (cString z)) ∨
          ctx'.result = some .nomem ∧ false ∈ p.answers)) ∧
      (false ∉ p.answers → (rc = false ↔ ∃ v, Accepted v (cString z))) ∧
      (ctx.Generous → ctx'.Generous ∧ false ∉ p.answers) ∧
      ∀ v, Document IsString v (cString z) → v.depth ≤ JSON_MAX_DEPTH →
        Accepted v (cString z) := by
  obtain ⟨rc, p, ctx', hrun, hresult, hgenerous⟩ := jsonParse_result ctx report z
  refine ⟨rc, p, ctx', hrun, ?_, ?_, fun hasked => ?_, hgenerous, fun v => accepted_of_standard⟩
  · rintro rfl
    cases hresult with
    | accepted haccepted hnodes hkept => exact ⟨haccepted, hnodes, hkept⟩
  · rintro rfl
    cases hresult with
    | malformed hnone hreset hreported =>
      refine ⟨hreset, ?_, ?_⟩
      · rintro rfl
        exact hreported
      · rintro rfl
        exact Or.inl ⟨hreported, hnone⟩
    | nomem hrefused hreset hreported =>
      refine ⟨hreset, ?_, ?_⟩
      · rintro rfl
        exact hreported
      · rintro rfl
        exact Or.inr ⟨hreported, hrefused⟩
  · cases hresult with
    | accepted haccepted _ _ => exact ⟨fun _ => haccepted, fun _ => rfl⟩
    | malformed hnone _ _ =>
      refine ⟨fun h => ?_, fun ⟨v, hv⟩ => absurd hv (hnone v)⟩
      cases h
    | nomem hrefused _ _ => exact absurd hrefused hasked

/-- More than the standard: an object with the label `["a"]`. -/
example : (jsonParse ⟨fun _ => true, none, false⟩ true
    (some [0x7b, 0x5b, 0x22, 0x61, 0x22, 0x5d, 0x3a, 0x31, 0x7d])).map Prod.fst = some false := by
  decide +kernel

end

end PetProject.Json1
