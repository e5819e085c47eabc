import PetProject.Json1.Scanning

/-!
# What the parser reads

A text that the parser accepts is that of a value, and the array of nodes is that of the value
(`nodesOf`). `jsonParse_ok` says so of each function of the recursion, by induction on the fuel:
`Outcome` is how a call of `jsonParseValue` ends, under any allocator, and `LoopOutcome` how a loop
over the parts of an array or an object does.

The parser takes more than the standard for the label of a member: any value whose last node is a
string (`EndsInString`), such as `["a"]`.
-/

set_option autoImplicit false

namespace PetProject.Json1

open PetProject.Foundation.GrowingBuffer PetProject.Foundation.JsonGrammar
open PetProject.Foundation.TextSearch PetProject.Foundation.JsonText

/-! ## The nodes of a value -/

/-- The node of an array or an object, and the nodes of its parts. -/
def container (eType : JsonType) (nodes : List JsonNode) : List JsonNode :=
  ⟨eType, 0, nodes.length, []⟩ :: nodes

/-- `pParse->aNode[pParse->nNode-1].jnFlags |= JNODE_LABEL`. -/
def markLabel (nodes : List JsonNode) : List JsonNode :=
  nodes.modify (nodes.length - 1) fun node => { node with jnFlags := node.jnFlags ||| JNODE_LABEL }

def nodesAlgebra : Algebra (List JsonNode) where
  null := [⟨.JSON_NULL, 0, 0, []⟩]
  bool b := [⟨if b then .JSON_TRUE else .JSON_FALSE, 0, 0, []⟩]
  number z := [⟨if isReal z then .JSON_REAL else .JSON_INT, 0, z.length, z⟩]
  string s := [⟨.JSON_STRING, flagsOf 0 s, (stringToken s).length, stringToken s⟩]
  array items := container .JSON_ARRAY items.flatten
  object members := container .JSON_OBJECT (members.flatMap fun m => markLabel m.1 ++ m.2)

def nodesOf (v : Value) : List JsonNode := v.fold nodesAlgebra

def memberNodes (m : Value × Value) : List JsonNode := markLabel (nodesOf m.1) ++ nodesOf m.2

theorem nodes_array (items : List Value) :
    nodesOf (.array items) = container .JSON_ARRAY (items.flatMap nodesOf) :=
  fold_array nodesAlgebra items

theorem nodes_object (members : List (Value × Value)) :
    nodesOf (.object members) = container .JSON_OBJECT (members.flatMap memberNodes) := by
  refine (fold_object nodesAlgebra members).trans ?_
  change container .JSON_OBJECT (List.flatMap _ (List.map _ members)) = _
  rw [List.flatMap_map]
  rfl

/-- The value may be the label of a member: its last node is a string. -/
def EndsInString (v : Value) : Prop :=
  ∃ node, (nodesOf v)[(nodesOf v).length - 1]? = some node ∧ node.eType = .JSON_STRING

theorem endsInString_of_isString {v : Value} (h : IsString v) : EndsInString v := by
  obtain ⟨s, rfl⟩ := h
  exact ⟨_, rfl, rfl⟩

section

variable {p q r : JsonParse} {v : Value} {z rest : Bytes} {x : Parsed}

/-! ## White space -/

theorem exists_skipSpaces (z : Bytes) : ∃ ws, AllSpace ws ∧ z = ws ++ skipSpaces z := by
  refine ⟨z.takeWhile safe_isspace, fun c hc => ?_, List.takeWhile_append_dropWhile.symm⟩
  rw [← safe_isspace_eq]
  exact List.mem_takeWhile_imp hc

theorem skipSpaces_append {ws : Bytes} (hws : AllSpace ws) (hz : isSpace (first z) = false) :
    skipSpaces (ws ++ z) = z := by
  induction ws with
  | nil =>
    cases z with
    | nil => rfl
    | cons c z =>
      refine List.dropWhile_cons_of_neg ?_
      rw [safe_isspace_eq]
      exact Bool.eq_false_iff.mp hz
  | cons c ws ih =>
    obtain ⟨hc, hws⟩ := List.forall_mem_cons.mp hws
    refine Eq.trans (List.dropWhile_cons_of_pos ?_) (ih hws)
    rwa [safe_isspace_eq]

theorem eq_cons_of_first {c : UInt8} (hc : c ≠ 0) (h : first z = c) : z = c :: z.tail := by
  cases z with
  | nil => exact absurd h.symm hc
  | cons d z => exact congrArg (· :: z) h

/-! ## Nodes -/

/-- What every function keeps. -/
structure Advance (p q : JsonParse) : Prop where
  zJson : q.zJson = p.zJson
  oom : q.oom = false → p.oom = false
  size : p.nNode ≤ q.nNode
  generous : (∀ n, p.malloc n = true) →
    (∀ n, q.malloc n = true) ∧ (p.oom = false → q.oom = false)
  refused : (false ∈ p.answers ↔ p.oom = true) → (false ∈ q.answers ↔ q.oom = true)

theorem Advance.refl (p : JsonParse) : Advance p p :=
  ⟨rfl, id, Nat.le_refl _, fun h => ⟨h, id⟩, id⟩

theorem Advance.trans (h : Advance p q) (h' : Advance q r) : Advance p r where
  zJson := h'.zJson.trans h.zJson
  oom hr := h.oom (h'.oom hr)
  size := Nat.le_trans h.size h'.size
  generous hg :=
    ⟨(h'.generous (h.generous hg).1).1,
      fun hp => (h'.generous (h.generous hg).1).2 ((h.generous hg).2 hp)⟩
  refused := h'.refused ∘ h.refused

/-- The nesting depth and the nodes do not matter. -/
theorem Advance.of_size {iDepth : Nat} {aNode : Buffer JsonNode} (h : p.nNode ≤ aNode.size) :
    Advance p { p with aNode := aNode, iDepth := iDepth } :=
  ⟨rfl, id, h, fun h => ⟨h, id⟩, id⟩

theorem update_eq_some {i : Nat} (f : JsonNode → JsonNode) (h : i < p.nNode) :
    ∃ b : Buffer JsonNode, p.update i f = some { p with aNode := b } ∧
      b.used = p.aNode.used.modify i f ∧ b.size = p.nNode := by
  obtain ⟨b, hb, hused, -⟩ := Buffer.modify_eq_some f h
  refine ⟨b, ?_, hused, ?_⟩
  · unfold JsonParse.update
    rw [hb]
    rfl
  · unfold Buffer.size JsonParse.nNode
    rw [hused, List.length_modify]
    rfl

theorem store_eq_some (node : JsonNode) (h : p.nNode < p.nAlloc) :
    ∃ b : Buffer JsonNode, p.store node = some (some p.nNode, { p with aNode := b }) ∧
      b.used = p.aNode.used ++ [node] := by
  obtain ⟨b, hb, hused, -⟩ := Buffer.put_eq_some (x := node) h
  refine ⟨b, ?_, hused⟩
  unfold JsonParse.store
  rw [hb]
  rfl

/-- How an attempt to add a node ends. -/
structure Added (p : JsonParse) (node : JsonNode) (i : Option Nat) (q : JsonParse) : Prop where
  advance : Advance p q
  iDepth : q.iDepth = p.iDepth
  answer : i = none ∧ q.oom = true ∨
    i = some p.nNode ∧ q.aNode.used = p.aNode.used ++ [node]

theorem store_added (node : JsonNode) (h : p.nNode < p.nAlloc) :
    ∃ i q, p.store node = some (i, q) ∧ Added p node i q := by
  obtain ⟨b, hstore, hused⟩ := store_eq_some node h
  refine ⟨_, _, hstore, Advance.of_size ?_, rfl, Or.inr ⟨rfl, hused⟩⟩
  unfold Buffer.size
  rw [hused, List.length_append]
  exact Nat.le_add_right _ _

theorem jsonParseAddNode_added (p : JsonParse) (eType : JsonType) (n : Nat) (zContent : Bytes) :
    ∃ i q, jsonParseAddNode p eType n zContent = some (i, q) ∧
      Added p ⟨eType, 0, n, zContent⟩ i q := by
  unfold jsonParseAddNode
  by_cases hfull : p.nAlloc ≤ p.nNode
  · rw [if_pos hfull]
    unfold jsonParseAddNodeExpand
    by_cases hoom : p.oom = true
    · rw [if_pos hoom]
      exact ⟨none, p, rfl, Advance.refl p, rfl, Or.inl ⟨rfl, hoom⟩⟩
    · rw [if_neg hoom]
      by_cases hmalloc : p.malloc 0 = true
      · -- the larger array holds the same nodes
        have hfits : p.nNode ≤ p.nAlloc := p.aNode.fits
        have hused : (p.aNode.resize (p.nAlloc * 2 + 10)).used = p.aNode.used :=
          Buffer.resize_used (show p.nAlloc ≤ p.nAlloc * 2 + 10 by omega)
        let asked : JsonParse := { p with
          malloc := fun n => p.malloc (n + 1)
          answers := p.answers ++ [p.malloc 0]
          aNode := p.aNode.resize (p.nAlloc * 2 + 10) }
        have hsize : asked.nNode = p.nNode := congrArg List.length hused
        have hasked : false ∈ asked.answers ↔ false ∈ p.answers := by
          change false ∈ p.answers ++ [p.malloc 0] ↔ _
          simp [hmalloc]
        have hadv : Advance p asked :=
          ⟨rfl, id, hsize.ge, fun h => ⟨fun n => h (n + 1), id⟩, hasked.trans⟩
        have hroom : asked.nNode < asked.nAlloc := by
          rw [hsize]
          change p.nNode < p.nAlloc * 2 + 10
          omega
        obtain ⟨i, q, hstore, hadded⟩ := store_added ⟨eType, 0, n, zContent⟩ hroom
        rw [if_pos hmalloc]
        refine ⟨i, q, hstore, hadv.trans hadded.advance, hadded.iDepth, ?_⟩
        refine hadded.answer.imp id fun ⟨hi, hq⟩ => ⟨hi.trans (congrArg some hsize), hq.trans ?_⟩
        exact congrArg (· ++ _) hused
      · simp only [hmalloc]
        refine ⟨none, _, rfl, ⟨rfl, fun h => ?_, Nat.le_refl _, fun h => absurd (h 0) hmalloc,
          fun _ => ⟨fun _ => rfl, fun _ => ?_⟩⟩, rfl, Or.inl ⟨rfl, rfl⟩⟩
        · cases h
        · simp
  · rw [if_neg hfull]
    exact store_added _ (Nat.lt_of_not_le hfull)

/-! ## What is read is a value -/

/-- The value was read from the text in front of `rest`. -/
structure Reads (p : JsonParse) (z : Bytes) (v : Value) (rest : Bytes) (q : JsonParse) : Prop where
  text : ∃ t, z = t ++ rest ∧ Spaced v.tokens t
  proper : Proper EndsInString v
  nodes : q.aNode.used = p.aNode.used ++ nodesOf v
  iDepth : q.iDepth = p.iDepth
  depth : p.iDepth + v.depth ≤ JSON_MAX_DEPTH

/-- How a call of `jsonParseValue` ends. -/
inductive Outcome (p : JsonParse) (z : Bytes) : Parsed → JsonParse → Prop
  | atEnd (h : first (skipSpaces z) = 0) : Outcome p z (.past p.zJson) p
  | past {rest : Bytes} {q : JsonParse} (hadv : Advance p q) (hlt : rest.length < z.length)
      (hreads : q.oom = false → ∃ v, Reads p z v rest q) : Outcome p z (.past rest) q
  | error {q : JsonParse} (hadv : Advance p q) : Outcome p z .error q
  | closeObject (h : first (skipSpaces z) = closeBrace.toUInt8) : Outcome p z .closeObject p
  | closeArray (h : first (skipSpaces z) = ']'.toUInt8) : Outcome p z .closeArray p

theorem Outcome.advance (h : Outcome p z x q) : Advance p q := by
  cases h with
  | past hadv _ _ | error hadv => exact hadv
  | atEnd _ | closeObject _ | closeArray _ => exact Advance.refl p

theorem Added.nodes {i : Option Nat} {node : JsonNode} (h : Added p node i q)
    (hoom : q.oom = false) : i = some p.nNode ∧ q.aNode.used = p.aNode.used ++ [node] := by
  rcases h.answer with ⟨-, hnone⟩ | h
  · rw [hoom] at hnone
    cases hnone
  · exact h

/-- The nodes of the value are added. -/
structure Adds (p : JsonParse) (v : Value) (q : JsonParse) : Prop where
  advance : Advance p q
  iDepth : q.iDepth = p.iDepth
  nodes : q.oom = false → q.aNode.used = p.aNode.used ++ nodesOf v

/-- The value is one token behind white space. -/
theorem outcome_of_token {t : Bytes} (ht : t ≠ []) (hz : skipSpaces z = t ++ rest)
    (htokens : v.tokens = [t]) (hproper : Proper EndsInString v) (hdepth : v.depth = 0)
    (hp : p.iDepth ≤ JSON_MAX_DEPTH) (hadds : Adds p v q) : Outcome p z (.past rest) q := by
  obtain ⟨ws, hws, hspaces⟩ := exists_skipSpaces z
  rw [hz, ← List.append_assoc] at hspaces
  refine Outcome.past hadds.advance ?_ fun hoom =>
    ⟨v, ⟨⟨ws ++ t, hspaces, htokens ▸ Spaced.one hws⟩, hproper, hadds.nodes hoom, hadds.iDepth,
      by rwa [hdepth]⟩⟩
  have hpos := List.length_pos_of_ne_nil ht
  rw [hspaces, List.length_append, List.length_append]
  omega

theorem isName_sound {name : Bytes} (h : isName name z = true) :
    z = name ++ z.drop name.length := by
  have htake : z.take name.length = name := by
    unfold isName at h
    exact of_decide_eq_true (Bool.and_eq_true_iff.mp h).1
  conv_lhs => rw [← List.take_append_drop name.length z, htake]

theorem parseName_adds {eType : JsonType} (hnode : nodesOf v = [⟨eType, 0, 0, []⟩])
    (p : JsonParse) (rest : Bytes) :
    ∃ q, parseName p eType rest = some (.past rest, q) ∧ Adds p v q := by
  obtain ⟨i, q, hadd, hadded⟩ := jsonParseAddNode_added p eType 0 []
  refine ⟨q, ?_, hadded.advance, hadded.iDepth, fun hoom => hnode ▸ (hadded.nodes hoom).2⟩
  unfold parseName
  rw [hadd]
  rfl

theorem parseName_outcome {name : Bytes} {eType : JsonType} (hne : name ≠ [])
    (hname : isName name (skipSpaces z) = true) (htokens : v.tokens = [name])
    (hproper : Proper EndsInString v) (hnode : nodesOf v = [⟨eType, 0, 0, []⟩])
    (hdepth : v.depth = 0) (hp : p.iDepth ≤ JSON_MAX_DEPTH) :
    ∃ x q, parseName p eType ((skipSpaces z).drop name.length) = some (x, q) ∧
      Outcome p z x q := by
  obtain ⟨q, hparse, hadds⟩ := parseName_adds hnode p ((skipSpaces z).drop name.length)
  exact ⟨_, q, hparse, outcome_of_token hne (isName_sound hname) htokens hproper hdepth hp hadds⟩

/-- The bytes between a place and a later one. -/
theorem addContent_added (p : JsonParse) (eType : JsonType) (t rest : Bytes) :
    ∃ i q, addContent p eType (t ++ rest) rest = some (i, q) ∧
      Added p ⟨eType, 0, t.length, t⟩ i q := by
  unfold addContent
  have hlen : (t ++ rest).length - rest.length = t.length := by
    rw [List.length_append, Nat.add_sub_cancel]
  rw [hlen, List.take_left]
  exact jsonParseAddNode_added ..

theorem parseNumber_adds {w : Bytes} (hscan : scanNumber (w ++ rest) = some (isReal w, rest))
    (p : JsonParse) :
    ∃ q, parseNumber p (w ++ rest) = some (.past rest, q) ∧ Adds p (.number w) q := by
  obtain ⟨i, q, hadd, hadded⟩ :=
    addContent_added p (if isReal w then .JSON_REAL else .JSON_INT) w rest
  refine ⟨q, ?_, hadded.advance, hadded.iDepth, fun hoom => (hadded.nodes hoom).2⟩
  unfold parseNumber
  rw [hscan]
  simp only [hadd, Option.map_some]

theorem parseNumber_outcome
    (hz : first (skipSpaces z) = '-'.toUInt8 ∨ isDigit (first (skipSpaces z)) = true)
    (hp : p.iDepth ≤ JSON_MAX_DEPTH) :
    ∃ x q, parseNumber p (skipSpaces z) = some (x, q) ∧ Outcome p z x q := by
  cases hscan : scanNumber (skipSpaces z) with
  | none =>
    refine ⟨_, _, ?_, Outcome.error (Advance.refl p)⟩
    unfold parseNumber
    rw [hscan]
  | some number =>
    obtain ⟨seenDP, rest⟩ := number
    obtain ⟨w, hw, heq, rfl⟩ := scanNumber_sound hscan hz
    rw [heq] at hscan
    obtain ⟨q, hparse, hadds⟩ := parseNumber_adds hscan p
    rw [heq]
    exact ⟨_, q, hparse, outcome_of_token hw.ne_nil heq rfl (Proper.number hw) rfl hp hadds⟩

theorem stringToken_append (s rest : Bytes) :
    stringToken s ++ rest = quotationMark.toUInt8 :: (s ++ quotationMark.toUInt8 :: rest) := by
  simp only [stringToken, List.cons_append, List.append_assoc, List.nil_append]

theorem parseString_adds {s : Bytes} (hs : Chars s) (p : JsonParse) (rest : Bytes) :
    ∃ q, parseString p (stringToken s ++ rest) = some (.past rest, q) ∧ Adds p (.string s) q := by
  obtain ⟨i, q, hadd, hadded⟩ := addContent_added p .JSON_STRING (stringToken s) rest
  have hloop : stringLoop 0 (stringToken s ++ rest).tail = some (flagsOf 0 s, rest) := by
    rw [stringToken_append]
    exact stringLoop_complete hs 0 rest
  unfold parseString
  simp only [hloop, hadd, Option.bind_some]
  by_cases hoom : q.oom = true
  · rw [if_pos hoom]
    exact ⟨q, rfl, hadded.advance, hadded.iDepth, fun h => absurd hoom (Bool.eq_false_iff.mp h)⟩
  · rw [if_neg hoom]
    obtain ⟨-, hused⟩ := hadded.nodes (Bool.eq_false_iff.mpr hoom)
    have hlast : q.nNode - 1 < q.nNode := by
      change q.aNode.used.length - 1 < q.aNode.used.length
      rw [hused, List.length_append]
      exact Nat.lt_succ_self _
    obtain ⟨b, hupdate, hb, hsize⟩ :=
      update_eq_some (fun node => { node with jnFlags := flagsOf 0 s }) hlast
    rw [hupdate]
    refine ⟨_, rfl, hadded.advance.trans (Advance.of_size hsize.ge), hadded.iDepth, fun _ => ?_⟩
    change b.used = _
    rw [hb]
    change q.aNode.used.modify (q.aNode.used.length - 1) _ = _
    rw [hused, modify_append_last _ (List.cons_ne_nil _ _)]
    rfl

theorem parseString_outcome (hz : first (skipSpaces z) = quotationMark.toUInt8)
    (hp : p.iDepth ≤ JSON_MAX_DEPTH) :
    ∃ x q, parseString p (skipSpaces z) = some (x, q) ∧ Outcome p z x q := by
  cases hloop : stringLoop 0 (skipSpaces z).tail with
  | none =>
    refine ⟨_, _, ?_, Outcome.error (Advance.refl p)⟩
    unfold parseString
    rw [hloop]
  | some string =>
    obtain ⟨jnFlags, rest⟩ := string
    obtain ⟨s, hs, htail, rfl⟩ := stringLoop_sound hloop
    have heq : skipSpaces z = stringToken s ++ rest := by
      rw [eq_cons_of_first (by decide) hz, htail, stringToken_append]
    obtain ⟨q, hparse, hadds⟩ := parseString_adds hs p rest
    rw [heq]
    exact ⟨_, q, hparse, outcome_of_token (List.cons_ne_nil _ _) heq rfl (Proper.string hs) rfl hp
      hadds⟩

/-! ### Arrays and objects -/

/-- The text starts with none of the marks behind a value, so that a container does not go on where
the text starts. -/
def Restarts (zJson : Bytes) : Prop :=
  first (skipSpaces zJson) ∉ [','.toUInt8, ':'.toUInt8, ']'.toUInt8, closeBrace.toUInt8]

theorem isSpace_first_skipSpaces (z : Bytes) : isSpace (first (skipSpaces z)) = false := by
  induction z with
  | nil => rfl
  | cons c z ih =>
    by_cases hc : safe_isspace c = true
    · rwa [skipSpaces, List.dropWhile_cons_of_pos hc]
    · rw [skipSpaces, List.dropWhile_cons_of_neg hc, ← safe_isspace_eq]
      exact Bool.eq_false_iff.mpr hc

theorem skipSpaces_skipSpaces (z : Bytes) : skipSpaces (skipSpaces z) = skipSpaces z := by
  have hnone : AllSpace [] := fun _ h => absurd h List.not_mem_nil
  exact skipSpaces_append hnone (isSpace_first_skipSpaces z)

theorem jsonParseValue_skipSpaces (fuel : Nat) (p : JsonParse) (z : Bytes) :
    jsonParseValue fuel p (skipSpaces z) = jsonParseValue fuel p z := by
  cases fuel with
  | zero => rfl
  | succ fuel => rw [jsonParseValue, jsonParseValue, skipSpaces_skipSpaces]

/-- A mark behind white space. -/
theorem spaced_mark {c : Char} (hc : c.toUInt8 ≠ 0) (h : first (skipSpaces z) = c.toUInt8) :
    ∃ t, z = t ++ (skipSpaces z).tail ∧ Spaced (mark c) t ∧
      (skipSpaces z).tail.length < z.length := by
  obtain ⟨ws, hws, hz⟩ := exists_skipSpaces z
  have hcons := eq_cons_of_first hc h
  have hz' : z = (ws ++ [c.toUInt8]) ++ (skipSpaces z).tail := by
    rw [List.append_assoc, List.singleton_append, ← hcons]
    exact hz
  refine ⟨ws ++ [c.toUInt8], hz', Spaced.one hws, ?_⟩
  have hlen := congrArg List.length hz'
  rw [List.length_append, List.length_append, List.length_singleton] at hlen
  omega

theorem closeContainer_fills {iThis : Nat} (hthis : iThis < p.nNode) (rest : Bytes) :
    ∃ q, closeContainer iThis p rest = some (.past rest, q) ∧ Advance p q ∧ q.iDepth = p.iDepth ∧
      q.oom = p.oom ∧ ∀ before eType nodes, before.length = iThis →
        p.aNode.used = before ++ ⟨eType, 0, 0, []⟩ :: nodes →
        q.aNode.used = before ++ container eType nodes := by
  unfold closeContainer
  obtain ⟨b, hupdate, hb, hsize⟩ :=
    update_eq_some (fun node => { node with n := p.nNode - iThis - 1 }) hthis
  rw [hupdate]
  refine ⟨_, rfl, Advance.of_size hsize.ge, rfl, rfl, ?_⟩
  rintro before eType nodes rfl hused
  have hn : p.nNode - before.length - 1 = nodes.length := by
    change p.aNode.used.length - before.length - 1 = nodes.length
    rw [hused, List.length_append, List.length_cons]
    omega
  change b.used = _
  rw [hb, hused, hn]
  exact modify_append before (⟨eType, 0, 0, []⟩ :: nodes) 0 _

/-- The parts of arrays or of objects: their tokens, their nodes, and which of them are read at a
nesting depth. -/
structure Parts (α : Type) where
  eType : JsonType
  close : Char
  tokens : α → Tokens
  nodes : α → List JsonNode
  Good : Nat → α → Prop
  nodes_ne_nil : ∀ a, nodes a ≠ []

theorem nodesOf_ne_nil (v : Value) : nodesOf v ≠ [] := by
  cases v <;> exact List.cons_ne_nil _ _

theorem memberNodes_ne_nil (m : Value × Value) : memberNodes m ≠ [] :=
  fun h => nodesOf_ne_nil m.2 (List.append_eq_nil_iff.mp h).2

def elementParts : Parts Value where
  eType := .JSON_ARRAY
  close := ']'
  tokens := Value.tokens
  nodes := nodesOf
  Good d v := Proper EndsInString v ∧ d + v.depth ≤ JSON_MAX_DEPTH
  nodes_ne_nil := nodesOf_ne_nil

def memberParts : Parts (Value × Value) where
  eType := .JSON_OBJECT
  close := closeBrace
  tokens := tokensOfMember
  nodes := memberNodes
  Good d m := Proper EndsInString m.1 ∧ EndsInString m.1 ∧ Proper EndsInString m.2 ∧
    d + m.1.depth ≤ JSON_MAX_DEPTH ∧ d + m.2.depth ≤ JSON_MAX_DEPTH
  nodes_ne_nil := memberNodes_ne_nil

section Containers

variable {α : Type} (k : Parts α) {a : α} {iThis : Nat}

/-- A part of a container was read. -/
structure ReadsPart (p : JsonParse) (z : Bytes) (a : α) (rest : Bytes) (q : JsonParse) : Prop where
  text : ∃ t, z = t ++ rest ∧ Spaced (k.tokens a) t
  nodes : q.aNode.used = p.aNode.used ++ k.nodes a
  iDepth : q.iDepth = p.iDepth
  good : k.Good (p.iDepth + 1) a

/-- The parts `as` were read behind parts with the nodes `done`, and the container is closed. -/
structure ReadsParts (p : JsonParse) (z : Bytes) (before done : List JsonNode) (as : List α)
    (rest : Bytes) (q : JsonParse) : Prop where
  text : ∃ t, z = t ++ rest ∧ Spaced (commaSeparated (as.map k.tokens) ++ mark k.close) t
  nodes : q.aNode.used = before ++ container k.eType (done ++ as.flatMap k.nodes)
  iDepth : q.iDepth = p.iDepth
  depth : p.iDepth + 1 ≤ JSON_MAX_DEPTH
  empty : as = [] → done = []
  good : ∀ a ∈ as, k.Good (p.iDepth + 1) a

/-- The nodes behind which the parts of the container `iThis` are added. -/
def Opened (p : JsonParse) (iThis : Nat) (before done : List JsonNode) : Prop :=
  before.length = iThis ∧ p.aNode.used = before ++ ⟨k.eType, 0, 0, []⟩ :: done

/-- How a loop over the parts of the container `iThis` ends. -/
inductive LoopOutcome (iThis : Nat) (p : JsonParse) (z : Bytes) : Parsed → JsonParse → Prop
  | past {rest : Bytes} {q : JsonParse} (hadv : Advance p q) (hlt : rest.length < z.length)
      (hreads : q.oom = false → ∀ before done, Opened k p iThis before done →
        ∃ as, ReadsParts k p z before done as rest q) : LoopOutcome iThis p z (.past rest) q
  | error {q : JsonParse} (hadv : Advance p q) : LoopOutcome iThis p z .error q

/-- The loop behind a part: at a comma it goes on, at the closing mark it ends. -/
def behind (loop : JsonParse → Bytes → Option (Parsed × JsonParse)) (iThis : Nat) (q : JsonParse)
    (rest : Bytes) : Option (Parsed × JsonParse) :=
  if first (skipSpaces rest) = ','.toUInt8 then loop q (skipSpaces rest).tail
  else if first (skipSpaces rest) ≠ k.close.toUInt8 then some (.error, q)
  else closeContainer iThis q (skipSpaces rest).tail

variable {k}

/-- The container has no parts. -/
theorem ReadsParts.none {before done : List JsonNode} {t : Bytes}
    (hopened : Opened k p iThis before done) (hnone : p.nNode = iThis + 1)
    (hz : z = t ++ rest) (ht : Spaced (mark k.close) t)
    (hp : p.iDepth + 1 ≤ JSON_MAX_DEPTH) (hnodes : q.aNode.used = p.aNode.used)
    (hiDepth : q.iDepth = p.iDepth) : ReadsParts k p z before done [] rest q := by
  obtain ⟨rfl, hused⟩ := hopened
  have hdone : done = [] := by
    have hlen : p.aNode.used.length = before.length + 1 := hnone
    rw [hused, List.length_append, List.length_cons] at hlen
    exact List.eq_nil_of_length_eq_zero (by omega)
  subst hdone
  exact ⟨⟨t, hz, ht⟩, hnodes.trans hused, hiDepth, hp, fun _ => rfl,
    fun _ h => absurd h List.not_mem_nil⟩

/-- A part in front of the mark that ends the container. -/
theorem ReadsParts.one {before done : List JsonNode} {t rest' : Bytes}
    (ha : ReadsPart k p z a rest q) (hrest : rest = t ++ rest') (ht : Spaced (mark k.close) t)
    (hp : p.iDepth + 1 ≤ JSON_MAX_DEPTH)
    (hnodes : r.aNode.used = before ++ container k.eType (done ++ k.nodes a))
    (hiDepth : r.iDepth = q.iDepth) : ReadsParts k p z before done [a] rest' r := by
  obtain ⟨ta, hz, hta⟩ := ha.text
  refine ⟨⟨ta ++ t, ?_, hta.append ht⟩, ?_, hiDepth.trans ha.iDepth, hp,
    fun h => absurd h (List.cons_ne_nil _ _), List.forall_mem_singleton.mpr ha.good⟩
  · rw [hz, hrest, List.append_assoc]
  · rw [hnodes, List.flatMap_singleton]

/-- A part in front of a comma and of other parts. -/
theorem ReadsParts.cons {before done : List JsonNode} {as : List α} {t z' rest' : Bytes}
    (ha : ReadsPart k p z a rest q) (hrest : rest = t ++ z') (ht : Spaced (mark ',') t)
    (has : ReadsParts k q z' before (done ++ k.nodes a) as rest' r) :
    ReadsParts k p z before done (a :: as) rest' r := by
  obtain ⟨ta, hz, hta⟩ := ha.text
  obtain ⟨ts, hz', hts⟩ := has.text
  have hne : as.map k.tokens ≠ [] := by
    intro hnil
    have hdone := has.empty (List.map_eq_nil_iff.mp hnil)
    exact k.nodes_ne_nil a (List.append_eq_nil_iff.mp hdone).2
  refine ⟨⟨ta ++ (t ++ ts), ?_, ?_⟩, ?_, has.iDepth.trans ha.iDepth, ha.iDepth ▸ has.depth,
    fun h => absurd h (List.cons_ne_nil _ _),
    List.forall_mem_cons.mpr ⟨ha.good, ha.iDepth ▸ has.good⟩⟩
  · rw [hz, hrest, hz', List.append_assoc, List.append_assoc]
  · rw [List.map_cons, commaSeparated_cons hne, List.append_assoc, List.append_assoc]
    exact hta.append (ht.append hts)
  · rw [has.nodes, List.flatMap_cons, List.append_assoc]

theorem Opened.append {before done : List JsonNode} (hopened : Opened k p iThis before done)
    (ha : ReadsPart k p z a rest q) : Opened k q iThis before (done ++ k.nodes a) := by
  refine ⟨hopened.1, ?_⟩
  rw [ha.nodes, hopened.2, List.append_assoc, List.cons_append]

theorem behind_part {loop : JsonParse → Bytes → Option (Parsed × JsonParse)}
    (hloop : ∀ z', z'.length < rest.length →
      ∃ x r, loop q z' = some (x, r) ∧ LoopOutcome k iThis q z' x r)
    (hclose : k.close.toUInt8 ≠ 0) (hadv : Advance p q) (hthis : iThis < p.nNode)
    (hlt : rest.length < z.length) (hp : p.iDepth + 1 ≤ JSON_MAX_DEPTH)
    (hpart : q.oom = false → ∃ a, ReadsPart k p z a rest q) :
    ∃ x r, behind k loop iThis q rest = some (x, r) ∧ LoopOutcome k iThis p z x r := by
  unfold behind
  by_cases hcomma : first (skipSpaces rest) = ','.toUInt8
  · rw [if_pos hcomma]
    obtain ⟨t, hrest, ht, hlt'⟩ := spaced_mark (by decide) hcomma
    obtain ⟨x, r, hloop, hout⟩ := hloop _ hlt'
    refine ⟨x, r, hloop, ?_⟩
    cases hout with
    | error hadv' => exact LoopOutcome.error (hadv.trans hadv')
    | past hadv' hlt'' hreads =>
      refine LoopOutcome.past (hadv.trans hadv') (by omega) fun hoom before done hopened => ?_
      obtain ⟨a, ha⟩ := hpart (hadv'.oom hoom)
      obtain ⟨as, has⟩ := hreads hoom before _ (hopened.append ha)
      exact ⟨a :: as, ReadsParts.cons ha hrest ht has⟩
  · rw [if_neg hcomma]
    by_cases hend : first (skipSpaces rest) = k.close.toUInt8
    · rw [if_neg (not_not_intro hend)]
      obtain ⟨t, hrest, ht, hlt'⟩ := spaced_mark hclose hend
      obtain ⟨r, hcontainer, hadv', hiDepth, hoom', hnodes⟩ :=
        closeContainer_fills (Nat.lt_of_lt_of_le hthis hadv.size) (skipSpaces rest).tail
      refine ⟨_, r, hcontainer, LoopOutcome.past (hadv.trans hadv') (by omega)
        fun hoom before done hopened => ?_⟩
      obtain ⟨a, ha⟩ := hpart (hoom'.symm.trans hoom)
      obtain ⟨hbefore, hused⟩ := hopened.append ha
      exact ⟨[a], ReadsParts.one ha hrest ht hp (hnodes before _ _ hbefore hused) hiDepth⟩
    · rw [if_pos hend]
      exact ⟨_, _, rfl, LoopOutcome.error hadv⟩

/-- The end of a text is no part and ends no container: the loop goes on where the text starts. -/
theorem behind_end {zJson : Bytes} (hrestarts : Restarts zJson)
    (hclose : k.close.toUInt8 ∈ [']'.toUInt8, closeBrace.toUInt8]) (hadv : Advance p q)
    (loop : JsonParse → Bytes → Option (Parsed × JsonParse)) :
    ∃ x r, behind k loop iThis q zJson = some (x, r) ∧ LoopOutcome k iThis p z x r := by
  unfold behind
  simp only [Restarts, List.mem_cons, List.not_mem_nil, or_false, not_or] at hrestarts
  have hend : first (skipSpaces zJson) ≠ k.close.toUInt8 := by
    simp only [List.mem_cons, List.not_mem_nil, or_false] at hclose
    rcases hclose with hclose | hclose
    · exact hclose ▸ hrestarts.2.2.1
    · exact hclose ▸ hrestarts.2.2.2
  rw [if_neg hrestarts.1, if_pos hend]
  exact ⟨_, _, rfl, LoopOutcome.error hadv⟩

/-- The closing mark in place of a part. -/
theorem at_close (hclose : k.close.toUInt8 ≠ 0) (hend : first (skipSpaces z) = k.close.toUInt8)
    (hadv : Advance p q) (hnodes : q.aNode.used = p.aNode.used) (hiDepth : q.iDepth = p.iDepth)
    (hp : p.iDepth + 1 ≤ JSON_MAX_DEPTH) :
    ∃ x r, (if q.nNode = iThis + 1 then some (Parsed.past (skipSpaces z).tail, q)
      else some (.error, q)) = some (x, r) ∧ LoopOutcome k iThis p z x r := by
  obtain ⟨t, hz, ht, hlt⟩ := spaced_mark hclose hend
  have hnNode : q.nNode = p.nNode := congrArg List.length hnodes
  by_cases hnone : q.nNode = iThis + 1
  · rw [if_pos hnone]
    exact ⟨_, _, rfl, LoopOutcome.past hadv hlt fun _ before done hopened =>
      ⟨[], ReadsParts.none hopened (hnNode.symm.trans hnone) hz ht hp hnodes hiDepth⟩⟩
  · rw [if_neg hnone]
    exact ⟨_, _, rfl, LoopOutcome.error hadv⟩

end Containers

/-! ### The functions of the recursion -/

def ValueOk (fuel : Nat) : Prop :=
  ∀ p z, Restarts p.zJson → p.iDepth ≤ JSON_MAX_DEPTH → 2 * z.length + 1 ≤ fuel →
    ∃ x q, jsonParseValue fuel p z = some (x, q) ∧ Outcome p z x q

def LoopOk {α : Type} (k : Parts α) (fuel : Nat)
    (loop : Nat → JsonParse → Bytes → Option (Parsed × JsonParse)) : Prop :=
  ∀ iThis p z, Restarts p.zJson → iThis < p.nNode → 2 * z.length + 2 ≤ fuel →
    ∃ x q, loop iThis p z = some (x, q) ∧ LoopOutcome k iThis p z x q

theorem Reads.part (h : Reads { p with iDepth := p.iDepth + 1 } z v rest q) :
    ReadsPart elementParts p z v rest { q with iDepth := q.iDepth - 1 } := by
  refine ⟨h.text, h.nodes, ?_, h.proper, h.depth⟩
  rw [h.iDepth]
  rfl

/-- The nesting depth of a loop around the call of `jsonParseValue`. -/
theorem Outcome.around (h : Outcome { p with iDepth := p.iDepth + 1 } z x q) :
    Advance p { q with iDepth := q.iDepth - 1 } :=
  (Advance.of_size (Nat.le_refl _)).trans (h.advance.trans (Advance.of_size (Nat.le_refl _)))

theorem array_step {fuel : Nat} (hvalue : ValueOk fuel)
    (harray : LoopOk elementParts fuel (arrayLoop fuel)) :
    LoopOk elementParts (fuel + 1) (arrayLoop (fuel + 1)) := by
  intro iThis p z hrestarts hthis hfuel
  simp only [arrayLoop, jsonParseValue_skipSpaces]
  by_cases hmax : JSON_MAX_DEPTH < p.iDepth + 1
  · rw [if_pos hmax]
    exact ⟨_, _, rfl, LoopOutcome.error (Advance.of_size (Nat.le_refl _))⟩
  rw [if_neg hmax]
  have hp : p.iDepth + 1 ≤ JSON_MAX_DEPTH := Nat.le_of_not_lt hmax
  obtain ⟨x, q, hparse, hout⟩ :=
    hvalue { p with iDepth := p.iDepth + 1 } z hrestarts hp (by omega)
  rw [hparse]
  simp only [Option.bind_some]
  have hadv := hout.around
  cases hout with
  | error _ | closeObject _ => exact ⟨_, _, rfl, LoopOutcome.error hadv⟩
  | atEnd _ => exact behind_end (k := elementParts) hrestarts (by decide) hadv _
  | closeArray hend => exact at_close (k := elementParts) (by decide) hend hadv rfl rfl hp
  | @past rest _ hadvance hlt hreads =>
    refine behind_part (k := elementParts) (fun z' hlt' => ?_) (by decide) hadv hthis hlt hp
      fun hoom => (hreads hoom).imp fun v hv => hv.part
    refine harray iThis _ z' ?_ (Nat.lt_of_lt_of_le hthis hadvance.size) (by omega)
    exact hadvance.zJson.symm ▸ hrestarts

/-- The last node, which the loop over an object looks at and marks. -/
theorem exists_last_node {iThis : Nat} (hthis : iThis < p.nNode) : ∃ node,
    p.aNode.used[p.nNode - 1]? = some node ∧ ∃ b : Buffer JsonNode,
      (p.update (p.nNode - 1) fun node => { node with jnFlags := node.jnFlags ||| JNODE_LABEL }) =
        some { p with aNode := b } ∧ b.used = markLabel p.aNode.used ∧ b.size = p.nNode := by
  have hlast : p.nNode - 1 < p.nNode := Nat.sub_lt (Nat.zero_lt_of_lt hthis) Nat.one_pos
  exact ⟨_, List.getElem?_eq_getElem hlast,
    update_eq_some (fun node => { node with jnFlags := node.jnFlags ||| JNODE_LABEL }) hlast⟩

/-- Only the nodes of the label are marked. -/
theorem markLabel_append (nodes : List JsonNode) (v : Value) :
    markLabel (nodes ++ nodesOf v) = nodes ++ markLabel (nodesOf v) :=
  modify_append_last nodes (nodesOf_ne_nil v) _

/-- The last node behind a value is the last one of the value. -/
theorem getElem?_last (nodes : List JsonNode) (v : Value) :
    (nodes ++ nodesOf v)[(nodes ++ nodesOf v).length - 1]? =
      (nodesOf v)[(nodesOf v).length - 1]? := by
  have hpos := List.length_pos_of_ne_nil (nodesOf_ne_nil v)
  rw [List.length_append, List.getElem?_append_right (by omega)]
  congr 1
  omega

/-- A label and a value with a colon between them are a member. -/
theorem Reads.member {l : Value} {t z' rest' : Bytes} {b : Buffer JsonNode}
    (hl : Reads { p with iDepth := p.iDepth + 1 } z l rest q) (hrest : rest = t ++ z')
    (ht : Spaced (mark ':') t) (hok : EndsInString l) (hb : b.used = markLabel q.aNode.used)
    (hv : Reads { q with aNode := b } z' v rest' r) :
    ReadsPart memberParts p z (l, v) rest' { r with iDepth := r.iDepth - 1 } := by
  obtain ⟨tl, hz, htl⟩ := hl.text
  obtain ⟨tv, hz', htv⟩ := hv.text
  have hdepth := hv.depth
  have hiDepth := hv.iDepth
  rw [hl.iDepth] at hdepth hiDepth
  refine ⟨⟨tl ++ (t ++ tv), ?_, htl.append (ht.append htv)⟩, ?_, ?_, hl.proper, hok, hv.proper,
    hl.depth, hdepth⟩
  · rw [hz, hrest, hz', List.append_assoc, List.append_assoc]
  · change r.aNode.used = p.aNode.used ++ (markLabel (nodesOf l) ++ nodesOf v)
    rw [hv.nodes, hb, hl.nodes, markLabel_append, List.append_assoc]
  · rw [hiDepth]
    rfl

theorem object_step {fuel : Nat} (hvalue : ValueOk fuel)
    (hobject : LoopOk memberParts fuel (objectLoop fuel)) :
    LoopOk memberParts (fuel + 1) (objectLoop (fuel + 1)) := by
  intro iThis p z hrestarts hthis hfuel
  simp only [objectLoop, jsonParseValue_skipSpaces]
  by_cases hmax : JSON_MAX_DEPTH < p.iDepth + 1
  · rw [if_pos hmax]
    exact ⟨_, _, rfl, LoopOutcome.error (Advance.of_size (Nat.le_refl _))⟩
  rw [if_neg hmax]
  have hp : p.iDepth + 1 ≤ JSON_MAX_DEPTH := Nat.le_of_not_lt hmax
  obtain ⟨x, q, hparse, hout⟩ :=
    hvalue { p with iDepth := p.iDepth + 1 } z hrestarts hp (by omega)
  rw [hparse]
  simp only [Option.bind_some]
  have hadv := hout.around
  cases hout with
  | error _ | closeArray _ => exact ⟨_, _, rfl, LoopOutcome.error hadv⟩
  | closeObject hend => exact at_close (k := memberParts) (by decide) hend hadv rfl rfl hp
  | atEnd _ =>
    -- the end of the text counts as a label that adds no node
    by_cases hoom : p.oom = true
    · simp only [if_pos hoom]
      exact ⟨_, _, rfl, LoopOutcome.error (Advance.of_size (Nat.le_refl _))⟩
    simp only [if_neg hoom]
    obtain ⟨node, hnode, b, hupdate, hused, hsize⟩ :=
      exists_last_node (p := { p with iDepth := p.iDepth + 1 }) hthis
    simp only [hnode, Option.bind_some, hupdate]
    by_cases hstring : node.eType = .JSON_STRING
    · rw [if_neg (not_not_intro hstring)]
      -- the colon is looked for at the start of the text
      simp only [Restarts, List.mem_cons, List.not_mem_nil, or_false, not_or] at hrestarts
      rw [if_pos hrestarts.2.1]
      exact ⟨_, _, rfl, LoopOutcome.error (Advance.of_size hsize.ge)⟩
    · rw [if_pos hstring]
      exact ⟨_, _, rfl, LoopOutcome.error (Advance.of_size (Nat.le_refl _))⟩
  | @past rest _ hadvance hlt hreads =>
    have hadvq : Advance p q := (Advance.of_size (Nat.le_refl _)).trans hadvance
    have hthisq : iThis < q.nNode := Nat.lt_of_lt_of_le hthis hadvance.size
    by_cases hoom : q.oom = true
    · simp only [if_pos hoom]
      exact ⟨_, _, rfl, LoopOutcome.error hadvq⟩
    obtain ⟨l, hl⟩ := hreads (Bool.eq_false_iff.mpr hoom)
    obtain ⟨node, hnode, b, hupdate, hused, hsize⟩ := exists_last_node hthisq
    simp only [if_neg hoom, hnode, Option.bind_some, hupdate]
    by_cases hstring : node.eType = .JSON_STRING
    swap
    · rw [if_pos hstring]
      exact ⟨_, _, rfl, LoopOutcome.error hadvq⟩
    rw [if_neg (not_not_intro hstring)]
    have hadvb : Advance q { q with aNode := b } := Advance.of_size hsize.ge
    by_cases hcolon : first (skipSpaces rest) = ':'.toUInt8
    swap
    · rw [if_pos hcolon]
      exact ⟨_, _, rfl, LoopOutcome.error (hadvq.trans hadvb)⟩
    rw [if_neg (not_not_intro hcolon)]
    obtain ⟨t, hrest, ht, hlt'⟩ := spaced_mark (c := ':') (by decide) hcolon
    have hrestarts' : Restarts q.zJson := hadvance.zJson.symm ▸ hrestarts
    have hmaxq : q.iDepth ≤ JSON_MAX_DEPTH := by
      rw [hl.iDepth]
      exact hp
    obtain ⟨x', q', hparse', hout'⟩ := hvalue { q with aNode := b } (skipSpaces rest).tail
      hrestarts' hmaxq (by omega)
    rw [hparse']
    simp only [Option.bind_some]
    have hadv' : Advance p { q' with iDepth := q'.iDepth - 1 } :=
      (hadvq.trans hadvb).trans (hout'.advance.trans (Advance.of_size (Nat.le_refl _)))
    cases hout' with
    | error _ | closeArray _ | closeObject _ => exact ⟨_, _, rfl, LoopOutcome.error hadv'⟩
    | atEnd _ => exact behind_end (k := memberParts) hrestarts' (by decide) hadv' _
    | @past rest' _ hadvance' hlt'' hreads' =>
      refine behind_part (k := memberParts) (fun z' hltz => ?_) (by decide) hadv' hthis
        (by omega) hp fun hoom' => ?_
      · refine hobject iThis _ z' ?_ (Nat.lt_of_lt_of_le hthis hadv'.size) (by omega)
        exact hadvance'.zJson.symm ▸ hrestarts'
      · obtain ⟨v, hv⟩ := hreads' hoom'
        -- the node that was tested is the last one of the label
        have hok : EndsInString l := by
          refine ⟨node, ?_, hstring⟩
          rw [← getElem?_last p.aNode.used, ← hl.nodes]
          exact hnode
        exact ⟨(l, v), Reads.member hl hrest ht hok hused hv⟩

/-- An array or an object: its node, the opening mark and the loop over its parts. -/
theorem container_outcome {α : Type} {k : Parts α} {fuel : Nat} {c : Char} (mk : List α → Value)
    {loop : Nat → JsonParse → Bytes → Option (Parsed × JsonParse)} (hloop : LoopOk k fuel loop)
    (htokens : ∀ as, (mk as).tokens =
      mark c ++ (commaSeparated (as.map k.tokens) ++ mark k.close))
    (hnodes : ∀ as, nodesOf (mk as) = container k.eType (as.flatMap k.nodes))
    (hgood : ∀ d as, d + 1 ≤ JSON_MAX_DEPTH → (∀ a ∈ as, k.Good (d + 1) a) →
      Proper EndsInString (mk as) ∧ d + (mk as).depth ≤ JSON_MAX_DEPTH)
    (hc : c.toUInt8 ≠ 0) (hz : first (skipSpaces z) = c.toUInt8) (hrestarts : Restarts p.zJson)
    (hfuel : 2 * z.length + 1 ≤ fuel + 1) :
    ∃ x r, ((jsonParseAddNode p k.eType 0 []).bind fun (iThis, p) =>
      match iThis with
      | none => some (.error, p)
      | some iThis => loop iThis p (skipSpaces z).tail) = some (x, r) ∧ Outcome p z x r := by
  obtain ⟨i, q, hadd, hadded⟩ := jsonParseAddNode_added p k.eType 0 []
  rw [hadd]
  simp only [Option.bind_some]
  rcases hadded.answer with ⟨rfl, -⟩ | ⟨rfl, hused⟩
  · exact ⟨_, _, rfl, Outcome.error hadded.advance⟩
  · obtain ⟨t, hspaces, ht, hlt⟩ := spaced_mark hc hz
    have hthis : p.nNode < q.nNode := by
      change p.aNode.used.length < q.aNode.used.length
      rw [hused, List.length_append]
      exact Nat.lt_succ_self _
    obtain ⟨x, r, hrun, hout⟩ := hloop p.nNode q (skipSpaces z).tail
      (hadded.advance.zJson.symm ▸ hrestarts) hthis (by omega)
    refine ⟨x, r, hrun, ?_⟩
    cases hout with
    | error hadv => exact Outcome.error (hadded.advance.trans hadv)
    | past hadv hlt' hreads =>
      refine Outcome.past (hadded.advance.trans hadv) (by omega) fun hoom => ?_
      obtain ⟨as, has⟩ := hreads hoom p.aNode.used [] ⟨rfl, hused⟩
      obtain ⟨ts, htail, hts⟩ := has.text
      have hdepth := has.depth
      have hall := has.good
      rw [hadded.iDepth] at hdepth hall
      obtain ⟨hproper, hmax⟩ := hgood _ as hdepth hall
      refine ⟨mk as, ⟨t ++ ts, ?_, ?_⟩, hproper, ?_, has.iDepth.trans hadded.iDepth, hmax⟩
      · rw [List.append_assoc, ← htail]
        exact hspaces
      · rw [htokens]
        exact ht.append hts
      · rw [has.nodes, hnodes]
        rfl

theorem good_array {d : Nat} {vs : List Value} (hd : d + 1 ≤ JSON_MAX_DEPTH)
    (hvs : ∀ v ∈ vs, elementParts.Good (d + 1) v) :
    Proper EndsInString (.array vs) ∧ d + (Value.array vs).depth ≤ JSON_MAX_DEPTH := by
  refine ⟨Proper.array fun v hv => (hvs v hv).1, ?_⟩
  have hdepth : (Value.array vs).depth ≤ JSON_MAX_DEPTH - (d + 1) + 1 :=
    depth_array_le.mpr fun v hv => Nat.le_sub_of_add_le' (hvs v hv).2
  omega

theorem good_object {d : Nat} {ms : List (Value × Value)} (hd : d + 1 ≤ JSON_MAX_DEPTH)
    (hms : ∀ m ∈ ms, memberParts.Good (d + 1) m) :
    Proper EndsInString (.object ms) ∧ d + (Value.object ms).depth ≤ JSON_MAX_DEPTH := by
  refine ⟨Proper.object (fun m hm => (hms m hm).1) (fun m hm => (hms m hm).2.1)
    (fun m hm => (hms m hm).2.2.1), ?_⟩
  have hdepth : (Value.object ms).depth ≤ JSON_MAX_DEPTH - (d + 1) + 1 :=
    depth_object_le.mpr fun m hm => ⟨Nat.le_sub_of_add_le' (hms m hm).2.2.2.1,
      Nat.le_sub_of_add_le' (hms m hm).2.2.2.2⟩
  omega

theorem value_step {fuel : Nat} (harray : LoopOk elementParts fuel (arrayLoop fuel))
    (hobject : LoopOk memberParts fuel (objectLoop fuel)) : ValueOk (fuel + 1) := by
  intro p z hrestarts hp hfuel
  simp only [jsonParseValue]
  by_cases hopen : first (skipSpaces z) = openBrace.toUInt8
  · rw [if_pos hopen]
    exact container_outcome .object hobject tokens_object nodes_object (fun d ms => good_object)
      (by decide) hopen hrestarts hfuel
  rw [if_neg hopen]
  by_cases hbracket : first (skipSpaces z) = '['.toUInt8
  · rw [if_pos hbracket]
    exact container_outcome .array harray tokens_array nodes_array (fun d vs => good_array)
      (by decide) hbracket hrestarts hfuel
  rw [if_neg hbracket]
  by_cases hquote : first (skipSpaces z) = quotationMark.toUInt8
  · rw [if_pos hquote]
    exact parseString_outcome hquote hp
  rw [if_neg hquote]
  by_cases hnull : isName nullToken (skipSpaces z) = true
  · rw [if_pos hnull]
    exact parseName_outcome (List.cons_ne_nil _ _) hnull rfl Proper.null rfl rfl hp
  rw [if_neg hnull]
  by_cases htrue : isName trueToken (skipSpaces z) = true
  · rw [if_pos htrue]
    exact parseName_outcome (v := .bool true) (List.cons_ne_nil _ _) htrue rfl (Proper.bool true)
      rfl rfl hp
  rw [if_neg htrue]
  by_cases hfalse : isName falseToken (skipSpaces z) = true
  · rw [if_pos hfalse]
    exact parseName_outcome (v := .bool false) (List.cons_ne_nil _ _) hfalse rfl
      (Proper.bool false) rfl rfl hp
  rw [if_neg hfalse]
  by_cases hnumber : first (skipSpaces z) = '-'.toUInt8 ∨ isDigit (first (skipSpaces z)) = true
  · rw [if_pos hnumber]
    exact parseNumber_outcome hnumber hp
  rw [if_neg hnumber]
  split
  · exact ⟨_, _, rfl, Outcome.closeObject ‹_›⟩
  split
  · exact ⟨_, _, rfl, Outcome.closeArray ‹_›⟩
  split
  · exact ⟨_, _, rfl, Outcome.atEnd ‹_›⟩
  · exact ⟨_, _, rfl, Outcome.error (Advance.refl p)⟩

theorem jsonParse_ok : ∀ fuel, ValueOk fuel ∧ LoopOk elementParts fuel (arrayLoop fuel) ∧
    LoopOk memberParts fuel (objectLoop fuel)
  | 0 =>
    ⟨fun _ _ _ _ h => absurd h (by omega), fun _ _ _ _ _ h => absurd h (by omega),
      fun _ _ _ _ _ h => absurd h (by omega)⟩
  | fuel + 1 =>
    have ⟨hvalue, harray, hobject⟩ := jsonParse_ok fuel
    ⟨value_step harray hobject, array_step hvalue harray, object_step hvalue hobject⟩

end

end PetProject.Json1
