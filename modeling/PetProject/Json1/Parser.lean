import PetProject.Foundation.JsonGrammar
import PetProject.Json1.Accumulator

/-!
# The JSON parser

`JsonParse` of `TDB_workers/src/json1.c` and `jsonParse`, which turns a text into an array of nodes.
A node of an array or an object stands in front of the nodes of its parts, and holds how many nodes
these are.

A place in the text is the text from there on, which ends with the NUL of C. The array of nodes
grows by reallocation, which may be refused. A function answers `none` for an access outside of the
nodes, and when its fuel runs out.
-/

set_option autoImplicit false

namespace PetProject.Json1

open PetProject.Foundation.GrowingBuffer PetProject.Foundation.JsonGrammar
open PetProject.Foundation.TextSearch PetProject.Foundation.JsonText

/-! ## Nodes -/

inductive JsonType where
  | JSON_NULL
  | JSON_TRUE
  | JSON_FALSE
  | JSON_INT
  | JSON_REAL
  | JSON_STRING
  | JSON_ARRAY
  | JSON_OBJECT
  deriving DecidableEq, Repr

def JNODE_ESCAPE : UInt8 := 0x02

def JNODE_LABEL : UInt8 := 0x40

/-- `JsonNode`. `zJContent` is the `n` bytes that the pointer of this name points to. -/
structure JsonNode where
  eType : JsonType
  jnFlags : UInt8
  n : Nat
  zJContent : Bytes
  deriving DecidableEq, Repr

/-- `JsonParse`, with the answers of the allocator that are still to come, and those that were asked
for. `aNode` holds `nNode` nodes and has room for `nAlloc`; the null pointer is the array without
room. -/
structure JsonParse where
  aNode : Buffer JsonNode
  zJson : Bytes
  oom : Bool
  iDepth : Nat
  malloc : Nat → Bool
  answers : List Bool

def JSON_MAX_DEPTH : Nat := 2000

def JsonParse.nNode (p : JsonParse) : Nat := p.aNode.size

def JsonParse.nAlloc (p : JsonParse) : Nat := p.aNode.capacity

def jsonParseReset (p : JsonParse) : JsonParse := { p with aNode := Buffer.empty 0 }

/-- Stores a node behind the others, and answers its index. -/
def JsonParse.store (p : JsonParse) (node : JsonNode) : Option (Option Nat × JsonParse) :=
  (p.aNode.put node).map fun b => (some p.nNode, { p with aNode := b })

def jsonParseAddNodeExpand (p : JsonParse) (node : JsonNode) : Option (Option Nat × JsonParse) :=
  if p.oom then some (none, p)
  else
    let nNew := p.nAlloc * 2 + 10
    let asked :=
      { p with malloc := fun n => p.malloc (n + 1), answers := p.answers ++ [p.malloc 0] }
    -- `sqlite3_realloc64`
    if p.malloc 0 then JsonParse.store { asked with aNode := p.aNode.resize nNew } node
    else some (none, { asked with oom := true })

/-- `jsonParseAddNode`; no index is -1. -/
def jsonParseAddNode (p : JsonParse) (eType : JsonType) (n : Nat) (zContent : Bytes) :
    Option (Option Nat × JsonParse) :=
  let node := ⟨eType, 0, n, zContent⟩
  if p.nAlloc ≤ p.nNode then jsonParseAddNodeExpand p node else p.store node

/-- Changes the node `aNode[i]`. -/
def JsonParse.update (p : JsonParse) (i : Nat) (f : JsonNode → JsonNode) : Option JsonParse :=
  (p.aNode.modify i f).map fun b => { p with aNode := b }

/-! ## Characters -/

/-- `jsonIsSpace`, whose other entries are zero. -/
def jsonIsSpace (c : UInt8) : UInt8 :=
  [0, 0, 0, 0, 0, 0, 0, 0, 0, 1, 1, 0, 0, 1, 0, 0, 0, 0, 0, 0, 0, 0, 0, 0, 0, 0, 0, 0, 0, 0, 0, 0,
    1].getD c.toNat 0

def safe_isspace (c : UInt8) : Bool := jsonIsSpace c ≠ 0

def safe_isalnum (c : UInt8) : Bool := isDigit c || isLetter c

/-- The text behind white space. -/
def skipSpaces (z : Bytes) : Bytes := z.dropWhile safe_isspace

/-- `z[0]`. -/
def first (z : Bytes) : UInt8 := z.headD 0

def jsonIs4Hex (z : Bytes) : Bool := (List.range 4).all fun i => isHexDigit (z.getD i 0)

/-! ## Values -/

/-- What `jsonParseValue` returns. -/
inductive Parsed where
  /-- The text past the end of the value. -/
  | past (z : Bytes)
  /-- -1. -/
  | error
  /-- -2. -/
  | closeObject
  /-- -3. -/
  | closeArray
  deriving DecidableEq, Repr

/-- The loop over a string: its flags and the text past the quotation mark that ends it. -/
def stringLoop (jnFlags : UInt8) : Bytes → Option (UInt8 × Bytes)
  | [] => none
  | c :: z =>
      if c &&& ~~~0x1f = 0 then none
      else if c = backslash.toUInt8 then
        match z with
        | [] => none
        | c :: z =>
            if c ∈ escapeLetters ∨ (c = 'u'.toUInt8 ∧ jsonIs4Hex z) then stringLoop JNODE_ESCAPE z
            else none
      else if c = quotationMark.toUInt8 then some (jnFlags, z)
      else stringLoop jnFlags z

/-- The loop over a number from `z[j]` on, behind `z[j-1]`: whether it is no integer, and the text
past its end. -/
def numberLoop (prev : UInt8) (seenDP seenE : Bool) : Bytes → Option (Bool × Bytes)
  | [] => if prev < '0'.toUInt8 then none else some (seenDP, [])
  | c :: z =>
      if isDigit c then numberLoop c seenDP seenE z
      else if c = '.'.toUInt8 then
        if prev = '-'.toUInt8 then none
        else if seenDP then none
        else numberLoop c true seenE z
      else if c = 'e'.toUInt8 ∨ c = 'E'.toUInt8 then
        if prev < '0'.toUInt8 then none
        else if seenE then none
        else
          match z with
          | [] => none
          | d :: z' =>
              if d = '+'.toUInt8 ∨ d = '-'.toUInt8 then
                if isDigit (first z') then numberLoop d true true z' else none
              else if isDigit d then numberLoop c true true (d :: z') else none
      else if prev < '0'.toUInt8 then none
      else some (seenDP, c :: z)

/-- The node of a string or a number between `z` and `rest`. -/
def addContent (p : JsonParse) (eType : JsonType) (z rest : Bytes) :
    Option (Option Nat × JsonParse) :=
  jsonParseAddNode p eType (z.length - rest.length) (z.take (z.length - rest.length))

def parseString (p : JsonParse) (z : Bytes) : Option (Parsed × JsonParse) :=
  match stringLoop 0 z.tail with
  | none => some (.error, p)
  | some (jnFlags, rest) =>
      (addContent p .JSON_STRING z rest).bind fun (_, p) =>
        if p.oom then some (.past rest, p)
        else
          (p.update (p.nNode - 1) fun node => { node with jnFlags := jnFlags }).map fun p =>
            (.past rest, p)

def parseName (p : JsonParse) (eType : JsonType) (rest : Bytes) : Option (Parsed × JsonParse) :=
  (jsonParseAddNode p eType 0 []).map fun (_, p) => (.past rest, p)

/-- Whether the number at `z` is no integer, and the text past its end. -/
def scanNumber (z : Bytes) : Option (Bool × Bytes) :=
  let unsigned := if first z = '-'.toUInt8 then z.tail else z
  -- a digit behind a leading zero
  if first z ≤ '0'.toUInt8 ∧ first unsigned = '0'.toUInt8 ∧ isDigit (first unsigned.tail) then none
  else numberLoop (first z) false false z.tail

def parseNumber (p : JsonParse) (z : Bytes) : Option (Parsed × JsonParse) :=
  match scanNumber z with
  | none => some (.error, p)
  | some (seenDP, rest) =>
      (addContent p (if seenDP then .JSON_REAL else .JSON_INT) z rest).map fun (_, p) =>
        (.past rest, p)

/-- The text at `z` is the name, and no longer one. -/
def isName (name z : Bytes) : Bool :=
  z.take name.length = name && !safe_isalnum (first (z.drop name.length))

/-- `pParse->aNode[iThis].n = pParse->nNode - iThis - 1; return j+1;`. -/
def closeContainer (iThis : Nat) (p : JsonParse) (rest : Bytes) : Option (Parsed × JsonParse) :=
  (p.update iThis fun node => { node with n := p.nNode - iThis - 1 }).map fun p => (.past rest, p)

mutual

def jsonParseValue : Nat → JsonParse → Bytes → Option (Parsed × JsonParse)
  | 0, _, _ => none
  | fuel + 1, p, z =>
      let z := skipSpaces z
      let c := first z
      if c = openBrace.toUInt8 then
        (jsonParseAddNode p .JSON_OBJECT 0 []).bind fun (iThis, p) =>
          match iThis with
          | none => some (.error, p)
          | some iThis => objectLoop fuel iThis p z.tail
      else if c = '['.toUInt8 then
        (jsonParseAddNode p .JSON_ARRAY 0 []).bind fun (iThis, p) =>
          match iThis with
          | none => some (.error, p)
          | some iThis => arrayLoop fuel iThis p z.tail
      else if c = quotationMark.toUInt8 then parseString p z
      else if isName nullToken z then parseName p .JSON_NULL (z.drop 4)
      else if isName trueToken z then parseName p .JSON_TRUE (z.drop 4)
      else if isName falseToken z then parseName p .JSON_FALSE (z.drop 5)
      else if c = '-'.toUInt8 ∨ isDigit c then parseNumber p z
      else if c = closeBrace.toUInt8 then some (.closeObject, p)
      else if c = ']'.toUInt8 then some (.closeArray, p)
      -- the index 0 of the end of the file is also the start of the text
      else if c = 0 then some (.past p.zJson, p)
      else some (.error, p)

/-- The loop over the members of the object `iThis`, from a label on. -/
def objectLoop : Nat → Nat → JsonParse → Bytes → Option (Parsed × JsonParse)
  | 0, _, _, _ => none
  | fuel + 1, iThis, p, z =>
      let z := skipSpaces z
      let p := { p with iDepth := p.iDepth + 1 }
      if JSON_MAX_DEPTH < p.iDepth then some (.error, p)
      else
        (jsonParseValue fuel p z).bind fun (x, p) =>
          match x with
          | .past z =>
              if p.oom then some (.error, p)
              else
                (p.aNode.used[p.nNode - 1]?).bind fun pNode =>
                  if pNode.eType ≠ .JSON_STRING then some (.error, p)
                  else
                    (p.update (p.nNode - 1) fun node =>
                        { node with jnFlags := node.jnFlags ||| JNODE_LABEL }).bind fun p =>
                      let z := skipSpaces z
                      if first z ≠ ':'.toUInt8 then some (.error, p)
                      else
                        (jsonParseValue fuel p z.tail).bind fun (x, p) =>
                          let p := { p with iDepth := p.iDepth - 1 }
                          match x with
                          | .past z =>
                              let z := skipSpaces z
                              if first z = ','.toUInt8 then objectLoop fuel iThis p z.tail
                              else if first z ≠ closeBrace.toUInt8 then some (.error, p)
                              else closeContainer iThis p z.tail
                          | _ => some (.error, p)
          | .closeObject =>
              let p := { p with iDepth := p.iDepth - 1 }
              if p.nNode = iThis + 1 then some (.past z.tail, p) else some (.error, p)
          | _ => some (.error, { p with iDepth := p.iDepth - 1 })

/-- The loop over the elements of the array `iThis`. -/
def arrayLoop : Nat → Nat → JsonParse → Bytes → Option (Parsed × JsonParse)
  | 0, _, _, _ => none
  | fuel + 1, iThis, p, z =>
      let z := skipSpaces z
      let p := { p with iDepth := p.iDepth + 1 }
      if JSON_MAX_DEPTH < p.iDepth then some (.error, p)
      else
        (jsonParseValue fuel p z).bind fun (x, p) =>
          let p := { p with iDepth := p.iDepth - 1 }
          match x with
          | .past z =>
              let z := skipSpaces z
              if first z = ','.toUInt8 then arrayLoop fuel iThis p z.tail
              else if first z ≠ ']'.toUInt8 then some (.error, p)
              else closeContainer iThis p z.tail
          | .closeArray =>
              if p.nNode = iThis + 1 then some (.past z.tail, p) else some (.error, p)
          | _ => some (.error, p)

end

/-! ## Texts -/

/-- A text of C ends at its first NUL. -/
def cString (z : Bytes) : Bytes := z.takeWhile (· ≠ 0)

def malformedMessage : Text := "malformed JSON".toList

/-- Whether `i` is positive in the end: an index of zero is an error, and only white space stands
behind the value. -/
def complete (zJson : Bytes) (x : Parsed) (p : JsonParse) : Bool :=
  match x with
  | .past rest => !p.oom && rest.length < zJson.length && first (skipSpaces rest) = 0
  | _ => false

/-- `memset(pParse, 0, sizeof(*pParse)); pParse->zJson = zJson;`. -/
def started (ctx : sqlite3_context) (zJson : Bytes) : JsonParse :=
  ⟨Buffer.empty 0, zJson, false, 0, ctx.malloc, []⟩

/-- `jsonParse`; whether it fails, and the parse. `report` is whether there is a function to report
an error to; its allocator is used in any case. -/
def jsonParse (ctx : sqlite3_context) (report : Bool) (zJson : Option Bytes) :
    Option (Bool × JsonParse × sqlite3_context) :=
  match zJson with
  | none => some (true, started ctx [], ctx)
  | some z =>
      let z := cString z
      (jsonParseValue (2 * z.length + 2) (started ctx z) z).map
        fun (x, p) =>
          let ctx := { ctx with malloc := p.malloc }
          if complete z x p then (false, p, ctx)
          else if !report then (true, jsonParseReset p, ctx)
          else if p.oom then (true, jsonParseReset p, sqlite3_result_error_nomem ctx)
          else (true, jsonParseReset p, sqlite3_result_error ctx malformedMessage)

end PetProject.Json1
