import PetProject.Foundation.JsonDocument
import PetProject.Json1.Accumulator

/-!
# The SQL functions that build documents

`json_quote`, `json_array` and `json_object` of `TDB_workers/src/json1.c`. Each of them appends to a
`JsonString` and hands its text over; a BLOB among the values is an error, and so is a label of an
object that is no text.

`Finishes` says how a call ends under any allocator: every block was given back or handed over once,
and the result is the one that is due or the report of a refused allocation.
-/

set_option autoImplicit false

namespace PetProject.Json1

open PetProject.Foundation.GrowingBuffer PetProject.Foundation.Handles
open PetProject.Foundation.TextSearch PetProject.Foundation.JsonText

/-! ## Values -/

/-- `sqlite3_value`. A number comes with the text that is made of it, and a text that could not be
converted is a null pointer. -/
inductive sqlite3_value where
  | null
  | integer (z : Bytes)
  | float (z : Bytes)
  | text (z : Option Bytes) (subtype : Bool)
  | blob (z : Bytes)

def sqlite3_value_text : sqlite3_value → Option Bytes
  | .null => none
  | .integer z | .float z | .blob z => some z
  | .text z _ => z

/-- `sqlite3_value_type(v)==SQLITE_TEXT`. -/
def sqlite3_value.isText : sqlite3_value → Bool
  | .text _ _ => true
  | _ => false

def nullText : Bytes := ['n'.toUInt8, 'u'.toUInt8, 'l'.toUInt8, 'l'.toUInt8]

def jsonAppendValue (p : JsonString) : sqlite3_value → Option JsonString
  | .null => jsonAppendRaw p nullText
  | .integer z | .float z => jsonAppendRaw p z
  | .text z true => jsonAppendRaw p (z.getD [])
  | .text z false => jsonAppendString p z
  | .blob _ =>
      if p.bErr = 0 then
        some (jsonReset { p with bErr := 2, pCtx := sqlite3_result_error p.pCtx blobMessage })
      else some p

/-- `jsonResult`. The text is copied from the first buffer, and a block is handed over with
`sqlite3_free`. -/
def jsonResult (p : JsonString) : Option JsonString :=
  let p := if p.bErr = 0 then
      jsonZero { p.freed with pCtx := sqlite3_result_text p.pCtx p.zBuf.used }
    else p
  p.assert p.block.isNone

/-- `sqlite3_result_subtype(ctx, JSON_SUBTYPE)` behind `jsonResult`. -/
def JsonString.marked (p : JsonString) : JsonString :=
  { p with pCtx := sqlite3_result_subtype p.pCtx }

/-! ## Functions -/

def jsonQuoteFunc (ctx : sqlite3_context) (v : sqlite3_value) : Option JsonString :=
  (jsonAppendValue (jsonInit ctx) v).bind fun jx => (jsonResult jx).map JsonString.marked

/-- The loop of `jsonArrayFunc`. -/
def appendElements : List sqlite3_value → JsonString → Option JsonString
  | [], jx => some jx
  | v :: argv, jx =>
      (jsonAppendSeparator jx).bind fun jx => (jsonAppendValue jx v).bind (appendElements argv)

def jsonArrayFunc (ctx : sqlite3_context) (argv : List sqlite3_value) : Option JsonString :=
  (jsonAppendChar (jsonInit ctx) '['.toUInt8).bind fun jx =>
    (appendElements argv jx).bind fun jx =>
      (jsonAppendChar jx ']'.toUInt8).bind fun jx => (jsonResult jx).map JsonString.marked

def argumentsMessage : Text := "json_object() requires an even number of arguments".toList

def labelsMessage : Text := "json_object() labels must be TEXT".toList

/-- `jsonObjectFunc` behind its loop. -/
def endMembers (jx : JsonString) : Option JsonString :=
  (jsonAppendChar jx closeBrace.toUInt8).bind fun jx => (jsonResult jx).map JsonString.marked

/-- The loop of `jsonObjectFunc` and what follows it, for an even number of arguments. -/
def appendMembers : List sqlite3_value → JsonString → Option JsonString
  | label :: v :: argv, jx =>
      if label.isText then
        (jsonAppendSeparator jx).bind fun jx =>
          (jsonAppendString jx (sqlite3_value_text label)).bind fun jx =>
            (jsonAppendChar jx ':'.toUInt8).bind fun jx =>
              (jsonAppendValue jx v).bind (appendMembers argv)
      else
        some (jsonReset { jx with pCtx := sqlite3_result_error jx.pCtx labelsMessage })
  | _, jx => endMembers jx

def jsonObjectFunc (ctx : sqlite3_context) (argv : List sqlite3_value) : Option JsonString :=
  if argv.length % 2 = 1 then some (jsonInit (sqlite3_result_error ctx argumentsMessage))
  else (jsonAppendChar (jsonInit ctx) openBrace.toUInt8).bind (appendMembers argv)

/-! ## What the functions append -/

def sqlite3_value.rendered : sqlite3_value → Option Bytes
  | .null => some nullText
  | .integer z | .float z => some z
  | .text z true => some (z.getD [])
  | .text z false => some ((z.map quoted).getD [])
  | .blob _ => none

/-- The elements of an array behind a text. -/
def elements (used : Bytes) : List sqlite3_value → Option Bytes
  | [] => some []
  | v :: argv =>
      both (both (some (separator used)) v.rendered)
        (v.rendered.bind fun z => elements (used ++ (separator used ++ z)) argv)

/-- A label with its quotes, as it is appended. -/
def sqlite3_value.label (v : sqlite3_value) : Bytes :=
  ((sqlite3_value_text v).map quoted).getD []

/-- The members of an object behind a text. -/
def members (used : Bytes) : List sqlite3_value → Option Bytes
  | label :: v :: argv =>
      both (both (some (separator used ++ (label.label ++ [':'.toUInt8]))) v.rendered)
        (v.rendered.bind fun z =>
          members (used ++ (separator used ++ (label.label ++ [':'.toUInt8]) ++ z)) argv)
  | _ => some []

section Rules

variable {p q r : JsonString} {a b : Option Bytes}

theorem jsonAppendString_label (hp : p.Valid) (z : Option Bytes) :
    ∃ q, jsonAppendString p z = some q ∧ Appends p (some ((z.map quoted).getD [])) q := by
  cases z with
  | none => exact ⟨p, rfl, Appends.refl hp⟩
  | some z => exact jsonAppendString_appends hp z

theorem jsonAppendValue_appends (hp : p.Valid) (v : sqlite3_value) :
    ∃ q, jsonAppendValue p v = some q ∧ Appends p v.rendered q := by
  cases v with
  | null => exact jsonAppendRaw_appends hp nullText
  | integer z => exact jsonAppendRaw_appends hp z
  | float z => exact jsonAppendRaw_appends hp z
  | text z subtype =>
    cases subtype with
    | true => exact jsonAppendRaw_appends hp (z.getD [])
    | false => exact jsonAppendString_label hp z
  | blob z =>
    by_cases herr : p.bErr = 0
    · have hrefused : false ∈ p.answers ↔ (2 : Nat) = 1 := by
        rw [hp.refused, herr]
        decide
      refine ⟨_, if_pos herr, jsonReset_valid hp.sound hp.outstanding hrefused, ?_, ?_,
        fun h => absurd herr h, fun h => ?_, fun _ _ => Or.inr ⟨jsonReset_bErr _, rfl, ?_⟩,
        fun hg => ?_⟩
      · rw [jsonReset_pCtx]
        rfl
      · rw [jsonReset_answers]
        exact List.Subset.refl _
      · rw [jsonReset_bErr] at h
        cases h
      · rw [jsonReset_pCtx]
        rfl
      · rw [jsonReset_pCtx, jsonReset_bErr]
        exact ⟨hg, fun _ => Or.inr rfl⟩
    · exact ⟨p, if_neg herr, Appends.of_failed hp herr rfl (List.Subset.refl _) rfl rfl id⟩

/-- What is appended behind a value may depend on what was appended before it. -/
theorem Appends.follow {z : Option Bytes} (next : Bytes → Option Bytes) (h : Appends p z r)
    (hq : Appends r (next r.zBuf.used) q) :
    Appends p (both z (z.bind fun z => next (p.zBuf.used ++ z))) q := by
  cases z with
  | none =>
    have hnone : Appends p none q := h.trans hq
    exact hnone
  | some z =>
    apply h.trans
    by_cases hr : r.bErr = 0
    · obtain ⟨-, ⟨b, hb, hused⟩, -⟩ := h.content hr
      cases hb
      rw [hused] at hq
      exact hq
    · exact hq.any hr

theorem appendElements_appends :
    ∀ (argv : List sqlite3_value) {p : JsonString}, p.Valid →
      ∃ q, appendElements argv p = some q ∧ Appends p (elements p.zBuf.used argv) q := by
  intro argv
  induction argv with
  | nil =>
    intro p hp
    exact ⟨p, rfl, Appends.refl hp⟩
  | cons v argv ih =>
    intro p hp
    obtain ⟨r, hr, hsep⟩ := jsonAppendSeparator_appends hp
    obtain ⟨r', hr', hvalue⟩ := jsonAppendValue_appends hsep.valid v
    obtain ⟨q, hq, hrest⟩ := ih hvalue.valid
    refine ⟨q, ?_, ?_⟩
    · simp only [appendElements, hr, hr', Option.bind_some, hq]
    · have h := (hsep.trans hvalue).follow (fun used => elements used argv) hrest
      cases hz : v.rendered with
      | none =>
        rw [hz] at h
        rw [elements, hz]
        exact h
      | some z =>
        rw [hz] at h
        rw [elements, hz]
        exact h

/-! ## Calls -/

/-- The result of a text, and of a BLOB. -/
def answer : Option Bytes → Result
  | some z => .text z
  | none => .error blobMessage

/-- How a call of a function ends: with the report of a refused allocation exactly if one that it
asked for was refused. -/
structure Finishes (ctx : sqlite3_context) (z : Option Bytes) (jx : JsonString) : Prop where
  settled : jx.blocks.Settled
  answered : jx.pCtx.result = some (if false ∈ jx.answers then .nomem else answer z)
  generous : ctx.Generous → false ∉ jx.answers
  subtype : jx.pCtx.subtype = true

/-- Without an error there was no refused allocation. -/
theorem JsonString.Valid.granted (hp : p.Valid) (herr : p.bErr ≠ 1) : false ∉ p.answers :=
  mt hp.refused.mp herr

theorem jsonResult_finishes {ctx : sqlite3_context} {z : Option Bytes}
    (h : Appends (jsonInit ctx) z p) :
    ∃ q, (jsonResult p).map JsonString.marked = some q ∧ Finishes ctx z q := by
  have hinit : (jsonInit ctx).bErr = 0 := rfl
  unfold jsonResult JsonString.assert
  by_cases herr : p.bErr = 0
  · obtain ⟨-, ⟨b, hb, hused⟩, -⟩ := h.content herr
    cases hb
    have hgranted : false ∉ p.answers := h.valid.granted (by rw [herr]; decide)
    have hreset := jsonReset_valid h.valid.sound h.valid.outstanding h.valid.refused
    simp only [herr, if_true]
    refine ⟨_, rfl, (Record.settled_iff hreset.sound).mpr hreset.outstanding, ?_, fun _ => ?_,
      rfl⟩
    · have hanswers : (jsonReset p).answers = p.answers := jsonReset_answers p
      change some (Result.text p.zBuf.used) =
        some (if false ∈ (jsonReset p).answers then .nomem else answer (some b))
      rw [hanswers, if_neg hgranted, hused]
      rfl
    · change false ∉ (jsonReset p).answers
      rwa [jsonReset_answers]
  · have hblock := h.valid.failed herr
    have hsettled : p.blocks.Settled := by
      rw [Record.settled_iff h.valid.sound, h.valid.outstanding, hblock]
      rfl
    simp only [herr, if_false, hblock, Option.isNone_none, if_true]
    refine ⟨p.marked, rfl, hsettled, ?_, fun hg => ?_, rfl⟩
    · change p.pCtx.result = some (if false ∈ p.answers then .nomem else answer z)
      obtain ⟨h1, hres⟩ | ⟨h2, rfl, hres⟩ := h.refused hinit herr
      · rw [if_pos (h.valid.refused.mpr h1), hres]
      · rw [if_neg (h.valid.granted (by rw [h2]; decide)), hres]
        rfl
    · have herr' : p.bErr = 2 := ((h.generous hg).2 hinit).resolve_left herr
      exact h.valid.granted (by rw [herr']; decide)

end Rules

theorem jsonQuoteFunc_finishes (ctx : sqlite3_context) (v : sqlite3_value) :
    ∃ jx, jsonQuoteFunc ctx v = some jx ∧ Finishes ctx v.rendered jx := by
  obtain ⟨p, hp, happ⟩ := jsonAppendValue_appends (valid_jsonInit ctx) v
  obtain ⟨q, hq, hfinish⟩ := jsonResult_finishes happ
  refine ⟨q, ?_, hfinish⟩
  unfold jsonQuoteFunc
  rw [hp]
  exact hq

/-- The array of the arguments. -/
def arrayOf (argv : List sqlite3_value) : Option Bytes :=
  both (both (some ['['.toUInt8]) (elements ['['.toUInt8] argv)) (some [']'.toUInt8])

theorem jsonArrayFunc_finishes (ctx : sqlite3_context) (argv : List sqlite3_value) :
    ∃ jx, jsonArrayFunc ctx argv = some jx ∧ Finishes ctx (arrayOf argv) jx := by
  obtain ⟨p, hp, hopen⟩ := jsonAppendChar_appends (valid_jsonInit ctx) '['.toUInt8
  obtain ⟨r, hr, helements⟩ := appendElements_appends argv hopen.valid
  obtain ⟨r', hr', hclose⟩ := jsonAppendChar_appends helements.valid ']'.toUInt8
  have happ := (hopen.follow (fun used => elements used argv) helements).trans hclose
  obtain ⟨q, hq, hfinish⟩ := jsonResult_finishes happ
  refine ⟨q, ?_, hfinish⟩
  simp only [jsonArrayFunc, hp, hr, hr', Option.bind_some, hq]

/-! ### Objects -/

/-- Every label is a text. -/
def labelled : List sqlite3_value → Bool
  | label :: _ :: argv => label.isText && labelled argv
  | _ => true

/-- A label that is no text is reported whatever happened before, and the block goes back. -/
theorem appendMembers_unlabelled (argv : List sqlite3_value) {p : JsonString} (hp : p.Valid)
    (hlabels : labelled argv = false) :
    ∃ q, appendMembers argv p = some q ∧ q.blocks.Settled ∧
      q.pCtx.result = some (.error labelsMessage) := by
  induction argv using labelled.induct generalizing p with
  | case1 label v argv ih =>
    unfold appendMembers
    by_cases hlabel : label.isText = true
    · rw [if_pos hlabel]
      obtain ⟨r₁, hr₁, h₁⟩ := jsonAppendSeparator_appends hp
      obtain ⟨r₂, hr₂, h₂⟩ := jsonAppendString_label h₁.valid (sqlite3_value_text label)
      obtain ⟨r₃, hr₃, h₃⟩ := jsonAppendChar_appends h₂.valid ':'.toUInt8
      obtain ⟨r₄, hr₄, h₄⟩ := jsonAppendValue_appends h₃.valid v
      rw [labelled, hlabel, Bool.true_and] at hlabels
      simp only [hr₁, hr₂, hr₃, hr₄, Option.bind_some]
      exact ih h₄.valid hlabels
    · rw [if_neg hlabel]
      have hreset := jsonReset_valid
        (p := { p with pCtx := sqlite3_result_error p.pCtx labelsMessage }) hp.sound hp.outstanding
        hp.refused
      refine ⟨_, rfl, (Record.settled_iff hreset.sound).mpr hreset.outstanding, ?_⟩
      rw [jsonReset_pCtx]
      rfl
  | case2 argv hargv =>
    rw [labelled] at hlabels
    · cases hlabels
    · exact hargv

theorem appendMembers_labelled (argv : List sqlite3_value) {p : JsonString} (hp : p.Valid)
    (hlabels : labelled argv = true) :
    ∃ r, appendMembers argv p = endMembers r ∧ Appends p (members p.zBuf.used argv) r := by
  induction argv using labelled.induct generalizing p with
  | case1 label v argv ih =>
    rw [labelled, Bool.and_eq_true] at hlabels
    unfold appendMembers
    rw [if_pos hlabels.1]
    obtain ⟨r₁, hr₁, h₁⟩ := jsonAppendSeparator_appends hp
    obtain ⟨r₂, hr₂, h₂⟩ := jsonAppendString_label h₁.valid (sqlite3_value_text label)
    obtain ⟨r₃, hr₃, h₃⟩ := jsonAppendChar_appends h₂.valid ':'.toUInt8
    obtain ⟨r₄, hr₄, h₄⟩ := jsonAppendValue_appends h₃.valid v
    simp only [hr₁, hr₂, hr₃, hr₄, Option.bind_some]
    obtain ⟨q, hq, hrest⟩ := ih h₄.valid hlabels.2
    refine ⟨q, hq, ?_⟩
    have hlabel := h₁.trans (h₂.trans h₃)
    have h := (hlabel.trans h₄).follow (fun used => members used argv) hrest
    cases hz : v.rendered with
    | none =>
      rw [hz] at h
      rw [members, hz]
      exact h
    | some z =>
      rw [hz] at h
      rw [members, hz]
      exact h
  | case2 argv hargv =>
    refine ⟨p, ?_, ?_⟩
    · rw [appendMembers]
      exact hargv
    · rw [members]
      · exact Appends.refl hp
      · exact hargv

/-- The object of the arguments. -/
def objectOf (argv : List sqlite3_value) : Option Bytes :=
  both (both (some [openBrace.toUInt8]) (members [openBrace.toUInt8] argv))
    (some [closeBrace.toUInt8])

theorem jsonObjectFunc_finishes (ctx : sqlite3_context) {argv : List sqlite3_value}
    (heven : argv.length % 2 = 0) (hlabels : labelled argv = true) :
    ∃ jx, jsonObjectFunc ctx argv = some jx ∧ Finishes ctx (objectOf argv) jx := by
  obtain ⟨p, hp, hopen⟩ := jsonAppendChar_appends (valid_jsonInit ctx) openBrace.toUInt8
  obtain ⟨r, hr, hmembers⟩ := appendMembers_labelled argv hopen.valid hlabels
  obtain ⟨r', hr', hclose⟩ := jsonAppendChar_appends hmembers.valid closeBrace.toUInt8
  have happ := (hopen.follow (fun used => members used argv) hmembers).trans hclose
  obtain ⟨q, hq, hfinish⟩ := jsonResult_finishes happ
  refine ⟨q, ?_, hfinish⟩
  unfold jsonObjectFunc
  rw [if_neg (by omega), hp, Option.bind_some, hr]
  unfold endMembers
  rw [hr', Option.bind_some, hq]

/-- The arguments of an object are refused for their number, or for a label. -/
theorem jsonObjectFunc_refuses (ctx : sqlite3_context) (argv : List sqlite3_value)
    (hno : ¬ (argv.length % 2 = 0 ∧ labelled argv = true)) :
    ∃ jx, jsonObjectFunc ctx argv = some jx ∧ jx.blocks.Settled ∧
      jx.pCtx.result = some (.error
        (if argv.length % 2 = 0 then labelsMessage else argumentsMessage)) := by
  by_cases heven : argv.length % 2 = 0
  · have hlabels : labelled argv = false := by
      rw [← Bool.not_eq_true]
      exact fun h => hno ⟨heven, h⟩
    obtain ⟨p, hp, hopen⟩ := jsonAppendChar_appends (valid_jsonInit ctx) openBrace.toUInt8
    obtain ⟨q, hq, hsettled, hres⟩ := appendMembers_unlabelled argv hopen.valid hlabels
    refine ⟨q, ?_, hsettled, by rw [if_pos heven]; exact hres⟩
    unfold jsonObjectFunc
    rw [if_neg (by omega), hp, Option.bind_some, hq]
  · refine ⟨_, if_pos (by omega), ?_, by rw [if_neg heven]; rfl⟩
    exact (Record.settled_iff Record.sound_fresh).mpr rfl

/-! ### Documents of values -/

section Documents

variable {used z : Bytes}

/-- A text that does not end in an opening bracket. -/
def Solid (z : Bytes) : Prop := separator z = [','.toUInt8]

theorem separator_concat (z : Bytes) (c : UInt8) :
    separator (z ++ [c]) =
      if c ≠ '['.toUInt8 ∧ c ≠ openBrace.toUInt8 then [','.toUInt8] else [] := by
  unfold separator
  rw [List.getLast?_concat]

theorem Solid.append (hz : Solid z) (used : Bytes) : Solid (used ++ z) := by
  rcases List.eq_nil_or_concat z with rfl | ⟨y, c, rfl⟩
  · cases hz
  · rw [List.concat_eq_append, Solid, separator_concat] at hz
    rwa [List.concat_eq_append, Solid, ← List.append_assoc, separator_concat]

/-- The values that a document can hold. -/
def sqlite3_value.IsSolid (v : sqlite3_value) : Prop := ∃ z, v.rendered = some z ∧ Solid z

def sqlite3_value.solidText (v : sqlite3_value) : Bytes := v.rendered.getD []

theorem elements_cons {v : sqlite3_value} (hv : v.rendered = some z) (argv : List sqlite3_value) :
    elements used (v :: argv) = (elements (used ++ separator used ++ z) argv).map fun rest =>
      separator used ++ v.solidText ++ rest := by
  rw [elements, sqlite3_value.solidText, hv, Option.bind_some, List.append_assoc]
  rfl

theorem elements_next (hused : Solid used) {argv : List sqlite3_value}
    (hargv : ∀ v ∈ argv, v.IsSolid) :
    elements used argv = some (argv.flatMap fun v => ','.toUInt8 :: v.solidText) := by
  induction argv generalizing used with
  | nil => rfl
  | cons v argv ih =>
    obtain ⟨z, hz, hsolid⟩ := hargv v List.mem_cons_self
    have hrest := ih (hsolid.append (used ++ separator used)) fun v' hv' =>
      hargv v' (List.mem_cons_of_mem v hv')
    rw [elements_cons hz, hrest, hused]
    rfl

/-- An array of values is their texts with commas between them. -/
theorem arrayOf_solid {argv : List sqlite3_value} (hargv : ∀ v ∈ argv, v.IsSolid) :
    arrayOf argv = some ('['.toUInt8 ::
      ([','.toUInt8].intercalate (argv.map sqlite3_value.solidText) ++ [']'.toUInt8])) := by
  cases argv with
  | nil => rfl
  | cons v argv =>
    obtain ⟨z, hz, hsolid⟩ := hargv v List.mem_cons_self
    have hrest := elements_next (hsolid.append (['['.toUInt8] ++ separator ['['.toUInt8]))
      fun v' hv' => hargv v' (List.mem_cons_of_mem v hv')
    rw [arrayOf, elements_cons hz, hrest, List.map_cons, intercalate_cons, List.flatMap_map]
    rfl

/-- A name and a value as arguments of `json_object`. -/
def memberArguments (m : Bytes × sqlite3_value) : List sqlite3_value :=
  [.text (some m.1) false, m.2]

def memberText (m : Bytes × sqlite3_value) : Bytes :=
  quoted m.1 ++ ':'.toUInt8 :: m.2.solidText

theorem members_cons {m : Bytes × sqlite3_value} (hm : m.2.rendered = some z)
    (ms : List (Bytes × sqlite3_value)) :
    members used ((m :: ms).flatMap memberArguments) =
      (members (used ++ (separator used ++ (quoted m.1 ++ [':'.toUInt8])) ++ z)
        (ms.flatMap memberArguments)).map fun rest => separator used ++ memberText m ++ rest := by
  have hlabel : (sqlite3_value.text (some m.1) false).label = quoted m.1 := rfl
  have htext : separator used ++ (quoted m.1 ++ [':'.toUInt8]) ++ z =
      separator used ++ memberText m := by
    rw [memberText, sqlite3_value.solidText, hm, Option.getD_some, List.append_assoc,
      List.append_assoc]
    rfl
  rw [List.flatMap_cons, memberArguments, List.cons_append, List.cons_append, List.nil_append,
    members, hm, Option.bind_some, hlabel, List.append_assoc used, htext]
  unfold both
  rw [Option.bind_some, Option.map_some, Option.bind_some, htext]

theorem members_next (hused : Solid used) {ms : List (Bytes × sqlite3_value)}
    (hms : ∀ m ∈ ms, m.2.IsSolid) :
    members used (ms.flatMap memberArguments) =
      some (ms.flatMap fun m => ','.toUInt8 :: memberText m) := by
  induction ms generalizing used with
  | nil => rfl
  | cons m ms ih =>
    obtain ⟨z, hz, hsolid⟩ := hms m List.mem_cons_self
    have hrest := ih (hsolid.append (used ++ (separator used ++ (quoted m.1 ++ [':'.toUInt8]))))
      fun m' hm' => hms m' (List.mem_cons_of_mem m hm')
    rw [members_cons hz, hrest, hused]
    rfl

/-- An object of members is their texts with commas between them. -/
theorem objectOf_solid {ms : List (Bytes × sqlite3_value)} (hms : ∀ m ∈ ms, m.2.IsSolid) :
    objectOf (ms.flatMap memberArguments) = some (openBrace.toUInt8 ::
      ([','.toUInt8].intercalate (ms.map memberText) ++ [closeBrace.toUInt8])) := by
  cases ms with
  | nil => rfl
  | cons m ms =>
    obtain ⟨z, hz, hsolid⟩ := hms m List.mem_cons_self
    have hrest := members_next (hsolid.append ([openBrace.toUInt8] ++
      (separator [openBrace.toUInt8] ++ (quoted m.1 ++ [':'.toUInt8]))))
      fun m' hm' => hms m' (List.mem_cons_of_mem m hm')
    rw [objectOf, members_cons hz, hrest, List.map_cons, intercalate_cons, List.flatMap_map]
    rfl

end Documents

/-- The three functions under any allocator, with any arguments. A text whose bytes could not be
had, a null pointer, adds nothing behind its comma (`[1,]`); without such arguments the elements and
the members stand between commas. -/
theorem functions_finish (ctx : sqlite3_context) (v : sqlite3_value)
    (argv : List sqlite3_value) :
    (∃ jx, jsonQuoteFunc ctx v = some jx ∧ Finishes ctx v.rendered jx) ∧
      (∃ jx, jsonArrayFunc ctx argv = some jx ∧ Finishes ctx (arrayOf argv) jx) ∧
      (∃ jx, jsonObjectFunc ctx argv = some jx ∧
        if argv.length % 2 = 0 ∧ labelled argv = true then Finishes ctx (objectOf argv) jx
        else jx.blocks.Settled ∧ jx.pCtx.result = some (.error
          (if argv.length % 2 = 0 then labelsMessage else argumentsMessage))) ∧
      ((∀ v ∈ argv, v.IsSolid) → arrayOf argv = some ('['.toUInt8 ::
        ([','.toUInt8].intercalate (argv.map sqlite3_value.solidText) ++ [']'.toUInt8]))) ∧
      ∀ ms : List (Bytes × sqlite3_value), argv = ms.flatMap memberArguments →
        (∀ m ∈ ms, m.2.IsSolid) → objectOf argv = some (openBrace.toUInt8 ::
          ([','.toUInt8].intercalate (ms.map memberText) ++ [closeBrace.toUInt8])) := by
  refine ⟨jsonQuoteFunc_finishes ctx v, jsonArrayFunc_finishes ctx argv, ?_, arrayOf_solid, ?_⟩
  · by_cases hargv : argv.length % 2 = 0 ∧ labelled argv = true
    · obtain ⟨jx, hjx, hfinish⟩ := jsonObjectFunc_finishes ctx hargv.1 hargv.2
      exact ⟨jx, hjx, by rwa [if_pos hargv]⟩
    · obtain ⟨jx, hjx, hrefused⟩ := jsonObjectFunc_refuses ctx argv hargv
      exact ⟨jx, hjx, by rwa [if_neg hargv]⟩
  · rintro ms rfl hms
    exact objectOf_solid hms

/-- A null text behind a number. -/
example : arrayOf [.integer ['1'.toUInt8], .text none false] =
    some ['['.toUInt8, '1'.toUInt8, ','.toUInt8, ']'.toUInt8] := by
  decide

end PetProject.Json1
