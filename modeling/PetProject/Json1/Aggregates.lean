import PetProject.Json1.Inverse

/-!
# The aggregates

`json_group_array` and `json_group_object` of `TDB_workers/src/json1.c`, with the functions that
make window functions of them. The accumulator holds the text of the rows in the window without its
last bracket; `jsonGroupInverse` drops the first row from it. A step that gets no memory for the
accumulator stores nothing and reports nothing.

An aggregation is a queue of rows (`answers_of_run`): whatever the order of the calls and whatever
the allocator refuses, each answer is the document of the rows that were stored and not dropped
(`windows`), or an error.
-/

set_option autoImplicit false

namespace PetProject.Json1

open PetProject.Foundation.GrowingBuffer PetProject.Foundation.Handles
open PetProject.Foundation.TextSearch PetProject.Foundation.JsonText

/-! ## The functions -/

/-- `sqlite3_aggregate_context(ctx, sizeof(*pStr))`, and the rest of a step behind `if( pStr )`. The
memory is zero when it is new. Without memory the step is over, and the next one asks again; where
the engine remembers the null pointer, the answer is no again. -/
def sqlite3_aggregate_context (ctx : sqlite3_context) (pStr : Option JsonString)
    (rest : sqlite3_context → Option JsonString → Option JsonString) :
    Option (Option JsonString) :=
  match pStr with
  | some pStr => (rest ctx (some pStr)).map some
  | none => if ctx.malloc 0 then (rest ctx.next none).map some else some none

/-- What a step does before it appends its row, with new memory or with an accumulator. -/
def beginRow (ctx : sqlite3_context) (c : UInt8) : Option JsonString → Option JsonString
  | none => jsonAppendChar (jsonInit ctx) c
  | some pStr =>
      -- `pCtx` is still the context of the step before
      (if 1 < pStr.nUsed then jsonAppendChar pStr ','.toUInt8 else some pStr).map fun pStr =>
        { pStr with pCtx := ctx }

/-- `jsonArrayStep` with memory. -/
def appendArrayRow (v : sqlite3_value) (ctx : sqlite3_context) (pStr : Option JsonString) :
    Option JsonString :=
  (beginRow ctx '['.toUInt8 pStr).bind fun pStr => jsonAppendValue pStr v

def jsonArrayStep (ctx : sqlite3_context) (pStr : Option JsonString) (v : sqlite3_value) :
    Option (Option JsonString) :=
  sqlite3_aggregate_context ctx pStr (appendArrayRow v)

/-- `jsonObjectStep` with memory. -/
def appendObjectRow (label v : sqlite3_value) (ctx : sqlite3_context)
    (pStr : Option JsonString) : Option JsonString :=
  (beginRow ctx openBrace.toUInt8 pStr).bind fun pStr =>
    (jsonAppendString pStr (sqlite3_value_text label)).bind fun pStr =>
      (jsonAppendChar pStr ':'.toUInt8).bind fun pStr => jsonAppendValue pStr v

def jsonObjectStep (ctx : sqlite3_context) (pStr : Option JsonString)
    (label v : sqlite3_value) : Option (Option JsonString) :=
  sqlite3_aggregate_context ctx pStr (appendObjectRow label v)

/-- The end of `jsonArrayCompute` and `jsonObjectCompute`, behind the last bracket. -/
def computeText (ctx : sqlite3_context) (isFinal : Bool) (pStr : JsonString) :
    Option (sqlite3_context × JsonString) :=
  if pStr.bErr ≠ 0 then
    (pStr.assert pStr.block.isNone).map fun pStr =>
      (if pStr.bErr = 1 then sqlite3_result_error_nomem ctx else ctx, pStr)
  else if isFinal then
    some (sqlite3_result_text ctx pStr.zBuf.used, { pStr.freed with block := none })
  else
    some (sqlite3_result_text ctx pStr.zBuf.used,
      { pStr with zBuf := pStr.zBuf.truncate (pStr.nUsed - 1) })

def jsonArrayCompute (ctx : sqlite3_context) (isFinal : Bool) :
    Option JsonString → Option (sqlite3_context × Option JsonString)
  | some pStr =>
      (jsonAppendChar { pStr with pCtx := ctx } ']'.toUInt8).bind fun pStr =>
        (computeText pStr.pCtx isFinal pStr).map fun (ctx, pStr) =>
          (sqlite3_result_subtype ctx, some pStr)
  | none =>
      some (sqlite3_result_subtype (sqlite3_result_text ctx ['['.toUInt8, ']'.toUInt8]), none)

/-- The context of the last step hears of an allocation that is refused for the bracket. -/
def jsonObjectCompute (ctx : sqlite3_context) (isFinal : Bool) :
    Option JsonString → Option (sqlite3_context × Option JsonString)
  | some pStr =>
      (jsonAppendChar pStr closeBrace.toUInt8).bind fun pStr =>
        (computeText ctx isFinal pStr).map fun (ctx, pStr) =>
          (sqlite3_result_subtype ctx, some pStr)
  | none =>
      some (sqlite3_result_subtype
        (sqlite3_result_text ctx [openBrace.toUInt8, closeBrace.toUInt8]), none)

/-! ## The rows of a window -/

/-- `json_group_array` and `json_group_object`. -/
inductive Group where
  | array
  | object

/-- The arguments of a step. -/
abbrev Group.Row : Group → Type
  | .array => sqlite3_value
  | .object => sqlite3_value × sqlite3_value

def Group.opening : Group → UInt8
  | .array => '['.toUInt8
  | .object => openBrace.toUInt8

def Group.closing : Group → UInt8
  | .array => ']'.toUInt8
  | .object => closeBrace.toUInt8

def Group.step : (g : Group) → sqlite3_context → Option JsonString → g.Row →
    Option (Option JsonString)
  | .array, ctx, pStr, v => jsonArrayStep ctx pStr v
  | .object, ctx, pStr, (label, v) => jsonObjectStep ctx pStr label v

/-- A step with memory. -/
def Group.append : (g : Group) → g.Row → sqlite3_context → Option JsonString → Option JsonString
  | .array, v => appendArrayRow v
  | .object, (label, v) => appendObjectRow label v

def Group.compute : Group → sqlite3_context → Bool → Option JsonString →
    Option (sqlite3_context × Option JsonString)
  | .array => jsonArrayCompute
  | .object => jsonObjectCompute

/-- What a row adds to the document; nothing when it holds a BLOB. -/
def Group.item : (g : Group) → g.Row → Option Bytes
  | .array, v => v.rendered
  | .object, (label, v) => both (some (label.label ++ [':'.toUInt8])) v.rendered

/-- The document of the rows. -/
def Group.document (g : Group) (items : List Bytes) : Bytes :=
  g.opening :: ([','.toUInt8].intercalate items ++ [g.closing])

/-- A row that the search passes over, or one with a BLOB. -/
def Group.Proper (g : Group) (row : g.Row) : Prop :=
  ∀ z, g.item row = some z → z ≠ [] ∧ Transparent z

/-- The value of a row is one that an SQL function can be called with. -/
def Group.Regular : (g : Group) → g.Row → Prop
  | .array, v => v.Regular
  | .object, (_, v) => v.Regular

/-- The calls that the engine makes for a window. -/
inductive Call (g : Group) where
  | step (ctx : sqlite3_context) (row : g.Row)
  | value (ctx : sqlite3_context)
  | inverse (stale : UInt8)

/-- An aggregate in use. The other fields record the stored rows of the window, what the steps
reported of their rows, and what was computed from which rows. -/
structure Aggregation (g : Group) where
  pStr : Option JsonString
  window : List g.Row
  reports : List (g.Row × Result)
  answers : List (List g.Row × Option Result)

def Aggregation.start (g : Group) : Aggregation g := ⟨none, [], [], []⟩

/-- A step has stored its row. -/
def Aggregation.stored {g : Group} (s : Aggregation g) (row : g.Row) (p : JsonString) :
    Aggregation g :=
  { s with
    pStr := some p
    window := s.window ++ [row]
    reports := s.reports ++ p.pCtx.result.toList.map fun e => (row, e) }

/-- A computation has answered from the rows of the window. -/
def Aggregation.answered {g : Group} (s : Aggregation g) (pStr : Option JsonString)
    (result : Option Result) : Aggregation g :=
  { s with pStr := pStr, answers := s.answers ++ [(s.window, result)] }

/-- The first row is out of the window. -/
def Aggregation.dropped {g : Group} (s : Aggregation g) (pStr : Option JsonString) :
    Aggregation g :=
  { s with pStr := pStr, window := s.window.tail }

def Aggregation.call {g : Group} (s : Aggregation g) : Call g → Option (Aggregation g)
  | .step ctx row =>
      (g.step ctx s.pStr row).map fun pStr =>
        match pStr with
        | none => s
        | some p => s.stored row p
  | .value ctx =>
      (g.compute ctx false s.pStr).map fun (ctx, pStr) => s.answered pStr ctx.result
  | .inverse stale => (jsonGroupInverse stale s.pStr).map s.dropped

/-- The calls one after the other, and the last one of the engine. -/
def Aggregation.run {g : Group} (ctx : sqlite3_context) : List (Call g) → Aggregation g →
    Option (Aggregation g)
  | [], s =>
      (g.compute ctx true s.pStr).map fun (ctx, pStr) => s.answered pStr ctx.result
  | c :: calls, s => (s.call c).bind (Aggregation.run ctx calls)

/-- The windows of the computations as a queue of rows: the steps from the first one on that gets
memory append their rows, and an inverse drops the first one. `memory` is whether there is an
accumulator. -/
def windows {g : Group} (memory : Bool) (window : List g.Row) : List (Call g) → List (List g.Row)
  | [] => [window]
  | .step ctx row :: calls =>
      if memory || ctx.malloc 0 then windows true (window ++ [row]) calls
      else windows false window calls
  | .value _ :: calls => window :: windows memory window calls
  | .inverse _ :: calls => windows memory window.tail calls

/-- A call that hands over a context or a row hands over one that satisfies a predicate. -/
def Call.Meets {g : Group} (C : sqlite3_context → Prop) (R : g.Row → Prop) : Call g → Prop
  | .step ctx row => C ctx ∧ R row
  | .value ctx => C ctx
  | .inverse _ => True

/-! ## What a call does -/

section Calls

variable {g : Group} {p q r : JsonString} {ctx : sqlite3_context}

/-- The context of an accumulator does not matter for what it holds. -/
theorem JsonString.Valid.moved (hp : p.Valid) (ctx : sqlite3_context) :
    ({ p with pCtx := ctx } : JsonString).Valid :=
  ⟨hp.sound, hp.outstanding, hp.static, hp.failed, hp.refused⟩

theorem JsonString.Valid.settled (hp : p.Valid) (herr : p.bErr ≠ 0) : p.blocks.Settled := by
  rw [Record.settled_iff hp.sound, hp.outstanding, hp.failed herr]
  rfl

theorem step_eq (g : Group) (ctx : sqlite3_context) (pStr : Option JsonString) (row : g.Row) :
    g.step ctx pStr row = sqlite3_aggregate_context ctx pStr (g.append row) := by
  cases g <;> rfl

/-- The row of a step, behind its bracket or comma. -/
theorem appendRow (hp : p.Valid) (row : g.Row) {pStr : Option JsonString}
    (hbegin : beginRow ctx g.opening pStr = some p) :
    ∃ q, g.append row ctx pStr = some q ∧ Appends p (g.item row) q := by
  cases g with
  | array =>
    have hstep : Group.append .array row ctx pStr =
        (beginRow ctx (Group.opening .array) pStr).bind fun p => jsonAppendValue p row := rfl
    rw [hstep, hbegin, Option.bind_some]
    exact jsonAppendValue_appends hp row
  | object =>
    obtain ⟨label, v⟩ := row
    obtain ⟨r₁, hr₁, h₁⟩ := jsonAppendString_label hp (sqlite3_value_text label)
    obtain ⟨r₂, hr₂, h₂⟩ := jsonAppendChar_appends h₁.valid ':'.toUInt8
    obtain ⟨q, hq, h₃⟩ := jsonAppendValue_appends h₂.valid v
    refine ⟨q, ?_, (h₁.trans h₂).trans h₃⟩
    have hstep : Group.append .object (label, v) ctx pStr =
        (beginRow ctx (Group.opening .object) pStr).bind fun p =>
          (jsonAppendString p (sqlite3_value_text label)).bind fun p =>
            (jsonAppendChar p ':'.toUInt8).bind fun p => jsonAppendValue p v := rfl
    simp only [hstep, hbegin, hr₁, hr₂, Option.bind_some, hq]

/-- The comma in front of a row. -/
def comma (p : JsonString) : Bytes := if 1 < p.nUsed then [','.toUInt8] else []

theorem beginRow_next (g : Group) (hp : p.Valid) (ctx : sqlite3_context) :
    ∃ r, beginRow ctx g.opening (some p) = some { r with pCtx := ctx } ∧
      Appends p (some (comma p)) r := by
  have hcomma : ∃ r, (if 1 < p.nUsed then jsonAppendChar p ','.toUInt8 else some p) = some r ∧
      Appends p (some (comma p)) r := by
    unfold comma
    split
    · exact jsonAppendChar_appends hp _
    · exact ⟨p, rfl, Appends.refl hp⟩
  obtain ⟨r, hr, happ⟩ := hcomma
  refine ⟨r, ?_, happ⟩
  rw [beginRow, hr]
  rfl

/-- What a computation answers from the text with its last bracket. -/
def computed (ctx : sqlite3_context) (r : JsonString) : Option Result :=
  if r.bErr = 0 then some (.text r.zBuf.used)
  else if r.bErr = 1 then some .nomem
  else ctx.result

theorem computeText_value (hr : r.Valid) (ctx : sqlite3_context) :
    ∃ ctx' q, computeText ctx false r = some (ctx', q) ∧ ctx'.result = computed ctx r ∧ q.Valid ∧
      q.answers = r.answers ∧ q.bErr = r.bErr ∧
      (r.bErr = 0 → q.zBuf.used = r.zBuf.used.take (r.nUsed - 1)) := by
  unfold computeText computed
  by_cases herr : r.bErr = 0
  · rw [if_neg (not_not.mpr herr), if_pos herr]
    exact ⟨_, _, rfl, rfl, ⟨hr.sound, hr.outstanding, hr.static, hr.failed, hr.refused⟩, rfl, rfl,
      fun _ => rfl⟩
  · rw [if_pos herr, if_neg herr]
    unfold JsonString.assert
    rw [hr.failed herr]
    refine ⟨_, r, rfl, ?_, hr, rfl, rfl, fun h => absurd h herr⟩
    split <;> rfl

theorem computeText_final (hr : r.Valid) (ctx : sqlite3_context) :
    ∃ ctx' q, computeText ctx true r = some (ctx', q) ∧ ctx'.result = computed ctx r ∧
      q.blocks.Settled ∧ q.answers = r.answers ∧ q.bErr = r.bErr := by
  unfold computeText computed
  by_cases herr : r.bErr = 0
  · have hreset := jsonReset_valid hr.sound hr.outstanding hr.refused
    rw [if_neg (not_not.mpr herr), if_pos herr, if_pos rfl]
    exact ⟨_, _, rfl, rfl, (Record.settled_iff hreset.sound).mpr hreset.outstanding,
      freed_answers r, freed_bErr r⟩
  · rw [if_pos herr, if_neg herr]
    unfold JsonString.assert
    rw [hr.failed herr]
    refine ⟨_, r, rfl, ?_, hr.settled herr, rfl, rfl⟩
    split <;> rfl

/-- A computation appends the last bracket for its own call or, in an object, for the last step. -/
theorem compute_some (g : Group) (hp : p.Valid) (ctx : sqlite3_context) (isFinal : Bool) :
    ∃ r c ctx₀, g.compute ctx isFinal (some p) =
        (computeText ctx₀ isFinal r).map (fun (ctx, p) => (sqlite3_result_subtype ctx, some p)) ∧
      Appends { p with pCtx := c } (some [g.closing]) r ∧
      (p.bErr ≠ 0 → ctx₀.result = ctx.result) := by
  cases g with
  | array =>
    obtain ⟨r, hr, happ⟩ := jsonAppendChar_appends (hp.moved ctx) ']'.toUInt8
    refine ⟨r, ctx, r.pCtx, ?_, happ, fun herr => (happ.kept herr).2⟩
    have hcompute : Group.compute .array ctx isFinal (some p) =
        (jsonAppendChar { p with pCtx := ctx } ']'.toUInt8).bind fun p =>
          (computeText p.pCtx isFinal p).map fun (ctx, p) =>
            (sqlite3_result_subtype ctx, some p) := rfl
    rw [hcompute, hr, Option.bind_some]
  | object =>
    obtain ⟨r, hr, happ⟩ := jsonAppendChar_appends hp closeBrace.toUInt8
    refine ⟨r, p.pCtx, ctx, ?_, happ, fun _ => rfl⟩
    have hcompute : Group.compute .object ctx isFinal (some p) =
        (jsonAppendChar p closeBrace.toUInt8).bind fun p =>
          (computeText ctx isFinal p).map fun (ctx, p) =>
            (sqlite3_result_subtype ctx, some p) := rfl
    rw [hcompute, hr, Option.bind_some]

/-- What a computation with the accumulator `p` answers, and the error that `q` is left with. -/
inductive Computes (g : Group) (p : JsonString) (ctx : sqlite3_context) (q : JsonString) :
    Option Result → Prop
  | text (hp : p.bErr = 0) (hq : q.bErr = 0) :
      Computes g p ctx q (some (.text (p.zBuf.used ++ [g.closing])))
  | nomem (hq : q.bErr = 1) (hrefused : false ∈ q.answers) : Computes g p ctx q (some .nomem)
  | spoiled (hne : p.bErr ≠ 0) (hne' : p.bErr ≠ 1) (hq : q.bErr = p.bErr) :
      Computes g p ctx q ctx.result

/-- The error in `q` is the one before, or that of a refused bracket. -/
theorem Computes.error {res : Option Result} (h : Computes g p ctx q res) :
    (q.bErr = 0 → p.bErr = 0) ∧ (q.bErr ≠ 0 → q.bErr = 1 ∨ p.bErr ≠ 0 ∧ q.bErr = p.bErr) := by
  cases h with
  | text hp hq => exact ⟨fun _ => hp, fun h => absurd hq h⟩
  | nomem h1 _ =>
    refine ⟨fun h0 => ?_, fun _ => Or.inl h1⟩
    rw [h0] at h1
    cases h1
  | spoiled hne _ hkept => exact ⟨fun h0 => hkept.symm.trans h0, fun _ => Or.inr ⟨hne, hkept⟩⟩

theorem computes_of_closed {c ctx₀ : sqlite3_context}
    (happ : Appends { p with pCtx := c } (some [g.closing]) r)
    (hctx : p.bErr ≠ 0 → ctx₀.result = ctx.result) (herr : q.bErr = r.bErr)
    (hanswers : q.answers = r.answers) : Computes g p ctx q (computed ctx₀ r) := by
  unfold computed
  by_cases hr : r.bErr = 0
  · rw [if_pos hr]
    obtain ⟨hp, ⟨b, hb, hused⟩, -⟩ := happ.content hr
    cases hb
    rw [hused]
    exact Computes.text hp (herr.trans hr)
  · rw [if_neg hr]
    by_cases h1 : r.bErr = 1
    · rw [if_pos h1]
      exact Computes.nomem (herr.trans h1) (hanswers ▸ happ.valid.refused.mpr h1)
    · have hp : p.bErr ≠ 0 := by
        intro hp
        rcases happ.refused hp hr with ⟨h, -⟩ | ⟨-, h, -⟩
        · exact h1 h
        · cases h
      -- nothing was appended behind an older error
      have hkept : r.bErr = p.bErr := (happ.kept hp).1
      rw [if_neg h1, hctx hp]
      exact Computes.spoiled hp (hkept ▸ h1) (herr.trans hkept)

theorem compute_value (g : Group) (hp : p.Valid) (ctx : sqlite3_context) :
    ∃ ctx' q, g.compute ctx false (some p) = some (ctx', some q) ∧
      Computes g p ctx q ctx'.result ∧ p.answers ⊆ q.answers ∧ q.Valid ∧
      (q.bErr = 0 → q.zBuf.used = p.zBuf.used) := by
  obtain ⟨r, c, ctx₀, hcompute, happ, hctx⟩ := compute_some g hp ctx false
  obtain ⟨ctx', q, hq, hanswer, hvalid, hanswers, herr, hused⟩ := computeText_value happ.valid ctx₀
  refine ⟨sqlite3_result_subtype ctx', q, by rw [hcompute, hq]; rfl, ?_,
    hanswers ▸ happ.asked, hvalid, fun h0 => ?_⟩
  · have hcomputes := computes_of_closed happ hctx herr hanswers
    rwa [← hanswer] at hcomputes
  · have hr : r.bErr = 0 := herr.symm.trans h0
    obtain ⟨-, ⟨b, hb, hr'⟩, -⟩ := happ.content hr
    cases hb
    have hlen : r.nUsed - 1 = p.zBuf.used.length := by
      unfold JsonString.nUsed Buffer.size
      rw [hr', List.length_append, List.length_singleton, Nat.add_sub_cancel]
    rw [hused hr, hlen, hr', List.take_left']
    rfl

theorem compute_final (g : Group) (hp : p.Valid) (ctx : sqlite3_context) :
    ∃ ctx' q, g.compute ctx true (some p) = some (ctx', some q) ∧
      Computes g p ctx q ctx'.result ∧ p.answers ⊆ q.answers ∧ q.blocks.Settled := by
  obtain ⟨r, c, ctx₀, hcompute, happ, hctx⟩ := compute_some g hp ctx true
  obtain ⟨ctx', q, hq, hanswer, hsettled, hanswers, herr⟩ := computeText_final happ.valid ctx₀
  refine ⟨sqlite3_result_subtype ctx', q, by rw [hcompute, hq]; rfl, ?_,
    hanswers ▸ happ.asked, hsettled⟩
  have hcomputes := computes_of_closed happ hctx herr hanswers
  rwa [← hanswer] at hcomputes

/-- The document of no rows. -/
theorem compute_none (g : Group) (ctx : sqlite3_context) (isFinal : Bool) :
    ∃ ctx', g.compute ctx isFinal none = some (ctx', none) ∧
      ctx'.result = some (.text (g.document [])) := by
  cases g with
  | array => exact ⟨_, rfl, rfl⟩
  | object => exact ⟨_, rfl, rfl⟩

end Calls

/-! ## The text of a window -/

section Texts

variable {g : Group} {rows : List g.Row} {zs : List Bytes}

/-- The texts of rows that the search passes over. -/
structure Group.Items (g : Group) (rows : List g.Row) (zs : List Bytes) : Prop where
  rendered : rows.map g.item = zs.map some
  passed : ∀ z ∈ zs, z ≠ [] ∧ Transparent z

theorem Group.Items.nil (g : Group) : g.Items [] [] :=
  ⟨rfl, fun _ h => by cases h⟩

theorem Group.Items.concat {row : g.Row} {z : Bytes} (h : g.Items rows zs)
    (hz : g.item row = some z) (hproper : g.Proper row) :
    g.Items (rows ++ [row]) (zs ++ [z]) := by
  refine ⟨?_, ?_⟩
  · rw [List.map_append, List.map_append, h.rendered, List.map_singleton, List.map_singleton, hz]
  · intro y hy
    rcases List.mem_append.mp hy with hy | hy
    · exact h.passed y hy
    · rw [List.mem_singleton.mp hy]
      exact hproper z hz

theorem Group.Items.tail (h : g.Items rows zs) : g.Items rows.tail zs.tail := by
  refine ⟨?_, fun z hz => h.passed z (List.mem_of_mem_tail hz)⟩
  rw [List.map_tail, List.map_tail, h.rendered]

theorem proper_of_regular {row : g.Row} (h : g.Regular row) : g.Proper row := by
  cases g with
  | array => exact fun z hz => regular_passed h hz
  | object =>
    obtain ⟨label, v⟩ := row
    intro z hz
    have hlabel : Transparent label.label := by
      unfold sqlite3_value.label
      cases sqlite3_value_text label with
      | none => exact transparent_digits fun _ h => absurd h List.not_mem_nil
      | some y => exact transparent_quoted y
    have hitem : both (some (label.label ++ [':'.toUInt8])) v.rendered = some z := hz
    obtain ⟨y, hy⟩ : ∃ y, v.rendered = some y := by
      cases hv : v.rendered with
      | none =>
        rw [hv] at hitem
        cases hitem
      | some y => exact ⟨y, rfl⟩
    rw [hy] at hitem
    cases hitem
    refine ⟨by simp, transparent_append (transparent_append hlabel ?_) (regular_passed h hy).2⟩
    exact transparent_byte (by decide)

/-- The comma behind the rows, if there are any. -/
def trailing (zs : List Bytes) : Bytes := if zs = [] then [] else [','.toUInt8]

/-- The text with another row behind it. -/
theorem intercalate_concat (zs : List Bytes) (z : Bytes) :
    [','.toUInt8].intercalate (zs ++ [z]) =
      [','.toUInt8].intercalate zs ++ (trailing zs ++ z) := by
  unfold trailing
  induction zs with
  | nil => simp
  | cons y zs ih =>
    rw [List.cons_append, List.intercalate_cons_of_ne_nil (List.append_ne_nil_of_right_ne_nil _
      (List.cons_ne_nil z [])), ih, if_neg (List.cons_ne_nil y zs)]
    cases zs with
    | nil => simp only [List.intercalate_nil, List.intercalate_singleton, if_true, List.nil_append,
        List.append_assoc]
    | cons x zs => simp only [List.intercalate_cons_cons, List.cons_ne_nil, if_false,
        List.append_assoc]

theorem intercalate_eq_nil (hzs : ∀ z ∈ zs, z ≠ []) :
    [','.toUInt8].intercalate zs = [] ↔ zs = [] := by
  cases zs with
  | nil => simp
  | cons z zs =>
    have hz := hzs z List.mem_cons_self
    cases zs with
    | nil => simpa using hz
    | cons y zs => simp [List.intercalate_cons_cons]

/-- The test of `nUsed` finds out whether there are rows. -/
theorem comma_eq {p : JsonString} {c : UInt8} (hitems : g.Items rows zs)
    (hused : p.zBuf.used = c :: [','.toUInt8].intercalate zs) : comma p = trailing zs := by
  have hlen : p.nUsed = ([','.toUInt8].intercalate zs).length + 1 := by
    unfold JsonString.nUsed Buffer.size
    rw [hused, List.length_cons]
  have hnil := intercalate_eq_nil fun y hy => (hitems.passed y hy).1
  rw [← List.length_eq_zero_iff] at hnil
  unfold comma trailing
  by_cases hzs : zs = []
  · rw [if_pos hzs, if_neg]
    have := hnil.mpr hzs
    omega
  · rw [if_neg hzs, if_pos]
    have := mt hnil.mp hzs
    omega

/-- The search finds the end of the first row. -/
theorem afterComma_intercalate {z : Bytes} (hz : Transparent z) (zs : List Bytes) :
    (afterComma false 0 ([','.toUInt8].intercalate (z :: zs))).getD [] =
      [','.toUInt8].intercalate zs := by
  cases zs with
  | nil =>
    have hpass := hz 0 (Int.le_refl 0) []
    rw [List.append_nil] at hpass
    rw [List.intercalate_singleton, hpass]
    rfl
  | cons y zs =>
    rw [List.intercalate_cons_cons, List.append_assoc, hz 0 (Int.le_refl 0),
      List.singleton_append, afterComma_cons, if_pos ⟨rfl, rfl, rfl⟩]
    rfl

end Texts

/-! ## Runs -/

section Runs

variable {g : Group} {P : Prop} {s s' : Aggregation g} {p q r : JsonString}
  {ctx : sqlite3_context} {row : g.Row}

/-- An allocation that the accumulator asked for was refused. -/
def Aggregation.Refused (s : Aggregation g) : Prop := ∃ p, s.pStr = some p ∧ false ∈ p.answers

/-- A step has reported a BLOB. -/
def Aggregation.Spoiled (s : Aggregation g) : Prop :=
  ∃ row, (row, .error blobMessage) ∈ s.reports ∧ g.item row = none

/-- A computation answers the document of its rows if `P` holds, the report of a refused allocation,
or nothing behind a BLOB. -/
def Documented (P : Prop) (s : Aggregation g) (a : List g.Row × Option Result) : Prop :=
  (∃ z, a.2 = some (.text z) ∧
      (P → ∃ zs, a.1.map g.item = zs.map some ∧ z = g.document zs)) ∨
    (a.2 = some .nomem ∧ s.Refused) ∨ (a.2 = none ∧ s.Spoiled)

/-- The accumulator holds the rows of the window without the last bracket, if there was no error. -/
structure Holds (P : Prop) (s : Aggregation g) (p : JsonString) : Prop where
  valid : p.Valid
  begun : p.bErr = 0 → p.zBuf.used ≠ []
  text : P → p.bErr = 0 → ∃ zs, g.Items s.window zs ∧
    p.zBuf.used = g.opening :: [','.toUInt8].intercalate zs
  failed : p.bErr ≠ 0 → p.bErr = 1 ∨ p.bErr = 2 ∧ s.Spoiled

/-- The invariant of a run whose rows are passed over by the search if `P`. -/
structure Kept (P : Prop) (s : Aggregation g) : Prop where
  idle : s.pStr = none → s.window = []
  holds : ∀ p, s.pStr = some p → Holds P s p
  reported : ∀ r ∈ s.reports, r.2 = .nomem ∧ s.Refused ∨
    r.2 = .error blobMessage ∧ g.item r.1 = none
  answers : ∀ a ∈ s.answers, Documented P s a

theorem kept_start (g : Group) : Kept P (Aggregation.start g) :=
  ⟨fun _ => rfl, nofun, nofun, nofun⟩

/-- More answers of the allocator and more reports do not make an answer wrong. -/
theorem Documented.mono {a : List g.Row × Option Result} (h : Documented P s a)
    (hrefused : s.Refused → s'.Refused) (hsub : s.reports ⊆ s'.reports) : Documented P s' a :=
  h.imp id (Or.imp (And.imp_right hrefused)
    (And.imp_right fun ⟨row, hmem, hnone⟩ => ⟨row, hsub hmem, hnone⟩))

theorem Aggregation.Refused.mono (hasked : ∀ p, s.pStr = some p → p.answers ⊆ q.answers)
    (hq : s'.pStr = some q) (h : s.Refused) : s'.Refused := by
  obtain ⟨p, hp, hmem⟩ := h
  exact ⟨q, hq, hasked p hp hmem⟩

/-- Without an accumulator nothing was refused to it. -/
theorem Aggregation.not_refused (hstr : s.pStr = none) : ¬ s.Refused := by
  rintro ⟨p, hp, -⟩
  cases hstr.symm.trans hp

/-- What was answered and reported before a call stays right. -/
theorem Kept.earlier (h : Kept P s) (hrefused : s.Refused → s'.Refused)
    (hreports : s.reports ⊆ s'.reports) :
    (∀ r ∈ s.reports, r.2 = .nomem ∧ s'.Refused ∨
        r.2 = .error blobMessage ∧ g.item r.1 = none) ∧
      ∀ a ∈ s.answers, Documented P s' a :=
  ⟨fun r hr => (h.reported r hr).imp (And.imp_right hrefused) id,
    fun a ha => (h.answers a ha).mono hrefused hreports⟩

/-! ### Steps -/

/-- The accumulator in front of the text of a row. -/
structure Ready (P : Prop) (s : Aggregation g) (r : JsonString) : Prop where
  valid : r.Valid
  begun : r.bErr = 0 → r.zBuf.used ≠ []
  text : P → r.bErr = 0 → ∃ zs, g.Items s.window zs ∧
    r.zBuf.used = g.opening :: ([','.toUInt8].intercalate zs ++ trailing zs)
  failed : r.bErr ≠ 0 → r.bErr = 1 ∨ r.bErr = 2 ∧ s.Spoiled
  reported : ∀ e ∈ r.pCtx.result, e = .nomem ∧ r.bErr = 1

/-- New memory with its opening bracket. -/
theorem ready_first (hwindow : s.window = []) (hres : ctx.result = none) :
    ∃ r, beginRow ctx g.opening none = some r ∧ Ready P s r := by
  obtain ⟨r, hr, hopen⟩ := jsonAppendChar_appends (valid_jsonInit ctx) g.opening
  have hinit : (jsonInit ctx).bErr = 0 := rfl
  have hused (herr : r.bErr = 0) : r.zBuf.used = [g.opening] := by
    obtain ⟨-, ⟨b, hb, hused⟩, -⟩ := hopen.content herr
    cases hb
    exact hused
  have hrefused (herr : r.bErr ≠ 0) : r.bErr = 1 ∧ r.pCtx.result = some .nomem := by
    rcases hopen.refused hinit herr with h | ⟨-, h, -⟩
    · exact h
    · cases h
  refine ⟨r, hr, hopen.valid, fun herr => ?_, fun _ herr => ⟨[], ?_, hused herr⟩,
    fun herr => Or.inl (hrefused herr).1, fun e he => ?_⟩
  · rw [hused herr]
    exact List.cons_ne_nil _ _
  · rw [hwindow]
    exact Group.Items.nil g
  · by_cases herr : r.bErr = 0
    · rw [(hopen.content herr).2.2] at he
      cases hres.symm.trans he
    · obtain ⟨h1, hnomem⟩ := hrefused herr
      rw [hnomem] at he
      cases he
      exact ⟨rfl, h1⟩

/-- The accumulator of the rows before, with the comma. A refused comma is reported to the context
of the step before, whose call is over. -/
theorem ready_next (hp : Holds P s p) (hres : ctx.result = none) :
    ∃ r, beginRow ctx g.opening (some p) = some r ∧ Ready P s r ∧ p.answers ⊆ r.answers := by
  obtain ⟨r, hr, hcomma⟩ := beginRow_next g hp.valid ctx
  refine ⟨_, hr, ⟨hcomma.valid.moved ctx, fun herr => ?_, fun hP herr => ?_, fun herr => ?_,
    fun e he => ?_⟩, hcomma.asked⟩
  · obtain ⟨hp0, ⟨b, -, hused⟩, -⟩ := hcomma.content herr
    change r.zBuf.used ≠ []
    rw [hused]
    exact List.append_ne_nil_of_left_ne_nil (hp.begun hp0) b
  · obtain ⟨hp0, ⟨b, hb, hused⟩, -⟩ := hcomma.content herr
    cases hb
    obtain ⟨zs, hitems, htext⟩ := hp.text hP hp0
    refine ⟨zs, hitems, ?_⟩
    change r.zBuf.used = _
    rw [hused, comma_eq hitems htext, htext, List.cons_append]
  · -- the error is that of the comma, or older
    change r.bErr = 1 ∨ r.bErr = 2 ∧ s.Spoiled
    by_cases hp0 : p.bErr = 0
    · rcases hcomma.refused hp0 herr with ⟨h1, -⟩ | ⟨-, hnone, -⟩
      · exact Or.inl h1
      · cases hnone
    · rw [(hcomma.kept hp0).1]
      exact hp.failed hp0
  · cases hres.symm.trans he

/-- What the step reports. -/
theorem Ready.row_reported (h : Ready P s r) (happ : Appends r (g.item row) q) :
    ∀ e ∈ q.pCtx.result, e = .nomem ∧ q.bErr = 1 ∨
      e = .error blobMessage ∧ q.bErr = 2 ∧ g.item row = none := by
  intro e he
  by_cases hr : r.bErr = 0
  · by_cases hq : q.bErr = 0
    · rw [(happ.content hq).2.2] at he
      have h1 := (h.reported e he).2
      rw [hr] at h1
      cases h1
    · rcases happ.refused hr hq with ⟨h1, hnomem⟩ | ⟨h2, hnone, herror⟩
      · rw [hnomem] at he
        cases he
        exact Or.inl ⟨rfl, h1⟩
      · rw [herror] at he
        cases he
        exact Or.inr ⟨rfl, h2, hnone⟩
  · obtain ⟨herr, hres⟩ := happ.kept hr
    rw [hres] at he
    rw [herr]
    exact Or.inl (h.reported e he)

/-- The text of the row behind the others. -/
theorem Ready.row_holds (h : Ready P s r) (happ : Appends r (g.item row) q)
    (hproper : P → g.Proper row) : Holds P (s.stored row q) q := by
  refine ⟨happ.valid, fun hq => ?_, fun hP hq => ?_, fun hq => ?_⟩
  · obtain ⟨hr, ⟨z, -, hused⟩, -⟩ := happ.content hq
    rw [hused]
    exact List.append_ne_nil_of_left_ne_nil (h.begun hr) z
  · obtain ⟨hr, ⟨z, hz, hused⟩, -⟩ := happ.content hq
    obtain ⟨zs, hitems, htext⟩ := h.text hP hr
    refine ⟨zs ++ [z], hitems.concat hz (hproper hP), ?_⟩
    rw [hused, htext, intercalate_concat, List.cons_append, List.append_assoc]
  · by_cases hr : r.bErr = 0
    · refine (happ.refused hr hq).imp And.left ?_
      rintro ⟨h2, hnone, herror⟩
      refine ⟨h2, row, List.mem_append_right _ ?_, hnone⟩
      rw [herror]
      exact List.mem_singleton_self _
    · rw [(happ.kept hr).1]
      refine (h.failed hr).imp id fun ⟨h2, row', hmem, hnone⟩ => ⟨h2, row', ?_, hnone⟩
      exact List.mem_append_left _ hmem

theorem kept_stored (h : Kept P s) (hr : Ready P s r) (happ : Appends r (g.item row) q)
    (hproper : P → g.Proper row) (hasked : ∀ p, s.pStr = some p → p.answers ⊆ r.answers) :
    Kept P (s.stored row q) := by
  have hrefused : s.Refused → (s.stored row q).Refused :=
    Aggregation.Refused.mono (fun p hp => List.Subset.trans (hasked p hp) happ.asked) rfl
  obtain ⟨hreports, hanswers⟩ := h.earlier hrefused (List.subset_append_left _ _)
  refine ⟨fun hnone => (by cases hnone), fun p hp => ?_, fun report hmem => ?_, hanswers⟩
  · cases hp
    exact hr.row_holds happ hproper
  · rcases List.mem_append.mp hmem with hold | hnew
    · exact hreports report hold
    · obtain ⟨e, he, rfl⟩ := List.mem_map.mp hnew
      refine (hr.row_reported happ e (Option.mem_toList.mp he)).imp ?_ fun h => ⟨h.1, h.2.2⟩
      exact And.imp_right fun h1 => ⟨q, rfl, happ.valid.refused.mpr h1⟩

/-- A step stores its row unless it gets no memory. -/
theorem kept_step (h : Kept P s) (hres : ctx.result = none) (hproper : P → g.Proper row) :
    (s.pStr = none ∧ ctx.malloc 0 = false ∧ g.step ctx s.pStr row = some none) ∨
      (s.pStr.isSome || ctx.malloc 0) = true ∧
        ∃ q, g.step ctx s.pStr row = some (some q) ∧ Kept P (s.stored row q) := by
  rw [step_eq]
  cases hstr : s.pStr with
  | none =>
    cases hmalloc : ctx.malloc 0 with
    | false =>
      refine Or.inl ⟨rfl, rfl, ?_⟩
      rw [sqlite3_aggregate_context, hmalloc]
      rfl
    | true =>
      have hnext : ctx.next.result = none := hres
      obtain ⟨r, hr, hready⟩ := ready_first (P := P) (h.idle hstr) hnext
      obtain ⟨q, hq, happ⟩ := appendRow hready.valid row hr
      refine Or.inr ⟨rfl, q, ?_, kept_stored h hready happ hproper fun p hp => ?_⟩
      · rw [sqlite3_aggregate_context, hmalloc, if_pos rfl, hq]
        rfl
      · cases hstr.symm.trans hp
  | some p =>
    obtain ⟨r, hr, hready, hasked⟩ := ready_next (h.holds p hstr) hres
    obtain ⟨q, hq, happ⟩ := appendRow hready.valid row hr
    refine Or.inr ⟨rfl, q, ?_, kept_stored h hready happ hproper fun p' hp => ?_⟩
    · rw [sqlite3_aggregate_context, hq]
      rfl
    · cases hstr.symm.trans hp
      exact hasked

/-! ### The other calls -/

/-- An inverse drops the text of the first row, if there is one. -/
theorem kept_inverse (h : Kept P s) (stale : UInt8) :
    ∃ pStr, s.call (.inverse stale) = some (s.dropped pStr) ∧ pStr.isSome = s.pStr.isSome ∧
      Kept P (s.dropped pStr) := by
  cases hstr : s.pStr with
  | none =>
    have hrefused : s.Refused → (s.dropped none).Refused :=
      fun hrefused => absurd hrefused (s.not_refused hstr)
    obtain ⟨hreports, hanswers⟩ := h.earlier hrefused (List.Subset.refl _)
    refine ⟨none, ?_, rfl, ⟨fun _ => ?_, nofun, hreports, hanswers⟩⟩
    · rw [Aggregation.call, hstr]
      rfl
    · change s.window.tail = []
      rw [h.idle hstr]
      rfl
  | some p =>
    have hp := h.holds p hstr
    obtain ⟨q, hq, hvalid, hsame, herr, hused⟩ := dropFirstRow_keeps hp.valid stale hp.begun
    have hrefused : s.Refused → (s.dropped (some q)).Refused := by
      rintro ⟨p', hp', hmem⟩
      cases hstr.symm.trans hp'
      exact ⟨q, rfl, hsame ▸ hmem⟩
    obtain ⟨hreports, hanswers⟩ := h.earlier hrefused (List.Subset.refl _)
    refine ⟨some q, ?_, rfl, ⟨fun hnone => (by cases hnone), fun p' hp' => ?_, hreports,
      hanswers⟩⟩
    · rw [Aggregation.call, hstr, jsonGroupInverse, hq]
      rfl
    · cases hp'
      refine ⟨hvalid, fun h0 => ?_, fun hP h0 => ?_, fun h0 => ?_⟩
      · obtain ⟨c, z, hz⟩ := List.exists_cons_of_ne_nil (hp.begun (herr ▸ h0))
        rw [hused c z hz]
        exact List.cons_ne_nil _ _
      · obtain ⟨zs, hitems, htext⟩ := hp.text hP (herr ▸ h0)
        refine ⟨zs.tail, hitems.tail, ?_⟩
        rw [hused _ _ htext]
        cases zs with
        -- behind an empty window there is only the bracket
        | nil => rfl
        | cons z zs =>
          have hz := (hitems.passed z List.mem_cons_self).2
          rw [afterComma_intercalate hz, List.tail_cons]
      · rw [herr] at h0 ⊢
        exact hp.failed h0

/-- The answer of a computation. -/
theorem Holds.documented (hp : Holds P s p) {res : Option Result} (h : Computes g p ctx q res)
    (hres : ctx.result = none) (hq : s'.pStr = some q) (hreports : s'.reports = s.reports) :
    Documented P s' (s.window, res) := by
  cases h with
  | text hp0 _ =>
    refine Or.inl ⟨_, rfl, fun hP => ?_⟩
    obtain ⟨zs, hitems, htext⟩ := hp.text hP hp0
    refine ⟨zs, hitems.rendered, ?_⟩
    rw [htext]
    rfl
  | nomem _ hrefused => exact Or.inr (Or.inl ⟨rfl, q, hq, hrefused⟩)
  | spoiled hne hne' _ =>
    -- an error that is not that of the allocator is that of a BLOB
    obtain ⟨-, row, hmem, hnone⟩ := (hp.failed hne).resolve_left hne'
    exact Or.inr (Or.inr ⟨hres, row, hreports ▸ hmem, hnone⟩)

/-- A computation without memory answers the document of no rows. -/
theorem documented_none (h : Kept P s) (hstr : s.pStr = none) :
    Documented P s' (s.window, some (.text (g.document []))) := by
  refine Or.inl ⟨_, rfl, fun _ => ⟨[], ?_, rfl⟩⟩
  rw [h.idle hstr]
  rfl

/-- With the new answer all answers are right. -/
theorem Kept.answered (h : Kept P s) {pStr : Option JsonString} {res : Option Result}
    (hrefused : s.Refused → (s.answered pStr res).Refused)
    (hnew : Documented P (s.answered pStr res) (s.window, res)) :
    ∀ a ∈ (s.answered pStr res).answers, Documented P (s.answered pStr res) a := by
  intro a ha
  rcases List.mem_append.mp ha with hold | hlast
  · exact (h.earlier hrefused (List.Subset.refl _)).2 a hold
  · rw [List.mem_singleton.mp hlast]
    exact hnew

theorem kept_value (h : Kept P s) (hres : ctx.result = none) :
    ∃ pStr res, s.call (.value ctx) = some (s.answered pStr res) ∧
      pStr.isSome = s.pStr.isSome ∧ Kept P (s.answered pStr res) := by
  cases hstr : s.pStr with
  | none =>
    obtain ⟨ctx', hcompute, hanswer⟩ := compute_none g ctx false
    have hrefused : s.Refused → (s.answered none ctx'.result).Refused :=
      fun hrefused => absurd hrefused (s.not_refused hstr)
    refine ⟨none, ctx'.result, ?_, rfl, ⟨fun _ => h.idle hstr, nofun,
      (h.earlier hrefused (List.Subset.refl _)).1, h.answered hrefused ?_⟩⟩
    · rw [Aggregation.call, hstr, hcompute]
      rfl
    · rw [hanswer]
      exact documented_none h hstr
  | some p =>
    have hp := h.holds p hstr
    obtain ⟨ctx', q, hcompute, hcomputes, hasked, hvalid, hused⟩ := compute_value g hp.valid ctx
    have hrefused : s.Refused → (s.answered (some q) ctx'.result).Refused := by
      rintro ⟨p', hp', hmem⟩
      cases hstr.symm.trans hp'
      exact ⟨q, rfl, hasked hmem⟩
    refine ⟨some q, ctx'.result, ?_, rfl, ⟨fun hnone => (by cases hnone), fun p' hp' => ?_,
      (h.earlier hrefused (List.Subset.refl _)).1,
      h.answered hrefused (hp.documented hcomputes hres rfl rfl)⟩⟩
    · rw [Aggregation.call, hstr, hcompute]
      rfl
    · cases hp'
      obtain ⟨herr, hfailed⟩ := hcomputes.error
      refine ⟨hvalid, fun h0 => ?_, fun hP h0 => ?_, fun h0 => ?_⟩
      · rw [hused h0]
        exact hp.begun (herr h0)
      · rw [hused h0]
        exact hp.text hP (herr h0)
      · -- a refused bracket, or the error of a row
        rcases hfailed h0 with h1 | ⟨hne, hkept⟩
        · exact Or.inl h1
        · rw [hkept]
          exact hp.failed hne

/-- The last computation. -/
theorem run_nil (h : Kept P s) (hres : ctx.result = none) :
    ∃ pStr res, Aggregation.run ctx [] s = some (s.answered pStr res) ∧
      (∀ p, pStr = some p → p.blocks.Settled) ∧
      ∀ a ∈ (s.answered pStr res).answers, Documented P (s.answered pStr res) a := by
  cases hstr : s.pStr with
  | none =>
    obtain ⟨ctx', hcompute, hanswer⟩ := compute_none g ctx true
    refine ⟨none, ctx'.result, ?_, nofun,
      h.answered (fun hrefused => absurd hrefused (s.not_refused hstr)) ?_⟩
    · rw [Aggregation.run, hstr, hcompute]
      rfl
    · rw [hanswer]
      exact documented_none h hstr
  | some p =>
    have hp := h.holds p hstr
    obtain ⟨ctx', q, hcompute, hcomputes, hasked, hsettled⟩ := compute_final g hp.valid ctx
    refine ⟨some q, ctx'.result, ?_, fun p' hp' => ?_,
      h.answered ?_ (hp.documented hcomputes hres rfl rfl)⟩
    · rw [Aggregation.run, hstr, hcompute]
      rfl
    · cases hp'
      exact hsettled
    · rintro ⟨p', hp', hmem⟩
      cases hstr.symm.trans hp'
      exact ⟨q, rfl, hasked hmem⟩

theorem run_kept (calls : List (Call g)) (h : Kept P s)
    (hcalls : ∀ c ∈ calls, c.Meets (fun ctx => ctx.result = none) fun row => P → g.Proper row)
    (hres : ctx.result = none) :
    ∃ s', Aggregation.run ctx calls s = some s' ∧ (∀ p, s'.pStr = some p → p.blocks.Settled) ∧
      s'.answers.map Prod.fst =
        s.answers.map Prod.fst ++ windows s.pStr.isSome s.window calls ∧
      ∀ a ∈ s'.answers, Documented P s' a := by
  induction calls generalizing s with
  | nil =>
    obtain ⟨pStr, res, hrun, hsettled, hdocuments⟩ := run_nil h hres
    exact ⟨_, hrun, hsettled, List.map_append, hdocuments⟩
  | cons c calls ih =>
    have hrest := fun c' hc' => hcalls c' (List.mem_cons_of_mem c hc')
    have hc := hcalls c List.mem_cons_self
    rw [Aggregation.run]
    cases c with
    | step ctx' row =>
      rw [windows]
      rcases kept_step h hc.1 hc.2 with ⟨hnone, hmalloc, hstep⟩ | ⟨hmemory, q, hstep, hkept⟩
      · -- no memory: the window stays empty
        rw [Aggregation.call, hstep, Option.map_some, Option.bind_some, hmalloc]
        have hnext := ih h hrest
        rw [hnone] at hnext ⊢
        exact hnext
      · rw [Aggregation.call, hstep, Option.map_some, Option.bind_some, if_pos hmemory]
        exact ih hkept hrest
    | value ctx' =>
      obtain ⟨pStr, res, hs₁, hmemory, hkept⟩ := kept_value h hc
      obtain ⟨s', hrun, hsettled, hwindows, hdocuments⟩ := ih hkept hrest
      rw [hs₁, Option.bind_some]
      refine ⟨s', hrun, hsettled, ?_, hdocuments⟩
      rw [hwindows, windows, ← hmemory, Aggregation.answered, List.map_append, List.append_assoc]
      rfl
    | inverse stale =>
      obtain ⟨pStr, hs₁, hmemory, hkept⟩ := kept_inverse h stale
      have hnext := ih hkept hrest
      rw [windows, ← hmemory, hs₁, Option.bind_some]
      exact hnext

end Runs

/-- Whatever the order of the calls and whatever the allocator refuses, no call of an aggregate
stores outside of its buffer, at the end every block was given back or handed over once, and every
answer is the document of the rows in the window at the time, for values that SQL functions are
called with, or the report of a refused allocation, or nothing behind a BLOB that was reported. -/
theorem answers_of_run (g : Group) (calls : List (Call g)) (ctx : sqlite3_context)
    (hcalls : ∀ c ∈ calls, c.Meets (fun ctx => ctx.result = none) fun _ => True)
    (hres : ctx.result = none) :
    ∃ s, Aggregation.run ctx calls (Aggregation.start g) = some s ∧
      (∀ p, s.pStr = some p → p.blocks.Settled) ∧
      s.answers.map Prod.fst = windows false [] calls ∧
      ∀ a ∈ s.answers,
        Documented (∀ c ∈ calls, c.Meets (fun _ => True) g.Regular) s a := by
  refine run_kept calls (kept_start g) (fun c hc => ?_) hres
  have hnew := hcalls c hc
  cases c with
  | step ctx' row =>
    exact ⟨hnew.1, fun hregular => proper_of_regular (hregular _ hc).2⟩
  | value ctx' => exact hnew
  | inverse stale => trivial

/-- A call with every allocation ahead. -/
def readyContext : sqlite3_context := ⟨fun _ => true, none, false⟩

/-- A call whose first allocation is refused. -/
def refusedContext : sqlite3_context := ⟨fun n => n ≠ 0, none, false⟩

/-- A row that gets no memory, and a window over two rows that drops the first one of them, a string
with a comma and a bracket. -/
def commaCalls : List (Call .array) :=
  [.step refusedContext .null,
    .step readyContext (.text (some [','.toUInt8, ']'.toUInt8]) false), .value readyContext,
    .step readyContext .null, .inverse 0, .value readyContext]

theorem answers_of_run_commaCalls :
    (∃ s, Aggregation.run readyContext commaCalls (Aggregation.start .array) = some s ∧
      (∀ p, s.pStr = some p → p.blocks.Settled) ∧
      s.answers.map Prod.fst = windows false [] commaCalls ∧
      ∀ a ∈ s.answers,
        Documented (∀ c ∈ commaCalls, c.Meets (fun _ => True) Group.array.Regular) s a) ∧
      ∀ c ∈ commaCalls, c.Meets (fun _ => True) Group.array.Regular := by
  refine ⟨answers_of_run .array commaCalls readyContext ?_ rfl, ?_⟩
  · simp only [commaCalls, List.mem_cons, List.not_mem_nil, or_false]
    rintro c (rfl | rfl | rfl | rfl | rfl | rfl)
    · exact ⟨rfl, trivial⟩
    · exact ⟨rfl, trivial⟩
    · exact (rfl : readyContext.result = none)
    · exact ⟨rfl, trivial⟩
    · exact trivial
    · exact (rfl : readyContext.result = none)
  · simp only [commaCalls, List.mem_cons, List.not_mem_nil, or_false]
    rintro c (rfl | rfl | rfl | rfl | rfl | rfl)
    · exact ⟨trivial, trivial⟩
    · exact ⟨trivial, trivial⟩
    · exact trivial
    · exact ⟨trivial, trivial⟩
    · exact trivial
    · exact trivial

end PetProject.Json1
