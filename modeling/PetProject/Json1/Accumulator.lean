import PetProject.Foundation.GrowingBuffer
import PetProject.Foundation.Handles
import PetProject.Foundation.JsonTokens

/-!
# The string accumulator of the JSON extension

`JsonString` of `TDB_workers/src/json1.c` and the functions that append to it. The text grows in a
buffer that is first a member of the accumulator and later a block of the heap. A function stores
only behind a test of the room that is left; it answers `none` when it would store outside of the
buffer or an `assert` of it fails.

An allocation may be refused. The accumulator then reports it to the SQL function, gives its block
back and goes on in its first buffer; what it holds no longer counts. `Appends` says what one
function does, and composes (`Appends.trans`).
-/

set_option autoImplicit false

namespace PetProject.Json1

open PetProject.Foundation.GrowingBuffer PetProject.Foundation.Handles
open PetProject.Foundation.TextSearch PetProject.Foundation.JsonText

abbrev Bytes := List UInt8

/-! ## The SQL function -/

/-- What an SQL function has reported: with `sqlite3_result_error_nomem`, `sqlite3_result_error` and
`sqlite3_result_text`. `toobig` is what the engine makes of a text that is too long for it. -/
inductive Result where
  | nomem
  | error (message : Text)
  | text (z : Bytes)
  | toobig
  deriving DecidableEq, Repr

/-- A call of an SQL function: the answers of the allocator that are still to come, what was
reported last, and whether the result has the subtype of JSON. -/
structure sqlite3_context where
  malloc : Nat → Bool
  result : Option Result
  subtype : Bool

def sqlite3_result_error_nomem (pCtx : sqlite3_context) : sqlite3_context :=
  { pCtx with result := some .nomem }

def sqlite3_result_error (pCtx : sqlite3_context) (message : Text) : sqlite3_context :=
  { pCtx with result := some (.error message) }

def sqlite3_result_text (pCtx : sqlite3_context) (z : Bytes) : sqlite3_context :=
  { pCtx with result := some (.text z) }

/-- `sqlite3_result_subtype(ctx, JSON_SUBTYPE)`. -/
def sqlite3_result_subtype (pCtx : sqlite3_context) : sqlite3_context :=
  { pCtx with subtype := true }

/-- The context behind the next answer of the allocator. -/
def sqlite3_context.next (pCtx : sqlite3_context) : sqlite3_context :=
  { pCtx with malloc := fun n => pCtx.malloc (n + 1) }

/-- The allocator refuses nothing. -/
def sqlite3_context.Generous (pCtx : sqlite3_context) : Prop := ∀ n, pCtx.malloc n = true

/-! ## The accumulator -/

/-- `sizeof(p->zSpace)`. -/
def spaceSize : Nat := 100

/-- `JsonString`, with `nUsed` and `nAlloc` in `zBuf`. `block` is the heap block of `zBuf`; without
one `zBuf` is `zSpace` and `bStatic` holds. `blocks` records the blocks of the heap, and `answers`
what the allocator said when it was asked for one. -/
structure JsonString where
  pCtx : sqlite3_context
  zBuf : Buffer UInt8
  block : Option Nat
  bErr : Nat
  blocks : Record
  answers : List Bool

def JsonString.nUsed (p : JsonString) : Nat := p.zBuf.size

def JsonString.nAlloc (p : JsonString) : Nat := p.zBuf.capacity

def jsonZero (p : JsonString) : JsonString :=
  { p with zBuf := Buffer.empty spaceSize, block := none }

def jsonInit (pCtx : sqlite3_context) : JsonString :=
  ⟨pCtx, Buffer.empty spaceSize, none, 0, Record.fresh, []⟩

/-- `sqlite3_free(p->zBuf)`, or the same by the destructor that is handed over with a result. -/
def JsonString.freed (p : JsonString) : JsonString :=
  match p.block with
  | some n => { p with blocks := p.blocks.release n }
  | none => p

def jsonReset (p : JsonString) : JsonString := jsonZero p.freed

def jsonOom (p : JsonString) : JsonString :=
  jsonReset { p with bErr := 1, pCtx := sqlite3_result_error_nomem p.pCtx }

/-- `jsonGrow`; whether it fails. -/
def jsonGrow (p : JsonString) (N : Nat) : Bool × JsonString :=
  let nTotal := if N < p.nAlloc then p.nAlloc * 2 else p.nAlloc + N + 10
  let asked := { p with pCtx := p.pCtx.next, answers := p.answers ++ [p.pCtx.malloc 0] }
  match p.block with
  | none =>
      if p.bErr ≠ 0 then (true, p)
      else if p.pCtx.malloc 0 then
        (false, { asked with
          zBuf := p.zBuf.resize nTotal
          block := some p.blocks.obtained
          blocks := p.blocks.obtain })
      else (true, jsonOom asked)
  -- `sqlite3_realloc64`
  | some _ =>
      if p.pCtx.malloc 0 then (false, { asked with zBuf := p.zBuf.resize nTotal })
      else (true, jsonOom asked)

/-- `if( full && jsonGrow(p,N)!=0 ) return;` in front of the rest of a function. -/
def JsonString.reserve (p : JsonString) (full : Bool) (N : Nat)
    (rest : JsonString → Option JsonString) : Option JsonString :=
  if full then
    match jsonGrow p N with
    | (true, p') => some p'
    | (false, p') => rest p'
  else rest p

/-- `memcpy(p->zBuf+p->nUsed, zIn, N); p->nUsed += N;`. -/
def JsonString.putAll (p : JsonString) (zIn : Bytes) : Option JsonString :=
  (p.zBuf.putAll zIn).map fun b => { p with zBuf := b }

/-- `p->zBuf[p->nUsed++] = c;`. -/
def JsonString.put (p : JsonString) (c : UInt8) : Option JsonString := p.putAll [c]

def jsonAppendRaw (p : JsonString) (zIn : Bytes) : Option JsonString :=
  if zIn.length = 0 then some p
  else p.reserve (p.nAlloc ≤ zIn.length + p.nUsed) zIn.length fun p => p.putAll zIn

def jsonAppendChar (p : JsonString) (c : UInt8) : Option JsonString :=
  p.reserve (p.nAlloc ≤ p.nUsed) 1 fun p => p.put c

def jsonAppendSeparator (p : JsonString) : Option JsonString :=
  match p.zBuf.used.getLast? with
  | none => some p
  | some c =>
      if c ≠ '['.toUInt8 ∧ c ≠ openBrace.toUInt8 then jsonAppendChar p ','.toUInt8 else some p

/-- `assert`. -/
def JsonString.assert (p : JsonString) (holds : Bool) : Option JsonString :=
  if holds then some p else none

/-- `aSpecial` of `jsonAppendString`, whose other entries are zero. -/
def aSpecial (c : UInt8) : UInt8 :=
  [0, 0, 0, 0, 0, 0, 0, 0, 'b'.toUInt8, 't'.toUInt8, 'n'.toUInt8, 0, 'f'.toUInt8,
    'r'.toUInt8].getD c.toNat 0

/-- `"0123456789abcdef"[c&0xf]`. -/
def hexByte (c : UInt8) : UInt8 := (hexDigit (c &&& 0xf).toNat).toUInt8

/-- The loop of `jsonAppendString` from index `i` on and what follows it, with the bytes of `zIn`
that are left. -/
def appendBytes (N : Nat) : Nat → Bytes → JsonString → Option JsonString
  | _, [], p => (p.put quotationMark.toUInt8).bind fun p => p.assert (p.nUsed < p.nAlloc)
  | i, c :: cs, p =>
      -- `json_simple_escape`
      let simpleEscape (c : UInt8) :=
        p.reserve (p.nAlloc < p.nUsed + N + 3 - i) (N + 3 - i) fun p =>
          (p.put backslash.toUInt8).bind fun p => (p.put c).bind (appendBytes N (i + 1) cs)
      if c = quotationMark.toUInt8 ∨ c = backslash.toUInt8 then simpleEscape c
      else if c ≤ 0x1f then
        if aSpecial c ≠ 0 then simpleEscape (aSpecial c)
        else
          -- the test adds `i` where the argument of `jsonGrow` subtracts it
          p.reserve (p.nAlloc < p.nUsed + N + 7 + i) (N + 7 - i) fun p =>
            (p.put backslash.toUInt8).bind fun p => (p.put 'u'.toUInt8).bind fun p =>
              (p.put '0'.toUInt8).bind fun p => (p.put '0'.toUInt8).bind fun p =>
                (p.put ('0'.toUInt8 + (c >>> 4))).bind fun p =>
                  (p.put (hexByte c)).bind (appendBytes N (i + 1) cs)
      else (p.put c).bind (appendBytes N (i + 1) cs)

/-- `jsonAppendString`; `zIn` may be a null pointer. -/
def jsonAppendString (p : JsonString) (zIn : Option Bytes) : Option JsonString :=
  match zIn with
  | none => some p
  | some z =>
      p.reserve (p.nAlloc ≤ z.length + p.nUsed + 2) (z.length + 2) fun p =>
        (p.put quotationMark.toUInt8).bind (appendBytes z.length 0 z)

/-! ## What a function appends -/

/-- The accumulator owns the one block that is not freed, and none in its first buffer. The error 1
stands for an allocation that was refused. -/
structure JsonString.Valid (p : JsonString) : Prop where
  sound : p.blocks.Sound
  outstanding : p.blocks.outstanding = p.block.toList
  static : p.block = none → p.nAlloc = spaceSize
  failed : p.bErr ≠ 0 → p.block = none
  refused : false ∈ p.answers ↔ p.bErr = 1

/-- `jsonAppendValue` refuses a BLOB. -/
def blobMessage : Text := "JSON cannot hold BLOB values".toList

/-- What one text and then another append. -/
def both (a b : Option Bytes) : Option Bytes := a.bind fun a => b.map fun b => a ++ b

/-- The bytes were appended, unless there was or is an error. Without bytes there is a BLOB. -/
structure Appends (p : JsonString) (bs : Option Bytes) (q : JsonString) : Prop where
  valid : q.Valid
  subtype : q.pCtx.subtype = p.pCtx.subtype
  asked : p.answers ⊆ q.answers
  kept : p.bErr ≠ 0 → q.bErr = p.bErr ∧ q.pCtx.result = p.pCtx.result
  content : q.bErr = 0 → p.bErr = 0 ∧ (∃ b ∈ bs, q.zBuf.used = p.zBuf.used ++ b) ∧
    q.pCtx.result = p.pCtx.result
  refused : p.bErr = 0 → q.bErr ≠ 0 → (q.bErr = 1 ∧ q.pCtx.result = some .nomem) ∨
    (q.bErr = 2 ∧ bs = none ∧ q.pCtx.result = some (.error blobMessage))
  generous : p.pCtx.Generous → q.pCtx.Generous ∧ (p.bErr = 0 → q.bErr = 0 ∨ q.bErr = 2)

section Rules

variable {p q r : JsonString} {a b bs : Option Bytes} {z : Bytes}

theorem valid_jsonInit (pCtx : sqlite3_context) : (jsonInit pCtx).Valid where
  sound := Record.sound_fresh
  outstanding := rfl
  static _ := rfl
  failed h := absurd rfl h
  refused := ⟨nofun, nofun⟩

theorem Appends.refl (hp : p.Valid) : Appends p (some []) p where
  valid := hp
  subtype := rfl
  asked := List.Subset.refl _
  kept _ := ⟨rfl, rfl⟩
  content h := ⟨h, ⟨[], rfl, (List.append_nil _).symm⟩, rfl⟩
  refused h h' := absurd h h'
  generous h := ⟨h, Or.inl⟩

theorem Appends.trans (h : Appends p a r) (h' : Appends r b q) : Appends p (both a b) q where
  valid := h'.valid
  subtype := h'.subtype.trans h.subtype
  asked := List.Subset.trans h.asked h'.asked
  kept hp := by
    obtain ⟨herr, hres⟩ := h.kept hp
    obtain ⟨herr', hres'⟩ := h'.kept (herr ▸ hp)
    exact ⟨herr'.trans herr, hres'.trans hres⟩
  content hq := by
    obtain ⟨hr, ⟨y, hy, hused'⟩, hres'⟩ := h'.content hq
    obtain ⟨hp, ⟨x, hx, hused⟩, hres⟩ := h.content hr
    refine ⟨hp, ⟨x ++ y, ?_, ?_⟩, hres'.trans hres⟩
    · rw [Option.mem_def.mp hx, Option.mem_def.mp hy]
      rfl
    · rw [hused', hused, List.append_assoc]
  refused hp hq := by
    by_cases hr : r.bErr = 0
    · refine (h'.refused hr hq).imp id fun ⟨herr, hb, hres⟩ => ⟨herr, ?_, hres⟩
      rw [hb]
      cases a <;> rfl
    · obtain ⟨herr', hres'⟩ := h'.kept hr
      rw [herr', hres']
      refine (h.refused hp hr).imp id fun ⟨herr, ha, hres⟩ => ⟨herr, ?_, hres⟩
      rw [ha]
      rfl
  generous hg := by
    obtain ⟨hgr, herr⟩ := h.generous hg
    obtain ⟨hgq, herr'⟩ := h'.generous hgr
    refine ⟨hgq, fun hp => (herr hp).elim herr' fun hr => Or.inr ?_⟩
    have hne : r.bErr ≠ 0 := by
      rw [hr]
      decide
    rw [(h'.kept hne).1, hr]

/-- What follows an error leaves it as it is. -/
theorem Appends.of_failed (hq : q.Valid) (hp : p.bErr ≠ 0) (hsub : q.pCtx.subtype = p.pCtx.subtype)
    (hasked : p.answers ⊆ q.answers) (herr : q.bErr = p.bErr)
    (hres : q.pCtx.result = p.pCtx.result) (hgen : p.pCtx.Generous → q.pCtx.Generous) :
    Appends p bs q where
  valid := hq
  subtype := hsub
  asked := hasked
  kept _ := ⟨herr, hres⟩
  content h := absurd (herr.symm.trans h) hp
  refused h := absurd h hp
  generous h := ⟨hgen h, fun h => absurd h hp⟩

/-- Behind an error it does not matter what is appended. -/
theorem Appends.any (h : Appends p a q) (hp : p.bErr ≠ 0) : Appends p b q :=
  Appends.of_failed h.valid hp h.subtype h.asked (h.kept hp).1 (h.kept hp).2 fun hg =>
    (h.generous hg).1

/-! ### Room -/

/-- The buffer has room for `n` more bytes. -/
def JsonString.Room (p : JsonString) (n : Nat) : Prop := p.nUsed + n ≤ p.nAlloc

theorem putAll_appends (hp : p.Valid) (hroom : p.Room z.length) :
    ∃ q, p.putAll z = some q ∧ Appends p (some z) q ∧ q.nUsed = p.nUsed + z.length ∧
      q.nAlloc = p.nAlloc := by
  obtain ⟨b, hput, hused, hcap⟩ := Buffer.putAll_eq_some hroom
  refine ⟨{ p with zBuf := b }, ?_,
    ⟨⟨hp.sound, hp.outstanding, fun h => ?_, hp.failed, hp.refused⟩, rfl, List.Subset.refl _,
      fun _ => ⟨rfl, rfl⟩, fun h => ⟨h, ⟨z, rfl, hused⟩, rfl⟩, fun h h' => absurd h h',
      fun h => ⟨h, Or.inl⟩⟩, ?_, hcap⟩
  · unfold JsonString.putAll
    rw [hput]
    rfl
  · exact hcap.trans (hp.static h)
  · unfold JsonString.nUsed Buffer.size
    rw [hused, List.length_append]

@[simp] theorem freed_bErr (p : JsonString) : p.freed.bErr = p.bErr := by
  unfold JsonString.freed
  split <;> rfl

@[simp] theorem freed_pCtx (p : JsonString) : p.freed.pCtx = p.pCtx := by
  unfold JsonString.freed
  split <;> rfl

@[simp] theorem freed_answers (p : JsonString) : p.freed.answers = p.answers := by
  unfold JsonString.freed
  split <;> rfl

@[simp] theorem jsonReset_answers (p : JsonString) : (jsonReset p).answers = p.answers :=
  freed_answers p

@[simp] theorem jsonReset_bErr (p : JsonString) : (jsonReset p).bErr = p.bErr := freed_bErr p

@[simp] theorem jsonReset_pCtx (p : JsonString) : (jsonReset p).pCtx = p.pCtx := freed_pCtx p

@[simp] theorem jsonOom_bErr (p : JsonString) : (jsonOom p).bErr = 1 := jsonReset_bErr _

theorem jsonOom_result (p : JsonString) : (jsonOom p).pCtx.result = some .nomem := by
  unfold jsonOom
  rw [jsonReset_pCtx]
  rfl

theorem jsonOom_subtype (p : JsonString) : (jsonOom p).pCtx.subtype = p.pCtx.subtype := by
  unfold jsonOom
  rw [jsonReset_pCtx]
  rfl

/-- What is left after a reset is an empty first buffer, and the block went back. -/
theorem jsonReset_valid (hs : p.blocks.Sound) (hout : p.blocks.outstanding = p.block.toList)
    (hrefused : false ∈ p.answers ↔ p.bErr = 1) : (jsonReset p).Valid := by
  rw [← jsonReset_answers, ← jsonReset_bErr] at hrefused
  obtain ⟨pCtx, zBuf, block, bErr, blocks, answers⟩ := p
  cases block with
  | none => exact ⟨hs, hout, fun _ => rfl, fun _ => rfl, hrefused⟩
  | some n =>
    replace hout : blocks.outstanding = [n] := hout
    have hmem : n ∈ blocks.outstanding := by
      rw [hout]
      exact List.mem_singleton_self n
    have hsound : (blocks.release n).Sound := hs.release hmem
    refine ⟨hsound, (Record.settled_iff hsound).mp ?_, fun _ => rfl, fun _ => rfl, hrefused⟩
    rw [Record.settled_release_iff hs hmem]
    intro m hm
    rw [hout] at hm
    rw [List.mem_singleton.mp hm]

/-- A refused allocation is reported, and the block goes back. -/
theorem appends_jsonOom (hp : p.Valid) (herr : p.bErr = 0) (hmalloc : p.pCtx.malloc 0 = false) :
    Appends p bs (jsonOom
      { p with pCtx := p.pCtx.next, answers := p.answers ++ [p.pCtx.malloc 0] }) where
  valid := by
    refine jsonReset_valid hp.sound hp.outstanding ⟨fun _ => rfl, fun _ => ?_⟩
    change false ∈ p.answers ++ [p.pCtx.malloc 0]
    rw [hmalloc]
    exact List.mem_append_right _ (List.mem_singleton_self false)
  subtype := jsonOom_subtype _
  asked := by
    unfold jsonOom
    rw [jsonReset_answers]
    exact List.subset_append_left _ _
  kept h := absurd herr h
  content h := absurd (jsonOom_bErr _) (by rw [h]; exact Nat.zero_ne_one)
  refused _ _ := Or.inl ⟨jsonOom_bErr _, jsonOom_result _⟩
  generous h := by
    rw [h 0] at hmalloc
    cases hmalloc

/-- The room of a buffer that grows. -/
theorem room_of_growth {N nTotal : Nat}
    (hT : nTotal = if N < p.nAlloc then p.nAlloc * 2 else p.nAlloc + N + 10) :
    p.nAlloc ≤ nTotal ∧ p.nUsed + (N + 1) ≤ nTotal := by
  have hfits : p.nUsed ≤ p.nAlloc := p.zBuf.fits
  split at hT <;> omega

/-- A larger buffer holds the same bytes. -/
theorem appends_grown {nTotal : Nat} (hT : p.nAlloc ≤ nTotal) (hq : q.Valid)
    (hbuf : q.zBuf = p.zBuf.resize nTotal) (hctx : q.pCtx = p.pCtx.next)
    (hasked : p.answers ⊆ q.answers) (herr : q.bErr = p.bErr) : Appends p (some []) q where
  valid := hq
  subtype := by rw [hctx]; rfl
  asked := hasked
  kept _ := ⟨herr, by rw [hctx]; rfl⟩
  content h := by
    refine ⟨herr.symm.trans h, ⟨[], rfl, ?_⟩, by rw [hctx]; rfl⟩
    rw [hbuf, Buffer.resize_used hT, List.append_nil]
  refused h h' := absurd (herr.trans h) h'
  generous h := ⟨by rw [hctx]; exact fun n => h (n + 1), fun h => Or.inl (herr.trans h)⟩

theorem room_grown {n nTotal : Nat} (hT : p.nAlloc ≤ nTotal)
    (hbuf : q.zBuf = p.zBuf.resize nTotal) (hroom : p.nUsed + n ≤ nTotal) : q.Room n := by
  unfold JsonString.Room JsonString.nUsed JsonString.nAlloc Buffer.size
  rw [hbuf, Buffer.resize_used hT]
  exact hroom

/-- What `jsonGrow` can do. -/
theorem jsonGrow_cases (hp : p.Valid) (N : Nat) :
    (∃ q, jsonGrow p N = (true, q) ∧ ∀ bs, Appends p bs q) ∨
      (∃ q, jsonGrow p N = (false, q) ∧ Appends p (some []) q ∧ q.Room (N + 1)) := by
  obtain ⟨hT, hroom⟩ := room_of_growth (p := p) (N := N) rfl
  obtain ⟨pCtx, zBuf, block, bErr, blocks, answers⟩ := p
  have hgranted (h : pCtx.malloc 0 = true) :
      false ∈ answers ++ [pCtx.malloc 0] ↔ bErr = 1 := by
    rw [h]
    simpa using hp.refused
  have hsub : answers ⊆ answers ++ [pCtx.malloc 0] := List.subset_append_left _ _
  unfold jsonGrow
  cases block with
  | none =>
    by_cases herr : bErr = 0
    · cases hmalloc : pCtx.malloc 0 with
      | true =>
        subst herr
        simp only [ne_eq, not_true_eq_false, if_false, if_true]
        refine Or.inr ⟨_, rfl, appends_grown hT ?_ rfl rfl ?_ rfl, room_grown hT rfl hroom⟩
        · refine ⟨hp.sound.obtain, ?_, fun h => absurd h (Option.some_ne_none _),
            fun h => absurd rfl h, hmalloc ▸ hgranted hmalloc⟩
          rw [Record.outstanding_obtain hp.sound, hp.outstanding]
          rfl
        · exact hmalloc ▸ hsub
      | false =>
        refine Or.inl ⟨_, ?_, fun bs => appends_jsonOom hp herr hmalloc⟩
        simp only [herr, hmalloc, ne_eq, not_true_eq_false, if_false]
        rfl
    · -- the static buffer does not grow behind an error, and nothing is asked for
      refine Or.inl ⟨_, ?_, fun bs =>
        Appends.of_failed hp herr rfl (List.Subset.refl _) rfl rfl id⟩
      simp only [herr, ne_eq, not_false_eq_true, if_true]
  | some n =>
    -- a block is freed with every error, so there was none
    have herr : bErr = 0 := by
      by_contra herr
      exact Option.some_ne_none n (hp.failed herr)
    cases hmalloc : pCtx.malloc 0 with
    | true =>
      simp only [if_true]
      refine Or.inr ⟨_, rfl, appends_grown hT ?_ rfl rfl ?_ rfl, room_grown hT rfl hroom⟩
      · exact ⟨hp.sound, hp.outstanding, fun h => absurd h (Option.some_ne_none _), hp.failed,
          hmalloc ▸ hgranted hmalloc⟩
      · exact hmalloc ▸ hsub
    | false =>
      refine Or.inl ⟨_, ?_, fun bs => appends_jsonOom hp herr hmalloc⟩
      simp only [hmalloc]
      rfl

/-- A function whose test finds too little room grows the buffer first. -/
theorem reserve_appends (hp : p.Valid) {full : Bool} {N n : Nat} (hN : n ≤ N + 1)
    (hroom : full = false → p.Room n) {rest : JsonString → Option JsonString}
    (hrest : ∀ r, r.Valid → r.Room n → ∃ q, rest r = some q ∧ Appends r bs q) :
    ∃ q, p.reserve full N rest = some q ∧ Appends p bs q := by
  unfold JsonString.reserve
  cases full with
  | false => exact hrest p hp (hroom rfl)
  | true =>
    obtain ⟨q, hgrow, happ⟩ | ⟨r, hgrow, happ, hr⟩ := jsonGrow_cases hp N
    · simp only [hgrow, if_true]
      exact ⟨q, rfl, happ bs⟩
    · simp only [hgrow, if_true]
      have hr' : r.Room n := Nat.le_trans (Nat.add_le_add_left hN _) hr
      obtain ⟨q, hq, happ'⟩ := hrest r happ.valid hr'
      refine ⟨q, hq, ?_⟩
      have hboth : both (some []) bs = bs := by cases bs <;> rfl
      exact hboth ▸ happ.trans happ'

/-- One byte after the test, and what follows it. -/
theorem put_appends (hp : p.Valid) {c : UInt8} {n : Nat} (hroom : p.Room (n + 1))
    {rest : JsonString → Option JsonString}
    (hrest : ∀ r, r.Valid → r.Room n → ∃ q, rest r = some q ∧ Appends r (some z) q) :
    ∃ q, (p.put c).bind rest = some q ∧ Appends p (some (c :: z)) q := by
  have hone : p.Room [c].length := by
    unfold JsonString.Room at hroom ⊢
    rw [List.length_singleton]
    omega
  obtain ⟨r, hput, happ, hused, hcap⟩ := putAll_appends hp hone
  have hr : r.Room n := by
    unfold JsonString.Room at hroom ⊢
    rw [hused, hcap, List.length_singleton]
    omega
  obtain ⟨q, hq, happ'⟩ := hrest r happ.valid hr
  refine ⟨q, ?_, happ.trans happ'⟩
  unfold JsonString.put
  rw [hput]
  exact hq

/-! ### The functions -/

theorem jsonAppendRaw_appends (hp : p.Valid) (zIn : Bytes) :
    ∃ q, jsonAppendRaw p zIn = some q ∧ Appends p (some zIn) q := by
  unfold jsonAppendRaw
  by_cases hnil : zIn.length = 0
  · rw [if_pos hnil, List.eq_nil_of_length_eq_zero hnil]
    exact ⟨p, rfl, Appends.refl hp⟩
  · rw [if_neg hnil]
    refine reserve_appends hp (n := zIn.length) (Nat.le_succ _) ?_ ?_
    · intro hfull
      have hlt : ¬ p.nAlloc ≤ zIn.length + p.nUsed := of_decide_eq_false hfull
      unfold JsonString.Room
      omega
    · intro r hr hroom
      obtain ⟨q, hput, happ, -, -⟩ := putAll_appends hr hroom
      exact ⟨q, hput, happ⟩

theorem jsonAppendChar_appends (hp : p.Valid) (c : UInt8) :
    ∃ q, jsonAppendChar p c = some q ∧ Appends p (some [c]) q := by
  unfold jsonAppendChar
  refine reserve_appends hp (n := 1) (Nat.le_succ _) ?_ ?_
  · intro hfull
    have hlt : ¬ p.nAlloc ≤ p.nUsed := of_decide_eq_false hfull
    unfold JsonString.Room
    omega
  · intro r hr hroom
    obtain ⟨q, hput, happ, -, -⟩ := putAll_appends hr (z := [c]) hroom
    exact ⟨q, hput, happ⟩

/-- The comma that goes behind a text. -/
def separator (used : Bytes) : Bytes :=
  match used.getLast? with
  | none => []
  | some c => if c ≠ '['.toUInt8 ∧ c ≠ openBrace.toUInt8 then [','.toUInt8] else []

theorem jsonAppendSeparator_appends (hp : p.Valid) :
    ∃ q, jsonAppendSeparator p = some q ∧ Appends p (some (separator p.zBuf.used)) q := by
  unfold jsonAppendSeparator separator
  split
  · exact ⟨p, rfl, Appends.refl hp⟩
  · split
    · exact jsonAppendChar_appends hp _
    · exact ⟨p, rfl, Appends.refl hp⟩

/-- What stands in a JSON string for a byte. -/
def escapeByte (c : UInt8) : Bytes :=
  if c = quotationMark.toUInt8 ∨ c = backslash.toUInt8 then [backslash.toUInt8, c]
  else if c ≤ 0x1f then
    if aSpecial c ≠ 0 then [backslash.toUInt8, aSpecial c]
    else [backslash.toUInt8, 'u'.toUInt8, '0'.toUInt8, '0'.toUInt8, '0'.toUInt8 + (c >>> 4),
      hexByte c]
  else [c]

/-- The loop appends the escapes of the bytes that are left and the closing quote. Before each byte
there is room for one byte for each of them, the quote and one more. -/
theorem appendBytes_appends {N : Nat} :
    ∀ (cs : Bytes) (i : Nat) {p : JsonString}, p.Valid → i + cs.length = N →
      p.Room (cs.length + 2) →
      ∃ q, appendBytes N i cs p = some q ∧
        Appends p (some (cs.flatMap escapeByte ++ [quotationMark.toUInt8])) q := by
  intro cs
  induction cs with
  | nil =>
    intro i p hp hN hroom
    refine put_appends (n := 1) hp hroom ?_
    intro r hr hroom'
    refine ⟨r, ?_, Appends.refl hr⟩
    unfold JsonString.assert
    have hlt : r.nUsed < r.nAlloc := hroom'
    rw [if_pos (decide_eq_true hlt)]
  | cons c cs ih =>
    intro i p hp hN hroom
    have hnext : i + 1 + cs.length = N := by
      rw [List.length_cons] at hN
      omega
    have hsimple (d : UInt8) :
        ∃ q, (p.reserve (p.nAlloc < p.nUsed + N + 3 - i) (N + 3 - i) fun p =>
          (p.put backslash.toUInt8).bind fun p => (p.put d).bind (appendBytes N (i + 1) cs)) =
            some q ∧
          Appends p (some (backslash.toUInt8 :: d ::
            (cs.flatMap escapeByte ++ [quotationMark.toUInt8]))) q := by
      refine reserve_appends hp (n := cs.length + 4) (by omega) ?_ ?_
      · intro hfull
        have hlt : ¬ p.nAlloc < p.nUsed + N + 3 - i := of_decide_eq_false hfull
        unfold JsonString.Room
        omega
      · intro r hr hroom
        refine put_appends hr hroom fun r hr hroom => ?_
        exact put_appends hr hroom fun r hr hroom => ih (i + 1) hr hnext hroom
    rw [List.flatMap_cons, List.append_assoc]
    rw [appendBytes, escapeByte]
    by_cases hquote : c = quotationMark.toUInt8 ∨ c = backslash.toUInt8
    · simp only [hquote, if_true]
      exact hsimple c
    · by_cases hcontrol : c ≤ 0x1f
      · by_cases hspecial : aSpecial c = 0
        · simp only [hquote, hcontrol, hspecial, ne_eq, not_true_eq_false, if_true, if_false]
          refine reserve_appends hp (n := cs.length + 8) (by omega) ?_ ?_
          · intro hfull
            -- the source adds `i` here where it subtracts it above, which is room enough
            have hlt : ¬ p.nAlloc < p.nUsed + N + 7 + i := of_decide_eq_false hfull
            unfold JsonString.Room
            omega
          · intro r hr hroom
            refine put_appends hr hroom fun r hr hroom => ?_
            refine put_appends hr hroom fun r hr hroom => ?_
            refine put_appends hr hroom fun r hr hroom => ?_
            refine put_appends hr hroom fun r hr hroom => ?_
            refine put_appends hr hroom fun r hr hroom => ?_
            exact put_appends hr hroom fun r hr hroom => ih (i + 1) hr hnext hroom
        · simp only [hquote, hcontrol, hspecial, ne_eq, not_false_eq_true, if_true, if_false]
          exact hsimple (aSpecial c)
      · simp only [hquote, hcontrol, if_false]
        exact put_appends hp (n := cs.length + 2) (by simpa using hroom) fun r hr hroom =>
          ih (i + 1) hr hnext hroom

/-- A text in quotes. -/
def quoted (z : Bytes) : Bytes :=
  quotationMark.toUInt8 :: (z.flatMap escapeByte ++ [quotationMark.toUInt8])

theorem jsonAppendString_appends (hp : p.Valid) (z : Bytes) :
    ∃ q, jsonAppendString p (some z) = some q ∧ Appends p (some (quoted z)) q := by
  refine reserve_appends hp (n := z.length + 3) (Nat.le_refl _) ?_ ?_
  · intro hfull
    have hlt : ¬ p.nAlloc ≤ z.length + p.nUsed + 2 := of_decide_eq_false hfull
    unfold JsonString.Room
    omega
  · intro r hr hroom
    exact put_appends hr hroom fun r hr hroom =>
      appendBytes_appends z 0 hr (Nat.zero_add _) hroom

end Rules

end PetProject.Json1
