import Mathlib
import PetProject.Foundation.TextSearch

/-!
# The inotify record loop

`inotifyRAIIwrapper::readInotyEvents` of `file_watcher/src/inoty_wrapper.cpp`. One call reads at
most `BUF_LEN` bytes into `m_buf` and walks over the records: at offset `m_i` it looks at a header
`struct inotify_event` of sixteen bytes, calls the watch function with the name that follows when
the field `len` is not zero, and advances `m_i` by the header and `len`.

The kernel's side is `encodeEvents`: a header in the byte order of the machine (least significant
byte first) and the name, closed with NUL and padded with NULs to a multiple of the header's size.

Memory is the list of the readable bytes from `m_buf` on. Bytes behind the part that a call has
read hold whatever was there before.
-/

set_option autoImplicit false

namespace PetProject.Watch

open PetProject.Foundation.TextSearch

/-! ## What the kernel writes -/

/-- `sizeof(struct inotify_event)`. -/
def eventSize : Nat := 16

/-- `BUF_LEN`. -/
def BUF_LEN : Nat := 0xFF * eventSize

/-- The name of a directory entry: not empty, free of NUL, at most `NAME_MAX` bytes. -/
structure FileName where
  bytes : List UInt8
  nonempty : bytes ≠ []
  nulFree : 0 ∉ bytes
  short : bytes.length ≤ 255
  deriving DecidableEq

/-- The string of a name, one character for each byte. -/
def textOf (bytes : List UInt8) : Text := bytes.map fun b => Char.ofNat b.toNat

def FileName.text (n : FileName) : Text := textOf n.bytes

theorem FileName.nul_notMem_text (n : FileName) : nul ∉ n.text := by
  intro hmem
  obtain ⟨b, hb, heq⟩ := List.mem_map.mp hmem
  have hval : ∀ k < 256, Char.ofNat k = nul → k = 0 := by decide +kernel
  have hzero : b.toNat = 0 := hval b.toNat b.toNat_lt heq
  have hb0 : b = 0 := UInt8.toNat_inj.mp hzero
  exact n.nulFree (hb0 ▸ hb)

/-- An event as the kernel reports it. -/
structure InotifyEvent where
  wd : Int32
  mask : UInt32
  cookie : UInt32
  name : Option FileName

/-- The four bytes of a field. -/
def fieldBytes (n : Nat) : List UInt8 :=
  [UInt8.ofNat n, UInt8.ofNat (n / 2 ^ 8), UInt8.ofNat (n / 2 ^ 16), UInt8.ofNat (n / 2 ^ 24)]

/-- The bytes of the name in a record: closed with NUL and padded to a multiple of the header. -/
def paddedName : Option FileName → List UInt8
  | none => []
  | some n =>
      let len := (n.bytes.length + 1 + (eventSize - 1)) / eventSize * eventSize
      n.bytes ++ List.replicate (len - n.bytes.length) 0

def encodeEvent (e : InotifyEvent) : List UInt8 :=
  fieldBytes e.wd.toUInt32.toNat ++ fieldBytes e.mask.toNat ++ fieldBytes e.cookie.toNat ++
    fieldBytes (paddedName e.name).length ++ paddedName e.name

def encodeEvents (es : List InotifyEvent) : List UInt8 := (es.map encodeEvent).flatten

/-- The names of the named events. -/
def eventNames (es : List InotifyEvent) : List Text :=
  es.filterMap fun e => e.name.map FileName.text

/-! ## The record loop -/

/-- The byte at an offset from `m_buf`. -/
def byteAt (mem : List UInt8) (i : Nat) : UInt8 := mem.getD i 0

/-- `event->len` of the header at offset `i`. -/
def eventLen (mem : List UInt8) (i : Nat) : Nat :=
  (byteAt mem (i + 12)).toNat + (byteAt mem (i + 13)).toNat * 2 ^ 8 +
    (byteAt mem (i + 14)).toNat * 2 ^ 16 + (byteAt mem (i + 15)).toNat * 2 ^ 24

/-- `std::string(event->name)` of the header at offset `i`: the bytes before the first NUL. -/
def eventName (mem : List UInt8) (i : Nat) : Text :=
  textOf ((mem.drop (i + eventSize)).takeWhile (· ≠ 0))

/-- The watch function: with its own state, it answers whether it handled the name. -/
abbrev WatchFunction (σ : Type) := Text → σ → Bool × σ

/-- The members of `inotifyRAIIwrapper` that `readInotyEvents` uses. -/
structure inotifyRAIIwrapper (σ : Type) where
  m_func : WatchFunction σ
  /-- The memory from `m_buf` on. -/
  m_buf : List UInt8
  /-- A signed offset of 64 bits. -/
  m_i : BitVec 64

/-- A call of `readInotyEvents`: the object, the state of the watch function, the names it was
called with, and the lines written to `cerr`. -/
structure Reading (σ : Type) where
  wrapper : inotifyRAIIwrapper σ
  env : σ
  calls : List Text
  cerr : List Text

/-- The message for a name that the watch function did not handle. -/
def eventError (name : Text) : Text :=
  "Не удалось обработать событие связанное с файлом [".toList ++ name ++ "]".toList

/-- One iteration of the loop. -/
def Reading.iterate {σ : Type} (r : Reading σ) : Reading σ :=
  let w := r.wrapper
  let i := w.m_i.toNat
  let len := eventLen w.m_buf i
  let next := { w with m_i := w.m_i + (BitVec.ofNat 64 eventSize + BitVec.ofNat 64 len) }
  -- `if(event->len)`: a nameless event is passed over
  if len = 0 then { r with wrapper := next }
  else
    let name := eventName w.m_buf i
    let res := w.m_func name r.env
    { wrapper := next
      env := res.2
      calls := r.calls ++ [name]
      cerr := if res.1 then r.cerr else r.cerr ++ [eventError name] }

/-- `while(m_i < len)`, for at most `fuel` iterations. -/
def readLoop {σ : Type} (len : Nat) : Nat → Reading σ → Option (Reading σ)
  | 0, r => if r.wrapper.m_i.slt (BitVec.ofNat 64 len) then none else some r
  | fuel + 1, r =>
      if r.wrapper.m_i.slt (BitVec.ofNat 64 len) then readLoop len fuel r.iterate else some r

/-- The start of the loop after `read` has stored `bytes` in `m_buf`. -/
def inotifyRAIIwrapper.loaded {σ : Type} (w : inotifyRAIIwrapper σ) (bytes : List UInt8)
    (env : σ) : Reading σ :=
  ⟨{ w with m_buf := bytes ++ w.m_buf.drop bytes.length, m_i := 0 }, env, [], []⟩

/-- `readInotyEvents`, with the outcome of `read`: `none` for `-1`, else the bytes it stored. The
loop has fuel for every outcome that fits into the buffer (`readLoop_isSome`). -/
def inotifyRAIIwrapper.readInotyEvents {σ : Type} (w : inotifyRAIIwrapper σ)
    (res : Option (List UInt8)) (env : σ) : Option (Reading σ) :=
  match res with
  | none => some ⟨{ w with m_i := 0 }, env, [], []⟩
  | some bytes => readLoop bytes.length (BUF_LEN / eventSize) (w.loaded bytes env)

/-! ## Termination -/

section Loop

variable {σ : Type}

/-- The signed comparison of offsets below `2 ^ 63`. -/
theorem slt_ofNat {i len : Nat} (hi : i < 2 ^ 63) (hlen : len < 2 ^ 63) :
    (BitVec.ofNat 64 i).slt (BitVec.ofNat 64 len) = decide (i < len) := by
  have hti : (BitVec.ofNat 64 i).toInt = (i : Int) := by
    rw [BitVec.toInt_eq_toNat_of_lt] <;> rw [BitVec.toNat_ofNat, Nat.mod_eq_of_lt] <;> omega
  have htl : (BitVec.ofNat 64 len).toInt = (len : Int) := by
    rw [BitVec.toInt_eq_toNat_of_lt] <;> rw [BitVec.toNat_ofNat, Nat.mod_eq_of_lt] <;> omega
  unfold BitVec.slt
  rw [hti, htl]
  simp

theorem eventLen_lt (mem : List UInt8) (i : Nat) : eventLen mem i < 2 ^ 32 := by
  unfold eventLen
  have h₀ := (byteAt mem (i + 12)).toNat_lt
  have h₁ := (byteAt mem (i + 13)).toNat_lt
  have h₂ := (byteAt mem (i + 14)).toNat_lt
  have h₃ := (byteAt mem (i + 15)).toNat_lt
  omega

/-- An iteration at offset `i` moves to the offset behind the record. -/
theorem iterate_wrapper {r : Reading σ} {i : Nat} (hi : r.wrapper.m_i = BitVec.ofNat 64 i)
    (hlt : i < 2 ^ 63) :
    r.iterate.wrapper =
      { r.wrapper with
        m_i := BitVec.ofNat 64 (i + (eventSize + eventLen r.wrapper.m_buf i)) } := by
  have hnat : r.wrapper.m_i.toNat = i := by
    rw [hi, BitVec.toNat_ofNat, Nat.mod_eq_of_lt]
    omega
  unfold Reading.iterate
  simp only [hnat, BitVec.ofNat_add]
  split
  · rw [hi]
  · rw [hi]

/-- Every iteration passes a header, so the bytes that are left bound the iterations. -/
theorem readLoop_isSome {len : Nat} (hlen : len ≤ BUF_LEN) (fuel : Nat) {r : Reading σ} {i : Nat}
    (hi : r.wrapper.m_i = BitVec.ofNat 64 i) (hlt : i < 2 ^ 62)
    (hfuel : len ≤ i + fuel * eventSize) : (readLoop len fuel r).isSome := by
  have hbuf : len < 2 ^ 63 := Nat.lt_of_le_of_lt hlen (by decide)
  induction fuel generalizing r i with
  | zero =>
    have hdone : ¬ i < len := by omega
    simp [readLoop, hi, slt_ofNat (by omega : i < 2 ^ 63) hbuf, hdone]
  | succ fuel ih =>
    rw [readLoop, hi, slt_ofNat (by omega) hbuf]
    by_cases hmore : i < len
    · -- the next offset stays small: a record is shorter than `2 ^ 33` bytes
      have hrec := eventLen_lt r.wrapper.m_buf i
      have hwrap := iterate_wrapper hi (by omega)
      simp only [hmore, decide_true, if_true]
      apply ih (r := r.iterate) (i := i + (eventSize + eventLen r.wrapper.m_buf i))
      · rw [hwrap]
      · have hcap : len ≤ 4080 := hlen
        unfold eventSize
        omega
      · have hmul : (fuel + 1) * eventSize = fuel * eventSize + eventSize := Nat.succ_mul _ _
        omega
    · simp [hmore]

/-- More fuel does not change a finished loop. -/
theorem readLoop_mono {len fuel : Nat} {r r' : Reading σ} (h : readLoop len fuel r = some r')
    (k : Nat) : readLoop len (fuel + k) r = some r' := by
  induction fuel generalizing r with
  | zero =>
    rw [readLoop] at h
    split at h
    · cases h
    · rename_i hdone
      cases k with
      | zero => rw [readLoop, if_neg hdone, h]
      | succ k => rw [Nat.zero_add, readLoop, if_neg hdone, h]
  | succ fuel ih =>
    rw [readLoop] at h
    rw [Nat.succ_add, readLoop]
    split at h
    · rename_i hmore
      rw [if_pos hmore]
      exact ih h
    · rename_i hdone
      rw [if_neg hdone]
      exact h

/-! ## The loop undoes the kernel's layout -/

theorem byteAt_append (pre l : List UInt8) (k : Nat) :
    byteAt (pre ++ l) (pre.length + k) = l.getD k 0 := by
  unfold byteAt
  rw [List.getD_eq_getElem?_getD, List.getD_eq_getElem?_getD,
    List.getElem?_append_right (Nat.le_add_right _ _), Nat.add_sub_cancel_left]

/-- The field `len` is read back. -/
theorem eventLen_append (pre : List UInt8) (wd mask cookie : Nat) {n : Nat} (hn : n < 2 ^ 32)
    (rest : List UInt8) :
    eventLen (pre ++ (fieldBytes wd ++ fieldBytes mask ++ fieldBytes cookie ++ fieldBytes n ++
      rest)) pre.length = n := by
  unfold eventLen
  simp only [byteAt_append, fieldBytes, List.cons_append, List.nil_append, List.getD_cons_succ,
    List.getD_cons_zero, UInt8.toNat_ofNat']
  omega

theorem length_paddedName_some (n : FileName) :
    (paddedName (some n)).length = (n.bytes.length + 1 + 15) / 16 * 16 := by
  simp only [paddedName, eventSize, List.length_append, List.length_replicate]
  omega

theorem length_paddedName_lt (name : Option FileName) : (paddedName name).length < 2 ^ 32 := by
  cases name with
  | none => simp [paddedName]
  | some n =>
    have hshort := n.short
    rw [length_paddedName_some]
    omega

theorem length_encodeEvent (e : InotifyEvent) :
    (encodeEvent e).length = eventSize + (paddedName e.name).length := by
  simp [encodeEvent, fieldBytes, eventSize]
  omega

/-- The name is read back, up to the NUL that closes it. -/
theorem eventName_append (pre : List UInt8) (e : InotifyEvent) (n : FileName)
    (hname : e.name = some n) (rest : List UInt8) :
    eventName (pre ++ (encodeEvent e ++ rest)) pre.length = n.text := by
  -- the padding holds at least the NUL that closes the name
  obtain ⟨k, hk⟩ : ∃ k, paddedName (some n) = n.bytes ++ 0 :: List.replicate k 0 := by
    refine ⟨(n.bytes.length + 1 + 15) / 16 * 16 - n.bytes.length - 1, ?_⟩
    rw [← List.replicate_succ]
    simp only [paddedName, eventSize]
    congr 2
    omega
  have hbytes : ∀ b ∈ n.bytes, (decide (b ≠ 0)) = true := by
    intro b hb
    refine decide_eq_true ?_
    rintro rfl
    exact n.nulFree hb
  have hdrop : (pre ++ (encodeEvent e ++ rest)).drop (pre.length + eventSize) =
      paddedName e.name ++ rest := by
    rw [← List.drop_drop, List.drop_left]
    simp [encodeEvent, fieldBytes, eventSize]
  unfold eventName FileName.text
  rw [hdrop, hname, hk, List.append_assoc, List.takeWhile_append_of_pos hbytes]
  simp

/-- The call that the loop makes for a record. -/
theorem iterate_encode {r : Reading σ} {pre rest : List UInt8} {e : InotifyEvent}
    (hbuf : r.wrapper.m_buf = pre ++ (encodeEvent e ++ rest))
    (hi : r.wrapper.m_i = BitVec.ofNat 64 pre.length) (hlt : pre.length < 2 ^ 63) :
    r.iterate.wrapper =
        { r.wrapper with m_i := BitVec.ofNat 64 (pre ++ encodeEvent e).length } ∧
      r.iterate.calls = r.calls ++ (e.name.map FileName.text).toList ∧
      r.iterate.env = (e.name.map FileName.text).toList.foldl
        (fun env name => (r.wrapper.m_func name env).2) r.env := by
  have hlen : eventLen r.wrapper.m_buf pre.length = (paddedName e.name).length := by
    rw [hbuf]
    unfold encodeEvent
    rw [List.append_assoc _ (paddedName e.name) rest]
    exact eventLen_append pre _ _ _ (length_paddedName_lt e.name) _
  have hnat : r.wrapper.m_i.toNat = pre.length := by
    rw [hi, BitVec.toNat_ofNat, Nat.mod_eq_of_lt]
    omega
  constructor
  · rw [iterate_wrapper hi hlt, hlen, List.length_append, length_encodeEvent]
  · unfold Reading.iterate
    simp only [hnat, hlen]
    cases hname : e.name with
    | none => simp [paddedName]
    | some n =>
      have hne : (paddedName (some n)).length ≠ 0 := by
        rw [length_paddedName_some]
        omega
      have hread : eventName r.wrapper.m_buf pre.length = n.text := by
        rw [hbuf]
        exact eventName_append pre e n hname rest
      rw [if_neg hne, hread]
      simp

/-- The loop over a list of records, with one iteration for each record. -/
theorem readLoop_encode {len : Nat} (es : List InotifyEvent) {r : Reading σ}
    {pre rest : List UInt8} (hbuf : r.wrapper.m_buf = pre ++ (encodeEvents es ++ rest))
    (hi : r.wrapper.m_i = BitVec.ofNat 64 pre.length)
    (hlen : len = (pre ++ encodeEvents es).length) (hcap : len ≤ BUF_LEN) :
    ∃ r', readLoop len es.length r = some r' ∧ r'.calls = r.calls ++ eventNames es ∧
      r'.env = (eventNames es).foldl (fun env name => (r.wrapper.m_func name env).2) r.env := by
  have hsmall : len ≤ 4080 := hcap
  have hpre : pre.length ≤ len := by
    rw [hlen, List.length_append]
    omega
  -- on the records, with the part that was walked over as a growing prefix
  induction es generalizing r pre with
  | nil =>
    refine ⟨r, ?_, ?_, rfl⟩
    · have hend : len = pre.length := by simpa [encodeEvents] using hlen
      rw [List.length_nil, readLoop, hi, slt_ofNat (by omega) (by omega), hend]
      simp
    · simp [eventNames]
  | cons e es ih =>
    have hsplit : encodeEvents (e :: es) = encodeEvent e ++ encodeEvents es := by
      simp [encodeEvents]
    have hrec := length_encodeEvent e
    rw [hsplit, List.append_assoc] at hbuf
    rw [hsplit, ← List.append_assoc] at hlen
    obtain ⟨hwrap, hcalls, henv⟩ := iterate_encode hbuf hi (by omega)
    have hmore : pre.length < len := by
      rw [hlen, List.length_append, List.length_append, hrec]
      unfold eventSize
      omega
    have hbuf' : r.iterate.wrapper.m_buf =
        (pre ++ encodeEvent e) ++ (encodeEvents es ++ rest) := by
      rw [hwrap, List.append_assoc]
      exact hbuf
    have hle : (pre ++ encodeEvent e).length ≤ len := by
      simp only [hlen, List.length_append]
      omega
    obtain ⟨r', hloop, hcalls', henv'⟩ := ih hbuf' (by rw [hwrap]) hlen hle
    have hnames : eventNames (e :: es) = (e.name.map FileName.text).toList ++ eventNames es := by
      unfold eventNames
      cases hname : e.name <;> simp [hname]
    refine ⟨r', ?_, ?_, ?_⟩
    · rw [List.length_cons, readLoop, hi, slt_ofNat (by omega) (by omega)]
      simpa [hmore] using hloop
    · rw [hcalls', hcalls, hnames, List.append_assoc]
    · rw [henv', henv, hnames, List.foldl_append, hwrap]

end Loop

/-- A record is at least a header. -/
theorem length_encodeEvents (es : List InotifyEvent) :
    es.length * eventSize ≤ (encodeEvents es).length := by
  induction es with
  | nil => simp
  | cons e es ih =>
    have hrec := length_encodeEvent e
    have hsplit : encodeEvents (e :: es) = encodeEvent e ++ encodeEvents es := by
      simp [encodeEvents]
    rw [hsplit, List.length_append, List.length_cons, Nat.succ_mul]
    omega

/-- What one call does with a buffer that the kernel has filled. -/
theorem readInotyEvents_encode {σ : Type} (w : inotifyRAIIwrapper σ) (env : σ)
    {es : List InotifyEvent} (hcap : (encodeEvents es).length ≤ BUF_LEN) :
    ∃ r, w.readInotyEvents (some (encodeEvents es)) env = some r ∧ r.calls = eventNames es ∧
      r.env = (eventNames es).foldl (fun env name => (w.m_func name env).2) env := by
  have hmemory : (w.loaded (encodeEvents es) env).wrapper.m_buf =
      [] ++ (encodeEvents es ++ w.m_buf.drop (encodeEvents es).length) := rfl
  obtain ⟨r, hloop, hcalls, henv⟩ := readLoop_encode es hmemory rfl rfl hcap
  -- no more records than headers fit into the buffer
  have hcount : es.length ≤ BUF_LEN / eventSize := by
    have hle := length_encodeEvents es
    unfold BUF_LEN at *
    unfold eventSize at *
    omega
  obtain ⟨k, hk⟩ := Nat.exists_eq_add_of_le hcount
  refine ⟨r, ?_, by simpa [inotifyRAIIwrapper.loaded] using hcalls, henv⟩
  rw [inotifyRAIIwrapper.readInotyEvents, hk]
  exact readLoop_mono hloop k

/-- One call hands the names of the named events to the watch function, in order and whatever it
answers, and on any buffer content the loop ends within one iteration for each header's size. -/
theorem readInotyEvents_decodes {σ : Type} (w : inotifyRAIIwrapper σ) (env : σ) :
    (∀ es : List InotifyEvent, (encodeEvents es).length ≤ BUF_LEN →
      ∃ r, w.readInotyEvents (some (encodeEvents es)) env = some r ∧ r.calls = eventNames es ∧
        r.env = (eventNames es).foldl (fun env name => (w.m_func name env).2) env) ∧
      ∀ bytes : List UInt8, bytes.length ≤ BUF_LEN →
        (readLoop bytes.length ((bytes.length + (eventSize - 1)) / eventSize)
          (w.loaded bytes env)).isSome := by
  constructor
  · intro es hcap
    exact readInotyEvents_encode w env hcap
  · intro bytes hcap
    apply readLoop_isSome hcap _ (i := 0)
    · rfl
    · decide
    · unfold eventSize
      omega

def songA : FileName := ⟨[97, 46, 109, 112, 51], by decide, by decide, by decide⟩

def songB : FileName := ⟨[98, 46, 109, 112, 51], by decide, by decide, by decide⟩

/-- A nameless event between two named ones, read by a watcher that handles nothing. -/
def threeEvents : List InotifyEvent :=
  [⟨1, 256, 0, some songA⟩, ⟨1, 1024, 0, none⟩, ⟨1, 128, 7, some songB⟩]

theorem readInotyEvents_decodes_threeEvents :
    ∃ r, (inotifyRAIIwrapper.mk (fun _ calls => (false, calls + 1)) [] 0).readInotyEvents
        (some (encodeEvents threeEvents)) (0 : Nat) = some r ∧
      r.calls = eventNames threeEvents ∧ r.env = 2 :=
  (readInotyEvents_decodes (inotifyRAIIwrapper.mk (fun _ calls => (false, calls + 1)) [] 0)
    (0 : Nat)).1 threeEvents (by decide)

end PetProject.Watch
