import PetProject.Logger.Retention

/-!
# When a log file is full

`FAST_LOG` compares the position behind its record with `m_maxFileSize`, which `init` computes as
the product of the parsed number of megabytes and `mbToBytes` in `size_t`. The position is the
number of bytes in the current file (`World.Tracks`), so a call rotates exactly at the product as
`size_t` holds it (`rotates_iff`). That is the configured size for the numbers whose product does
not wrap, and for those whose wrapped product no file reaches (`rotates_at_size_iff`).
-/

set_option autoImplicit false

namespace PetProject.Logger

open PetProject.Foundation.TextSearch PetProject.Foundation.NumberedFiles
open PetProject.Foundation.Transition PetProject.Workers

/-- The bytes of the records in a file. -/
def bytes (ls : List (Line Bytes)) : Nat := (ls.map fun l => l.content.length).sum

/-- The bytes written to the current file. -/
def World.written (w : World) : Nat :=
  match w.logger.m_out with
  | some out => bytes (w.disk out.path)
  | none => 0

/-- The bytes in the current file when the record of the call is in it. -/
def State.fileWith (s : State) (c : LogCall) : Nat := s.world.written + (record c).length

/-- The file sizes are those below this bound: an offset in a file, `std::streamoff`, has 64 bits
with the sign. -/
def offsetBound : Nat := 2 ^ 63

/-- A file that the call opens can be opened, and there is room for its record. -/
def Succeeds (s : State) (c : LogCall) : Prop := c.opens = true ∧ s.fileWith c < offsetBound

/-- The call leaves a file open that nothing has been written to: it has closed the current file and
opened a new one. -/
def Rotates (s : State) (c : LogCall) : Prop :=
  (FAST_LOG s.calls c s.world).logger.m_out.map OutStream.tellp = some 0

/-- The call rotates exactly when the current file, with its record, has at least `N` megabytes, and
a file that it closes is smaller than that and the record. -/
structure RotatesAt (N : Int) (s : State) (c : LogCall) : Prop where
  when_full : Rotates s c ↔ N * mbToBytes ≤ s.fileWith c
  closed_below : Rotates s c → (s.fileWith c : Int) < N * mbToBytes + (record c).length

/-- What the configured size `text`, parsed as `N`, stands for: after every `init` that accepts it,
every call rotates at `N` megabytes. -/
def RotatesAtSize (text : Text) (N : Int) : Prop :=
  ∀ (m_loggerParams : Text → Option Text) (m_serviceName : Text) (dirExists : Bool) (time : Int)
    (opens : Bool) (c : LogCall) (s : State), m_loggerParams logMaxSizeinMbParam = some text →
    init m_loggerParams m_serviceName dirExists time opens c = some s.world →
    c.opens = true → (record (initCall c)).length < offsetBound →
    0 ≤ N ∧ ∀ (calls : List LogCall) (t : State) (c' : LogCall), Run step Succeeds s calls t →
      Succeeds t c' → RotatesAt N t c'

/-! ## The position is the size of the file -/

@[simp] theorem bytes_nil : bytes [] = 0 := rfl

theorem bytes_append (f : Files Text Bytes) (k : Text) (l : Line Bytes) :
    bytes (append f k l k) = bytes (f k) + l.content.length := by
  simp [bytes, append]

theorem bytes_empty (f : Files Text Bytes) (k : Text) : bytes (empty f k k) = 0 := by
  simp [empty]

theorem length_record_pos (c : LogCall) : 0 < (record c).length := by
  have hnewline : (utf8 ['\n']).length = 1 := rfl
  unfold record
  simp only [List.length_append]
  omega

/-- The maximum is `limit`, the position is the number of bytes in the current file, and that is
below the maximum unless the file is new. -/
structure World.Tracks (limit : Nat) (w : World) : Prop where
  maxFileSize : w.logger.m_maxFileSize = limit
  position : ∃ path, w.logger.m_out = some ⟨path, w.written⟩
  below : w.written = 0 ∨ w.written < limit

section Calls

variable {n : Nat} {c : LogCall} {w : World} {out : OutStream}

theorem written_of_open (h : w.logger.m_out = some out) : w.written = bytes (w.disk out.path) := by
  unfold World.written
  rw [h]

/-- The logger after a call that fills the file. -/
theorem FAST_LOG_full (hout : w.logger.m_out = some out) (hopens : c.opens = true)
    (hfull : w.logger.fillsUp out c) :
    (FAST_LOG n c w).logger =
      { w.logger with m_out := some ⟨w.logger.logfilePath c.time, 0⟩ } := by
  unfold FAST_LOG
  simp only [hout]
  rw [if_pos hfull]
  simp [reopen, createNewLogfile, hopens, write, petLogger.logfilePath]

/-- The logger after a call that does not fill the file. -/
theorem FAST_LOG_room (hout : w.logger.m_out = some out) (hroom : ¬ w.logger.fillsUp out c) :
    (FAST_LOG n c w).logger =
      { w.logger with m_out := some ⟨out.path, out.tellp + (record c).length⟩ } := by
  unfold FAST_LOG
  simp only [hout]
  rw [if_neg hroom]
  rfl

/-- A call keeps the bookkeeping; after it the file is new exactly if it was full. -/
theorem FAST_LOG_tracks {limit : Nat} (hw : w.Tracks limit) (hopens : c.opens = true) :
    (FAST_LOG n c w).Tracks limit ∧
      (FAST_LOG n c w).written =
        if limit ≤ w.written + (record c).length then 0 else w.written + (record c).length := by
  obtain ⟨path, hout⟩ := hw.position
  have hdisk := FAST_LOG_open n c w hout
  have hold := written_of_open hout
  by_cases hfull : w.logger.fillsUp ⟨path, w.written⟩ c
  · have hlogger := FAST_LOG_full (n := n) hout hopens hfull
    have hnew : (FAST_LOG n c w).logger.m_out = some ⟨w.logger.logfilePath c.time, 0⟩ := by
      rw [hlogger]
    have hwritten : (FAST_LOG n c w).written = 0 := by
      rw [written_of_open hnew, hdisk, if_pos ⟨hfull, hopens⟩, bytes_empty]
    unfold petLogger.fillsUp at hfull
    rw [hw.maxFileSize] at hfull
    refine ⟨⟨?_, ⟨w.logger.logfilePath c.time, ?_⟩, Or.inl hwritten⟩, ?_⟩
    · rw [hlogger]
      exact hw.maxFileSize
    · rw [hnew, hwritten]
    · rw [hwritten, if_pos hfull]
  · have hlogger := FAST_LOG_room (n := n) hout hfull
    have hsame : (FAST_LOG n c w).logger.m_out = some ⟨path, w.written + (record c).length⟩ := by
      rw [hlogger]
    have hwritten : (FAST_LOG n c w).written = w.written + (record c).length := by
      rw [written_of_open hsame, hdisk, if_neg (fun h => hfull h.1), hold]
      exact bytes_append ..
    unfold petLogger.fillsUp at hfull
    rw [hw.maxFileSize] at hfull
    refine ⟨⟨?_, ⟨path, ?_⟩, Or.inr ?_⟩, ?_⟩
    · rw [hlogger]
      exact hw.maxFileSize
    · rw [hsame, hwritten]
    · rw [hwritten]
      exact Nat.lt_of_not_le hfull
    · rw [hwritten, if_neg hfull]

/-- A call rotates exactly when the file, with its record, reaches the maximum. -/
theorem rotates_iff {limit : Nat} {s : State} (hs : s.world.Tracks limit)
    (hopens : c.opens = true) :
    Rotates s c ↔ limit ≤ s.fileWith c := by
  obtain ⟨htracks, hwritten⟩ := FAST_LOG_tracks (n := s.calls) hs hopens
  obtain ⟨path, hout⟩ := htracks.position
  unfold Rotates State.fileWith
  rw [hout, Option.map_some, Option.some.injEq, hwritten]
  by_cases hfull : limit ≤ s.world.written + (record c).length
  · rw [if_pos hfull]
    exact iff_of_true rfl hfull
  · rw [if_neg hfull]
    refine iff_of_false (fun hzero => ?_) hfull
    have hrecord : 0 < (record c).length := length_record_pos c
    exact absurd hzero (Nat.ne_of_gt (Nat.add_pos_right _ hrecord))

end Calls

theorem tracks_run {limit : Nat} {s t : State} {calls : List LogCall}
    (hrun : Run step Succeeds s calls t) (hs : s.world.Tracks limit) : t.world.Tracks limit :=
  hrun.invariant (I := fun s => s.world.Tracks limit)
    (fun s c t hs hok hst => by
      cases hst
      exact (FAST_LOG_tracks hs hok.1).1) hs

/-! ## The configured size -/

/-- The product in `size_t` keeps the number of megabytes modulo `2 ^ 44`. -/
theorem maxFileSize_eq (N : Int) : (maxFileSize N : Int) = N % 2 ^ 44 * mbToBytes := by
  simp only [maxFileSize, mbToBytes]
  omega

theorem openLog_tracks {m_loggerParams : Text → Option Text} {m_serviceName text : Text}
    {dirExists opens : Bool} {time N : Int} {w : World}
    (htext : m_loggerParams logMaxSizeinMbParam = some text) (hN : stol text = some N)
    (h : openLog m_loggerParams m_serviceName dirExists time opens = some w) :
    w.Tracks (maxFileSize N) ∧ w.written = 0 := by
  have hdisk := openLog_disk h
  simp only [openLog, htext, Option.bind_some, hN, createNewLogfile] at h
  split at h
  case h_1 mb logDir hmb hdir =>
    cases hmb
    cases dirExists <;> cases opens <;> simp at h
    have hwritten : w.written = 0 := by
      have hsize : w.written = bytes [] := by
        rw [← h]
        simp [World.written, empty]
      exact hsize
    refine ⟨⟨?_, ?_, Or.inl hwritten⟩, hwritten⟩
    · rw [← h]
    · rw [hwritten, ← h]
      exact ⟨_, rfl⟩
  case h_2 => cases h

/-- After `init` the bookkeeping holds. -/
theorem init_tracks {m_loggerParams : Text → Option Text} {m_serviceName text : Text}
    {dirExists opens : Bool} {time N : Int} {c : LogCall} {w : World}
    (htext : m_loggerParams logMaxSizeinMbParam = some text) (hN : stol text = some N)
    (h : init m_loggerParams m_serviceName dirExists time opens c = some w)
    (hopens : c.opens = true) :
    w.Tracks (maxFileSize N) ∧ w.written ≤ (record (initCall c)).length := by
  obtain ⟨w₀, hopen, rfl⟩ := Option.map_eq_some_iff.mp h
  obtain ⟨htracks, hzero⟩ := openLog_tracks htext hN hopen
  obtain ⟨hkeeps, hwritten⟩ := FAST_LOG_tracks (n := 0) (c := initCall c) htracks hopens
  refine ⟨hkeeps, ?_⟩
  rw [hwritten, hzero]
  split <;> omega

/-- Every number that `stol` returns is accepted. -/
theorem init_accepts {text : Text} {N : Int} (hN : stol text = some N) :
    ∃ w, init (paramsOf text) "/opt/pet_http".toList true 100 true (callAt [] 101 true) =
      some w := by
  have hsize : paramsOf text logMaxSizeinMbParam = some text := rfl
  have hdir : paramsOf text logDirPathParam = some "/var/log".toList := rfl
  have hopen : ∃ w, openLog (paramsOf text) "/opt/pet_http".toList true 100 true = some w := by
    unfold openLog
    rw [hsize, hdir, Option.bind_some, hN]
    exact ⟨_, rfl⟩
  obtain ⟨w, hopen⟩ := hopen
  unfold init
  rw [hopen]
  exact ⟨_, rfl⟩

/-- The numbers of megabytes for which no file that can be written tells the product in `size_t`
from the product of integers. -/
def SizeFits (N : Int) : Prop := N < 2 ^ 44 ∨ 2 ^ 43 ≤ N % 2 ^ 44

theorem maxFileSize_le_iff {N : Int} (hN : 0 ≤ N) (hfits : SizeFits N) {size : Nat}
    (hsize : size < offsetBound) : maxFileSize N ≤ size ↔ N * mbToBytes ≤ size := by
  have hmax := maxFileSize_eq N
  simp only [SizeFits, offsetBound, mbToBytes] at *
  omega

/-- A number of megabytes that fits is the size at which a call rotates. -/
theorem rotatesAt_of_fits {N : Int} {s : State} {c : LogCall} (hN : 1 ≤ N) (hfits : SizeFits N)
    (hs : s.world.Tracks (maxFileSize N)) (hc : Succeeds s c) : RotatesAt N s c where
  when_full := (rotates_iff hs hc.1).trans (maxFileSize_le_iff (by omega) hfits hc.2)
  closed_below _ := by
    have hbefore : (s.world.written : Int) < N * mbToBytes := by
      -- the record of the call is the last one of the file that it closes
      rcases hs.below with hnew | hbelow
      · rw [hnew]
        simp only [mbToBytes]
        omega
      · have hmax := maxFileSize_eq N
        simp only [mbToBytes] at *
        omega
    unfold State.fileWith
    omega

/-- The logger that `init` leaves with the size `text`, and a call after it. -/
theorem exists_opened {text : Text} {N : Int} (hN : stol text = some N) :
    ∃ s : State, init (paramsOf text) "/opt/pet_http".toList true 100 true (callAt [] 101 true) =
      some s.world ∧ s.world.Tracks (maxFileSize N) ∧ s.world.written < 1000 := by
  obtain ⟨w, hinit⟩ := init_accepts hN
  have htext : paramsOf text logMaxSizeinMbParam = some text := rfl
  obtain ⟨htracks, hwritten⟩ := init_tracks htext hN hinit rfl
  have hrecord : (record (initCall (callAt [] 101 true))).length < 1000 := by decide +kernel
  exact ⟨⟨w, 1, []⟩, hinit, htracks, Nat.lt_of_le_of_lt hwritten hrecord⟩

/-- A call with a message of the given length writes little more than that. -/
theorem length_record_replicate (n : Nat) :
    n ≤ (record (callAt (List.replicate n 97) 102 true)).length ∧
      (record (callAt (List.replicate n 97) 102 true)).length ≤ n + 100 := by
  have hrest : (record (callAt [] 102 true)).length ≤ 100 := by decide +kernel
  unfold record at *
  simp only [List.length_append, callAt, List.length_replicate, List.length_nil] at *
  omega

/-- The logger rotates at the size that is configured, for every run and every record, exactly when
that is at least one megabyte and fits. -/
theorem rotates_at_size_iff {text : Text} {N : Int} (hN : stol text = some N) :
    RotatesAtSize text N ↔ 1 ≤ N ∧ SizeFits N := by
  constructor
  · intro hall
    obtain ⟨s, hinit, htracks, hsmall⟩ := exists_opened hN
    have hrecord : (record (initCall (callAt [] 101 true))).length < offsetBound := by
      decide +kernel
    obtain ⟨hnonneg, hruns⟩ := hall _ _ _ _ _ _ s rfl hinit rfl hrecord
    have hstart : Run step Succeeds s [] s := Run.nil
    have hmax := maxFileSize_eq N
    -- a call that brings the file to the maximum of the code, when a file can be that long
    have hcall : maxFileSize N + 2000 < offsetBound →
        ∃ c, s.fileWith c < offsetBound ∧ Rotates s c ∧ RotatesAt N s c := by
      intro hroom
      obtain ⟨hlong, hshort⟩ := length_record_replicate (maxFileSize N)
      have hfile :
          maxFileSize N ≤ s.fileWith (callAt (List.replicate (maxFileSize N) 97) 102 true) ∧
          s.fileWith (callAt (List.replicate (maxFileSize N) 97) 102 true) < offsetBound := by
        unfold State.fileWith
        omega
      refine ⟨_, hfile.2, (rotates_iff htracks rfl).mpr hfile.1, ?_⟩
      exact hruns [] s _ hstart ⟨rfl, hfile.2⟩
    -- with the size 0 the closed file is as long as its last record
    have hpos : N ≠ 0 := by
      rintro rfl
      obtain ⟨c, -, hrotates, hat⟩ := hcall (by decide)
      have hclosed := hat.closed_below hrotates
      unfold State.fileWith at hclosed
      omega
    refine ⟨by omega, ?_⟩
    -- the product has wrapped, and a call rotates before the configured size
    by_contra hfits
    simp only [SizeFits, offsetBound, mbToBytes] at *
    obtain ⟨c, hlt, hrotates, hat⟩ := hcall (by omega)
    have hsize := hat.when_full.mp hrotates
    simp only [mbToBytes] at hsize
    omega
  · rintro ⟨hpos, hfits⟩ m_loggerParams m_serviceName dirExists time opens c s htext hinit hopens -
    refine ⟨by omega, fun calls t c' hrun hc' => ?_⟩
    have htracks := (init_tracks htext hN hinit hopens).1
    exact rotatesAt_of_fits hpos hfits (tracks_run hrun htracks) hc'

theorem rotates_at_size_iff_one : RotatesAtSize "1".toList 1 := by
  have hN : stol "1".toList = some 1 := by decide
  exact (rotates_at_size_iff hN).mpr ⟨Int.le_refl 1, Or.inl (by decide)⟩

/-- A negative size is accepted. -/
theorem not_rotates_at_size_negative :
    ¬ ∀ (text : Text) (N : Int), stol text = some N → RotatesAtSize text N := by
  intro hall
  have hN : stol "-1".toList = some (-1) := by decide
  obtain ⟨s, hinit, -, -⟩ := exists_opened hN
  have hrecord : (record (initCall (callAt [] 101 true))).length < offsetBound := by
    decide +kernel
  obtain ⟨hnonneg, -⟩ := hall _ _ hN _ _ _ _ _ _ s rfl hinit rfl hrecord
  exact absurd hnonneg (by decide)

end PetProject.Logger
