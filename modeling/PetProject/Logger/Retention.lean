import PetProject.Foundation.Transition
import PetProject.Logger.Model

/-!
# Which records stay in the log files

The run of a logger is the sequence of its calls of `FAST_LOG`, from the state in which `init` has
opened the first file. `due` records the lines of the calls that were made while a file was open or
that opened one; no function reads it.

Every record that is due is in exactly one file at the end of a run exactly when no call of the run
loses a record (`no_record_lost_iff`): a call on a closed file drops its record when it opens a
file, and a rotation empties the file it opens, which holds records when its name has been used in
the same second.
-/

set_option autoImplicit false

namespace PetProject.Logger

open PetProject.Foundation.TextSearch PetProject.Foundation.NumberedFiles
open PetProject.Foundation.Transition PetProject.Workers

/-- A logger with the number of calls that were made and the lines that are due. -/
structure State where
  world : World
  calls : Nat
  due : List (Line Bytes)

/-- A file is open. -/
def World.isOpen (w : World) : Bool := w.logger.m_out.isSome

/-- One call of `FAST_LOG`. -/
def step (s : State) (c : LogCall) : Option State :=
  let world := FAST_LOG s.calls c s.world
  some ⟨world, s.calls + 1,
    if s.world.isOpen || world.isOpen then s.due ++ [⟨s.calls, record c⟩] else s.due⟩

/-- `init` has opened the first file; its own record is the first call. -/
def State.IsInit (s : State) : Prop :=
  (∃ m_loggerParams m_serviceName dirExists time opens,
    openLog m_loggerParams m_serviceName dirExists time opens = some s.world) ∧
    s.calls = 0 ∧ s.due = []

/-- Every line that is due is in exactly one file, and every file is in the order of the calls. -/
def NoRecordLost (s : State) : Prop :=
  (∀ l ∈ s.due, ∃! path, l ∈ s.world.disk path) ∧ ∀ path, Ordered (s.world.disk path)

/-- The call loses no record: on a closed file it opens none, and a rotation that opens a file
opens one without records. -/
def KeepsRecords (s : State) (c : LogCall) : Prop :=
  match s.world.logger.m_out with
  | none => c.opens = false
  | some out =>
      s.world.logger.fillsUp out c → c.opens = true →
        (write s.calls c out s.world).disk (s.world.logger.logfilePath c.time) = []

instance : DecidableRel KeepsRecords := fun s c =>
  match h : s.world.logger.m_out with
  | none => decidable_of_iff (c.opens = false) (by simp [KeepsRecords, h])
  | some out =>
      decidable_of_iff
        (s.world.logger.fillsUp out c → c.opens = true →
          (write s.calls c out s.world).disk (s.world.logger.logfilePath c.time) = [])
        (by simp [KeepsRecords, h])

/-! ## What a call does -/

section Calls

variable (n : Nat) (c : LogCall) (w : World)

theorem reopen_opens (message : Text) (h : c.opens = true) :
    (reopen w c message).isOpen = true ∧
      (reopen w c message).disk = empty w.disk (w.logger.logfilePath c.time) := by
  simp [reopen, createNewLogfile, h, World.isOpen]

theorem reopen_fails (message : Text) (h : c.opens = false) :
    (reopen w c message).isOpen = false ∧ (reopen w c message).disk = w.disk := by
  simp [reopen, createNewLogfile, h, World.isOpen]

theorem FAST_LOG_closed (h : w.logger.m_out = none) :
    (FAST_LOG n c w).isOpen = c.opens ∧
      (FAST_LOG n c w).disk =
        if c.opens then empty w.disk (w.logger.logfilePath c.time) else w.disk := by
  have hrun : FAST_LOG n c w = reopen w c reopenError := by
    unfold FAST_LOG
    rw [h]
  rw [hrun]
  cases ho : c.opens with
  | true => exact reopen_opens c w _ ho
  | false => exact reopen_fails c w _ ho

theorem FAST_LOG_open {out : OutStream} (h : w.logger.m_out = some out) :
    (FAST_LOG n c w).disk =
      if w.logger.fillsUp out c ∧ c.opens = true then
        empty (write n c out w).disk (w.logger.logfilePath c.time)
      else (write n c out w).disk := by
  unfold FAST_LOG
  simp only [h]
  by_cases hfull : w.logger.fillsUp out c
  · rw [if_pos hfull]
    cases ho : c.opens with
    | true =>
      rw [if_pos ⟨hfull, rfl⟩, (reopen_opens c _ _ ho).2]
      rfl
    | false =>
      rw [if_neg (by simp), (reopen_fails c _ _ ho).2]
  · rw [if_neg hfull, if_neg (by simp [hfull])]

end Calls

/-! ## Steps -/

/-- The bookkeeping of the files holds in every state. -/
def State.Ledger (s : State) : Prop := Foundation.NumberedFiles.Ledger s.calls s.due s.world.disk

section Steps

variable {s s' : State} {c : LogCall}

/-- A call on a closed file. -/
theorem step_closed (hclosed : s.world.logger.m_out = none) (h : step s c = some s') :
    s'.calls = s.calls + 1 ∧
      s'.due = (if c.opens then s.due ++ [⟨s.calls, record c⟩] else s.due) ∧
      s'.world.disk = if c.opens then empty s.world.disk (s.world.logger.logfilePath c.time)
        else s.world.disk := by
  cases h
  obtain ⟨hopen, hdisk⟩ := FAST_LOG_closed s.calls c s.world hclosed
  refine ⟨rfl, ?_, hdisk⟩
  change (if s.world.isOpen || (FAST_LOG s.calls c s.world).isOpen then _ else _) = _
  rw [hopen]
  simp [World.isOpen, hclosed]

/-- A call on an open file. -/
theorem step_open {out : OutStream} (hopen : s.world.logger.m_out = some out)
    (h : step s c = some s') :
    s'.calls = s.calls + 1 ∧ s'.due = s.due ++ [⟨s.calls, record c⟩] ∧
      s'.world.disk =
        if s.world.logger.fillsUp out c ∧ c.opens = true then
          empty (append s.world.disk out.path ⟨s.calls, record c⟩)
            (s.world.logger.logfilePath c.time)
        else append s.world.disk out.path ⟨s.calls, record c⟩ := by
  cases h
  refine ⟨rfl, ?_, FAST_LOG_open s.calls c s.world hopen⟩
  change (if s.world.isOpen || (FAST_LOG s.calls c s.world).isOpen then _ else _) = _
  simp [World.isOpen, hopen]

theorem ledger_step (hs : s.Ledger) (h : step s c = some s') : s'.Ledger := by
  unfold State.Ledger at *
  cases hout : s.world.logger.m_out with
  | none =>
    obtain ⟨hcalls, hdue, hdisk⟩ := step_closed hout h
    rw [hcalls, hdue, hdisk]
    split
    · exact (hs.skip _).empty _
    · exact hs.pass
  | some out =>
    obtain ⟨hcalls, hdue, hdisk⟩ := step_open hout h
    rw [hcalls, hdue, hdisk]
    split
    · exact (hs.append _ _).empty _
    · exact hs.append _ _

/-- After a call nothing that is due is missing exactly if nothing was missing before and the call
loses no record. -/
theorem complete_step_iff (hs : s.Ledger) (h : step s c = some s') :
    Complete s'.due s'.world.disk ↔ Complete s.due s.world.disk ∧ KeepsRecords s c := by
  unfold State.Ledger at hs
  unfold KeepsRecords
  cases hout : s.world.logger.m_out with
  | none =>
    obtain ⟨-, hdue, hdisk⟩ := step_closed hout h
    rw [hdue, hdisk]
    cases hopens : c.opens with
    | true =>
      -- the record is not written, and the file that is opened is emptied besides
      have hlost : ¬ Complete (s.due ++ [⟨s.calls, record c⟩])
          (empty s.world.disk (s.world.logger.logfilePath c.time)) :=
        not_complete_skip (hs.empty _) _
      simpa using hlost
    | false => simp
  | some out =>
    obtain ⟨-, hdue, hdisk⟩ := step_open hout h
    have hwrite := complete_append_iff hs out.path (record c)
    rw [hdue, hdisk]
    by_cases hrotate : s.world.logger.fillsUp out c ∧ c.opens = true
    · rw [if_pos hrotate, complete_empty_iff (hs.append _ _), hwrite]
      -- the rotation loses what is in the file that it opens
      obtain ⟨hfull, hopens⟩ := hrotate
      simp only [hfull, hopens, forall_const]
      rfl
    · rw [if_neg hrotate, hwrite]
      constructor
      · intro hcomplete
        exact ⟨hcomplete, fun hfull hopens => absurd ⟨hfull, hopens⟩ hrotate⟩
      · intro hboth
        exact hboth.1

end Steps

theorem openLog_disk {m_loggerParams : Text → Option Text} {m_serviceName : Text}
    {dirExists opens : Bool} {time : Int} {w : World}
    (h : openLog m_loggerParams m_serviceName dirExists time opens = some w) :
    w.disk = fun _ => [] := by
  unfold openLog createNewLogfile at h
  split at h
  · cases dirExists <;> cases opens <;> simp at h
    rw [← h]
    exact Function.update_eq_self ..
  · cases h

theorem ledger_init {s : State} (h : s.IsInit) : s.Ledger := by
  obtain ⟨⟨params, service, dirExists, time, opens, hopen⟩, hcalls, hdue⟩ := h
  unfold State.Ledger
  rw [hcalls, hdue, openLog_disk hopen]
  exact ledger_nil

theorem complete_init {s : State} (h : s.IsInit) : Complete s.due s.world.disk := by
  intro l hl
  rw [h.2.2] at hl
  cases hl

/-- With the bookkeeping, a line in some file is in one file only. -/
theorem noRecordLost_iff_complete {s : State} (hs : s.Ledger) :
    NoRecordLost s ↔ Complete s.due s.world.disk := by
  constructor
  · intro h l hl
    exact (h.1 l hl).exists
  · intro h
    refine ⟨fun l hl => ?_, hs.ordered⟩
    obtain ⟨path, hpath⟩ := h l hl
    exact ⟨path, hpath, fun path' hpath' => hs.single path' path l hpath' hpath⟩

/-- At the end of a run no record is lost exactly if no call of the run loses one. -/
theorem no_record_lost_iff {s₀ s : State} {calls : List LogCall} (hinit : s₀.IsInit)
    (hrun : Run step Always s₀ calls s) :
    NoRecordLost s ↔ Run step KeepsRecords s₀ calls s := by
  have hledger : s.Ledger :=
    hrun.invariant (fun _ _ _ hs _ hst => ledger_step hs hst) (ledger_init hinit)
  rw [noRecordLost_iff_complete hledger]
  exact hrun.guarded_iff (P := fun s => Complete s.due s.world.disk)
    (fun _ _ _ hs hst => ledger_step hs hst) (fun _ _ _ hs hst => complete_step_iff hs hst)
    (ledger_init hinit) (complete_init hinit)

/-! ## Concrete runs -/

/-- A configuration with the given maximum size. -/
def paramsOf (mb : Text) (key : Text) : Option Text :=
  if key = logMaxSizeinMbParam then some mb
  else if key = logDirPathParam then some "/var/log".toList
  else none

/-- The logger that `init` opens in second 100. -/
def openedLog (mb : Text) : Option State :=
  (openLog (paramsOf mb) "/opt/pet_http".toList true 100 true).map fun w => ⟨w, 0, []⟩

theorem isInit_openedLog {mb : Text} {s : State} (h : openedLog mb = some s) : s.IsInit := by
  obtain ⟨w, hopen, rfl⟩ := Option.map_eq_some_iff.mp h
  exact ⟨⟨_, _, _, _, _, hopen⟩, rfl, rfl⟩

/-- A call in the given second. -/
def callAt (message : Bytes) (time : Int) (opens : Bool) : LogCall :=
  ⟨message, 1, none, time, opens⟩

/-- With a maximum of zero every call rotates: the first two into new seconds, the third without
success, and the fourth finds the file closed. -/
def rotatingCalls : List LogCall :=
  [initCall (callAt [] 101 true), callAt (utf8 "a".toList) 102 true,
    callAt (utf8 "b".toList) 102 false, callAt (utf8 "c".toList) 103 false]

theorem no_record_lost_iff_rotatingCalls :
    ∃ s₀ s, openedLog "0".toList = some s₀ ∧ exec step Always s₀ rotatingCalls = some s ∧
      s.due.map Line.number = [0, 1, 2] ∧ NoRecordLost s := by
  have hexec : ((openedLog "0".toList).bind fun s₀ =>
      (exec step KeepsRecords s₀ rotatingCalls).bind fun s =>
        (exec step Always s₀ rotatingCalls).map fun s' =>
          decide (s.due.map Line.number = [0, 1, 2] ∧ s'.due.map Line.number = [0, 1, 2])) =
      some true := by
    decide +kernel
  obtain ⟨s₀, hopen, hexec⟩ := Option.bind_eq_some_iff.mp hexec
  obtain ⟨s, hguarded, hexec⟩ := Option.bind_eq_some_iff.mp hexec
  obtain ⟨s', hs', -, hdue⟩ := exec_decide_sound hexec
  have heq : s' = s := (run_of_exec hs').deterministic (run_of_exec hguarded)
  refine ⟨s₀, s', hopen, hs', hdue, ?_⟩
  apply (no_record_lost_iff (isInit_openedLog hopen) (run_of_exec hs')).mpr
  rw [heq]
  exact run_of_exec hguarded

/-- A record of one megabyte. -/
def burst : LogCall := callAt (List.replicate mbToBytes 97) 100 true

theorem length_record_burst : mbToBytes ≤ (record burst).length := by
  unfold record
  simp only [List.length_append]
  have hmessage : burst.codeInfoAndMessage.length = mbToBytes := List.length_replicate ..
  omega

/-- A rotation in the second in which the file was opened empties the file. -/
theorem not_no_record_lost_burst :
    ¬ ∀ (s₀ s : State) (calls : List LogCall), s₀.IsInit →
      (calls.map LogCall.time).Pairwise (· ≤ ·) → Run step Always s₀ calls s → NoRecordLost s := by
  intro hall
  have hexec : ((openedLog "1".toList).bind fun s₀ =>
      (exec step Always s₀ [initCall (callAt [] 100 true)]).map fun s =>
        decide (s.world.logger.m_maxFileSize = mbToBytes ∧
          s.world.logger.m_out.map OutStream.path = some (s.world.logger.logfilePath 100))) =
      some true := by
    decide +kernel
  obtain ⟨s₀, hopen, hexec⟩ := Option.bind_eq_some_iff.mp hexec
  obtain ⟨s, hs, hsize, hout⟩ := exec_decide_sound hexec
  obtain ⟨out, hout, hpath⟩ := Option.map_eq_some_iff.mp hout
  have hinit : s₀.IsInit := isInit_openedLog hopen
  have hrun : Run step Always s₀ [initCall (callAt [] 100 true)] s := run_of_exec hs
  have hledger : s.Ledger :=
    hrun.invariant (fun _ _ _ hs _ hst => ledger_step hs hst) (ledger_init hinit)
  obtain ⟨s', hs'⟩ : ∃ s', step s burst = some s' := ⟨_, rfl⟩
  have hlost : ¬ KeepsRecords s burst := by
    intro hkeeps
    simp only [KeepsRecords, hout] at hkeeps
    have hfull : s.world.logger.fillsUp out burst := by
      have hlength := length_record_burst
      unfold petLogger.fillsUp
      omega
    have hempty := hkeeps hfull rfl
    -- the record was written to the file that the rotation opens
    have hmem : (⟨s.calls, record burst⟩ : Line Bytes) ∈
        (write s.calls burst out s.world).disk (s.world.logger.logfilePath 100) :=
      mem_append_iff.mpr (Or.inr ⟨hpath.symm, rfl⟩)
    have hmem' : (⟨s.calls, record burst⟩ : Line Bytes) ∈ ([] : List (Line Bytes)) :=
      hempty ▸ hmem
    cases hmem'
  have hend := hall s₀ s' ([initCall (callAt [] 100 true)] ++ [burst]) hinit (by decide)
    (Run.snoc hrun trivial hs')
  rw [noRecordLost_iff_complete (ledger_step hledger hs')] at hend
  exact hlost ((complete_step_iff hledger hs').mp hend).2

end PetProject.Logger
