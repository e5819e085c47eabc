import Mathlib.Data.List.Basic
import PetProject.Foundation.KeyedReplay
import PetProject.Watch.Mirror

/-!
# File operations and their events

An operation of another program on the watched directory raises one event, a rename inside the
directory raises two, and an operation that replaces an entry raises none for the entry it
replaces. `handleEvents` is the complete handling of such events in the order they were raised:
every watcher whose mask matches reads the event and calls its handler.

An operation that replaces nothing is the sequence of its elementary changes (`run_of_fresh`).
-/

set_option autoImplicit false

namespace PetProject.Watch

open PetProject.Foundation.TextSearch PetProject.Foundation.SqlLexer
open PetProject.Foundation.KeyedReplay PetProject.Workers

/-- An operation on the directory by a program other than the daemon. -/
inductive FileOp where
  | create (n : FileName)
  | unlink (n : FileName)
  | moveIn (n : FileName) (cookie : UInt32)
  | moveOut (n : FileName) (cookie : UInt32)
  | rename (a b : FileName) (cookie : UInt32)
  deriving DecidableEq

/-- The changes that the operation reports, in order. -/
def FileOp.changes : FileOp → List DirOp
  | .create n => [.create n]
  | .unlink n => [.unlink n]
  | .moveIn n cookie => [.moveIn n cookie]
  | .moveOut n cookie => [.moveOut n cookie]
  | .rename a b cookie => if a = b then [] else [.moveOut a cookie, .moveIn b cookie]

/-- The events that the operation raises. -/
def FileOp.events (f : FileOp) : List InotifyEvent := f.changes.map DirOp.event

/-- The directory after the operation, when it is possible. An entry that is moved takes the place
of an entry with its new name. -/
def FileOp.run (dir : List FileName) : FileOp → Option (List FileName)
  | .create n => if n ∈ dir then none else some (n :: dir)
  | .unlink n => if n ∈ dir then some (dir.filter fun m => m ≠ n) else none
  | .moveIn n _ => some (n :: dir.filter fun m => m ≠ n)
  | .moveOut n _ => if n ∈ dir then some (dir.filter fun m => m ≠ n) else none
  | .rename a b _ =>
      if a ∈ dir then
        some (if a = b then dir else b :: (dir.filter fun m => m ≠ a).filter fun m => m ≠ b)
      else none

/-- The operation replaces no entry. -/
def FileOp.Fresh (dir : List FileName) : FileOp → Prop
  | .moveIn n _ => n ∉ dir
  | .rename a b _ => a = b ∨ b ∉ dir
  | _ => True

instance (dir : List FileName) : DecidablePred (FileOp.Fresh dir)
  | .create _ | .unlink _ | .moveOut _ _ => isTrue trivial
  | .moveIn n _ => inferInstanceAs (Decidable (n ∉ dir))
  | .rename a b _ => inferInstanceAs (Decidable (a = b ∨ b ∉ dir))

/-! ## The handling of an event -/

/-- The watcher reads the event, when it has asked for it, and calls its handler. -/
def Watcher.receive (t : TDB_type) (md5 : MD5) (codePosition : Text) (src : UuidSources)
    (e : InotifyEvent) (s : SongList × List Text) (k : Watcher) : SongList × List Text :=
  if k.eventType &&& e.mask ≠ 0 then
    (dispatched [e]).foldl (fun s name => (watchFunction t md5 codePosition src k name s).2) s
  else s

/-- Both watchers handle the event. -/
def handleEvent (t : TDB_type) (md5 : MD5) (codePosition : Text) (src : UuidSources)
    (s : SongList × List Text) (e : InotifyEvent) : SongList × List Text :=
  [Watcher.m_inotyInDelete, Watcher.m_inotyInAdd].foldl
    (fun s k => k.receive t md5 codePosition src e s) s

def handleEvents (t : TDB_type) (md5 : MD5) (codePosition : Text) (src : UuidSources)
    (s : SongList × List Text) (es : List InotifyEvent) : SongList × List Text :=
  es.foldl (handleEvent t md5 codePosition src) s

section Handling

variable {t : TDB_type} {md5 : MD5} {codePosition : Text} {src : UuidSources}

theorem length_encodeEvents_event (o : DirOp) : (encodeEvents [o.event]).length ≤ BUF_LEN := by
  have hname : ∀ n : FileName, (paddedName (some n)).length ≤ 272 := by
    intro n
    have hshort := n.short
    rw [length_paddedName_some]
    omega
  have hrecord : encodeEvents [o.event] = encodeEvent o.event := by simp [encodeEvents]
  rw [hrecord, length_encodeEvent]
  unfold BUF_LEN eventSize
  cases o with
  | create n | moveIn n | unlink n | moveOut n =>
    have := hname n
    simp only [DirOp.event]
    omega

theorem eventNames_events (os : List DirOp) :
    eventNames (os.map DirOp.event) = os.map fun o => o.name.text := by
  induction os with
  | nil => rfl
  | cons o os ih =>
    rw [List.map_cons, List.map_cons, ← ih]
    cases o <;> rfl

theorem dispatched_event (o : DirOp) : dispatched [o.event] = [o.name.text] := by
  rw [dispatched_eq (length_encodeEvents_event o)]
  exact eventNames_events [o]

theorem receive_watcher (o : DirOp) (s : SongList × List Text) :
    o.watcher.receive t md5 codePosition src o.event s =
      (watchFunction t md5 codePosition src o.watcher o.name.text s).2 := by
  unfold Watcher.receive
  rw [if_pos ((eventType_and_mask o o.watcher).mpr rfl), dispatched_event]
  rfl

theorem receive_of_ne {o : DirOp} {k : Watcher} (h : k ≠ o.watcher) (s : SongList × List Text) :
    k.receive t md5 codePosition src o.event s = s := by
  apply if_neg
  intro hmask
  exact h ((eventType_and_mask o k).mp hmask)

/-- Of the two watchers, the one that hears of a change handles its event. -/
theorem handleEvent_event (o : DirOp) (s : SongList × List Text) :
    handleEvent t md5 codePosition src s o.event =
      (watchFunction t md5 codePosition src o.watcher o.name.text s).2 := by
  change Watcher.receive t md5 codePosition src o.event
    (Watcher.receive t md5 codePosition src o.event s .m_inotyInDelete) .m_inotyInAdd = _
  cases hk : o.watcher with
  | m_inotyInDelete =>
    have hadd : Watcher.m_inotyInAdd ≠ o.watcher := by simp [hk]
    rw [receive_of_ne hadd, ← hk, receive_watcher]
  | m_inotyInAdd =>
    have hdelete : Watcher.m_inotyInDelete ≠ o.watcher := by simp [hk]
    rw [receive_of_ne hdelete, ← hk, receive_watcher]

/-- The rows after the complete handling of changes. -/
theorem countName_handleEvents (os : List DirOp) (hnames : ∀ o ∈ os, Recordable o.name.text)
    (s : SongList × List Text) :
    countName (handleEvents t md5 codePosition src s (os.map DirOp.event)).1 =
      replayAll Prod.snd rowEffect (os.map fun o => (o.watcher, o.name.text)) (countName s.1) := by
  induction os generalizing s with
  | nil => rfl
  | cons o os ih =>
    have hos : ∀ o' ∈ os, Recordable o'.name.text := fun o' ho' =>
      hnames o' (List.mem_cons_of_mem o ho')
    have hhead : countName (handleEvent t md5 codePosition src s o.event).1 =
        applyEvent Prod.snd rowEffect (countName s.1) (o.watcher, o.name.text) := by
      funext x
      rw [handleEvent_event]
      exact countName_watchFunction t md5 codePosition src o.watcher
        (hnames o List.mem_cons_self) s.1 s.2 x
    have htail := ih hos (handleEvent t md5 codePosition src s o.event)
    rw [hhead] at htail
    exact htail

end Handling

/-! ## Operations that replace nothing -/

theorem filter_ne_of_notMem {n : FileName} {ns : List FileName} (h : n ∉ ns) :
    (ns.filter fun m => m ≠ n) = ns := by
  apply List.filter_eq_self.mpr
  intro m hm
  apply decide_eq_true
  rintro rfl
  exact h hm

theorem foldlM_run_singleton (o : DirOp) (dir : List FileName) :
    [o].foldlM DirOp.run dir = o.run dir := by
  rw [List.foldlM_cons]
  cases o.run dir <;> rfl

/-- An operation that replaces nothing is the sequence of its changes. -/
theorem run_of_fresh {dir dir' : List FileName} {f : FileOp} (hfresh : f.Fresh dir)
    (h : f.run dir = some dir') : f.changes.foldlM DirOp.run dir = some dir' := by
  rw [← h]
  cases f with
  | create n => exact foldlM_run_singleton (.create n) dir
  | unlink n => exact foldlM_run_singleton (.unlink n) dir
  | moveOut n cookie => exact foldlM_run_singleton (.moveOut n cookie) dir
  | moveIn n cookie =>
    have hn : n ∉ dir := hfresh
    have hrun : DirOp.run dir (.moveIn n cookie) = some (n :: dir) := if_neg hn
    rw [FileOp.run, filter_ne_of_notMem hn, ← hrun]
    exact foldlM_run_singleton (.moveIn n cookie) dir
  | rename a b cookie =>
    have ha : a ∈ dir := by
      by_contra ha
      simp [FileOp.run, ha] at h
    rw [FileOp.run, if_pos ha]
    by_cases hab : a = b
    · rw [if_pos hab, FileOp.changes, if_pos hab]
      rfl
    · have hb : b ∉ dir.filter fun m => m ≠ a := by
        intro hmem
        rcases hfresh with heq | hb
        · exact hab heq
        · exact hb (List.mem_filter.mp hmem).1
      have hout : DirOp.run dir (.moveOut a cookie) = some (dir.filter fun m => m ≠ a) := if_pos ha
      have hin : DirOp.run (dir.filter fun m => m ≠ a) (.moveIn b cookie) =
          some (b :: dir.filter fun m => m ≠ a) := if_neg hb
      rw [if_neg hab, filter_ne_of_notMem hb, FileOp.changes, if_neg hab, List.foldlM_cons, hout,
        ← hin]
      exact foldlM_run_singleton (.moveIn b cookie) _

/-- The last change of an operation that replaces an entry is the arrival of a name that is there,
and no change before it concerns that name. -/
theorem changes_of_not_fresh {dir : List FileName} {f : FileOp} (h : ¬ f.Fresh dir) :
    ∃ (os : List DirOp) (n : FileName) (cookie : UInt32), n ∈ dir ∧
      f.changes = os ++ [.moveIn n cookie] ∧ ∀ o ∈ os, o.name ≠ n := by
  cases f with
  | create n => exact absurd trivial h
  | unlink n => exact absurd trivial h
  | moveOut n cookie => exact absurd trivial h
  | moveIn n cookie =>
    refine ⟨[], n, cookie, Decidable.not_not.mp h, rfl, ?_⟩
    intro o ho
    cases ho
  | rename a b cookie =>
    obtain ⟨hab, hb⟩ := not_or.mp h
    refine ⟨[.moveOut a cookie], b, cookie, Decidable.not_not.mp hb, if_neg hab, ?_⟩
    intro o ho
    rw [List.mem_singleton.mp ho]
    exact hab

end PetProject.Watch
