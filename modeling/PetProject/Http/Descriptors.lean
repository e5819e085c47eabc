import Mathlib.Data.List.Nodup
import PetProject.Foundation.LowestFree
import PetProject.Foundation.Transition
import PetProject.Http.Handling

/-!
# Descriptors of the requests

Requests are handled one after another on the thread of `event_base_loop`, call by call. `open` gets
the lowest free descriptor. A file that `evbuffer_add_file` has taken belongs to libevent, which
closes it at any later moment; other parts of the process open and close descriptors as well.

`ProcessRequest` closes `fd` at the end of the branch that has sent the file, although it is not the
owner any more. `proper_iff`: in all states of a run every close finds a descriptor of the closing
party, every descriptor is closed once and every request is answered once, exactly when no such
close is executed and no request is ended without an answer by `evbuffer_new` or an exception.
-/

set_option autoImplicit false

namespace PetProject.Http.Descriptors

open PetProject.Foundation PetProject.Foundation.Transition PetProject.Foundation.TextSearch
open PetProject.Workers

/-! ## The machine -/

/-- The party that has to close a descriptor. -/
inductive Owner where
  /-- `ProcessRequest`, for the request with this number. -/
  | request (id : Nat)
  /-- libevent, which took it from this request. -/
  | libevent (id : Nat)
  /-- A part of the process that does not handle requests. -/
  | other
  deriving DecidableEq, Repr

/-- The request whose file is behind the descriptor. -/
def Owner.file : Owner → List Nat
  | .request id | .libevent id => [id]
  | .other => []

/-- A request in `ProcessRequest`. -/
structure Handling where
  id : Nat
  request : evhttp_request
  env : Externals
  /-- The calls that are left. -/
  todo : List Action
  fd : Nat
  /-- Calls of `evhttp_send_reply` and of `evbuffer_free`. -/
  replies : Nat
  frees : Nat

structure State where
  fds : LowestFree.Table Owner
  busy : Option Handling
  /-- The files that libevent has to close: the request and the descriptor. -/
  held : List (Nat × Nat)
  /-- Closes of a descriptor that did not belong to the closing party. -/
  wrongCloses : Nat
  /-- The requests whose files were opened, and those whose files were closed. -/
  opened : List Nat
  closed : List Nat
  finished : List Handling
  /-- The number of the next request. -/
  next : Nat

inductive Label where
  | request (r : evhttp_request) (env : Externals)
  /-- The next call of `ProcessRequest`, or its end. -/
  | next
  /-- libevent releases the data of a buffer and closes the file. -/
  | release (id n : Nat)
  | openOther
  | closeOther (n : Nat)

/-- `close(n)` by the party that takes itself for the owner. -/
def State.close (s : State) (party : Owner) (n : Nat) : State :=
  { s with
    fds := LowestFree.free s.fds n
    wrongCloses :=
      if LowestFree.owner s.fds n = some party then s.wrongCloses else s.wrongCloses + 1
    closed := s.closed ++ ((LowestFree.owner s.fds n).map Owner.file).getD [] }

/-- One call of `ProcessRequest`. -/
def State.perform (s : State) (h : Handling) : Action → State
  | .open _ true =>
      let taken := LowestFree.take (.request h.id) s.fds
      { s with
        fds := taken.1
        busy := some { h with fd := taken.2 }
        opened := s.opened ++ [h.id] }
  | .evbuffer_add_file _ true =>
      { s with
        fds := LowestFree.put s.fds h.fd (.libevent h.id)
        busy := some h
        held := s.held ++ [(h.id, h.fd)] }
  | .close => { s with busy := some h }.close (.request h.id) h.fd
  | .evhttp_send_reply _ _ => { s with busy := some { h with replies := h.replies + 1 } }
  | .evbuffer_free => { s with busy := some { h with frees := h.frees + 1 } }
  | _ => { s with busy := some h }

def step (workers : Workers) (s : State) : Label → Option State
  | .request r env =>
      match s.busy with
      | some _ => none
      | none =>
          some { s with
            busy := some ⟨s.next, r, env, (ProcessRequest workers r env).1, 0, 0, 0⟩
            next := s.next + 1 }
  | .next =>
      match s.busy with
      | none => none
      | some h =>
          match h.todo with
          | [] => some { s with busy := none, finished := s.finished ++ [h] }
          | a :: rest => some (s.perform { h with todo := rest } a)
  | .release id n =>
      if (id, n) ∈ s.held then
        some ({ s with held := s.held.erase (id, n) }.close (.libevent id) n)
      else none
  | .openOther => some { s with fds := (LowestFree.take .other s.fds).1 }
  | .closeOther n =>
      if LowestFree.owner s.fds n = some .other then
        some { s with fds := LowestFree.free s.fds n }
      else none

/-- No request has come yet; descriptors are open for other purposes. -/
structure State.IsInit (s : State) : Prop where
  fds : ∀ n o, LowestFree.owner s.fds n = some o → o = .other
  busy : s.busy = none
  held : s.held = []
  wrongCloses : s.wrongCloses = 0
  opened : s.opened = []
  closed : s.closed = []
  finished : s.finished = []

/-- Every close found a descriptor of the closing party, no file was closed twice and none is left
open when nothing is in progress, and the finished requests were answered and their buffers freed
once. -/
structure Proper (s : State) : Prop where
  closes : s.wrongCloses = 0
  once : ∀ id, s.closed.count id ≤ 1
  all : s.busy = none → s.held = [] → ∀ id ∈ s.opened, s.closed.count id = 1
  answered : ∀ h ∈ s.finished, h.replies = 1 ∧ h.frees = 1

/-- A request that ends was answered, and the file of a request that closes its descriptor did not
go to libevent. -/
def sound (workers : Workers) (s : State) : Label → Bool
  | .next =>
      match s.busy with
      | none => true
      | some h =>
          match h.todo with
          | [] => answered workers h.request h.env
          | .close :: _ => !handsOver workers h.request h.env
          | _ => true
  | _ => true

/-! ## The invariant -/

/-- How often a request is to be answered. -/
def Handling.answers (workers : Workers) (h : Handling) : Nat :=
  if answered workers h.request h.env then 1 else 0

/-- The rest of a request fits to its stage and its counts. -/
structure InProgress (workers : Workers) (st : Stage) (s : State) (h : Handling) : Prop where
  accepts : st.accepts (handsOver workers h.request h.env) h.todo = true
  replies : h.replies + h.todo.countP Action.isReply = h.answers workers
  frees : h.frees + h.todo.countP Action.isFree = h.answers workers
  number : h.id < s.next
  fresh : st = .unopened → h.id ∉ s.opened
  own : st = .opened → LowestFree.owner s.fds h.fd = some (.request h.id)

/-- The file that the request in progress has open. -/
def State.own (s : State) (st : Stage) : List Nat :=
  match s.busy with
  | some h => if st = .opened then [h.id] else []
  | none => []

/-- The invariant of the runs without a wrong close; `st` is the stage of the request in
progress. -/
structure Kept (workers : Workers) (st : Stage) (s : State) : Prop where
  closes : s.wrongCloses = 0
  answered : ∀ h ∈ s.finished, h.replies = 1 ∧ h.frees = 1
  nodup : s.opened.Nodup
  old : ∀ id ∈ s.opened, id < s.next
  held : s.held.Nodup
  libevent : ∀ id n, LowestFree.owner s.fds n = some (.libevent id) ↔ (id, n) ∈ s.held
  requests : ∀ id n, LowestFree.owner s.fds n = some (.request id) →
    st = .opened ∧ ∃ h, s.busy = some h ∧ h.id = id ∧ h.fd = n
  busy : ∀ h, s.busy = some h → InProgress workers st s h
  /-- An opened file is closed, with libevent, or with the request. -/
  ledger : ∀ id, s.opened.count id =
    s.closed.count id + (s.held.map Prod.fst).count id + (s.own st).count id

section Steps

variable {workers : Workers} {st : Stage} {s t : State}

theorem kept_proper (hs : Kept workers st s) : Proper s := by
  have hle : ∀ id, s.closed.count id ≤ 1 := by
    intro id
    have hone := List.nodup_iff_count_le_one.mp hs.nodup id
    have hledger := hs.ledger id
    omega
  refine ⟨hs.closes, hle, ?_, hs.answered⟩
  intro hbusy hheld id hid
  have hone := List.nodup_iff_count_eq_one.mp hs.nodup id hid
  have hledger := hs.ledger id
  rw [State.own, hbusy, hheld] at hledger
  simpa [hone] using hledger.symm

theorem kept_init (hs : s.IsInit) : Kept workers .unopened s where
  closes := hs.wrongCloses
  answered := by simp [hs.finished]
  nodup := by simp [hs.opened]
  old := by simp [hs.opened]
  held := by simp [hs.held]
  libevent id n := by
    constructor
    · intro h
      cases hs.fds n _ h
    · simp [hs.held]
  requests id n h := by cases hs.fds n _ h
  busy h hh := by
    rw [hs.busy] at hh
    cases hh
  ledger id := by simp [hs.opened, hs.closed, hs.held, State.own, hs.busy]

/-- A new request starts before its `open`. -/
theorem kept_request (hs : Kept workers st s) (hbusy : s.busy = none) (r : evhttp_request)
    (env : Externals) :
    Kept workers .unopened { s with
      busy := some ⟨s.next, r, env, (ProcessRequest workers r env).1, 0, 0, 0⟩
      next := s.next + 1 } := by
  have hhandles : Handles (handsOver workers r env) (if answered workers r env then 1 else 0)
      (ProcessRequest workers r env).1 := handles_ProcessRequest
  constructor
  case closes => exact hs.closes
  case answered => exact hs.answered
  case nodup => exact hs.nodup
  case old => exact fun id hid => Nat.lt_succ_of_lt (hs.old id hid)
  case held => exact hs.held
  case libevent => exact hs.libevent
  case requests =>
    intro id n h
    obtain ⟨-, h', hh', -⟩ := hs.requests id n h
    rw [hbusy] at hh'
    cases hh'
  case busy =>
    intro h hh
    cases hh
    refine ⟨hhandles.accepts, ?_, ?_, Nat.lt_succ_self _, ?_, nofun⟩
    · rw [Nat.zero_add]
      exact hhandles.replies
    · rw [Nat.zero_add]
      exact hhandles.frees
    · exact fun _ hmem => Nat.lt_irrefl _ (hs.old _ hmem)
  case ledger =>
    intro id
    have hledger := hs.ledger id
    simp only [State.own, hbusy] at hledger
    simpa [State.own] using hledger

/-- The request ends. -/
theorem kept_finish (hs : Kept workers st s) {h : Handling} (hbusy : s.busy = some h)
    (htodo : h.todo = []) (hanswered : Http.answered workers h.request h.env = true) :
    Kept workers .unopened { s with busy := none, finished := s.finished ++ [h] } := by
  have hprogress := hs.busy h hbusy
  have hst : st ≠ .opened := by
    have haccepts := hprogress.accepts
    rw [htodo] at haccepts
    rintro rfl
    cases haccepts
  constructor
  case closes => exact hs.closes
  case answered =>
    intro h' hh'
    rcases List.mem_append.mp hh' with hold | hnew
    · exact hs.answered h' hold
    · rw [List.mem_singleton] at hnew
      subst hnew
      have hreplies := hprogress.replies
      have hfrees := hprogress.frees
      rw [htodo, Handling.answers, hanswered] at hreplies hfrees
      exact ⟨hreplies, hfrees⟩
  case nodup => exact hs.nodup
  case old => exact hs.old
  case held => exact hs.held
  case libevent => exact hs.libevent
  case requests => exact fun id n howner => absurd (hs.requests id n howner).1 hst
  case busy => exact fun _ hh => nomatch hh
  case ledger =>
    intro id
    have hledger := hs.ledger id
    simp only [State.own, hbusy, if_neg hst] at hledger
    simpa [State.own] using hledger

/-- libevent closes a file of its own. -/
theorem kept_release (hs : Kept workers st s) {id n : Nat} (hmem : (id, n) ∈ s.held) :
    Kept workers st ({ s with held := s.held.erase (id, n) }.close (.libevent id) n) := by
  have howner : LowestFree.owner s.fds n = some (.libevent id) := (hs.libevent id n).mpr hmem
  constructor
  case closes =>
    simp only [State.close, howner, if_true]
    exact hs.closes
  case answered => exact hs.answered
  case nodup => exact hs.nodup
  case old => exact hs.old
  case held => exact hs.held.erase _
  case libevent =>
    intro id' m
    simp only [State.close, LowestFree.owner_free, hs.held.mem_erase_iff]
    split
    · rename_i heq
      subst heq
      constructor
      · exact nofun
      · rintro ⟨hne, hmem'⟩
        have howner' := (hs.libevent id' m).mpr hmem'
        rw [howner] at howner'
        cases howner'
        exact absurd rfl hne
    · rename_i hne
      rw [hs.libevent id' m]
      exact ⟨fun h => ⟨fun heq => hne (Prod.mk.inj heq).2, h⟩, And.right⟩
  case requests =>
    intro id' m h
    simp only [State.close, LowestFree.owner_free] at h
    split at h
    · cases h
    · exact hs.requests id' m h
  case busy =>
    intro h hh
    obtain ⟨haccepts, hreplies, hfrees, hnumber, hfresh, hown⟩ := hs.busy h hh
    refine ⟨haccepts, hreplies, hfrees, hnumber, hfresh, fun hst => ?_⟩
    have hown := hown hst
    simp only [State.close, LowestFree.owner_free]
    rw [if_neg]
    · exact hown
    · rintro heq
      rw [heq, howner] at hown
      cases hown
  case ledger =>
    intro id'
    have hledger := hs.ledger id'
    have hperm := (List.perm_cons_erase hmem).map Prod.fst
    have hcount := hperm.count_eq id'
    simp only [State.close, howner, State.own, List.map_cons, List.count_cons, Option.map_some,
      Option.getD_some, Owner.file, List.count_append, List.count_nil] at hledger hcount ⊢
    omega

/-- The descriptors of other parts of the process do not matter. -/
theorem kept_others (hs : Kept workers st s) {fds : LowestFree.Table Owner}
    (howner : ∀ n o, o ≠ Owner.other →
      (LowestFree.owner fds n = some o ↔ LowestFree.owner s.fds n = some o)) :
    Kept workers st { s with fds := fds } := by
  refine ⟨hs.closes, hs.answered, hs.nodup, hs.old, hs.held, ?_, ?_, ?_, hs.ledger⟩
  · exact fun id n => (howner n (.libevent id) nofun).trans (hs.libevent id n)
  · exact fun id n h => hs.requests id n ((howner n (.request id) nofun).mp h)
  · intro h hh
    obtain ⟨haccepts, hreplies, hfrees, hnumber, hfresh, hown⟩ := hs.busy h hh
    exact ⟨haccepts, hreplies, hfrees, hnumber, hfresh,
      fun hst => (howner h.fd (.request h.id) nofun).mpr (hown hst)⟩

theorem kept_openOther (hs : Kept workers st s) :
    Kept workers st { s with fds := (LowestFree.take .other s.fds).1 } := by
  apply kept_others hs
  intro n o ho
  rw [LowestFree.owner_take]
  split
  · rename_i heq
    rw [heq, (LowestFree.owner_taken Owner.other s.fds).1]
    exact ⟨fun h => absurd (Option.some.inj h).symm ho, nofun⟩
  · exact Iff.rfl

theorem kept_closeOther (hs : Kept workers st s) {m : Nat}
    (hother : LowestFree.owner s.fds m = some .other) :
    Kept workers st { s with fds := LowestFree.free s.fds m } := by
  apply kept_others hs
  intro n o ho
  rw [LowestFree.owner_free]
  split
  · rename_i heq
    rw [heq, hother]
    exact ⟨nofun, fun h => absurd (Option.some.inj h).symm ho⟩
  · exact Iff.rfl

/-! ### The calls of a request -/

theorem accepts_cons {sends : Bool} {a : Action} {rest : List Action}
    (h : st.accepts sends (a :: rest) = true) :
    ∃ st', st.after sends a = some st' ∧ st'.accepts sends rest = true := by
  rw [Stage.accepts] at h
  cases hafter : st.after sends a with
  | none =>
    rw [hafter] at h
    cases h
  | some st' =>
    rw [hafter] at h
    exact ⟨st', rfl, h⟩

/-- A call that leaves the descriptors alone. -/
theorem kept_call (hs : Kept workers st s) {h h' : Handling} (hbusy : s.busy = some h)
    (hid : h'.id = h.id) (hfd : h'.fd = h.fd)
    (haccepts : st.accepts (handsOver workers h'.request h'.env) h'.todo = true)
    (hreplies : h'.replies + h'.todo.countP Action.isReply = h'.answers workers)
    (hfrees : h'.frees + h'.todo.countP Action.isFree = h'.answers workers) :
    Kept workers st { s with busy := some h' } := by
  have hprogress := hs.busy h hbusy
  refine ⟨hs.closes, hs.answered, hs.nodup, hs.old, hs.held, hs.libevent, ?_, ?_, ?_⟩
  · intro id n howner
    obtain ⟨hst, d, hd, hdid, hdfd⟩ := hs.requests id n howner
    rw [hbusy] at hd
    cases hd
    exact ⟨hst, h', rfl, hid.trans hdid, hfd.trans hdfd⟩
  · intro d hd
    cases hd
    refine ⟨haccepts, hreplies, hfrees, ?_, ?_, ?_⟩
    · rw [hid]
      exact hprogress.number
    · rw [hid]
      exact hprogress.fresh
    · rw [hid, hfd]
      exact hprogress.own
  · intro id
    have hledger := hs.ledger id
    simp only [State.own, hbusy, hid] at hledger ⊢
    exact hledger

/-- The request in progress has at most one descriptor. -/
theorem owner_ne_request (hs : Kept workers st s) {h : Handling} (hbusy : s.busy = some h)
    {id n : Nat} (hne : n ≠ h.fd) : LowestFree.owner s.fds n ≠ some (.request id) := by
  intro howner
  obtain ⟨-, d, hd, -, hdfd⟩ := hs.requests id n howner
  rw [hbusy] at hd
  cases hd
  exact hne hdfd.symm

/-- A call that gives the descriptor away. -/
theorem inProgress_after {st' : Stage} {t : State} {h : Handling} {a : Action}
    {rest : List Action} (hprogress : InProgress workers st s h) (htodo : h.todo = a :: rest)
    (hreply : a.isReply = false) (hfree : a.isFree = false) (hnext : t.next = s.next)
    (haccepts : st'.accepts (handsOver workers h.request h.env) rest = true)
    (hst : st' = .handed ∨ st' = .closed) : InProgress workers st' t { h with todo := rest } := by
  have hreplies := hprogress.replies
  have hfrees := hprogress.frees
  rw [htodo, List.countP_cons_of_neg (by simp [hreply])] at hreplies
  rw [htodo, List.countP_cons_of_neg (by simp [hfree])] at hfrees
  refine ⟨haccepts, hreplies, hfrees, ?_, ?_, ?_⟩
  · rw [hnext]
    exact hprogress.number
  · rintro rfl
    rcases hst with hst | hst <;> cases hst
  · rintro rfl
    rcases hst with hst | hst <;> cases hst

/-- `open` gives the request the lowest free descriptor. -/
theorem kept_open (hs : Kept workers .unopened s) {h : Handling} {path : Text}
    {rest : List Action} (hbusy : s.busy = some h) (htodo : h.todo = .open path true :: rest)
    (haccepts : Stage.opened.accepts (handsOver workers h.request h.env) rest = true) :
    Kept workers .opened (s.perform { h with todo := rest } (.open path true)) := by
  have hprogress := hs.busy h hbusy
  have hfree := (LowestFree.owner_taken (Owner.request h.id) s.fds).1
  have hfresh := hprogress.fresh rfl
  -- before the `open` no request has a descriptor
  have hnone : ∀ id n, LowestFree.owner s.fds n ≠ some (.request id) :=
    fun id n howner => nomatch (hs.requests id n howner).1
  constructor
  case closes => exact hs.closes
  case answered => exact hs.answered
  case nodup =>
    refine List.nodup_append.mpr ⟨hs.nodup, List.nodup_singleton _, ?_⟩
    intro x hx y hy heq
    rw [List.mem_singleton] at hy
    exact hfresh (hy ▸ heq ▸ hx)
  case old =>
    intro id hid
    rcases List.mem_append.mp hid with hold | hnew
    · exact hs.old id hold
    · rw [List.mem_singleton.mp hnew]
      exact hprogress.number
  case held => exact hs.held
  case libevent =>
    intro id n
    simp only [State.perform, LowestFree.owner_take]
    split
    · rename_i heq
      rw [← hs.libevent id n, heq, hfree]
      exact ⟨nofun, nofun⟩
    · exact hs.libevent id n
  case requests =>
    intro id n howner
    simp only [State.perform, LowestFree.owner_take] at howner
    split at howner
    · rename_i heq
      cases howner
      exact ⟨rfl, _, rfl, rfl, heq.symm⟩
    · exact absurd howner (hnone id n)
  case busy =>
    intro d hd
    cases hd
    have hreplies := hprogress.replies
    have hfrees := hprogress.frees
    rw [htodo] at hreplies hfrees
    refine ⟨haccepts, hreplies, hfrees, hprogress.number, nofun, fun _ => ?_⟩
    simp only [State.perform, LowestFree.owner_take, if_true]
  case ledger =>
    intro id
    have hledger := hs.ledger id
    simp only [State.own, hbusy, State.perform, List.count_append, if_true, reduceCtorEq, if_false,
      List.count_nil] at hledger ⊢
    omega

/-- `evbuffer_add_file` takes the descriptor. -/
theorem kept_add_file (hs : Kept workers .opened s) {h : Handling} {size : Nat}
    {rest : List Action} (hbusy : s.busy = some h)
    (htodo : h.todo = .evbuffer_add_file size true :: rest)
    (haccepts : Stage.handed.accepts (handsOver workers h.request h.env) rest = true) :
    Kept workers .handed (s.perform { h with todo := rest } (.evbuffer_add_file size true)) := by
  have hprogress := hs.busy h hbusy
  have hown := hprogress.own rfl
  have hput : ∀ n, LowestFree.owner (LowestFree.put s.fds h.fd (.libevent h.id)) n =
      if n = h.fd then some (.libevent h.id) else LowestFree.owner s.fds n :=
    LowestFree.owner_put (by rw [hown]; exact nofun) _
  -- what is the request's own is not held by libevent
  have hnot : ∀ id, (id, h.fd) ∉ s.held := by
    intro id hmem
    have howner := (hs.libevent id h.fd).mpr hmem
    rw [hown] at howner
    cases howner
  constructor
  case closes => exact hs.closes
  case answered => exact hs.answered
  case nodup => exact hs.nodup
  case old => exact hs.old
  case held =>
    refine List.nodup_append.mpr ⟨hs.held, List.nodup_singleton _, ?_⟩
    intro x hx y hy heq
    rw [List.mem_singleton] at hy
    exact hnot h.id (hy ▸ heq ▸ hx)
  case libevent =>
    intro id n
    simp only [State.perform, hput, List.mem_append, List.mem_singleton, Prod.mk.injEq]
    split
    · rename_i heq
      subst heq
      constructor
      · intro howner
        cases howner
        exact Or.inr ⟨rfl, rfl⟩
      · rintro (hmem | ⟨rfl, -⟩)
        · exact absurd hmem (hnot id)
        · rfl
    · rename_i hne
      rw [hs.libevent id n]
      exact ⟨Or.inl, fun h => h.resolve_right fun heq => hne heq.2⟩
  case requests =>
    intro id n howner
    simp only [State.perform, hput] at howner
    split at howner
    · cases howner
    · rename_i hne
      exact absurd howner (owner_ne_request hs hbusy hne)
  case busy =>
    intro d hd
    cases hd
    exact inProgress_after hprogress htodo rfl rfl rfl haccepts (Or.inl rfl)
  case ledger =>
    intro id
    have hledger := hs.ledger id
    simp only [State.own, hbusy, State.perform, List.map_append, List.count_append, List.map_cons,
      List.map_nil, if_true, reduceCtorEq, if_false, List.count_nil] at hledger ⊢
    omega

/-- `ProcessRequest` closes a descriptor that is still its own. -/
theorem kept_close (hs : Kept workers .opened s) {h : Handling} {rest : List Action}
    (hbusy : s.busy = some h) (htodo : h.todo = .close :: rest)
    (haccepts : Stage.closed.accepts (handsOver workers h.request h.env) rest = true) :
    Kept workers .closed (s.perform { h with todo := rest } .close) := by
  have hprogress := hs.busy h hbusy
  have hown := hprogress.own rfl
  constructor
  case closes =>
    simp only [State.perform, State.close, hown, if_true]
    exact hs.closes
  case answered => exact hs.answered
  case nodup => exact hs.nodup
  case old => exact hs.old
  case held => exact hs.held
  case libevent =>
    intro id n
    simp only [State.perform, State.close, LowestFree.owner_free]
    split
    · rename_i heq
      subst heq
      rw [← hs.libevent id h.fd, hown]
      exact ⟨nofun, nofun⟩
    · exact hs.libevent id n
  case requests =>
    intro id n howner
    simp only [State.perform, State.close, LowestFree.owner_free] at howner
    split at howner
    · cases howner
    · rename_i hne
      exact absurd howner (owner_ne_request hs hbusy hne)
  case busy =>
    intro d hd
    cases hd
    exact inProgress_after hprogress htodo rfl rfl rfl haccepts (Or.inr rfl)
  case ledger =>
    intro id
    have hledger := hs.ledger id
    simp only [State.own, hbusy, State.perform, State.close, hown, Option.map_some,
      Option.getD_some, Owner.file, List.count_append, if_true, reduceCtorEq, if_false,
      List.count_nil] at hledger ⊢
    omega

/-- One call of the request, other than a close of a descriptor that libevent has taken. -/
theorem kept_perform (hs : Kept workers st s) {h : Handling} {a : Action} {rest : List Action}
    (hbusy : s.busy = some h) (htodo : h.todo = a :: rest)
    (hok : a = .close → handsOver workers h.request h.env = false) :
    ∃ st', Kept workers st' (s.perform { h with todo := rest } a) := by
  have hprogress := hs.busy h hbusy
  have haccepts := hprogress.accepts
  have hreplies := hprogress.replies
  have hfrees := hprogress.frees
  rw [htodo] at haccepts hreplies hfrees
  obtain ⟨st', hafter, hrest⟩ := accepts_cons haccepts
  cases a with
  | «open» path ok =>
    cases st with
    | unopened =>
      cases hafter
      cases ok with
      | false => exact ⟨_, kept_call hs hbusy rfl rfl hrest hreplies hfrees⟩
      | true => exact ⟨_, kept_open hs hbusy htodo hrest⟩
    | _ => cases hafter
  | fstat ok =>
    cases st with
    | opened =>
      cases hafter
      exact ⟨_, kept_call hs hbusy rfl rfl hrest hreplies hfrees⟩
    | _ => cases hafter
  | evbuffer_add_file size ok =>
    cases st with
    | opened =>
      cases ok with
      | false =>
        cases hafter
        exact ⟨_, kept_call hs hbusy rfl rfl hrest hreplies hfrees⟩
      | true =>
        simp only [Stage.after, if_true] at hafter
        split at hafter
        · cases hafter
          exact ⟨_, kept_add_file hs hbusy htodo hrest⟩
        · cases hafter
    | _ => cases hafter
  | close =>
    rw [hok rfl] at hafter
    cases st with
    | opened =>
      cases hafter
      exact ⟨_, kept_close hs hbusy htodo hrest⟩
    | _ => cases hafter
  | evhttp_send_reply code reason =>
    have hst : st' = st := by cases st <;> cases hafter <;> rfl
    subst hst
    rw [List.countP_cons_of_pos rfl] at hreplies
    have hsum : h.replies + 1 + rest.countP Action.isReply = h.answers workers := by omega
    exact ⟨_, kept_call hs hbusy rfl rfl hrest hsum hfrees⟩
  | evbuffer_free =>
    have hst : st' = st := by cases st <;> cases hafter <;> rfl
    subst hst
    rw [List.countP_cons_of_pos rfl] at hfrees
    have hsum : h.frees + 1 + rest.countP Action.isFree = h.answers workers := by omega
    exact ⟨_, kept_call hs hbusy rfl rfl hrest hreplies hsum⟩
  | _ =>
    have hst : st' = st := by cases st <;> cases hafter <;> rfl
    subst hst
    exact ⟨_, kept_call hs hbusy rfl rfl hrest hreplies hfrees⟩

/-- What a step can do. -/
theorem step_cases {l : Label} (h : step workers s l = some t) :
    (∃ r env, l = .request r env ∧ s.busy = none ∧ t = { s with
        busy := some ⟨s.next, r, env, (ProcessRequest workers r env).1, 0, 0, 0⟩
        next := s.next + 1 }) ∨
      (∃ d, l = .next ∧ s.busy = some d ∧ d.todo = [] ∧
        t = { s with busy := none, finished := s.finished ++ [d] }) ∨
      (∃ d a rest, l = .next ∧ s.busy = some d ∧ d.todo = a :: rest ∧
        t = s.perform { d with todo := rest } a) ∨
      (∃ id n, l = .release id n ∧ (id, n) ∈ s.held ∧
        t = { s with held := s.held.erase (id, n) }.close (.libevent id) n) ∨
      (l = .openOther ∧ t = { s with fds := (LowestFree.take .other s.fds).1 }) ∨
      (∃ n, l = .closeOther n ∧ LowestFree.owner s.fds n = some .other ∧
        t = { s with fds := LowestFree.free s.fds n }) := by
  cases l with
  | request r env =>
    simp only [step] at h
    split at h
    · cases h
    · rename_i hbusy
      cases h
      exact Or.inl ⟨r, env, rfl, hbusy, rfl⟩
  | next =>
    simp only [step] at h
    split at h
    · cases h
    · rename_i d hbusy
      split at h
      · rename_i htodo
        cases h
        exact Or.inr (Or.inl ⟨d, rfl, hbusy, htodo, rfl⟩)
      · rename_i a rest htodo
        cases h
        exact Or.inr (Or.inr (Or.inl ⟨d, a, rest, rfl, hbusy, htodo, rfl⟩))
  | release id n =>
    simp only [step] at h
    split at h
    · rename_i hmem
      cases h
      exact Or.inr (Or.inr (Or.inr (Or.inl ⟨id, n, rfl, hmem, rfl⟩)))
    · cases h
  | openOther =>
    cases h
    exact Or.inr (Or.inr (Or.inr (Or.inr (Or.inl ⟨rfl, rfl⟩))))
  | closeOther n =>
    simp only [step] at h
    split at h
    · rename_i hother
      cases h
      exact Or.inr (Or.inr (Or.inr (Or.inr (Or.inr ⟨n, rfl, hother, rfl⟩))))
    · cases h

theorem kept_step {l : Label} (hs : ∃ st, Kept workers st s) (hok : sound workers s l = true)
    (h : step workers s l = some t) : ∃ st, Kept workers st t := by
  obtain ⟨st, hs⟩ := hs
  rcases step_cases h with ⟨r, env, rfl, hbusy, rfl⟩ | ⟨d, rfl, hbusy, htodo, rfl⟩ |
    ⟨d, a, rest, rfl, hbusy, htodo, rfl⟩ | ⟨id, n, rfl, hmem, rfl⟩ | ⟨rfl, rfl⟩ |
    ⟨n, rfl, hother, rfl⟩
  · exact ⟨_, kept_request hs hbusy r env⟩
  · simp only [sound, hbusy, htodo] at hok
    exact ⟨_, kept_finish hs hbusy htodo hok⟩
  · apply kept_perform hs hbusy htodo
    rintro rfl
    simpa only [sound, hbusy, htodo, Bool.not_eq_true'] using hok
  · exact ⟨_, kept_release hs hmem⟩
  · exact ⟨_, kept_openOther hs⟩
  · exact ⟨_, kept_closeOther hs hother⟩

/-- A close of the descriptor that libevent has taken is wrong, and so is an end without an
answer. -/
theorem not_proper_step {l : Label} (hs : ∃ st, Kept workers st s)
    (hok : ¬ sound workers s l = true) (h : step workers s l = some t) : ¬ Proper t := by
  obtain ⟨st, hs⟩ := hs
  intro ht
  rcases step_cases h with ⟨r, env, rfl, hbusy, rfl⟩ | ⟨d, rfl, hbusy, htodo, rfl⟩ |
    ⟨d, a, rest, rfl, hbusy, htodo, rfl⟩ | ⟨id, n, rfl, hmem, rfl⟩ | ⟨rfl, rfl⟩ |
    ⟨n, rfl, hother, rfl⟩
  · exact hok rfl
  · simp only [sound, hbusy, htodo] at hok
    have hreplies := (hs.busy d hbusy).replies
    rw [htodo, Handling.answers, if_neg hok] at hreplies
    have hone := (ht.answered d (List.mem_append_right _ (List.mem_singleton_self d))).1
    rw [hone] at hreplies
    cases hreplies
  · cases a with
    | close =>
      have hsends : handsOver workers d.request d.env = true := by
        simpa only [sound, hbusy, htodo, Bool.not_eq_true', Bool.not_eq_false] using hok
      have haccepts := (hs.busy d hbusy).accepts
      rw [htodo, hsends] at haccepts
      -- a request that hands its descriptor over closes it only after that
      have howner : LowestFree.owner s.fds d.fd ≠ some (.request d.id) := by
        intro howner
        have hst := (hs.requests d.id d.fd howner).1
        subst hst
        cases haccepts
      have hcloses := ht.closes
      simp only [State.perform, State.close, if_neg howner] at hcloses
      cases hcloses
    | _ => simp only [sound, hbusy, htodo, not_true_eq_false] at hok
  · exact hok rfl
  · exact hok rfl
  · exact hok rfl

end Steps

/-- In a run from the start every close, reply and free is in order, in every state, if and only if
no request ends unanswered and none closes the descriptor of a file that libevent has taken. -/
theorem proper_iff (workers : Workers) {s t : State} {ls : List Label} (hs : s.IsInit)
    (h : Run (step workers) Always s ls t) :
    Throughout (step workers) Proper s ls ↔
      Run (step workers) (fun s l => sound workers s l = true) s ls t := by
  have hkept : ∃ st, Kept workers st s := ⟨_, kept_init hs⟩
  refine Run.throughout_iff (I := fun s => ∃ st, Kept workers st s) ?_ ?_ ?_ h hkept
  · rintro s ⟨st, hst⟩
    exact kept_proper hst
  · exact fun s l t hs hok hst => kept_step hs hok hst
  · exact fun s l t hs hok hst => not_proper_step hs hok hst

/-! ## A song that is sent -/

def songFile : Daemon.IniFile where
  value _ _ := some "music".toList

/-- A database with one name, and a file of five bytes. -/
def songExternals (fstat : Option Nat) : Externals where
  evbuffer_new := true
  now := none
  execQuery := true
  content _ := .rows ["a.mp3".toList]
  m_ifp := ⟨some songFile⟩
  fs_exists _ := some true
  opened := true
  fstat := fstat
  evbuffer_add_file := true

def songRequest : evhttp_request where
  clientIP := none
  clientPort := 0
  command := .EVHTTP_REQ_GET
  uri := "/get_by_uid?uid=1".toList

def sqliteWorkers : Http.Workers where
  m_tdbworker_logs := .SQLITE
  m_tdbworker_content := .SQLITE

/-- The standard streams are open. -/
def startState : State where
  fds := [some .other, some .other, some .other]
  busy := none
  held := []
  wrongCloses := 0
  opened := []
  closed := []
  finished := []
  next := 0

theorem startState_isInit : startState.IsInit := by
  refine ⟨?_, rfl, rfl, rfl, rfl, rfl, rfl⟩
  intro n o h
  match n, h with
  | 0, h | 1, h | 2, h => exact (Option.some.inj h).symm
  | n + 3, h => cases h

/-- `fstat` fails, and `ProcessRequest` closes its own descriptor. -/
theorem proper_iff_fstatFails :
    Throughout (step sqliteWorkers) Proper startState
      (.request songRequest (songExternals none) :: List.replicate 10 .next) := by
  have hexec : (exec (step sqliteWorkers) (fun s l => sound sqliteWorkers s l = true) startState
      (.request songRequest (songExternals none) :: List.replicate 10 .next)).isSome = true := by
    decide
  obtain ⟨s, hs⟩ := Option.isSome_iff_exists.mp hexec
  have hrun := run_of_exec hs
  exact (proper_iff sqliteWorkers startState_isInit hrun.always).mpr hrun

/-- The file is sent, and `ProcessRequest` closes the descriptor of libevent. -/
theorem not_proper_songSent :
    ¬ ∀ (workers : Http.Workers) (s t : State) (ls : List Label), s.IsInit →
      Run (step workers) Always s ls t → Throughout (step workers) Proper s ls := by
  intro h
  have hexec : (exec (step sqliteWorkers) Always startState
      (.request songRequest (songExternals (some 5)) :: List.replicate 11 .next)).any
        (fun s => s.wrongCloses == 1) = true := by
    decide
  obtain ⟨t, ht, hwrong⟩ := (Option.any_eq_true _ _).mp hexec
  have hrun := run_of_exec ht
  have hproper : Proper t :=
    h sqliteWorkers startState t _ startState_isInit hrun _ t (List.prefix_refl _) hrun
  rw [hproper.closes] at hwrong
  cases hwrong

end PetProject.Http.Descriptors
