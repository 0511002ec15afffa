import LibMonetra.System

/-!
# Uses of freed memory

The actions of the library find the memory that they use. Freed memory is used by the timeout timer of a
transaction that is gone, which nobody removed and which enters `LM_trans_event_handler` with it, also after
the connection has been freed; by `LM_conn_cleanup_ping`, when `conn->pingtxn` still points to a ping that is
gone; and by the drain of `trans_delay_rm`, when it comes to a transaction for the second time. A process
records each of them, and goes no further: what follows is undefined.
-/

namespace LibMonetra

open Foundation

/-- A use of a transaction that has been freed. -/
inductive Fault
  /-- Its timeout timer has fired: the handler is entered and the event callback is called with it. -/
  | timedOut (p : Ptr)
  /-- `LM_conn_cleanup_ping` has taken it for the ping of the connection, and deleted it. -/
  | cleaned (p : Ptr)
  /-- The drain has freed it again. -/
  | drained (p : Ptr)
  deriving DecidableEq, Repr

/-- What may happen next. -/
inductive Tick
  | library (a : Action)
  /-- The event loop fires the timeout timer of a transaction that is gone. -/
  | strayTimer (p : Ptr)

/-- The library, and the uses of freed memory. -/
structure Process where
  sys : Sys
  faults : List Fault

/-- A transaction is gone, and its timeout timer is armed. -/
def timerStray (c : Conn) (p : Ptr) : Bool :=
  (c.heap p).isNone && c.transTimers.any fun timer => timer.1 == p

/-- Whether `LM_conn_cleanup_ping` is entered while the connection refers to a ping that is gone. The ping that
a reply belongs to is there: the reply has been found through the id map. -/
def Action.cleansGone (c : Conn) : Action → Bool
  | .event (.connected _ _) => c.disablePing && c.pingtxn.any fun p => (c.heap p).isNone
  | .event .timer => decide (c.status = .connecting) && c.pingtxn.any fun p => (c.heap p).isNone
  | _ => false

variable (lib : Mstdlib)

/-- The transactions that are gone when the drain comes to them. -/
def drainFaults : List Ptr → Conn → List Fault
  | [], _ => []
  | p :: rest, c =>
    (if (c.heap p).isNone then [.drained p] else []) ++
      drainFaults rest (transDeleteUnlocked lib { c with transDelayRm := rest } p)

/-- The uses of freed memory in an action. -/
def Action.faults (c : Conn) (a : Action) : List Fault :=
  match a with
  | .drain => drainFaults lib c.transDelayRm c
  | _ => if a.cleansGone c then c.pingtxn.toList.map .cleaned else []

/-- One step of a process that has used no freed memory. -/
def processStep (w : Process) (tick : Tick) : Option Process :=
  if w.faults ≠ [] then none
  else
    match tick with
    | .library a => (sysStep lib w.sys a).map fun s => ⟨s, a.faults lib w.sys.conn⟩
    | .strayTimer p =>
      -- the event loop runs one handler at a time; it does not ask whether there is still a connection
      if w.sys.pc = .idle ∧ timerStray w.sys.conn p then some { w with faults := [.timedOut p] } else none

/-- The library and the event loop under it. -/
def process : System Process Tick where
  init w := (monetra lib).init w.sys ∧ w.faults = []
  step := processStep lib

section Step

variable {lib : Mstdlib} {w w' : Process}

/-- A step of a process is an action of the library, or a timer that was left behind. -/
theorem processStep_cases {tick : Tick} (h : (process lib).step w tick = some w') :
    w.faults = [] ∧ ((∃ a, tick = .library a ∧ sysStep lib w.sys a = some w'.sys ∧
        w'.faults = a.faults lib w.sys.conn) ∨
      ∃ p, tick = .strayTimer p ∧ timerStray w.sys.conn p = true ∧ w'.sys = w.sys) := by
  change processStep lib w tick = some w' at h
  unfold processStep at h
  split at h
  · cases h
  · rename_i hclean
    refine ⟨not_not.mp hclean, ?_⟩
    cases tick with
    | library a =>
      obtain ⟨s, hstep, rfl⟩ := Option.map_eq_some_iff.mp h
      exact Or.inl ⟨a, rfl, hstep, rfl⟩
    | strayTimer p =>
      dsimp only at h
      split at h
      · rename_i hstray
        obtain rfl := Option.some.inj h
        exact Or.inr ⟨p, rfl, hstray.2, rfl⟩
      · cases h

/-- What a process reaches is a state of the library. -/
theorem process_reachable (h : (process lib).Reachable w) : (monetra lib).Reachable w.sys := by
  induction h with
  | init hinit => exact .init hinit.1
  | @step w w' tick _ hstep ih =>
    obtain ⟨-, ⟨a, -, hnext, -⟩ | ⟨p, -, -, hsame⟩⟩ := processStep_cases hstep
    · exact ih.step hnext
    · exact hsame ▸ ih

end Step

end LibMonetra
