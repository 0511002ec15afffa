import Mathlib.Data.Nat.Notation
import Mathlib.Logic.Relation

/-!
# Guarded transition systems

A system has one initial state for each setting and a step function that refuses an action which
is not enabled. A property of every reachable state is proved once: it holds initially and every
enabled action preserves it. A system refines an abstract relation when each of its steps is a
finite sequence of abstract steps; invariants of the abstract relation then carry over. A monitor
remembers more of a run than the states say, and leaves the run as it is.
-/

namespace Foundation

variable {σ α : Type*}

/-- An initial condition and an executable step; `none` means that the action is not enabled. -/
structure System (σ α : Type*) where
  init : σ → Prop
  step : σ → α → Option σ

namespace System

variable (sys : System σ α)

/-- The states that runs of enabled actions can reach. -/
inductive Reachable : σ → Prop
  | init {s : σ} : sys.init s → Reachable s
  | step {s s' : σ} {a : α} : Reachable s → sys.step s a = some s' → Reachable s'

/-- Run a list of actions, refusing the whole list if one of them is not enabled. -/
def run (s : σ) : List α → Option σ
  | [] => some s
  | a :: rest => (sys.step s a).bind fun s' => run s' rest

/-- What holds initially and is preserved by every enabled action holds of every reachable
state. The step may use that the state it starts from is reachable. -/
theorem Reachable.invariant {P : σ → Prop} (hinit : ∀ s, sys.init s → P s)
    (hstep : ∀ s a s', sys.Reachable s → P s → sys.step s a = some s' → P s')
    {s : σ} (h : sys.Reachable s) : P s := by
  induction h with
  | init h => exact hinit _ h
  | step hs hstep' ih => exact hstep _ _ _ hs ih hstep'

/-- A run from a reachable state ends in a reachable state. -/
theorem Reachable.run {s s' : σ} (hs : sys.Reachable s) (actions : List α)
    (h : sys.run s actions = some s') : sys.Reachable s' := by
  induction actions generalizing s with
  | nil =>
    simp only [System.run, Option.some.injEq] at h
    exact h ▸ hs
  | cons a rest ih =>
    obtain ⟨mid, hmid, hrest⟩ := Option.bind_eq_some_iff.mp h
    exact ih (hs.step hmid) hrest

/-- A run that can be executed from an initial state ends in a reachable state. -/
theorem reachable_get {s : σ} (hs : sys.init s) (actions : List α)
    (h : (sys.run s actions).isSome = true) : sys.Reachable ((sys.run s actions).get h) :=
  (Reachable.init hs).run sys actions (Option.some_get h).symm

/-- Two runs one after the other are one run. -/
theorem run_append (s : σ) (first second : List α) :
    sys.run s (first ++ second) = (sys.run s first).bind fun s' => sys.run s' second := by
  induction first generalizing s with
  | nil => rfl
  | cons a rest ih =>
    simp only [List.cons_append, System.run, Option.bind_assoc]
    congr 1
    funext s'
    exact ih s'

/-- What every action of a run preserves, the run preserves. -/
theorem run_invariant {P : σ → Prop} {ok : α → Prop}
    (hstep : ∀ s a s', ok a → P s → sys.step s a = some s' → P s') {s s' : σ} (hs : P s) (actions : List α)
    (hok : ∀ a ∈ actions, ok a) (h : sys.run s actions = some s') : P s' := by
  induction actions generalizing s with
  | nil => exact Option.some.inj h ▸ hs
  | cons a rest ih =>
    obtain ⟨mid, hmid, hrest⟩ := Option.bind_eq_some_iff.mp h
    exact ih (hstep s a mid (hok a List.mem_cons_self) hs hmid)
      (fun b hb => hok b (List.mem_cons_of_mem a hb)) hrest

/-- The runs of a system in which every action meets a condition on the state it starts from. -/
def restrict (ok : σ → α → Bool) : System σ α where
  init := sys.init
  step s a := if ok s a then sys.step s a else none

/-- A step of the restricted system meets the condition and is a step of the system. -/
theorem restrict_step {ok : σ → α → Bool} {s s' : σ} {a : α}
    (h : (sys.restrict ok).step s a = some s') : ok s a = true ∧ sys.step s a = some s' := by
  simp only [restrict] at h
  split at h
  · exact ⟨‹_›, h⟩
  · cases h

/-- What the restricted system reaches, the system reaches. -/
theorem Reachable.of_restrict {ok : σ → α → Bool} {s : σ} (h : (sys.restrict ok).Reachable s) :
    sys.Reachable s := by
  induction h with
  | init hinit => exact .init hinit
  | step _ hstep ih => exact ih.step (sys.restrict_step hstep).2

/-- The runs of one system that keep to an invariant are runs of another one that takes the same steps
from the states of the invariant. -/
theorem run_of_simulated {sys' : System σ α} {P : σ → Prop}
    (hstep : ∀ s a s', P s → sys.step s a = some s' → sys'.step s a = some s' ∧ P s')
    {s s' : σ} (hs : P s) (actions : List α) (h : sys.run s actions = some s') :
    sys'.run s actions = some s' ∧ P s' := by
  induction actions generalizing s with
  | nil =>
    obtain rfl := Option.some.inj h
    exact ⟨rfl, hs⟩
  | cons a rest ih =>
    obtain ⟨mid, hmid, hrest⟩ := Option.bind_eq_some_iff.mp h
    obtain ⟨hsame, hkept⟩ := hstep _ _ _ hs hmid
    obtain ⟨hrun, hend⟩ := ih hkept hrest
    exact ⟨Option.bind_eq_some_iff.mpr ⟨mid, hsame, hrun⟩, hend⟩

/-- Steps of one party that bring a rank down, among steps that never bring it up, come to an end: there are
no more of them than the rank says. -/
theorem countP_le_rank {P : σ → Prop} {ok own : α → Bool} (rank : σ → ℕ)
    (hstep : ∀ s a s', P s → ok a = true → sys.step s a = some s' →
      P s' ∧ rank s' + (if own a then 1 else 0) ≤ rank s)
    {s s' : σ} (hs : P s) (actions : List α) (hok : ∀ a ∈ actions, ok a = true)
    (h : sys.run s actions = some s') : P s' ∧ actions.countP own + rank s' ≤ rank s := by
  induction actions generalizing s with
  | nil =>
    obtain rfl := Option.some.inj h
    exact ⟨hs, by simp⟩
  | cons a rest ih =>
    obtain ⟨mid, hmid, hrest⟩ := Option.bind_eq_some_iff.mp h
    obtain ⟨hkept, hless⟩ := hstep s a mid hs (hok a List.mem_cons_self) hmid
    obtain ⟨hend, hcount⟩ := ih hkept (fun b hb => hok b (List.mem_cons_of_mem _ hb)) hrest
    refine ⟨hend, ?_⟩
    rw [List.countP_cons]
    omega

/-- The runs of a system with a monitor that looks on: it sees every step and prevents none. -/
def monitor {μ : Type*} (start : μ) (watch : σ → α → σ → μ → μ) : System (σ × μ) α where
  init s := sys.init s.1 ∧ s.2 = start
  step s a := (sys.step s.1 a).map fun s' => (s', watch s.1 a s' s.2)

section Monitor

variable {μ : Type*} {start : μ} {watch : σ → α → σ → μ → μ}

/-- A monitored step is a step of the system, seen by the monitor. -/
theorem monitor_step {s s' : σ × μ} {a : α} (h : (sys.monitor start watch).step s a = some s') :
    sys.step s.1 a = some s'.1 ∧ s'.2 = watch s.1 a s'.1 s.2 := by
  obtain ⟨next, hnext, rfl⟩ := Option.map_eq_some_iff.mp h
  exact ⟨hnext, rfl⟩

/-- What the monitored system reaches, the system reaches. -/
theorem Reachable.of_monitor {s : σ × μ} (h : (sys.monitor start watch).Reachable s) :
    sys.Reachable s.1 := by
  induction h with
  | init hinit => exact .init hinit.1
  | step _ hstep ih => exact ih.step (sys.monitor_step hstep).1

/-- What the system reaches, the monitored system reaches. -/
theorem Reachable.monitored (start : μ) (watch : σ → α → σ → μ → μ) {s : σ} (h : sys.Reachable s) :
    ∃ m, (sys.monitor start watch).Reachable (s, m) := by
  induction h with
  | init hinit => exact ⟨start, .init ⟨hinit, rfl⟩⟩
  | @step s s' a _ hstep ih =>
    obtain ⟨m, hm⟩ := ih
    exact ⟨watch s a s' m, hm.step (Option.map_eq_some_iff.mpr ⟨s', hstep, rfl⟩)⟩

end Monitor

end System

/-- What one abstract step preserves, a sequence of abstract steps preserves. -/
theorem invariant_of_steps {τ : Type*} {R : τ → τ → Prop} {P : τ → Prop}
    (hstep : ∀ t t', R t t' → P t → P t') {t t' : τ} (h : Relation.ReflTransGen R t t')
    (ht : P t) : P t' := by
  induction h with
  | refl => exact ht
  | tail _ hlast ih => exact hstep _ _ hlast ih

end Foundation
