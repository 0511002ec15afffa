import Mathlib.Data.List.Basic

/-!
# Delimited frames and incremental scanning

A frame is a start symbol, a body without the end symbol, and the end symbol. A scanner looks at
what has arrived so far and either waits, rejects the stream, or takes one frame off its front.
Its verdicts are stable: symbols that arrive later change neither a rejection nor a frame. A
consumer driven by such a scanner therefore cannot tell how the stream was cut.
-/

namespace Foundation

section TakeThrough

variable {α : Type*} [DecidableEq α]

/-- The shortest prefix that contains the symbol, and what follows it. -/
def takeThrough (stop : α) : List α → Option (List α × List α)
  | [] => none
  | a :: rest =>
    if a = stop then some ([a], rest)
    else (takeThrough stop rest).map fun (front, back) => (a :: front, back)

/-- A body without the symbol, followed by the symbol, is exactly the prefix taken. -/
theorem takeThrough_append_cons (stop : α) (body back : List α) (hbody : stop ∉ body) :
    takeThrough stop (body ++ stop :: back) = some (body ++ [stop], back) := by
  induction body with
  | nil => simp [takeThrough]
  | cons a body ih =>
    have ha : a ≠ stop := fun h => hbody (by simp [h])
    have hrest : stop ∉ body := fun h => hbody (by simp [h])
    simp [takeThrough, ha, ih hrest]

/-- What is taken ends at the first occurrence of the symbol, and nothing is lost. -/
theorem takeThrough_eq_some_iff (stop : α) (values front back : List α) :
    takeThrough stop values = some (front, back) ↔
      ∃ body, stop ∉ body ∧ front = body ++ [stop] ∧ values = body ++ stop :: back := by
  constructor
  · intro h
    induction values generalizing front with
    | nil => simp [takeThrough] at h
    | cons a rest ih =>
      by_cases ha : a = stop
      · simp only [takeThrough, ha, if_true, Option.some.injEq, Prod.mk.injEq] at h
        obtain ⟨rfl, rfl⟩ := h
        exact ⟨[], by simp, by simp, by simp [ha]⟩
      · simp only [takeThrough, if_neg ha] at h
        obtain ⟨⟨front', back'⟩, htail, heq⟩ := Option.map_eq_some_iff.mp h
        simp only [Prod.mk.injEq] at heq
        obtain ⟨rfl, rfl⟩ := heq
        obtain ⟨body, hbody, hfront, hvalues⟩ := ih front' htail
        exact ⟨a :: body, by simp [hbody, Ne.symm ha], by simp [hfront], by simp [hvalues]⟩
  · rintro ⟨body, hbody, rfl, rfl⟩
    exact takeThrough_append_cons stop body back hbody

/-- Later symbols only lengthen what follows the prefix. -/
theorem takeThrough_append (stop : α) (values later front back : List α)
    (h : takeThrough stop values = some (front, back)) :
    takeThrough stop (values ++ later) = some (front, back ++ later) := by
  obtain ⟨body, hbody, hfront, hvalues⟩ := (takeThrough_eq_some_iff ..).mp h
  exact (takeThrough_eq_some_iff ..).mpr ⟨body, hbody, hfront, by simp [hvalues]⟩

end TakeThrough

/-- What a scanner says about the symbols that have arrived. -/
inductive Scan (α : Type*)
  | wait
  | bad
  | frame (msg rest : List α)

/-- A scanner whose verdicts later symbols cannot change, and whose frames are not empty. -/
structure Scanner (α : Type*) where
  scan : List α → Scan α
  bad_append : ∀ values later, scan values = .bad → scan (values ++ later) = .bad
  frame_append : ∀ values later msg rest, scan values = .frame msg rest →
    scan (values ++ later) = .frame msg (rest ++ later)
  frame_shorter : ∀ values msg rest, scan values = .frame msg rest → rest.length < values.length

/-- How a consumer ended: waiting with unread symbols, or stopped by a bad stream. -/
structure Drive (σ α : Type*) where
  state : σ
  unread : List α
  stopped : Bool

/-- Take frames until the scanner waits or the stream turns bad; a message may be bad as well. -/
def drive {σ α : Type*} (scanner : Scanner α) (handle : σ → List α → σ × Bool) (s : σ)
    (values : List α) : Drive σ α :=
  match _ : scanner.scan values with
  | .wait => ⟨s, values, false⟩
  | .bad => ⟨s, values, true⟩
  | .frame msg rest =>
    if (handle s msg).2 then drive scanner handle (handle s msg).1 rest
    else ⟨(handle s msg).1, rest, true⟩
termination_by values.length
decreasing_by exact scanner.frame_shorter values msg rest ‹_›

section Drive

variable {σ τ α : Type*} (scanner : Scanner α) (handle : σ → List α → σ × Bool)

/-- A waiting scanner leaves everything unread. -/
theorem drive_wait {s : σ} {values : List α} (h : scanner.scan values = .wait) :
    drive scanner handle s values = ⟨s, values, false⟩ := by
  rw [drive]
  split <;> simp_all

/-- A rejected stream stops the consumer where it is. -/
theorem drive_bad {s : σ} {values : List α} (h : scanner.scan values = .bad) :
    drive scanner handle s values = ⟨s, values, true⟩ := by
  rw [drive]
  split <;> simp_all

/-- One frame is handled, and the consumer goes on unless the message was bad. -/
theorem drive_frame {s : σ} {values msg rest : List α} (h : scanner.scan values = .frame msg rest) :
    drive scanner handle s values =
      if (handle s msg).2 then drive scanner handle (handle s msg).1 rest
      else ⟨(handle s msg).1, rest, true⟩ := by
  rw [drive]
  split <;> simp_all

/-- A prefix that stops the consumer decides the outcome of the whole stream. -/
theorem drive_append_of_stopped (s : σ) (values later : List α)
    (h : (drive scanner handle s values).stopped = true) :
    (drive scanner handle s (values ++ later)).stopped = true ∧
      (drive scanner handle s (values ++ later)).state = (drive scanner handle s values).state := by
  fun_induction drive scanner handle s values with
  | case1 s values hscan => simp at h
  | case2 s values hscan =>
    rw [drive_bad scanner handle (scanner.bad_append values later hscan)]
    exact ⟨rfl, rfl⟩
  | case3 s values msg rest hscan hok ih =>
    rw [drive_frame scanner handle (scanner.frame_append values later msg rest hscan), if_pos hok]
    exact ih h
  | case4 s values msg rest hscan hok =>
    rw [drive_frame scanner handle (scanner.frame_append values later msg rest hscan), if_neg hok]
    exact ⟨rfl, rfl⟩

/-- A prefix that does not stop the consumer leaves it where the rest of the stream takes over. -/
theorem drive_append_of_running (s : σ) (values later : List α)
    (h : (drive scanner handle s values).stopped = false) :
    drive scanner handle s (values ++ later) =
      drive scanner handle (drive scanner handle s values).state
        ((drive scanner handle s values).unread ++ later) := by
  fun_induction drive scanner handle s values with
  | case1 s values hscan => rfl
  | case2 s values hscan => simp at h
  | case3 s values msg rest hscan hok ih =>
    rw [drive_frame scanner handle (scanner.frame_append values later msg rest hscan), if_pos hok]
    exact ih h
  | case4 s values msg rest hscan hok => simp at h

/-- What every message keeps holds in the end. -/
theorem drive_invariant (P : σ → Prop)
    (hframe : ∀ s values msg rest, P s → scanner.scan values = .frame msg rest → P (handle s msg).1)
    (s : σ) (values : List α) (hs : P s) : P (drive scanner handle s values).state := by
  fun_induction drive scanner handle s values with
  | case1 s values hscan => exact hs
  | case2 s values hscan => exact hs
  | case3 s values msg rest hscan hok ih => exact ih (hframe s values msg rest hs hscan)
  | case4 s values msg rest hscan hok => exact hframe s values msg rest hs hscan

/-- Consumers whose states are related by what every message preserves end alike. -/
theorem drive_related (handle' : τ → List α → τ × Bool) (R : σ → τ → Prop)
    (hR : ∀ s t msg, R s t → R (handle s msg).1 (handle' t msg).1 ∧ (handle s msg).2 = (handle' t msg).2)
    (s : σ) (t : τ) (values : List α) (h : R s t) :
    R (drive scanner handle s values).state (drive scanner handle' t values).state ∧
      (drive scanner handle s values).unread = (drive scanner handle' t values).unread ∧
      (drive scanner handle s values).stopped = (drive scanner handle' t values).stopped := by
  fun_induction drive scanner handle s values generalizing t with
  | case1 s values hscan =>
    rw [drive_wait scanner handle' hscan]
    exact ⟨h, rfl, rfl⟩
  | case2 s values hscan =>
    rw [drive_bad scanner handle' hscan]
    exact ⟨h, rfl, rfl⟩
  | case3 s values msg rest hscan hok ih =>
    obtain ⟨hnext, hsame⟩ := hR s t msg h
    rw [drive_frame scanner handle' hscan, if_pos (hsame ▸ hok)]
    exact ih _ hnext
  | case4 s values msg rest hscan hok =>
    obtain ⟨hnext, hsame⟩ := hR s t msg h
    rw [drive_frame scanner handle' hscan, if_neg (hsame ▸ hok)]
    exact ⟨hnext, rfl, rfl⟩

/-- The frames that a scanner takes off, one after the other, and what it then waits behind. -/
inductive Splits : List α → List (List α) → List α → Prop
  | wait (values : List α) : scanner.scan values = .wait → Splits values [] values
  | frame (values msg rest : List α) (msgs : List (List α)) (unread : List α) :
      scanner.scan values = .frame msg rest → Splits rest msgs unread → Splits values (msg :: msgs) unread

/-- A consumer of good messages handles all of them. -/
theorem Splits.drive_eq {values unread : List α} {msgs : List (List α)} (h : Splits scanner values msgs unread)
    (hgood : ∀ s, ∀ msg ∈ msgs, (handle s msg).2 = true) (s : σ) :
    drive scanner handle s values = ⟨msgs.foldl (fun s msg => (handle s msg).1) s, unread, false⟩ := by
  induction h generalizing s with
  | wait values hscan => exact drive_wait scanner handle hscan
  | frame values msg rest msgs unread hscan _ ih =>
    rw [drive_frame scanner handle hscan, if_pos (hgood s msg List.mem_cons_self), List.foldl_cons]
    exact ih (fun s m hm => hgood s m (List.mem_cons_of_mem _ hm)) _

/-- A consumer that goes on has only seen good messages. -/
theorem splits_of_running {good : List α → Prop} (hgood : ∀ s msg, (handle s msg).2 = true → good msg) (s : σ)
    (values : List α) (h : (drive scanner handle s values).stopped = false) :
    ∃ msgs, Splits scanner values msgs (drive scanner handle s values).unread ∧ ∀ msg ∈ msgs, good msg := by
  fun_induction drive scanner handle s values with
  | case1 s values hscan => exact ⟨[], .wait values hscan, by simp⟩
  | case2 s values hscan => simp at h
  | case3 s values msg rest hscan hok ih =>
    obtain ⟨msgs, hsplits, hmsgs⟩ := ih h
    refine ⟨msg :: msgs, .frame values msg rest msgs _ hscan hsplits, ?_⟩
    simp only [List.forall_mem_cons]
    exact ⟨hgood s msg hok, hmsgs⟩
  | case4 s values msg rest hscan hok => simp at h

end Drive

end Foundation
