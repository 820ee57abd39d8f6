import Retention.Failure

/-!
# Giving up on a call

A caller may give up on a call. While the call is pending that cancels it; giving up before
the call prevents it, and giving up after it has settled changes nothing.

A call settles when its answer reaches the store, and only then does the store stop listening to
the caller. That is a moment after the admin API has answered: an answer waits for its turn. A
caller who gives up in between still has the call cancelled, and nobody sees the answer.
-/

namespace Retention

/-- What can happen to a call that has been sent: its caller gives up, the admin API answers or
rejects it, or it settles, which is when the store learns of the answer. -/
inductive CallEvent where
  | abort
  | answer
  | settle
deriving DecidableEq

/-- A caller that may give up: whether it had done so before the call, what happens once
the call has been sent, whether a pending call can be cancelled, and why the caller gives
up. -/
structure Signal where
  aborted : Bool
  first : CallEvent
  later : List CallEvent
  cancellable : Bool
  reason : Failure

/-- A call that has been sent: whether it still listens, how often it was cancelled, and
which event decided it. -/
structure Flight where
  listening : Bool
  cancels : Nat
  decided : Option CallEvent
deriving DecidableEq

namespace Flight

/-- A call that has just been sent. -/
def start : Flight := ⟨true, 0, none⟩

/-- Something happens to a call: only while it listens does it matter. An answer alone does
not end that. -/
def step (cancellable : Bool) (flight : Flight) (event : CallEvent) : Flight :=
  if flight.listening then
    match event with
    | .abort => ⟨false, flight.cancels + (if cancellable then 1 else 0), some .abort⟩
    | .answer => flight
    | .settle => ⟨false, flight.cancels, some .settle⟩
  else flight

variable {cancellable : Bool} {event : CallEvent}

/-- A call that no longer listens stays as it is. -/
theorem foldl_step_of_not_listening {flight : Flight} (h : flight.listening = false)
    (events : List CallEvent) : events.foldl (step cancellable) flight = flight := by
  induction events with
  | nil => rfl
  | cons event rest ih => simpa [step, h] using ih

/-- Anything but an answer ends the listening. -/
theorem listening_step_start (h : event ≠ .answer) :
    (step cancellable start event).listening = false := by
  cases event with
  | answer => exact absurd rfl h
  | abort | settle => rfl

/-- The first event that is not an answer decides. -/
theorem foldl_step_append (hevent : event ≠ .answer) {earlier : List CallEvent}
    (hearlier : ∀ other ∈ earlier, other = .answer ∨ other = event) (later : List CallEvent) :
    (earlier ++ event :: later).foldl (step cancellable) start = step cancellable start event := by
  induction earlier with
  | nil => exact foldl_step_of_not_listening (listening_step_start hevent) later
  | cons other rest ih =>
    obtain ⟨hother, hrest⟩ := List.forall_mem_cons.mp hearlier
    rcases hother with rfl | rfl
    · exact ih hrest
    · exact foldl_step_of_not_listening (listening_step_start hevent) _

end Flight

namespace Signal

/-- Whether the admin API answers the call at all. -/
def answered (signal : Signal) : Bool :=
  (signal.first :: signal.later).any fun event => event ≠ .abort

/-- All that happens once the call has been sent. What has been answered settles in the end. -/
def events (signal : Signal) : List CallEvent :=
  signal.first :: (signal.later ++ if signal.answered then [.settle] else [])

/-- What becomes of a call. -/
def flight (signal : Signal) : Flight :=
  signal.events.foldl (Flight.step signal.cancellable) Flight.start

/-- Something happens to a call before something else has. -/
def Precedes (signal : Signal) (event other : CallEvent) : Prop :=
  ∃ earlier later, signal.events = earlier ++ event :: later ∧ other ∉ earlier

variable {signal : Signal} {event : CallEvent}

theorem precedes_of_first (h : signal.first = event) (other : CallEvent) :
    signal.Precedes event other :=
  ⟨[], _, by rw [events, h, List.nil_append], List.not_mem_nil⟩

/-- Of two events that end the listening, the one that precedes the other decides. -/
theorem flight_of_precedes {other : CallEvent} (hevent : event ≠ .answer)
    (hends : ∀ earlier, earlier ≠ other → earlier = .answer ∨ earlier = event)
    (h : signal.Precedes event other) :
    signal.flight = Flight.step signal.cancellable Flight.start event := by
  obtain ⟨earlier, later, hevents, hnot⟩ := h
  rw [flight, hevents]
  exact Flight.foldl_step_append hevent
    (fun before hmem => hends before fun heq => hnot (heq ▸ hmem)) later

/-- A call whose caller gives up while it is pending, answered or not, is cancelled once if it can
be. -/
theorem flight_of_abort (h : signal.Precedes .abort .settle) :
    signal.flight = ⟨false, if signal.cancellable then 1 else 0, some .abort⟩ := by
  rw [flight_of_precedes (by decide) (by rintro (_ | _ | _) hne <;> simp at hne ⊢) h]
  cases signal.cancellable <;> rfl

/-- A call that settles before its caller gives up is never cancelled. -/
theorem flight_of_settle (h : signal.Precedes .settle .abort) :
    signal.flight = ⟨false, 0, some .settle⟩ := by
  rw [flight_of_precedes (by decide) (by rintro (_ | _ | _) hne <;> simp at hne ⊢) h]
  rfl

/-- A caller gives up while the call is pending, or the call settles before that. -/
theorem precedes_cases (signal : Signal) :
    signal.Precedes .abort .settle ∨ signal.Precedes .settle .abort := by
  cases hanswered : signal.answered with
  | false =>
    have hfirst : signal.first = .abort := by
      simp only [answered, List.any_cons, Bool.or_eq_false_iff, decide_eq_false_iff_not,
        Decidable.not_not] at hanswered
      exact hanswered.1
    exact Or.inl (precedes_of_first hfirst _)
  | true =>
    have hsettles : CallEvent.settle ∈ signal.events := by simp [events, hanswered]
    obtain ⟨earlier, later, hevents, hnot⟩ := List.eq_append_cons_of_mem hsettles
    by_cases habort : CallEvent.abort ∈ earlier
    · obtain ⟨before, between, rfl⟩ := List.append_of_mem habort
      exact Or.inl ⟨before, between ++ .settle :: later, by simp [hevents],
        fun hmem => hnot (List.mem_append_left _ hmem)⟩
    · exact Or.inr ⟨earlier, later, hevents, habort⟩

/-- A caller who gives up once the call is answered, but before it has settled. -/
example (reason : Failure) :
    (Signal.mk false .answer [.abort] true reason).flight = ⟨false, 1, some .abort⟩ :=
  flight_of_abort ⟨[.answer], [.settle], rfl, by decide⟩

end Signal

end Retention
