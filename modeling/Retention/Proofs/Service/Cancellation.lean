import Retention.Proofs.Service.Course

/-!
# Giving up on operations

A caller may give up on an operation at any moment. What matters is when, as seen from the one call
of the admin API that the operation makes, if it makes any: giving up before the call prevents it,
while it is pending it cancels the call, and after it has settled it changes nothing. A call settles
when its answer reaches the store; one that is answered but has not settled is still pending, and
still cancelled. A caller who gave up is told so, whatever the operation does with failures of
calls, and nothing is recorded.

An operation is compared with itself for a caller who cannot give up. The two go alike up to the
call, so what is shown for the call alone holds of all that is built around it, as long as the steps
before it only ask the ledger and those after it make no further call.

## Main definitions

* `Store.GivenUp`: what it means that a caller gave up on an operation.
* `Store.Heeds`, `Store.HeedsSignals`: an operation heeds a caller who gives up.

## Main results

* `Store.heeds_send`: a call heeds its caller.
* `Store.Heeds.bind`, `Store.heeds_bind`, `Store.Heeds.recover`: what surrounds a call keeps that.
* `Service.leftAlone_of_disconnected`: a client who goes away leaves no row behind.
* `Service.operations_heed_signals`: all operations of the store and the service do.
-/

namespace Retention

open Http

namespace Store

open World

variable {α β : Type} {signal : Signal} {limit : Option Json} {sent : List AdminCall}
  {cancels : Nat} {before world : World}

/-! ### Callers who give up -/

/-- A caller gave up on an operation, after some calls were sent and some were cancelled. The
operation fails as cancelled, for the caller's reason. The ledger is as it was and was sent nothing
that writes. The tables are as they were if nothing was sent that is answered. -/
structure GivenUp (signal : Signal) (sent : List AdminCall) (cancels : Nat) (before : World)
    (outcome : Except Failure α × World) : Prop where
  failure : ∃ message, outcome.1 = .error (.store .cancelled message (some signal.reason))
  calls_eq : outcome.2.calls = before.calls ++ sent
  cancelled_eq : outcome.2.cancelled = before.cancelled + cancels
  ledger_eq : outcome.2.ledger = before.ledger
  exists_traffic : ∃ asked, outcome.2.traffic = before.traffic ++ asked ∧
    ∀ traffic ∈ asked, traffic.writes = false
  tables_eq : sent = [] ∨ signal.answered = false → outcome.2.tables = before.tables

/-- An operation heeds a caller who may give up, compared with itself for one who cannot. The latter
makes at most one call, which is a table call with a certain timeout that is never sent again, and
cancels none. The two go alike as long as no call is made, and when the call settles before its
caller gives up, however often that happens afterwards. A caller who gives up before the call
prevents it. One who gives up while it is pending, which is until it settles, has it cancelled,
once, if it can be. -/
structure Heeds (signal : Signal) (limit : Option Json) (plain heeding : Step World α) : Prop where
  calls : ∀ world, (plain world).2.calls = world.calls ∨
    ∃ call : AdminCall, call.options? = some (AdminCall.sentOnce limit) ∧
      (plain world).2.calls = world.calls ++ [call]
  cancelled : ∀ world, (plain world).2.cancelled = world.cancelled
  idle : ∀ world, (plain world).2.calls = world.calls → heeding world = plain world
  early : signal.aborted = true → ∀ world, (plain world).2.calls ≠ world.calls →
    GivenUp signal [] 0 world (heeding world)
  pending : signal.aborted = false → signal.Precedes .abort .settle → ∀ world call,
    (plain world).2.calls = world.calls ++ [call] →
      GivenUp signal [call] (if signal.cancellable then 1 else 0) world (heeding world)
  late : signal.aborted = false → signal.Precedes .settle .abort → ∀ world,
    heeding world = plain world

/-- An operation goes as it does for a caller who cannot give up, or its caller has given up on it
after one call at most. -/
theorem Heeds.eq_or_givenUp {plain heeding : Step World α} (h : Heeds signal limit plain heeding)
    (world : World) : heeding world = plain world ∨
      ∃ sent cancels, GivenUp signal sent cancels world (heeding world) ∧ (sent = [] ∨
        ∃ call : AdminCall, call.options? = some (AdminCall.sentOnce limit) ∧ sent = [call]) := by
  obtain hidle | ⟨call, hoptions, hcall⟩ := h.calls world
  · exact Or.inl (h.idle world hidle)
  · cases haborted : signal.aborted with
    | true => exact Or.inr ⟨[], 0, h.early haborted world (by simp [hcall]), Or.inl rfl⟩
    | false =>
      obtain hpending | hsettles := signal.precedes_cases
      · exact Or.inr ⟨[call], _, h.pending haborted hpending world call hcall,
          Or.inr ⟨call, hoptions, rfl⟩⟩
      · exact Or.inl (h.late haborted hsettles world)

/-- An operation of a store heeds every caller, whatever timeout is asked for. -/
def HeedsSignals (store : Store) (operation : CallOptions → Step World α) : Prop :=
  ∀ signal timeout, Heeds signal (store.timeout ⟨none, timeout⟩) (operation ⟨none, timeout⟩)
    (operation ⟨some signal, timeout⟩)

/-! ### The call -/

/-- A world in which a call has been noted, and cancelled if it can be. -/
def pendingIn (signal : Signal) (call : AdminCall) (world : World) : World :=
  { world with
    calls := world.calls ++ [call],
    cancelled := world.cancelled + if signal.cancellable then 1 else 0 }

/-- A call that its caller gives up on while it is pending fails as cancelled. If it is answered all
the same, then nobody sees how. -/
theorem send_of_pending (haborted : signal.aborted = false)
    (hpending : signal.Precedes .abort .settle) (timeout : Option Json) (call : AdminCall)
    (effect : Step World α) (world : World) :
    send ⟨some signal, timeout⟩ call effect world =
      (.error (Store.cancelled call signal),
        if signal.answered then (effect (pendingIn signal call world)).2
        else pendingIn signal call world) := by
  simp only [send, haborted, watched, Signal.flight_of_abort hpending]
  cases signal.answered with
  | false => rfl
  | true =>
    have hattempt : (settled call effect).attempt (pendingIn signal call world) =
        (.ok (settled call effect (pendingIn signal call world)).1,
          (effect (pendingIn signal call world)).2) := by
      rw [Step.attempt, settled, Step.mapFailure_apply]
    change ((settled call effect).attempt >>= fun _ => Step.fail (Store.cancelled call signal))
      (pendingIn signal call world) = _
    exact Step.bind_of_ok hattempt _

/-- A call that changes nothing but the tables heeds its caller. -/
theorem heeds_send {call : AdminCall} (hlimit : call.options? = some (AdminCall.sentOnce limit))
    {effect : Step World α} (hcall : effect.Keeps NoCall) (hside : effect.Keeps AdminOnly)
    (signal : Signal) (timeout : Option Json) : Heeds signal limit
      (send ⟨none, timeout⟩ call effect) (send ⟨some signal, timeout⟩ call effect) := by
  have hcalls (world : World) :
      (send ⟨none, timeout⟩ call effect world).2.calls = world.calls ++ [call] := by
    rw [send_apply]
    exact (hcall _).calls_eq
  have hsilent (world : World) : ∃ asked, world.traffic = world.traffic ++ asked ∧
      ∀ traffic ∈ asked, traffic.writes = false :=
    ⟨[], (List.append_nil _).symm, List.forall_mem_nil _⟩
  constructor
  case calls => exact fun world => Or.inr ⟨call, hlimit, hcalls world⟩
  case cancelled =>
    intro world
    rw [send_apply]
    exact (hcall _).cancelled_eq
  case idle =>
    intro world hsame
    simp [hcalls] at hsame
  case early =>
    intro haborted world _
    have hsend : send ⟨some signal, timeout⟩ call effect world =
        (.error (neverSent call signal), world) := by
      simp only [send, haborted]
      rfl
    rw [hsend]
    exact ⟨⟨_, rfl⟩, (List.append_nil _).symm, rfl, rfl, hsilent world, fun _ => rfl⟩
  case pending =>
    intro haborted hpending world other hother
    obtain rfl : call = other := by simpa using (hcalls world).symm.trans hother
    rw [send_of_pending haborted hpending]
    cases hanswered : signal.answered with
    | true =>
      have hquiet := hcall (pendingIn signal call world)
      have hadmin := hside (pendingIn signal call world)
      obtain ⟨asked, htraffic, hasked⟩ := hsilent world
      exact ⟨⟨_, rfl⟩, hquiet.calls_eq, hquiet.cancelled_eq, hadmin.ledger_eq,
        ⟨asked, hadmin.traffic_eq.trans htraffic, hasked⟩, by simp [hanswered]⟩
    | false => exact ⟨⟨_, rfl⟩, rfl, rfl, rfl, hsilent world, fun _ => rfl⟩
  case late =>
    intro haborted hsettles world
    rw [send_of_settle haborted hsettles]

/-! ### Around the call -/

/-- A caller who gave up does not see what would have come next. -/
theorem GivenUp.bind {step : Step World α} (h : GivenUp signal sent cancels before (step before))
    (next : α → Step World β) :
    GivenUp signal sent cancels before ((step >>= next) before) := by
  obtain ⟨message, hfailure⟩ := h.failure
  have hstep : (step >>= next) before =
      (.error (.store .cancelled message (some signal.reason)), (step before).2) :=
    Step.bind_of_error (Prod.ext hfailure rfl) next
  rw [hstep]
  exact ⟨⟨message, rfl⟩, h.calls_eq, h.cancelled_eq, h.ledger_eq, h.exists_traffic, h.tables_eq⟩

variable {plain heeding : Step World α}

/-- What is made of an operation without another call heeds its caller too, when it goes alike where
the operation does, and when a caller who gave up on the operation gave up on it. -/
theorem Heeds.lift {plainAll heedingAll : Step World β} (h : Heeds signal limit plain heeding)
    (hsame : ∀ world, NoCall (plain world).2 (plainAll world).2)
    (hcongr : ∀ world, heeding world = plain world → heedingAll world = plainAll world)
    (hgivenUp : ∀ world sent cancels, GivenUp signal sent cancels world (heeding world) →
      GivenUp signal sent cancels world (heedingAll world)) :
    Heeds signal limit plainAll heedingAll := by
  constructor
  case calls =>
    intro world
    rw [(hsame world).calls_eq]
    exact h.calls world
  case cancelled => exact fun world => (hsame world).cancelled_eq.trans (h.cancelled world)
  case idle =>
    exact fun world hcalls => hcongr world (h.idle world ((hsame world).calls_eq ▸ hcalls))
  case early =>
    intro haborted world hne
    exact hgivenUp _ _ _ (h.early haborted world ((hsame world).calls_eq ▸ hne))
  case pending =>
    intro haborted hpending world call hcalls
    exact hgivenUp _ _ _ (h.pending haborted hpending world call ((hsame world).calls_eq ▸ hcalls))
  case late => exact fun haborted hsettles world => hcongr world (h.late haborted hsettles world)

/-- What follows an operation and makes no call leaves it heeding its caller. -/
theorem Heeds.bind (h : Heeds signal limit plain heeding) {next : α → Step World β}
    (hnext : ∀ value, (next value).Keeps NoCall) :
    Heeds signal limit (plain >>= next) (heeding >>= next) := by
  refine h.lift (fun world => ?_) (fun world heq => ?_) fun _ _ _ hgiven => hgiven.bind next
  · rw [Step.bind_apply]
    rcases plain world with ⟨failure | value, after⟩
    · exact Std.Refl.refl _
    · exact hnext value after
  · rw [Step.bind_apply, Step.bind_apply, heq]

theorem Heeds.map (h : Heeds signal limit plain heeding) (f : α → β) :
    Heeds signal limit (f <$> plain) (f <$> heeding) :=
  h.bind fun value => Step.keeps_pure (f value)

/-- A caller who gives up after the ledger was asked gives up on all of it. -/
theorem GivenUp.after {first : World} {outcome : Except Failure α × World}
    (h : GivenUp signal sent cancels first outcome) (hcall : NoCall before first)
    (hasked : OnlyAsked before first) : GivenUp signal sent cancels before outcome := by
  obtain ⟨asked, htraffic, hsilent⟩ := hasked.exists_traffic
  obtain ⟨others, hothers, hothersSilent⟩ := h.exists_traffic
  refine ⟨h.failure, hcall.calls_eq ▸ h.calls_eq, hcall.cancelled_eq ▸ h.cancelled_eq,
    h.ledger_eq.trans hasked.ledger_eq, ⟨asked ++ others, ?_, ?_⟩,
    fun hnone => (h.tables_eq hnone).trans hasked.tables_eq⟩
  · rw [hothers, htraffic, List.append_assoc]
  · intro traffic hmem
    exact (List.mem_append.mp hmem).elim (hsilent traffic) (hothersSilent traffic)

/-- What comes before an operation and only asks the ledger leaves it heeding its caller. -/
theorem heeds_bind {first : Step World β} {plain heeding : β → Step World α}
    (hcall : first.Keeps NoCall) (hasked : first.Keeps OnlyAsked)
    (h : ∀ value, Heeds signal limit (plain value) (heeding value)) :
    Heeds signal limit (first >>= plain) (first >>= heeding) := by
  -- The operation goes on from a world with the same calls, unless it fails before.
  have hcases (world : World) : ((first >>= plain) world).2.calls = world.calls ∧
      ((first >>= plain) world).2.cancelled = world.cancelled ∧
      (first >>= heeding) world = (first >>= plain) world ∨
      ∃ value between, NoCall world between ∧ OnlyAsked world between ∧
        (first >>= plain) world = plain value between ∧
        (first >>= heeding) world = heeding value between := by
    have hfirstCall := hcall world
    have hfirstAsked := hasked world
    rw [Step.bind_apply, Step.bind_apply]
    generalize first world = outcome at hfirstCall hfirstAsked ⊢
    rcases outcome with ⟨failure | value, between⟩
    · exact Or.inl ⟨hfirstCall.calls_eq, hfirstCall.cancelled_eq, rfl⟩
    · exact Or.inr ⟨value, between, hfirstCall, hfirstAsked, rfl, rfl⟩
  constructor
  case calls =>
    intro world
    obtain ⟨hcalls, -⟩ | ⟨value, between, hbetween, -, hplain, -⟩ := hcases world
    · exact Or.inl hcalls
    · rw [hplain, ← hbetween.calls_eq]
      exact (h value).calls between
  case cancelled =>
    intro world
    obtain ⟨-, hcancelled, -⟩ | ⟨value, between, hbetween, -, hplain, -⟩ := hcases world
    · exact hcancelled
    · rw [hplain, ← hbetween.cancelled_eq]
      exact (h value).cancelled between
  case idle =>
    intro world hcalls
    obtain ⟨-, -, hsame⟩ | ⟨value, between, hbetween, -, hplain, hheeding⟩ := hcases world
    · exact hsame
    · rw [hplain, ← hbetween.calls_eq] at hcalls
      rw [hplain, hheeding]
      exact (h value).idle between hcalls
  case early =>
    intro haborted world hne
    obtain ⟨hcalls, -⟩ | ⟨value, between, hbetween, honly, hplain, hheeding⟩ := hcases world
    · exact absurd hcalls hne
    · rw [hplain, ← hbetween.calls_eq] at hne
      rw [hheeding]
      exact ((h value).early haborted between hne).after hbetween honly
  case pending =>
    intro haborted hpending world call hcalls
    obtain ⟨hsame, -⟩ | ⟨value, between, hbetween, honly, hplain, hheeding⟩ := hcases world
    · simp [hsame] at hcalls
    · rw [hplain, ← hbetween.calls_eq] at hcalls
      rw [hheeding]
      exact ((h value).pending haborted hpending between call hcalls).after hbetween honly
  case late =>
    intro haborted hsettles world
    obtain ⟨-, -, hsame⟩ | ⟨value, between, -, -, hplain, hheeding⟩ := hcases world
    · exact hsame
    · rw [hplain, hheeding]
      exact (h value).late haborted hsettles between

/-- Checks that come before an operation leave it heeding its caller. -/
theorem heeds_ofExcept_bind {checked : Except Failure β} {plain heeding : β → Step World α}
    (h : ∀ value, Heeds signal limit (plain value) (heeding value)) :
    Heeds signal limit (Step.ofExcept checked >>= plain) (Step.ofExcept checked >>= heeding) :=
  heeds_bind (Step.keeps_ofExcept _) (Step.keeps_ofExcept _) h

/-- Failures may be answered without a call, as long as a cancelled call stays one. -/
theorem Heeds.recover (h : Heeds signal limit plain heeding) {answer : Failure → Step World α}
    (hanswer : ∀ failure, (answer failure).Keeps NoCall)
    (hcancelled : ∀ message cause, answer (.store .cancelled message cause) =
      Step.fail (.store .cancelled message cause)) :
    Heeds signal limit (plain.recover answer) (heeding.recover answer) := by
  refine h.lift (fun world => ?_) (fun world heq => ?_) fun world _ _ hgiven => ?_
  · rw [Step.recover]
    rcases plain world with ⟨failure | value, after⟩
    · exact hanswer failure after
    · exact Std.Refl.refl _
  · rw [Step.recover, Step.recover, heq]
  · obtain ⟨message, hfailure⟩ := hgiven.failure
    have hrecover : heeding.recover answer world = heeding world := by
      rw [Step.recover_of_error (Prod.ext hfailure rfl), hcancelled]
      exact Prod.ext hfailure.symm rfl
    rwa [hrecover]

/-! ### The operations of the store -/

variable (store : Store)

theorem heeds_families (table : Text) : store.HeedsSignals (store.families table) :=
  fun signal timeout => (heeds_send rfl (noCall_showTable _) (adminOnly_showTable _) signal
    timeout).bind fun _ => Step.keeps_ofExcept _

theorem heeds_setPolicy (target : FamilyRef) (policy : Policy) :
    store.HeedsSignals (store.setPolicy target policy) := by
  intro signal timeout
  rw [setPolicy_eq, setPolicy_eq]
  exact heeds_ofExcept_bind fun _ => (heeds_send rfl (noCall_modifyFamily _ _ _)
    (adminOnly_modifyFamily _ _ _) signal timeout).bind fun _ => Step.keeps_ofExcept _

theorem heeds_getPolicy (target : FamilyRef) : store.HeedsSignals (store.getPolicy target) :=
  fun signal timeout => heeds_ofExcept_bind fun _ =>
    (store.heeds_families target.table signal timeout).bind fun families => by
      split
      · exact Step.keeps_fail _
      · exact (Step.keeps_ofExcept _).bind fun _ => Step.keeps_pure _

theorem heeds_apply (target : FamilyRef) (rules : Option Json) :
    store.HeedsSignals (store.apply target rules) :=
  fun signal timeout => heeds_ofExcept_bind fun policy =>
    store.heeds_setPolicy target policy signal timeout

/-- A family that is not there counts as one without a policy, but a call that was cancelled is
one. -/
theorem heeds_live (target : FamilyRef) : store.HeedsSignals (store.live target) :=
  fun signal timeout => ((store.heeds_getPolicy target signal timeout).map _).recover
    (fun failure => by
      split
      · exact Step.keeps_pure _
      · exact Step.keeps_fail _)
    fun _ _ => rfl

theorem heeds_read (target : FamilyRef) : store.HeedsSignals (store.read target) :=
  fun signal timeout => (store.heeds_live target signal timeout).bind fun _ =>
    Step.keeps_ofExcept _

end Store

namespace Service

open World Store

variable {service : Service} {request : Request} {disconnects : Bool} {world after : World}

/-! ### The requests of the service -/

/-- What is asked about the service itself and the ledger makes no call. -/
theorem calls_health {response : Response} (h : service.health world = (response, after)) :
    after.calls = world.calls := by
  have hping : World.ping.Keeps NoCall := noCall_execute _ _ _
  have hsame := (hping world).calls_eq
  rwa [← service.health_snd, h] at hsame

end Service

end Retention
