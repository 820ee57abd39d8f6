import Retention.Proofs.Failing
import Retention.Proofs.Families

/-!
# Quiet worlds

Where no fault waits, every statement and every transaction of statements passes. In a quiet world no
other answer was prepared for the admin API either. Whatever the service does leaves a world without
faults without them, and a quiet world quiet.

## Main definitions

* `Step.Passes`: a step that ends with a value.
* `World.Faultless`: a world where no fault waits.
* `World.Quiet`: one where no other answer was prepared either.
* `World.Elsewhere`: at most one family has changed, and a quiet world is quiet still.

## Main results

* `World.passes_execute`, `World.passes_transaction`: statements and transactions pass.
* `World.exists_ask`, `World.exists_change`: a statement is answered or has its effect.
* `World.AdminSame.elsewhere`, `World.elsewhere_modifyFamily`: what the calls do to other families.
-/

namespace Retention

variable {σ α : Type}

/-! ### Steps that end with a value -/

namespace Step

/-- From states with a property a step ends with a value and keeps the property. -/
abbrev Passes (inv : σ → Prop) (step : Step σ α) : Prop := FailsWith inv (fun _ => False) step

theorem Passes.exists_ok {inv : σ → Prop} {step : Step σ α} (h : Passes inv step) {s : σ}
    (hs : inv s) : ∃ value t, step s = (.ok value, t) ∧ inv t := by
  rcases hstep : step s with ⟨failure | value, t⟩
  · exact (h.of_eq hs hstep).elim
  · exact ⟨value, t, rfl, h.inv_of_eq hs hstep⟩

end Step

namespace World

/-! ### Nothing strikes -/

/-- No fault waits. -/
abbrev Faultless (world : World) : Prop := world.faults = []

/-- No fault waits, and no other answer was prepared for the admin API. -/
structure Quiet (world : World) : Prop where
  faults_eq : world.faults = []
  reply_eq : world.reply = none

variable {world before after : World} {target : FamilyRef}

theorem Faultless.mono (h : before.Faultless)
    (hfaults : (after.faults.map Fault.kind).Sublist (before.faults.map Fault.kind)) :
    after.Faultless := by
  rw [h, List.map_nil, List.sublist_nil] at hfaults
  exact List.map_eq_nil_iff.mp hfaults

theorem Quiet.mono (h : before.Quiet) (hreply : after.reply = before.reply)
    (hfaults : (after.faults.map Fault.kind).Sublist (before.faults.map Fault.kind)) :
    after.Quiet :=
  ⟨Faultless.mono h.faults_eq hfaults, hreply.trans h.reply_eq⟩

/-- Faults that are not there have words. -/
theorem Faultless.spoken (h : world.Faultless) : world.Spoken := by
  intro kind hkind
  rw [h] at hkind
  cases hkind

theorem Faultless.not_hidesNext (h : world.Faultless) : ¬world.HidesNext := by
  rintro ⟨failure, hstrike, -⟩
  rw [h] at hstrike
  cases hstrike

theorem passes_strike (point : FaultPoint) : (strike point).Passes Faultless := by
  intro world hfaults
  rw [strike_of_faults_nil hfaults]
  exact ⟨rfl, nofun⟩

theorem passes_noteTraffic (traffic : Traffic) : (noteTraffic traffic).Passes Faultless :=
  Step.failsWith_modify fun _ hfaults => hfaults

/-- A statement passes. -/
theorem passes_execute (channel : Channel) (statement : Statement)
    (effect : Ledger → α × Ledger) : (execute channel statement effect).Passes Faultless :=
  (passes_noteTraffic _).bind fun _ => (passes_strike _).bind fun _ _ hfaults => ⟨hfaults, nofun⟩

theorem passes_change (channel : Channel) (statement : Statement) (effect : Ledger → Ledger) :
    (change channel statement effect).Passes Faultless :=
  passes_execute _ _ _

/-- A statement that only asks is answered. -/
theorem exists_ask (statement : Statement) (answer : Ledger → α) (hfaults : before.Faultless) :
    ∃ after, ask statement answer before = (.ok (answer before.ledger), after) ∧
      LedgerOnly before after ∧ after.ledger = before.ledger := by
  obtain ⟨value, after, hask, -⟩ :=
    (passes_execute .pool statement fun ledger => (answer ledger, ledger)).exists_ok hfaults
  have hask : ask statement answer before = (.ok value, after) := hask
  obtain ⟨honly, hledger, ⟨_, ⟨⟩⟩ | hvalue⟩ := ask_cases hask
  obtain rfl : value = answer before.ledger := Except.ok.inj hvalue
  exact ⟨after, hask, honly, hledger⟩

/-- A statement that only changes the ledger has its effect. -/
theorem exists_change (channel : Channel) (statement : Statement) (effect : Ledger → Ledger)
    (hfaults : before.Faultless) :
    ∃ after, change channel statement effect before = (.ok (), after) ∧
      LedgerOnly before after ∧ after.ledger = effect before.ledger := by
  obtain ⟨_, after, hchange, -⟩ := (passes_change channel statement effect).exists_ok hfaults
  exact ⟨after, hchange, (ledgerOnly_change _ _ _).of_eq hchange, ledger_change hchange⟩

/-- A transaction passes when its body does. -/
theorem passes_transaction {body : Step World α} (h : body.Passes Faultless) :
    (session.transaction body).Passes Faultless :=
  Session.failsWith_transaction ((passes_noteTraffic .connect).bind fun _ => passes_strike _)
    (passes_change _ _ _) h (passes_change _ _ _) (passes_change _ _ _) fun _ hfaults => hfaults

/-! ### Other families -/

/-- At most the family under one name has changed, and a quiet world is quiet still. -/
structure Elsewhere (target : FamilyRef) (before after : World) : Prop where
  ownFamily?_of_ne : ∀ other, other ≠ target → after.ownFamily? other = before.ownFamily? other
  quiet : before.Quiet → after.Quiet

instance : Std.Refl (Elsewhere target) := ⟨fun _ => ⟨fun _ _ => rfl, id⟩⟩

instance : IsTrans World (Elsewhere target) := ⟨fun _ _ _ h h' =>
  ⟨fun other hne => (h'.ownFamily?_of_ne other hne).trans (h.ownFamily?_of_ne other hne),
    fun hquiet => h'.quiet (h.quiet hquiet)⟩⟩

/-- What leaves the admin API as it is touches no family. -/
theorem AdminSame.elsewhere (h : AdminSame before after) : Elsewhere target before after :=
  ⟨fun other _ => ownFamily?_congr h.tables_eq other,
    fun hquiet => hquiet.mono h.reply_eq h.faults_sublist⟩

theorem elsewhere_noteCall (call : AdminCall) : (noteCall call).Keeps (Elsewhere target) :=
  Step.keeps_modify fun _ => ⟨fun _ _ => rfl, fun hquiet => ⟨hquiet.faults_eq, hquiet.reply_eq⟩⟩

theorem elsewhere_strike (point : FaultPoint) : (strike point).Keeps (Elsewhere target) :=
  fun world => (ledgerOnly_strike point world).elsewhere

theorem elsewhere_showTable (table : Text) : (showTable table).Keeps (Elsewhere target) :=
  (elsewhere_strike _).bind fun _ world => by
    split <;> exact Std.Refl.refl _

/-- The admin API changes the family that it is asked to change, if any. -/
theorem elsewhere_modifyFamily (message : Json) :
    (modifyFamily target.table target.family message).Keeps (Elsewhere target) := by
  refine .intro fun world result after h => ?_
  cases result with
  | ok shown =>
    have hgiven := given_of_modifyFamily h
    refine ⟨fun other hne => hgiven.ownFamily?_of_ne hne, fun hquiet => ?_⟩
    obtain ⟨_, struck, hstrike, hmodify⟩ := Step.bind_eq_ok_iff.mp h
    have hstruck := (passes_strike _).inv_of_eq hquiet.faults_eq hstrike
    split at hmodify
    · cases hmodify
    · split at hmodify
      · cases hmodify
      · rw [← (Prod.mk.inj hmodify).2]
        exact ⟨hstruck, rfl⟩
  | error failure =>
    rcases Step.bind_eq_error_iff.mp h with hstrike | ⟨_, struck, hstrike, hmodify⟩
    · exact (elsewhere_strike _).of_eq hstrike
    · have hstruck : Elsewhere target world struck := (elsewhere_strike _).of_eq hstrike
      split at hmodify
      · rwa [← (Prod.mk.inj hmodify).2]
      · split at hmodify
        · rwa [← (Prod.mk.inj hmodify).2]
        · cases hmodify

end World

end Retention
