import Retention.Proofs.Store.Side
import Retention.Proofs.Transaction

/-!
# What steps fail with

The service writes down why a record failed, so it has to put the failure into words. It can do
that with all of its own findings, and a failure of the admin API is put into words where the call
is made. What is left are the failures of the ledger, which are passed on as they are: they have
words when all faults that wait there have.

## Main definitions

* `Step.FailsWith`: what a step keeps of the states, and what is known of its failures.
* `FaultPoint.isLedger`: the calls of the ledger.
* `Failure.HasWords`, `World.Spoken`: failures that can be put into words.

## Main results

* `Session.failsWith_transaction`: a transaction fails as one of its parts does.
* `Failure.hasWords_ofCall`: the failure of an admin call has words.
* `Store.speaks_drift`, `Store.speaks_apply`, `Store.speaks_release`: so have those of the
  store's operations.
-/

namespace Retention

variable {σ α β : Type}

/-! ### Steps and their failures -/

namespace Step

/-- From states with a property a step keeps the property, and its failures have another. -/
def FailsWith (inv : σ → Prop) (post : Failure → Prop) (step : Step σ α) : Prop :=
  ∀ s, inv s → inv (step s).2 ∧ ∀ failure, (step s).1 = .error failure → post failure

variable {inv : σ → Prop} {post : Failure → Prop} {step : Step σ α}

theorem failsWith_pure (value : α) : FailsWith inv post (pure value : Step σ α) :=
  fun _ hs => ⟨hs, nofun⟩

theorem failsWith_fail {failure : Failure} (h : post failure) :
    FailsWith inv post (fail failure : Step σ α) :=
  fun _ hs => ⟨hs, by rintro _ ⟨⟩; exact h⟩

theorem failsWith_ofExcept {result : Except Failure α}
    (h : ∀ failure, result = .error failure → post failure) :
    FailsWith inv post (ofExcept result : Step σ α) :=
  fun _ hs => ⟨hs, h⟩

theorem failsWith_modify {change : σ → σ} (h : ∀ s, inv s → inv (change s)) :
    FailsWith inv post (modify change) :=
  fun s hs => ⟨h s hs, nofun⟩

/-- Two steps in a row fail as one of them does. -/
theorem FailsWith.bind {next : α → Step σ β} (h : FailsWith inv post step)
    (hnext : ∀ value, FailsWith inv post (next value)) : FailsWith inv post (step >>= next) := by
  intro s hs
  have hstep := h s hs
  rw [bind_apply]
  generalize step s = outcome at hstep ⊢
  rcases outcome with ⟨failure | value, t⟩
  · exact ⟨hstep.1, by rintro _ ⟨⟩; exact hstep.2 failure rfl⟩
  · exact hnext value t hstep.1

theorem FailsWith.map (h : FailsWith inv post step) (f : α → β) :
    FailsWith inv post (f <$> step) :=
  h.bind fun value => failsWith_pure (f value)

theorem FailsWith.attempt {other : Failure → Prop} (h : FailsWith inv post step) :
    FailsWith inv other step.attempt :=
  fun s hs => ⟨(h s hs).1, nofun⟩

/-- A step whose failure is answered fails as the answer does. -/
theorem FailsWith.recover {answer : Failure → Step σ α} (h : FailsWith inv post step)
    (hanswer : ∀ failure, post failure → FailsWith inv post (answer failure)) :
    FailsWith inv post (step.recover answer) := by
  intro s hs
  have hstep := h s hs
  rw [Step.recover]
  generalize step s = outcome at hstep ⊢
  rcases outcome with ⟨failure | value, t⟩
  · exact hanswer failure (hstep.2 failure rfl) t hstep.1
  · exact ⟨hstep.1, by rintro _ ⟨⟩⟩

theorem FailsWith.of_eq (h : FailsWith inv post step) {s t : σ} {failure : Failure} (hs : inv s)
    (hstep : step s = (.error failure, t)) : post failure :=
  (h s hs).2 failure (congrArg Prod.fst hstep)

theorem FailsWith.inv_of_eq (h : FailsWith inv post step) {s t : σ} {result : Except Failure α}
    (hs : inv s) (hstep : step s = (result, t)) : inv t := by
  have hkept := (h s hs).1
  rwa [hstep] at hkept

theorem failsWith_of_forall (h : ∀ s failure, (step s).1 = .error failure → post failure) :
    FailsWith (fun _ => True) post step :=
  fun s _ => ⟨trivial, h s⟩

end Step

namespace Session

variable {session : Session σ} {body : Step σ α} {inv : σ → Prop} {post : Failure → Prop}

/-- A transaction fails as its body or one of its own statements does. -/
theorem failsWith_transaction (hconnect : session.connect.FailsWith inv post)
    (hbegin : session.begin.FailsWith inv post) (hbody : body.FailsWith inv post)
    (hcommit : session.commit.FailsWith inv post) (hrollback : session.rollback.FailsWith inv post)
    (hrelease : ∀ s, inv s → inv (session.release s)) :
    (session.transaction body).FailsWith inv post := by
  have hbracket : (session.bracket body).FailsWith inv post :=
    hbegin.bind fun _ => hbody.bind fun value => hcommit.bind fun _ => Step.failsWith_pure value
  refine hconnect.bind fun _ s hs => ?_
  have hdone := hbracket s hs
  generalize session.bracket body s = outcome at hdone ⊢
  rcases outcome with ⟨failure | value, t⟩
  · have hback := hrollback t hdone.1
    rw [finish]
    generalize session.rollback t = undone at hback ⊢
    rcases undone with ⟨other | _, u⟩
    · exact ⟨hrelease u hback.1, by rintro _ ⟨⟩; exact hback.2 other rfl⟩
    · exact ⟨hrelease u hback.1, by rintro _ ⟨⟩; exact hdone.2 failure rfl⟩
  · exact ⟨hrelease t hdone.1, by rintro _ ⟨⟩⟩

end Session

/-! ### Failures that can be put into words -/

namespace Failure

/-- A failure can be put into words. -/
def HasWords (failure : Failure) : Prop := ∃ message, failure.words = .ok message

/-- The failure of an admin call can be put into words, whatever was raised. -/
theorem hasWords_ofCall (method : String) (failure : Failure) :
    (ofCall method failure).HasWords := by
  cases failure with
  | raised value =>
    cases hwords : (raised value).words with
    | ok message =>
      have hcall : ofCall method (raised value) =
          store (raised value).storeCode (method ++ " failed: " ++ message)
            (some (raised value)) := by
        rw [ofCall, hwords]
        exact nofun
      exact ⟨_, by rw [hcall]; rfl⟩
    | error fault =>
      have hcall : ofCall method (raised value) = shape fault := by
        rw [ofCall, hwords]
        exact nofun
      exact ⟨_, by rw [hcall]; rfl⟩
  | _ => exact ⟨_, rfl⟩

theorem hasWords_ofCanonical (error : Policy.CanonicalError) : (ofCanonical error).HasWords := by
  cases error <;> exact ⟨_, rfl⟩

end Failure

/-- What an earlier result failed with has words when its own failures are put into words. -/
theorem hasWords_of_mapError {ε : Type} {result : Except ε α} {see : ε → Failure}
    (hsee : ∀ error, (see error).HasWords) {failure : Failure}
    (h : result.mapError see = .error failure) : failure.HasWords := by
  cases result with
  | ok value => cases h
  | error error =>
    obtain rfl : see error = failure := Except.error.inj h
    exact hsee error

/-- Whether a kind of call goes to the ledger while the service runs. -/
def FaultPoint.isLedger : FaultPoint → Bool
  | getTable | modifyFamilies | getProjectId | closeAdmin | closePool => false
  | connect | «begin» | commit | rollback | ping | findManaged | findByFamily | upsert
  | updateLastApplied | markReleased | createHistory | completeHistory | publish => true

@[simp] theorem Statement.isLedger_point (statement : Statement) :
    statement.point.isLedger = true := by
  cases statement <;> rfl

namespace World

/-- Every fault that waits at the ledger has words. -/
def Spoken (world : World) : Prop :=
  ∀ kind ∈ world.faults.map Fault.kind, kind.1.isLedger = true → kind.2.HasWords

theorem Spoken.mono {before after : World} (h : before.Spoken)
    (hfaults : (after.faults.map Fault.kind).Sublist (before.faults.map Fault.kind)) :
    after.Spoken :=
  fun kind hkind => h kind (hfaults.subset hkind)

/-- Where faults have words, a call of the ledger fails with words. -/
theorem failsWith_strike {point : FaultPoint} (hledger : point.isLedger = true) :
    (strike point).FailsWith Spoken Failure.HasWords := by
  intro world hspoken
  refine ⟨hspoken.mono ((ledgerOnly_strike point).of_eq rfl).faults_sublist, fun failure h => ?_⟩
  cases hstrike : Fault.strike point world.faults with
  | mk struck faults =>
    cases struck with
    | none =>
      rw [strike_of_none hstrike] at h
      cases h
    | some other =>
      rw [strike_of_some hstrike] at h
      obtain rfl : other = failure := Except.error.inj h
      exact hspoken _ (Fault.kind_mem_of_strike (congrArg Prod.fst hstrike)) hledger

theorem failsWith_noteTraffic (traffic : Traffic) :
    (noteTraffic traffic).FailsWith Spoken Failure.HasWords :=
  Step.failsWith_modify fun _ h => h

/-- A statement fails with words. -/
theorem failsWith_execute (channel : Channel) (statement : Statement)
    (effect : Ledger → α × Ledger) :
    (execute channel statement effect).FailsWith Spoken Failure.HasWords := by
  refine (failsWith_noteTraffic _).bind fun _ =>
    (failsWith_strike statement.isLedger_point).bind fun _ world hworld => ⟨hworld, ?_⟩
  rintro _ ⟨⟩

theorem failsWith_change (channel : Channel) (statement : Statement) (effect : Ledger → Ledger) :
    (change channel statement effect).FailsWith Spoken Failure.HasWords :=
  failsWith_execute _ _ _

/-- A transaction fails with words when its body does. -/
theorem failsWith_transaction {body : Step World α} (h : body.FailsWith Spoken Failure.HasWords) :
    (session.transaction body).FailsWith Spoken Failure.HasWords :=
  Session.failsWith_transaction
    ((failsWith_noteTraffic .connect).bind fun _ => failsWith_strike rfl)
    (failsWith_change _ _ _) h (failsWith_change _ _ _) (failsWith_change _ _ _) fun _ h => h

end World

/-! ### The store fails with words -/

namespace Store

variable {store : Store} {target : FamilyRef}

/-- A step of the store, which fails with words wherever it starts. -/
abbrev Speaks (step : Step World α) : Prop := step.FailsWith (fun _ => True) Failure.HasWords

theorem hasWords_of_check {failure : Failure} (h : target.check = .error failure) :
    failure.HasWords := by
  rw [FamilyRef.check, TableName.check] at h
  split at h
  · change checkFamilyId target.family = _ at h
    rw [checkFamilyId] at h
    split at h
    · cases h
    · exact ⟨_, by rw [← Except.error.inj h]; rfl⟩
  · exact ⟨_, by rw [← Except.error.inj h]; rfl⟩

theorem speaks_ofShape (result : Except ShapeFault α) :
    Speaks (Step.ofExcept (result.mapError Failure.shape)) :=
  Step.failsWith_ofExcept fun _ => hasWords_of_mapError fun _ => ⟨_, rfl⟩

/-- The outcome of a call that has been sent fails with words. -/
theorem speaks_settled (call : AdminCall) (effect : Step World α) :
    Speaks (settled call effect) := by
  refine Step.failsWith_of_forall fun world failure h => ?_
  rw [settled, Step.mapFailure_apply] at h
  exact hasWords_of_mapError (Failure.hasWords_ofCall _) h

theorem speaks_send (options : CallOptions) (call : AdminCall) (effect : Step World α) :
    Speaks (send options call effect) := by
  have hnote : Speaks (World.noteCall call) := Step.failsWith_modify fun _ h => h
  unfold send
  split
  · exact hnote.bind fun _ => speaks_settled call effect
  · split
    · exact Step.failsWith_fail ⟨_, rfl⟩
    · refine hnote.bind fun _ => ?_
      unfold watched
      refine (Step.failsWith_modify fun _ _ => trivial).bind fun _ => ?_
      split
      · exact speaks_settled call effect
      · have hcancelled (signal : Signal) :
            Speaks (Step.fail (cancelled call signal) : Step World α) :=
          Step.failsWith_fail ⟨_, rfl⟩
        split
        · exact (speaks_settled call effect).attempt.bind fun _ => hcancelled _
        · exact hcancelled _

theorem speaks_setPolicy (store : Store) (target : FamilyRef) (policy : Policy)
    (options : CallOptions) : Speaks (store.setPolicy target policy options) :=
  (Step.failsWith_ofExcept fun _ => hasWords_of_check).bind fun _ =>
    (speaks_send _ _ _).bind fun _ => (speaks_ofShape _).bind fun _ => speaks_ofShape _

theorem speaks_live (store : Store) (target : FamilyRef) (options : CallOptions) :
    Speaks (store.live target options) := by
  have hget : Speaks (store.getPolicy target options) :=
    (Step.failsWith_ofExcept fun _ => hasWords_of_check).bind fun _ =>
      ((speaks_send _ _ _).bind fun _ => speaks_ofShape _).bind fun _ => by
        split
        · exact Step.failsWith_fail ⟨_, rfl⟩
        · exact (speaks_ofShape _).bind fun _ => Step.failsWith_pure _
  refine (hget.map _).recover fun failure hfailure => ?_
  split
  · exact Step.failsWith_pure _
  · exact Step.failsWith_fail hfailure

theorem hasWords_of_ofText {rules : Option Json} {failure : Failure}
    (h : Policy.ofText rules = .error failure) : failure.HasWords := by
  unfold Policy.ofText at h
  split at h
  · cases h
  · cases h
  · split at h
    · exact ⟨_, by rw [← Except.error.inj h]; rfl⟩
    · cases h

/-- A policy without rule text is a failure with words. -/
theorem speaks_text (policy : Policy) : Speaks (Step.ofExcept policy.text) :=
  Step.failsWith_ofExcept fun _ => hasWords_of_mapError fun _ => ⟨_, rfl⟩

theorem hasWords_of_differs {desired live : Policy} {failure : Failure}
    (h : differs desired live = .error failure) : failure.HasWords := by
  have hnormal {policy : Policy} {failure : Failure} (h : policy.normal = .error failure) :
      failure.HasWords := hasWords_of_mapError Failure.hasWords_ofCanonical h
  rw [differs] at h
  cases hdesired : desired.normal with
  | error other =>
    rw [hdesired] at h
    obtain rfl : other = failure := Except.error.inj h
    exact hnormal hdesired
  | ok first =>
    rw [hdesired] at h
    cases hlive : live.normal with
    | error other =>
      rw [hlive] at h
      obtain rfl : other = failure := Except.error.inj h
      exact hnormal hlive
    | ok second =>
      rw [hlive] at h
      cases h

theorem speaks_drift (store : Store) (target : FamilyRef) (rules : Option Json)
    (options : CallOptions) : Speaks (store.drift target rules options) :=
  (Step.failsWith_ofExcept fun _ => hasWords_of_ofText).bind fun _ =>
    (speaks_live store target options).bind fun _ =>
      (Step.failsWith_ofExcept fun _ => hasWords_of_differs).bind fun _ => Step.failsWith_pure _

theorem speaks_apply (store : Store) (target : FamilyRef) (rules : Option Json)
    (options : CallOptions) : Speaks (store.apply target rules options) :=
  (Step.failsWith_ofExcept fun _ => hasWords_of_ofText).bind fun _ =>
    speaks_setPolicy store target _ options

theorem speaks_release (store : Store) (target : FamilyRef) (mode : DeletionMode)
    (options : CallOptions) : Speaks (store.release target mode options) := by
  cases mode with
  | abandon => exact Step.failsWith_pure _
  | default =>
    exact (speaks_setPolicy store target _ options).bind fun _ => Step.failsWith_pure _

end Store

end Retention
