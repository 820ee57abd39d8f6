import Retention.Proofs.Service.Course
import Retention.Proofs.Store.Outcome

/-!
# The mode that a release is asked for in

A family is let go in the mode that the query of the request gives, if it gives one plainly. A word
that spells no mode is refused before anything else is done. A query that does not give the mode
plainly counts as one that does not give it, and the family is let go in the mode it was recorded
with: so it is when the parameter is repeated, or when its key goes on to a place inside it, whatever
the values say.

## Main definitions

* `Service.recordedMode`: the mode that a family was recorded with.
* `Service.Released`: how far a family is released in a mode.

## Main results

* `Service.queryMode_of_spells`, `Service.queryMode_of_not_spells`, `Service.queryMode_of_not_given`:
  the mode that a query gives.
* `Service.released_of_deletePolicy`: a request to let a family go releases it in one mode.
* `Service.plain_mode_is_used`: which mode that is.
* `Service.repeated_mode_is_ignored`: a query with two modes, and a family that loses its policy.
-/

namespace Retention.Service

open Http World

variable {service : Service} {request : Request} {target : FamilyRef} {query word : List Char}
  {disconnects : Bool} {response : Response} {world after : World}

/-! ### Queries -/

/-- The fault of a word that spells no deletion mode. -/
def badMode (word : List Char) : RequestFault :=
  .deletionMode (.string (.whole (String.ofList word)))

theorem queryMode_of_spells {mode : DeletionMode} (h : GivesPlainly modeName query word)
    (hmode : mode.Spells (String.ofList word)) : queryMode query = .ok (some mode) := by
  have hvalue : plainValue? "deletion_mode".toList query = some word := plainValue?_eq_some_iff.mpr h
  rw [queryMode, hvalue]
  exact map_eq_ok_iff.mpr ⟨mode, readMode_eq_ok_iff.mpr (.word hmode), rfl⟩

theorem queryMode_of_not_spells (h : GivesPlainly modeName query word)
    (hmode : ∀ mode : DeletionMode, ¬mode.Spells (String.ofList word)) :
    queryMode query = .error (.request (badMode word)) := by
  have hvalue : plainValue? "deletion_mode".toList query = some word := plainValue?_eq_some_iff.mpr h
  have hnone : DeletionMode.ofWord? (String.ofList (lowerCase (String.ofList word))) = none := by
    rw [Option.eq_none_iff_forall_ne_some]
    exact fun mode hspells =>
      hmode mode (DeletionMode.ofWord?_lowerCase_eq_some_iff.mp hspells)
  rw [queryMode, hvalue]
  dsimp only
  rw [readMode, hnone]
  rfl

theorem queryMode_of_not_given (h : ∀ word, ¬GivesPlainly modeName query word) :
    queryMode query = .ok none := by
  have hvalue : plainValue? "deletion_mode".toList query = none :=
    Option.eq_none_iff_forall_ne_some.mpr fun word hword =>
      h word (plainValue?_eq_some_iff.mp hword)
  rw [queryMode, hvalue]

/-! ### Releasing -/

/-- The mode that a family was recorded with, and the default one for a family without a record. -/
def recordedMode (target : FamilyRef) (world : World) : DeletionMode :=
  ((world.ledger.find? target.table target.family).map PolicyRecord.deletionMode).getD .default

/-- How far a family is released in a mode. Without its record no call is made. A family that is
abandoned is not called for and its table stays as it is. In the default mode it is reset by one
call, and it has been reset when that is what is answered; a family whose names do not follow their
patterns is refused. -/
inductive Released (limit : Option Json) (target : FamilyRef) (mode : DeletionMode)
    (before : World) : Response → World → Prop
  | unread {failure : Failure} {after : World}
      (hfind : findByFamily target.table target.family before = (.error failure, after))
      (hcalls : after.calls = before.calls) (htables : after.tables = before.tables) :
      Released limit target mode before (.ofFailure failure) after
  | abandoned {response : Response} {after : World} (hmode : mode = .abandon)
      (hcalls : after.calls = before.calls) (htables : after.tables = before.tables) :
      Released limit target mode before response after
  | refused {failure : Failure} {after : World} (hmode : mode = .default)
      (hcheck : target.check = .error failure) (hcalls : after.calls = before.calls)
      (htables : after.tables = before.tables) :
      Released limit target mode before (.ofFailure failure) after
  | reset {response : Response} {after : World} (hmode : mode = .default)
      (hcheck : target.check = .ok ())
      (hcalls : after.calls = before.calls ++
        [.modifyFamilies target.table target.family (Policy.toMessage .noGc) limit])
      (hgiven : response.status = 204 → before.Given after target (Policy.toMessage .noGc)) :
      Released limit target mode before response after

/-- A failure is not answered as a release. -/
theorem status_ofFailure_ne (failure : Failure) : (Response.ofFailure failure).status ≠ 204 := by
  have hle := Response.le_status_ofFailure failure
  omega

/-- A release in the default mode that is answered as done has reset the family. -/
theorem Released.given_of_status {limit : Option Json} {before : World}
    (h : Released limit target .default before response after) (hstatus : response.status = 204) :
    before.Given after target (Policy.toMessage .noGc) := by
  cases h with
  | unread => exact absurd hstatus (status_ofFailure_ne _)
  | abandoned hmode => cases hmode
  | refused => exact absurd hstatus (status_ofFailure_ne _)
  | reset _ _ _ hgiven => exact hgiven hstatus

theorem unaborted_options (service : Service) (disconnects : Bool) :
    (service.options disconnects).Unaborted := by
  rintro _ ⟨⟩
  rfl

/-- A family whose names do not follow their patterns is not released in the default mode. -/
theorem release_of_check {failure : Failure} (hcheck : target.check = .error failure)
    (options : CallOptions) (world : World) :
    service.store.release target .default options world = (.error failure, world) := by
  rw [Store.release, Store.setPolicy, hcheck]
  rfl

/-- A release in the default mode makes one call. -/
theorem calls_release (service : Service) (hcheck : target.check = .ok ()) (disconnects : Bool)
    (world : World) :
    (service.store.release target .default (service.options disconnects) world).2.calls =
      world.calls ++ [.modifyFamilies target.table target.family (Policy.toMessage .noGc)
        service.timeout] := by
  have hfollows := FamilyRef.check_eq_ok_iff_follows.mp hcheck
  have hcalls := (Store.guarded_setPolicy service.store target .noGc).calls_eq hfollows
    (service.options disconnects) world (unaborted_options service disconnects)
  have htimeout : service.store.timeout (service.options disconnects) = service.timeout := by
    rw [Store.timeout, options, store, Option.or_self]
  rw [htimeout] at hcalls
  rw [← hcalls, Store.release]
  exact congrArg World.calls (Step.bind_snd (fun _ => Step.keeps_pure ()) world)

/-- What comes after a release is a matter of the ledger. -/
theorem ledgerOnly_marking (record : Option PolicyRecord) : Step.Keeps LedgerOnly
    (match record with
      | none => pure ⟨204, .nothing⟩
      | some record => do
        let now ← moment
        World.markReleased .pool record.id now
        pure ⟨204, .nothing⟩ : Step World Response) := by
  have hmoment : moment.Keeps LedgerOnly := fun _ => Std.Refl.refl _
  cases record with
  | none => exact Step.keeps_pure _
  | some record =>
    exact hmoment.bind fun _ => (ledgerOnly_change _ _ _).bind fun _ => Step.keeps_pure _

/-- A release that fails. -/
theorem released_of_release_error {mode : DeletionMode} {failure : Failure} {found : World}
    (hfound : LedgerOnly world found)
    (h : service.store.release target mode (service.options disconnects) found =
      (.error failure, after)) :
    Released service.timeout target mode world (.ofFailure failure) after := by
  cases mode with
  | abandon => cases (Prod.mk.inj h).1
  | default =>
    cases hcheck : target.check with
    | error refusal =>
      rw [release_of_check hcheck] at h
      obtain ⟨⟨⟩, rfl⟩ := Prod.mk.inj h
      exact .refused rfl hcheck hfound.calls_eq hfound.tables_eq
    | ok _ =>
      have hcalls := calls_release service hcheck disconnects found
      rw [h, hfound.calls_eq] at hcalls
      exact .reset rfl hcheck hcalls fun hstatus => absurd hstatus (status_ofFailure_ne failure)

/-- A release that is carried out, with whatever comes after it for the ledger. -/
theorem released_of_release {mode : DeletionMode} {found reset : World}
    (hfound : LedgerOnly world found)
    (h : service.store.release target mode (service.options disconnects) found = (.ok (), reset))
    (hmarked : LedgerOnly reset after) :
    Released service.timeout target mode world response after := by
  cases mode with
  | abandon =>
    obtain ⟨-, rfl⟩ := Prod.mk.inj h
    exact .abandoned rfl (hmarked.calls_eq.trans hfound.calls_eq)
      (hmarked.tables_eq.trans hfound.tables_eq)
  | default =>
    cases hcheck : target.check with
    | error refusal =>
      rw [release_of_check hcheck] at h
      cases (Prod.mk.inj h).1
    | ok _ =>
      have hcalls := calls_release service hcheck disconnects found
      rw [h, hfound.calls_eq] at hcalls
      obtain ⟨_, ⟨⟩, -⟩ | ⟨hletGo, -⟩ := Store.letsGo_or_of_release h
      cases hletGo with
      | reset hset =>
        exact .reset rfl hcheck (hmarked.calls_eq.trans hcalls) fun _ =>
          hset.given.congr hfound.tables_eq.symm hmarked.tables_eq

/-- A request to let a family go releases it in the mode that its query gives, or else in the mode
that it was recorded with. -/
theorem released_of_deletePolicy {requested : Option DeletionMode}
    (hquery : queryMode query = .ok requested)
    (h : answer (service.deletePolicy target query disconnects) world = (response, after)) :
    Released service.timeout target (requested.getD (recordedMode target world)) world response
      after := by
  rw [answer_apply] at h
  rcases hdelete : service.deletePolicy target query disconnects world with ⟨result, last⟩
  rw [hdelete] at h
  have hafter : last = after := by cases result <;> exact (Prod.mk.inj h).2
  subst hafter
  have hfailed {failure : Failure} (hresult : result = .error failure) :
      response = .ofFailure failure := by
    subst hresult
    exact (Prod.mk.inj h).1.symm
  obtain ⟨failure, hbad, -⟩ | ⟨given, hgives, hdelete⟩ := Step.ofExcept_bind_cases hdelete
  · cases hquery.symm.trans hbad
  obtain rfl := Except.ok.inj (hquery.symm.trans hgives)
  obtain ⟨failure, hfind, hresult⟩ | ⟨record, found, hfind, hdelete⟩ := Step.bind_cases hdelete
  · have hasks : ask (.findByFamily target.table target.family)
      (Ledger.find? target.table target.family) world = (.error failure, last) := hfind
    have honly := (ask_cases hasks).1
    rw [hfailed hresult]
    exact .unread hfind honly.calls_eq honly.tables_eq
  have hasks : ask (.findByFamily target.table target.family)
    (Ledger.find? target.table target.family) world = (.ok record, found) := hfind
  obtain ⟨hfound, -, ⟨_, ⟨⟩⟩ | hrecord⟩ := ask_cases hasks
  have hmode : (requested.or (record.map PolicyRecord.deletionMode)).getD .default =
      requested.getD (recordedMode target world) := by
    rw [Except.ok.inj hrecord, recordedMode]
    cases requested <;> rfl
  dsimp only at hdelete
  rw [hmode] at hdelete
  obtain ⟨failure, hrelease, hresult⟩ | ⟨_, reset, hrelease, hmark⟩ := Step.bind_cases hdelete
  · rw [hfailed hresult]
    exact released_of_release_error hfound hrelease
  · exact released_of_release hfound hrelease ((ledgerOnly_marking record).of_eq hmark)

/-- **The mode that a release is asked for in.** A request to let a family go whose query gives the
mode plainly is refused before anything is done when the word spells no mode, and else the family is
released in the mode that it spells. When the query does not give the mode plainly, the family is
released in the mode that it was recorded with, or in the default one. -/
theorem plain_mode_is_used {table : TableName} {family : Text} {value : Json}
    (hmethod : request.method = .delete)
    (hasked : service.asked? request = some ⟨.policy table family, query, value⟩)
    (disconnects : Bool) (world : World) :
    (∀ word, GivesPlainly modeName query word →
      (∀ mode : DeletionMode, ¬mode.Spells (String.ofList word)) →
      service.respond request disconnects world =
        (.json 400 (Response.errorMembers (badMode word).message "INVALID_DELETION_MODE"), world)) ∧
    (∀ word mode, GivesPlainly modeName query word → mode.Spells (String.ofList word) →
      ∀ response after, service.respond request disconnects world = (response, after) →
        Released service.timeout (Service.target table family) mode world response after) ∧
    ((∀ word, ¬GivesPlainly modeName query word) →
      ∀ response after, service.respond request disconnects world = (response, after) →
        Released service.timeout (Service.target table family)
          (recordedMode (Service.target table family) world) world response after) := by
  have hrespond : service.respond request disconnects world =
      answer (service.deletePolicy (Service.target table family) query disconnects) world := by
    rw [respond_of_asked (by simp [hmethod]) hasked, hmethod, respondAt]
  rw [hrespond]
  refine ⟨fun word hword hmode => ?_, fun word mode hword hmode response after h => ?_,
    fun hnone response after h => ?_⟩
  · rw [answer_apply, deletePolicy, deletePolicyWith, queryMode_of_not_spells hword hmode]
    rfl
  · exact released_of_deletePolicy (queryMode_of_spells hword hmode) h
  · exact released_of_deletePolicy (queryMode_of_not_given hnone) h

/-! ### A few requests -/

/-- A request to let a family go, with a query. -/
def letGo (query : String) : Request where
  method := .delete
  target := "/projects/pp/instances/ii/tables/t/families/f/gc-policy?" ++ query
  content := none

theorem asked?_letGo_purge : plain.asked? (letGo "deletion_mode=purge") =
    some ⟨.policy ⟨"pp", "ii", "t"⟩ "f", "deletion_mode=purge".toList, .object []⟩ := by cbv

theorem asked?_letGo_bracket : plain.asked? (letGo "%5Bdeletion_mode%5D=ABANDON&x=1") =
    some ⟨.policy ⟨"pp", "ii", "t"⟩ "f", "%5Bdeletion_mode%5D=ABANDON&x=1".toList, .object []⟩ := by
  cbv

theorem asked?_letGo_twice : plain.asked? (letGo "deletion_mode=abandon&deletion_mode=default") =
    some ⟨.policy ⟨"pp", "ii", "t"⟩ "f", "deletion_mode=abandon&deletion_mode=default".toList,
      .object []⟩ := by cbv

theorem named_twice : named modeName "deletion_mode=abandon&deletion_mode=default".toList =
    [⟨modeName, "abandon".toList⟩, ⟨modeName, "default".toList⟩] := by cbv

/-- A repeated parameter does not give the mode plainly. -/
theorem not_givesPlainly_twice (word : List Char) :
    ¬GivesPlainly modeName "deletion_mode=abandon&deletion_mode=default".toList word := by
  rintro ⟨_, _, -, -, -, -, hnodup⟩
  rw [named_twice] at hnodup
  exact absurd hnodup (by decide)

/-- A word that spells no mode is refused, one in brackets and capitals abandons the family, and a
repeated parameter leaves the family to the default mode. -/
theorem plain_mode_is_used_three :
    plain.respond (letGo "deletion_mode=purge") false twoFamilies =
      (.json 400 (Response.errorMembers (badMode "purge".toList).message "INVALID_DELETION_MODE"),
        twoFamilies) ∧
    (∃ response after, plain.respond (letGo "%5Bdeletion_mode%5D=ABANDON&x=1") true twoFamilies =
        (response, after) ∧
      Released none (Service.target ⟨"pp", "ii", "t"⟩ "f") .abandon twoFamilies response after) ∧
    ∃ response after, plain.respond (letGo "deletion_mode=abandon&deletion_mode=default") false
        twoFamilies = (response, after) ∧
      Released none (Service.target ⟨"pp", "ii", "t"⟩ "f") .default twoFamilies response after := by
  have hpurge : named modeName "deletion_mode=purge".toList = [⟨modeName, "purge".toList⟩] := by cbv
  have hbracket : named modeName "%5Bdeletion_mode%5D=ABANDON&x=1".toList =
      [⟨"[deletion_mode]".toList, "ABANDON".toList⟩] := by cbv
  have hnone (mode : DeletionMode) : ¬mode.Spells (String.ofList "purge".toList) := by
    cases mode <;> decide
  have hrecorded : recordedMode (Service.target ⟨"pp", "ii", "t"⟩ "f") twoFamilies = .default := rfl
  refine ⟨?_, ?_, ?_⟩
  · exact (plain_mode_is_used rfl asked?_letGo_purge false twoFamilies).1 _
      (givesPlainly_of_once hpurge (by decide)) hnone
  · rcases h : plain.respond (letGo "%5Bdeletion_mode%5D=ABANDON&x=1") true twoFamilies with
      ⟨response, after⟩
    exact ⟨response, after, rfl, (plain_mode_is_used rfl asked?_letGo_bracket true twoFamilies).2.1 _
      .abandon (givesPlainly_of_once hbracket (by decide)) (by decide) response after h⟩
  · rcases h : plain.respond (letGo "deletion_mode=abandon&deletion_mode=default") false
      twoFamilies with ⟨response, after⟩
    rw [← hrecorded]
    exact ⟨response, after, rfl, (plain_mode_is_used rfl asked?_letGo_twice false twoFamilies).2.2
      not_givesPlainly_twice response after h⟩

/-- A query that gives two modes, of which one abandons the family: it is answered as a release, and
the policy of the family is gone. -/
theorem repeated_mode_is_ignored : ∃ after,
    named modeName "deletion_mode=abandon&deletion_mode=default".toList =
      [⟨modeName, "abandon".toList⟩, ⟨modeName, "default".toList⟩] ∧
    DeletionMode.abandon.Spells "abandon" ∧ DeletionMode.default.Spells "default" ∧
    plain.respond (letGo "deletion_mode=abandon&deletion_mode=default") false twoFamilies =
      (⟨204, .nothing⟩, after) ∧
    twoFamilies.Given after (Service.target ⟨"pp", "ii", "t"⟩ "f") (Policy.toMessage .noGc) := by
  have hquery := queryMode_of_not_given not_givesPlainly_twice
  obtain ⟨after, hdelete⟩ : ∃ after, plain.deletePolicy (Service.target ⟨"pp", "ii", "t"⟩ "f")
      "deletion_mode=abandon&deletion_mode=default".toList false twoFamilies =
        (.ok ⟨204, .nothing⟩, after) := by
    simp only [deletePolicy, deletePolicyWith, hquery]
    exact ⟨_, rfl⟩
  have hanswer : answer (plain.deletePolicy (Service.target ⟨"pp", "ii", "t"⟩ "f")
      "deletion_mode=abandon&deletion_mode=default".toList false) twoFamilies =
        (⟨204, .nothing⟩, after) := by rw [answer_apply, hdelete]
  refine ⟨after, named_twice, by decide, by decide, ?_, ?_⟩
  · rw [respond_of_delete rfl asked?_letGo_twice, hanswer]
  · exact (released_of_deletePolicy hquery hanswer).given_of_status rfl

end Retention.Service
