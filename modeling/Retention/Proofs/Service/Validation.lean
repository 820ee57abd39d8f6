import Retention.Proofs.Service.Refinement

/-!
# Validation and orders agree

A rule text can be validated without a family, and it can be given to one. Validation stops once the
text has been compiled and written back; an order goes on through the admin API and answers with what
that shows. Both come to the same: in a quiet world, for a family that is there and whose names follow
their patterns, an order is carried out exactly when its rules are valid, it then answers with the
rules that validation shows, and otherwise with the error that validation reports.

## Main definitions

* `Service.Verdict`: the canonical rules of a rule text, or its first error.

## Main results

* `Service.validate_of_verdict`, `Service.putPolicy_of_verdict`: both ways to the verdict.
* `Service.validation_agrees`: validation and orders agree, and validation touches nothing.
-/

namespace Retention.Service

open Http World

variable {service : Service} {checked put : Request} {table : TableName} {family : Text}
  {query others : List Char} {value content held : Json} {rules : Option Json}
  {world : World}

/-! ### Verdicts -/

/-- What is to be said of a rule text: its canonical rules, null for none, or its first error. -/
inductive Verdict (rules : Option Json) : Except RuleError Json → Prop
  | accepted {policy : Policy} {text : Option Json} (hpolicy : Policy.ofText rules = .ok policy)
      (htext : policy.text = .ok text) : Verdict rules (.ok (text.getD .null).written)
  | rejected {error : RuleError} (herror : Policy.ofText rules = .error (.rule error)) :
      Verdict rules (.error error)

/-- A rule text is not read only because of an error in it. -/
theorem exists_rule_of_ofText {failure : Failure} (h : Policy.ofText rules = .error failure) :
    ∃ error, failure = .rule error := by
  unfold Policy.ofText at h
  split at h
  · cases h
  · cases h
  · split at h
    · next error _ => exact ⟨error, (Except.error.inj h).symm⟩
    · cases h

/-- Something is to be said of every rule text: one that is read can be written back. -/
theorem exists_verdict (rules : Option Json) : ∃ verdict, Verdict rules verdict := by
  cases hpolicy : Policy.ofText rules with
  | ok policy =>
    obtain ⟨text, htext⟩ := (Policy.authored_of_ofText hpolicy).exists_text
    exact ⟨_, .accepted hpolicy htext⟩
  | error failure =>
    obtain ⟨error, rfl⟩ := exists_rule_of_ofText hpolicy
    exact ⟨_, .rejected hpolicy⟩

/-- The answer to a validation. -/
def validationResponse : Except RuleError Json → Response
  | .ok shown => .json 200 [("valid", .bool true), ("gc_rules", shown)]
  | .error error =>
    .json 200 [("valid", .bool false), ("error", .record (Response.ruleErrorMembers error))]

/-- The answer to an order that gives a family rules in the default mode. -/
def orderResponse (target : FamilyRef) : Except RuleError Json → Response
  | .ok shown => .json 200 [("table_ref", .string target.table),
      ("column_family_id", .string target.family), ("gc_rules", shown),
      ("deletion_mode", .string "default")]
  | .error error => .json 400 (Response.ruleErrorMembers error)

section Responses

variable {verdict : Except RuleError Json}

theorem validationResponse_eq_valid_iff {shown : Json} :
    validationResponse verdict = .json 200 [("valid", .bool true), ("gc_rules", shown)] ↔
      verdict = .ok shown := by
  cases verdict <;> simp [validationResponse, Response.json, Json.record]

theorem validationResponse_eq_invalid_iff {error : Json} :
    validationResponse verdict = .json 200 [("valid", .bool false), ("error", error)] ↔
      ∃ found, verdict = .error found ∧ Json.record (Response.ruleErrorMembers found) = error := by
  cases verdict <;> simp [validationResponse, Response.json, Json.record]

theorem status_orderResponse_eq_iff {target : FamilyRef} :
    (orderResponse target verdict).status = 200 ↔ ∃ shown, verdict = .ok shown := by
  cases verdict <;> simp [orderResponse, Response.json]

theorem orderResponse_eq_refused_iff {target : FamilyRef} {error : Json} :
    orderResponse target verdict = ⟨400, .json error⟩ ↔
      ∃ found, verdict = .error found ∧ Json.record (Response.ruleErrorMembers found) = error := by
  cases verdict <;> simp [orderResponse, Response.json]

end Responses

theorem bodyMembers_of_isObject (h : value.isObject = true) : bodyMembers value = .ok value :=
  if_pos h

/-- Validation says the verdict. -/
theorem validate_of_verdict {verdict : Except RuleError Json} (hobject : value.isObject = true)
    (hverdict : Verdict (value.member? "gc_rules") verdict) :
    validate value = .ok (validationResponse verdict) := by
  refine bind_eq_ok_iff.mpr ⟨value, bodyMembers_of_isObject hobject, ?_⟩
  cases hverdict with
  | accepted hpolicy htext =>
    rw [hpolicy]
    dsimp only
    rw [htext]
    rfl
  | rejected herror => rw [herror]; rfl

/-- In a quiet world an order for a family that is there comes to the verdict on its rules. -/
theorem putPolicy_of_verdict {target : FamilyRef} {verdict : Except RuleError Json}
    (hquiet : world.Quiet) (hcheck : target.check = .ok ())
    (hentry : world.ownFamily? target = some held) (hobject : value.isObject = true)
    (hmode : value.member? "deletion_mode" = none)
    (hverdict : Verdict (value.member? "gc_rules") verdict) :
    (answer (service.putPolicy target value false) world).1 = orderResponse target verdict := by
  have hread : readMode (value.member? "deletion_mode") = .ok .default := by rw [hmode]; rfl
  have hput : service.putPolicy target value false world =
      service.giveRules target (value.member? "gc_rules") .default false world := by
    rw [putPolicy, putPolicyWith, bodyMembers_of_isObject hobject,
      Step.bind_of_ok (Step.ofExcept_apply _ _), hread, Step.bind_of_ok (Step.ofExcept_apply _ _)]
    rfl
  rw [answer_apply, hput]
  generalize value.member? "gc_rules" = rules at hverdict ⊢
  cases hverdict with
  | rejected herror =>
    rw [giveRules, Store.apply, herror]
    rfl
  | @accepted policy text hpolicy htext =>
    obtain ⟨set, hset⟩ := Store.exists_setPolicy service.store service.timeout hquiet hcheck hentry
      (Policy.authored_of_ofText hpolicy).sendable
    have happly : service.store.apply target rules (service.options false) world =
        (.ok policy, set) := by
      rw [apply_options, Store.apply, hpolicy]
      exact hset
    obtain ⟨done, hupsert, -⟩ := exists_upsert target (rules.getD .null) .default
      (((elsewhere_apply service target rules).of_eq happly).quiet hquiet)
    rw [giveRules, Step.bind_of_ok happly, Step.bind_of_ok hupsert, htext]
    rfl

/-! ### Agreement -/

/-- Asking for a validation touches nothing, and is not answered as if something else had failed. -/
theorem respond_of_validation {request : Request} {disconnects : Bool} {response : Response}
    {after : World} (hmethod : request.method = .post)
    (hplace : ∀ asked, service.asked? request = some asked → asked.place = .validation)
    (h : service.respond request disconnects world = (response, after)) :
    after = world ∧ response.status ≠ 502 := by
  obtain ⟨hafter, -, hstatus⟩ | ⟨⟨place, query, value⟩, full, hasked, hstatus, hfull⟩ :=
    respond_cases h
  · exact ⟨hafter, by omega⟩
  obtain rfl : place = .validation := hplace _ hasked
  rw [hmethod] at hfull
  replace hfull : answer (Step.ofExcept (validate value)) world = (full, after) := hfull
  cases hobject : value.isObject with
  | true =>
    obtain ⟨verdict, hverdict⟩ := exists_verdict (value.member? "gc_rules")
    rw [validate_of_verdict hobject hverdict] at hfull
    obtain ⟨rfl, rfl⟩ := Prod.mk.inj hfull
    refine ⟨rfl, ?_⟩
    rw [hstatus]
    cases verdict <;> exact nofun
  | false =>
    have hrefused : validate value = .error (.request .bodyNotObject) := by
      rw [validate, bodyMembers, hobject]
      rfl
    rw [hrefused] at hfull
    obtain ⟨rfl, rfl⟩ := Prod.mk.inj hfull
    exact ⟨rfl, by rw [hstatus]; exact nofun⟩

/-- **Validation and orders agree.** In a quiet world, for a family that is there and whose names
follow their patterns, an order to give it rules in no particular mode is carried out exactly when
the rules are valid, with the same canonical rules; and it is refused exactly when they are not, with
the same error. Asking for a validation touches nothing, and is not answered as if something else had
failed. -/
theorem validation_agrees (hquiet : world.Quiet) (hcheck : (target table family).check = .ok ())
    (hentry : world.ownFamily? (target table family) = some held)
    (hchecked : checked.method = .post)
    (haskedCheck : service.asked? checked = some ⟨.validation, others, content⟩)
    (hput : put.method = .put)
    (haskedPut : service.asked? put = some ⟨.policy table family, query, value⟩)
    (hcontent : content.isObject = true) (hvalue : value.isObject = true)
    (hrules : content.member? "gc_rules" = value.member? "gc_rules")
    (hmode : value.member? "deletion_mode" = none) :
    ((service.respond put false world).1.status = 200 ↔ ∃ shown,
      (service.respond checked false world).1 =
        .json 200 [("valid", .bool true), ("gc_rules", shown)]) ∧
    (∀ shown, (service.respond checked false world).1 =
        .json 200 [("valid", .bool true), ("gc_rules", shown)] →
      (service.respond put false world).1 = .json 200
        [("table_ref", .string table.write), ("column_family_id", .string family),
          ("gc_rules", shown), ("deletion_mode", .string "default")]) ∧
    (∀ error, (service.respond checked false world).1 =
        .json 200 [("valid", .bool false), ("error", error)] ↔
      (service.respond put false world).1 = ⟨400, .json error⟩) ∧
    ∀ (request : Request) (disconnects : Bool) (elsewhere : World), request.method = .post →
      (∀ asked, service.asked? request = some asked → asked.place = .validation) →
      (service.respond request disconnects elsewhere).2 = elsewhere ∧
        (service.respond request disconnects elsewhere).1.status ≠ 502 := by
  obtain ⟨verdict, hverdict⟩ := exists_verdict (value.member? "gc_rules")
  have hcheckAnswer : (service.respond checked false world).1 = validationResponse verdict := by
    rw [respond_of_asked (by rw [hchecked]; exact nofun) haskedCheck, hchecked]
    change (answer (Step.ofExcept (validate content)) world).1 = _
    rw [validate_of_verdict hcontent (hrules ▸ hverdict)]
    rfl
  have hputAnswer : (service.respond put false world).1 =
      orderResponse (target table family) verdict := by
    rw [respond_of_put hput haskedPut]
    exact putPolicy_of_verdict hquiet hcheck hentry hvalue hmode hverdict
  rw [hcheckAnswer, hputAnswer]
  refine ⟨?_, ?_, ?_, fun request disconnects elsewhere hmethod hplace =>
    respond_of_validation hmethod hplace rfl⟩
  · rw [status_orderResponse_eq_iff]
    exact exists_congr fun shown => validationResponse_eq_valid_iff.symm
  · intro shown hvalid
    rw [validationResponse_eq_valid_iff.mp hvalid]
    rfl
  · intro error
    rw [validationResponse_eq_invalid_iff, orderResponse_eq_refused_iff]

/-! ### A validation and an order -/

/-- The rule of an age of five seconds is validated. -/
def checkAge : Request where
  method := .post
  target := "/gc-rules/validate"
  content := some ⟨ageText, "application/json"⟩

theorem asked?_checkAge : plain.asked? checkAge = some ⟨.validation, [], ageBody⟩ := by
  have hcarried : checkAge.isCarried = true := by cbv
  have htarget : Target.ofText? checkAge.target = some ⟨checkAge.target.toList, []⟩ := by cbv
  have hplace : Place.ofPath checkAge.target.toList = .found .validation := by cbv
  have hvalue : checkAge.value plain.readsJson = .ok ageBody := read_ageText
  rw [asked?, if_pos hcarried, htarget, Option.bind_some, hplace, hvalue]

/-- The rules are valid, and the family is given them. -/
theorem validation_agrees_age :
    (plain.respond checkAge false twoFamilies).1 =
        .json 200 [("valid", .bool true), ("gc_rules", .object [("max_age", .string "5s")])] ∧
      (plain.respond putAge false twoFamilies).1 = .json 200
        [("table_ref", .string "projects/pp/instances/ii/tables/t"),
          ("column_family_id", .string "f"), ("gc_rules", .object [("max_age", .string "5s")]),
          ("deletion_mode", .string "default")] := by
  have hvalid : (plain.respond checkAge false twoFamilies).1 =
      .json 200 [("valid", .bool true), ("gc_rules", .object [("max_age", .string "5s")])] := by
    rw [respond_of_asked (by decide) asked?_checkAge]
    rfl
  have hquiet : twoFamilies.Quiet := ⟨rfl, rfl⟩
  obtain ⟨-, hshown, -⟩ := validation_agrees hquiet rfl rfl rfl asked?_checkAge rfl asked?_putAge
    rfl rfl rfl rfl
  exact ⟨hvalid, hshown _ hvalid⟩

/-- The same rules are given to a family whose name does not follow its pattern. -/
def putSpaced : Request where
  method := .put
  target := "/projects/pp/instances/ii/tables/t/families/a%20b/gc-policy"
  content := some ⟨ageText, "application/json"⟩

theorem asked?_putSpaced :
    plain.asked? putSpaced = some ⟨.policy ⟨"pp", "ii", "t"⟩ "a b", [], ageBody⟩ := by
  have hcarried : putSpaced.isCarried = true := by cbv
  have htarget : Target.ofText? putSpaced.target = some ⟨putSpaced.target.toList, []⟩ := by cbv
  have hplace : Place.ofPath putSpaced.target.toList =
      .found (.policy ⟨"pp", "ii", "t"⟩ "a b") := by cbv
  have hvalue : putSpaced.value plain.readsJson = .ok ageBody := read_ageText
  rw [asked?, if_pos hcarried, htarget, Option.bind_some, hplace, hvalue]

/-- A table that has a family under such a name. -/
def spacedFamily : World := Reconciler.worldWith [("a b", .object [])] [] []

/-- In a quiet world, rules can be valid and yet be refused for a family that is there, because its
name does not follow its pattern. -/
theorem not_agrees_of_spaced :
    spacedFamily.Quiet ∧
      spacedFamily.ownFamily? (target ⟨"pp", "ii", "t"⟩ "a b") = some (.object []) ∧
      (plain.respond checkAge false spacedFamily).1 =
        .json 200 [("valid", .bool true), ("gc_rules", .object [("max_age", .string "5s")])] ∧
      (plain.respond putSpaced false spacedFamily).1.status = 400 := by
  refine ⟨⟨rfl, rfl⟩, rfl, ?_, ?_⟩
  · rw [respond_of_asked (by decide) asked?_checkAge]
    rfl
  · rw [respond_of_put rfl asked?_putSpaced]
    rfl

end Retention.Service
