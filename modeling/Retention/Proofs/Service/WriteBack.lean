import Retention.Proofs.Policy.Collecting
import Retention.Proofs.Policy.Unwrapped
import Retention.Proofs.Service.Cancellation
import Retention.Proofs.Store.Agreement
import Retention.Proofs.Store.Difference

/-!
# What is read can be written back

A family may hold any message, and what is read of it is the text of the policy that the message
means. If the policy's values are in range, that text is accepted as a rule text. When it is applied
to the family, what is read from then on is the same text without its wrappers: a wrapper stands for
a combination of one rule, and applying it sets the rule alone. So a text without wrappers is read
again as it was.

What is said of reading holds of asking the service for the family's policy too.

## Main definitions

* `CallOptions.Waits`: a caller who does not give up before a call has settled.
* `World.RulesShown`: what a caller is shown as the rules of a family.
* `World.ShowsRules`: what every caller is shown who waits.

## Main results

* `Service.respond_get_fst`: what a request for the policy of a family is answered with.
* `World.RulesShown.exists_write`: the rules shown are the text of the family's policy.
* `Store.write_back`: what is read can be written back.
-/

namespace Retention

open Http

/-! ### Callers who wait -/

/-- A caller who does not give up before a call has settled. -/
def CallOptions.Waits (options : CallOptions) : Prop :=
  ∀ signal, options.signal = some signal → signal.aborted = false ∧ signal.Precedes .settle .abort

theorem CallOptions.waits_none {timeout : Option Json} : CallOptions.Waits ⟨.none, timeout⟩ :=
  nofun

namespace Store.HeedsSignals

variable {α : Type} {store : Store} {operation : CallOptions → Step World α} {options : CallOptions}

/-- An operation goes the same way for every caller who waits. -/
theorem eq_of_waits (h : store.HeedsSignals operation) (hwaits : options.Waits) :
    operation options = operation ⟨none, options.timeout⟩ := by
  obtain ⟨_ | signal, timeout⟩ := options
  · rfl
  · obtain ⟨haborted, hsettles⟩ := hwaits signal rfl
    exact funext ((h signal timeout).late haborted hsettles)

/-- An operation that ends well has gone as it goes for a caller who cannot give up. -/
theorem eq_of_ok {value : α} {world : World} (h : store.HeedsSignals operation)
    (hok : (operation options world).1 = .ok value) :
    operation options world = operation ⟨none, options.timeout⟩ world := by
  obtain ⟨_ | signal, timeout⟩ := options
  · rfl
  obtain hsame | ⟨_, _, hgiven, -⟩ := (h signal timeout).eq_or_givenUp world
  · exact hsame
  · obtain ⟨message, hfailure⟩ := hgiven.failure
    cases hok.symm.trans hfailure

end Store.HeedsSignals

/-! ### What callers are shown -/

/-- The answer that shows the rules of a family. -/
def Service.showing (target : FamilyRef) (rules : Json) : Response :=
  .json 200 [("table_ref", .string target.table), ("column_family_id", .string target.family),
    ("gc_rules", rules)]

/-- Answers that differ show rules that differ. -/
theorem Service.showing_injective {target : FamilyRef} {rules others : Json}
    (h : showing target rules = showing target others) : rules = others := by
  simpa [showing, Response.json, Json.record] using h

namespace World

/-- Rules are shown for a family: they are read, or a request for the family's policy is answered
with them. -/
inductive RulesShown (world : World) (target : FamilyRef) (rules : Json) : Prop
  | read (store : Store) (options : CallOptions)
      (h : (store.read target options world).1 = .ok (some rules)) : RulesShown world target rules
  | get (service : Service) (request : Request) {table : TableName} {family : Text}
      {query : List Char} {value : Json} (hmethod : request.method = .get)
      (hasked : service.asked? request = some ⟨.policy table family, query, value⟩)
      (htarget : Service.target table family = target)
      (h : (service.respond request false world).1 = Service.showing target rules) :
      RulesShown world target rules

/-- Whoever reads a family, and waits, or asks for its policy is shown these rules. -/
structure ShowsRules (world : World) (target : FamilyRef) (rules : Json) : Prop where
  read : ∀ (store : Store) (options : CallOptions), options.Waits →
    (store.read target options world).1 = .ok (some rules)
  get : ∀ (service : Service) (request : Request) (table : TableName) (family : Text)
    (query : List Char) (value : Json), request.method = .get →
      service.asked? request = some ⟨.policy table family, query, value⟩ →
      Service.target table family = target →
      (service.respond request false world).1 = Service.showing target rules

end World

/-! ### Reading and asking -/

/-- A request for the policy of a family is answered with what is read of it. -/
theorem Service.respond_get_fst {service : Service} {request : Request} {table : TableName}
    {family : Text} {query : List Char} {value : Json} (hmethod : request.method = .get)
    (hasked : service.asked? request = some ⟨.policy table family, query, value⟩) (world : World) :
    (service.respond request false world).1 =
      match (service.store.read (Service.target table family) ⟨none, service.timeout⟩ world).1 with
      | .error failure => .ofFailure failure
      | .ok none => .json 404
          (Response.errorMembers ("Column family " ++ family ++ " has no GC policy") "NOT_FOUND")
      | .ok (some rules) => Service.showing (Service.target table family) rules.written := by
  have hread : service.store.read (Service.target table family) (service.options false) =
      service.store.read (Service.target table family) ⟨none, service.timeout⟩ := by
    unfold Store.read Service.options
    rw [Store.live_of_settle rfl (Signal.precedes_of_first rfl _)]
  rw [respond_of_get hmethod hasked, answer_apply, getPolicy, getPolicyWith, hread]
  rcases hresult : service.store.read (Service.target table family) ⟨none, service.timeout⟩ world
    with ⟨failure | rules, after⟩
  · rw [Step.bind_of_error hresult]
  · rw [Step.bind_of_ok hresult]
    cases rules <;> rfl

namespace World

variable {world : World} {target : FamilyRef} {family rules : Json} {policy : Policy}

/-- What is read of a family that a table itself has is the text of its policy. -/
theorem writeRule_of_read {store : Store} {timeout : Option Json}
    (hfamily : world.ownFamily? target = some family)
    (hpolicy : Policy.ofFamily family = .ok policy)
    (h : (store.read target ⟨none, timeout⟩ world).1 = .ok (some rules)) :
    target.check = .ok () ∧ policy.writeRule = .ok rules := by
  rw [Store.read_fst] at h
  obtain ⟨seen, hseen, htext⟩ := bind_eq_ok_iff.mp h
  have hcollects : seen ≠ .noGc := by
    rintro rfl
    cases htext
  obtain ⟨hcheck, hlive | ⟨hnoGc, -⟩⟩ := Store.live_eq_ok (Prod.ext hseen rfl)
  · refine ⟨hcheck, ?_⟩
    rw [family?_of_ownFamily? hfamily, Store.liveOf] at hlive
    obtain rfl : policy = seen := by
      cases htruthy : family.isTruthy with
      | true =>
        rw [Option.filter_some, if_pos htruthy] at hlive
        exact Except.ok.inj (hpolicy.symm.trans hlive)
      | false =>
        rw [Option.filter_some, if_neg (by simp [htruthy])] at hlive
        exact absurd (Except.ok.inj hlive).symm hcollects
    have hwrite := mapError_eq_ok_iff.mp htext
    rw [Policy.write_of_ne_noGc hcollects] at hwrite
    obtain ⟨text, hwritten, htext⟩ := map_eq_ok_iff.mp hwrite
    rwa [Option.some.inj htext] at hwritten
  · exact absurd hnoGc hcollects

/-- The rules that are shown for such a family are the text of its policy, or this text as it is
sent. -/
theorem RulesShown.exists_write (h : world.RulesShown target rules)
    (hfamily : world.ownFamily? target = some family)
    (hpolicy : Policy.ofFamily family = .ok policy) :
    target.check = .ok () ∧ ∃ text, policy.writeRule = .ok text ∧
      (rules = text ∨ rules = text.written) := by
  cases h with
  | read store options h =>
    rw [(store.heeds_read target).eq_of_ok h] at h
    obtain ⟨hcheck, hwrite⟩ := writeRule_of_read hfamily hpolicy h
    exact ⟨hcheck, rules, hwrite, Or.inl rfl⟩
  | get service request hmethod hasked htarget h =>
    subst htarget
    rw [Service.respond_get_fst hmethod hasked] at h
    split at h
    · next failure _ =>
      have hstatus : 400 ≤ 200 := by
        have hfailed := Response.le_status_ofFailure failure
        rwa [h] at hfailed
      omega
    · cases h
    · next text hread =>
      obtain ⟨hcheck, hwrite⟩ := writeRule_of_read hfamily hpolicy hread
      exact ⟨hcheck, text, hwrite, Or.inr (Service.showing_injective h).symm⟩

/-- Where no fault waits, every caller is shown the text of the policy that a family is seen to
have. -/
theorem showsRules_of_liveOf (hfaults : world.faults = []) (hcheck : target.check = .ok ())
    (hlive : Store.liveOf (world.family? target) = .ok policy)
    (htext : policy.text = .ok (some rules)) (hwritten : rules.written = rules) :
    world.ShowsRules target rules := by
  have hread (store : Store) (timeout : Option Json) :
      (store.read target ⟨none, timeout⟩ world).1 = .ok (some rules) := by
    rw [Store.read_fst, Store.live_fst_of_quiet store target timeout (not_struck hfaults _), hcheck,
      hlive]
    exact htext
  constructor
  case read =>
    intro store options hwaits
    rw [(store.heeds_read target).eq_of_waits hwaits]
    exact hread store options.timeout
  case get =>
    intro service request table family query value hmethod hasked htarget
    subst htarget
    rw [Service.respond_get_fst hmethod hasked, hread]
    exact congrArg (Service.showing _) hwritten

end World

namespace Store

variable {target : FamilyRef} {family held rules : Json} {policy : Policy} {world start : World}

/-- **What is read can be written back.** Let a table have a family whose message means a policy
with ages from 0 to 2⁵³ - 1 and numbers of versions from 1 to 2³¹ - 1, and let rules be shown for it.
They are accepted as a rule text. Where no fault waits, a caller who waits can apply them to the
family; the result is the policy without its combinations of one child, or what a prepared answer
shows. From then on, as long as the tables stay as they are and no fault waits, every caller is shown
the rules without their wrappers, and these are the same rules when the policy has no combination of
one child. -/
theorem write_back (store : Store) {options : CallOptions} (hwaits : options.Waits)
    (hfamily : world.ownFamily? target = some family)
    (hpolicy : Policy.ofFamily family = .ok policy) (hrange : ¬ policy.OutOfRange)
    (hshown : world.RulesShown target rules) (hfaults : start.faults = [])
    (hentry : start.ownFamily? target = some held) :
    (∃ rule, Rule.read rules = .ok rule) ∧
    (∃ after, store.apply target (some rules) options start =
        (start.reply.elim (.ok policy.collapse) (policyShown target.family policy.collapse),
          after) ∧
      after.faults = [] ∧ ∀ later : World, later.faults = [] → later.tables = after.tables →
        later.ShowsRules target (Rule.unwrapped rules)) ∧
    ((∀ mode child, ¬ Policy.PartOf (.combined mode [child]) policy) →
      Rule.unwrapped rules = rules) := by
  obtain ⟨hcheck, text, hwrite, hrules⟩ := hshown.exists_write hfamily hpolicy
  have hcollects := (Policy.exists_writeRule_iff policy).mp ⟨text, hwrite⟩
  have hexpressible : policy.Expressible :=
    (Policy.expressible_iff policy).mpr ⟨hcollects.1, hcollects.2, hrange⟩
  obtain rfl : rules = text :=
    hrules.elim id fun h => h.trans (hexpressible.written_eq hwrite)
  obtain ⟨rule, hread, hcollapse⟩ :=
    hexpressible.exists_read (Policy.agesFit_of_ofFamily hpolicy) hwrite
  have hcompiled : policy.collapse.Compiled := hcollapse ▸ Policy.compiled_of_read hread
  refine ⟨⟨rule, hread⟩, ?_, Policy.unwrapped_eq_self hwrite⟩
  obtain ⟨after, hset, hafter, hgiven⟩ := exists_setPolicy_of_faults_nil store
    options.timeout hfaults hcheck hentry hcompiled.sendable
  refine ⟨after, ?_, hafter, fun later hlater htables => ?_⟩
  · rw [(store.heeds_apply target (some rules)).eq_of_waits hwaits, ← hset, apply,
      Policy.ofText_of_read hread, hcollapse]
    rfl
  · have hwritten := Policy.writeRule_collapse hwrite
    have hlive : liveOf (later.family? target) = .ok policy.collapse := by
      rw [(hgiven.congr rfl htables).family?_self]
      exact liveOf_given hcompiled.sendable
    have htext : policy.collapse.text = .ok (some (Rule.unwrapped rules)) := by
      rw [Policy.text, hcompiled.write_eq, hwritten]
      rfl
    exact World.showsRules_of_liveOf hlater hcheck hlive htext
      (hcompiled.expressible.written_eq hwritten)

/-! ### Small worlds -/

/-- A world whose only table has a family that holds a message. -/
def worldHolding (message : Json) : World :=
  { World.empty false "now" "correlation" with
    tables := [(someFamily.table, .object [(someFamily.family, .object [("gcRule", message)])])] }

/-- The rule of a number of versions. -/
def versionsRule (count : Number) : Json := .object [("max_version", .number count)]

/-- The message of some messages under a mode. -/
def combination (mode : Mode) (messages : List Json) : Json :=
  .object [(.whole mode.word, .object [("rules", .array messages)])]

/-- A wrapper in a union is read as a wrapper, and after it was written back as the rule in it. -/
theorem write_back_nested :
    let message := combination .union
      [combination .intersection [.object [("maxNumVersions", .number 3)]],
        .object [("maxNumVersions", .number 2)]]
    let rules := Json.object [("mode", .string "union"),
      ("rules", .array [.object [("rules", .array [versionsRule 3])], versionsRule 2])]
    (worldHolding message).RulesShown someFamily rules ∧
      ∃ after, Store.apply ⟨none⟩ someFamily (some rules) ⟨none, none⟩ (worldHolding message) =
          (.ok (.combined .union [.maxVersions 3, .maxVersions 2]), after) ∧
        after.ShowsRules someFamily (.object [("mode", .string "union"),
          ("rules", .array [versionsRule 3, versionsRule 2])]) := by
  intro message rules
  have hshown : (worldHolding message).RulesShown someFamily rules := .read ⟨none⟩ .none rfl
  have hrange : ¬ (Policy.combined .union [.combined .intersection [.maxVersions 3],
      .maxVersions 2]).OutOfRange := by
    have hthree : Number.IsCountIn 1 (2 ^ 31 - 1) 3 := ⟨3, by omega, by omega, rfl⟩
    have htwo : Number.IsCountIn 1 (2 ^ 31 - 1) 2 := ⟨2, by omega, by omega, rfl⟩
    rintro (⟨seconds, hpart, -⟩ | ⟨count, hpart, hout⟩)
    · simp [Policy.partOf_combined_iff] at hpart
    · obtain rfl | rfl : count = 3 ∨ count = 2 := by simpa [Policy.partOf_combined_iff] using hpart
      · exact hout hthree
      · exact hout htwo
  obtain ⟨-, ⟨after, happly, hafter, hlater⟩, -⟩ :=
    write_back ⟨none⟩ CallOptions.waits_none rfl rfl hrange hshown
      (show (worldHolding message).faults = [] from rfl) rfl
  exact ⟨hshown, after, happly, hlater after hafter rfl⟩

/-- A wrapper at the root is not read again after it was written back, and an age of -5 seconds is
read as a text that is refused. -/
theorem not_read_again :
    let wrapper := Json.object [("rules", .array [versionsRule 2])]
    let negative := Json.object [("max_age", .string "-5s")]
    (∃ seen after shown : World,
      Store.read ⟨none⟩ someFamily ⟨none, none⟩
          (worldHolding (combination .union [.object [("maxNumVersions", .number 2)]])) =
        (.ok (some wrapper), seen) ∧
      Store.apply ⟨none⟩ someFamily (some wrapper) ⟨none, none⟩ seen =
        (.ok (.maxVersions 2), after) ∧
      Store.read ⟨none⟩ someFamily ⟨none, none⟩ after = (.ok (some (versionsRule 2)), shown) ∧
      versionsRule 2 ≠ wrapper) ∧
    (worldHolding (Policy.toMessage (.maxAge (.int (-5))))).ShowsRules someFamily negative ∧
      ∃ error, Rule.read negative = .error error := by
  intro wrapper negative
  have hlive : liveOf ((worldHolding (Policy.toMessage (.maxAge (.int (-5))))).family? someFamily) =
      .ok (.maxAge (.int (-5))) := Policy.ofMessage_toMessage_maxAge (by decide)
  exact ⟨⟨_, _, _, rfl, rfl, rfl, by simp [wrapper, versionsRule]⟩,
    World.showsRules_of_liveOf rfl rfl hlive rfl rfl, _, rfl⟩

end Store

end Retention
