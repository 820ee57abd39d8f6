import Retention.Proofs.Policy.Collapse

/-!
# The codec of rule messages

A policy whose values are in range is read back from its message, whatever tree it is. Messages from
elsewhere may say the same in many ways: several members may be set at once, others are null, an age
is a number, a text or an object. What such a message means is one policy, and the message that the
service would send for this policy means it again, so reading and sending once more changes nothing.

All that the second half asks is that ages are whole and have a double of their own, for an age goes
through its text on the way back. A number of versions does not; it is positive whenever it was read.

## Main definitions

* `Number.IsSafe`: whole numbers of either sign that have a double of their own.

## Main results

* `Policy.isPositive_of_ofMessage`: numbers of versions that were read are positive.
* `Policy.ofMessage_toMessage_of_parts`: which policies are read back.
* `Policy.message_round_trip`: both halves.
-/

namespace Retention

/-- A whole number, of either sign, up to the largest safe one. -/
def Number.IsSafe (number : Number) : Prop :=
  ∃ value : Int, value.natAbs ≤ 2 ^ 53 - 1 ∧ number = .int value

namespace Policy

/-- The numbers of versions in the policy that a message means are positive. -/
theorem isPositive_of_ofMessage {message : Json} {policy : Policy}
    (h : ofMessage message = .ok policy) {count : Number}
    (hpart : PartOf (.maxVersions count) policy) : count.isPositive = true := by
  refine of_ofMessage
    (motive := fun policy => PartOf (.maxVersions count) policy → count.isPositive = true)
    ?_ ?_ ?_ message h hpart
  · rintro ⟨⟩
  · intro members leaf hleaf hpart
    obtain ⟨_, _, -, rfl⟩ | ⟨other, hpositive, rfl⟩ | rfl := ofLeaf_cases hleaf
    · cases hpart
    · cases hpart
      exact hpositive
    · cases hpart
  · intro mode children ih hpart
    obtain ⟨⟨⟩⟩ | ⟨child, hchild, hpart⟩ := partOf_combined_iff.mp hpart
    exact ih child hchild hpart

/-- A policy is read back from its message when its ages are safe whole numbers and its numbers of
versions are positive. -/
theorem ofMessage_toMessage_of_parts {policy : Policy}
    (hages : ∀ seconds, PartOf (.maxAge seconds) policy → seconds.IsSafe)
    (hcounts : ∀ count, PartOf (.maxVersions count) policy → count.isPositive = true) :
    ofMessage policy.toMessage = .ok policy := by
  induction policy using children_induction with
  | noGc => rfl
  | maxAge seconds =>
    obtain ⟨value, hsafe, rfl⟩ := hages seconds .self
    exact ofMessage_toMessage_maxAge (by omega)
  | maxVersions count => exact ofMessage_toMessage_maxVersions (hcounts count .self)
  | combined mode children ih =>
    rw [ofMessage_toMessage_combined, ofMessages_toMessages fun child hchild => ih child hchild
      (fun seconds hpart => hages seconds (.child hchild hpart))
      (fun count hpart => hcounts count (.child hchild hpart))]
    rfl

/-- **The codec of rule messages.** A policy is read back from its message when its ages are whole
numbers from 0 to 2⁵³ - 1 and its numbers of versions are whole and from 1 to 2³¹ - 1; an absence of
collection may stand anywhere in it, and a combination may have any number of children. And whatever
message the admin API shows, it means some policy, and if the ages in that policy are whole numbers
of magnitude up to 2⁵³ - 1, the message of this policy means the same policy again. -/
theorem message_round_trip (policy : Policy) (message : Json) :
    (¬ policy.OutOfRange → ofMessage policy.toMessage = .ok policy) ∧
      (IsMessage message → ∃ decoded, ofMessage message = .ok decoded ∧
        ((∀ seconds, PartOf (.maxAge seconds) decoded → seconds.IsSafe) →
          ofMessage decoded.toMessage = .ok decoded)) := by
  constructor
  · intro hrange
    refine ofMessage_toMessage_of_parts (fun seconds hpart => ?_) fun count hpart => ?_
    · obtain ⟨value, -, hsafe, rfl⟩ := not_not.mp fun hout => hrange (Or.inl ⟨_, hpart, hout⟩)
      exact ⟨value, by omega, rfl⟩
    · obtain ⟨value, hlow, -, rfl⟩ := not_not.mp fun hout => hrange (Or.inr ⟨_, hpart, hout⟩)
      exact decide_eq_true (by omega : 0 < (value : Int))
  · intro hmessage
    obtain ⟨decoded, hdecoded⟩ := hmessage.exists_ofMessage
    exact ⟨decoded, hdecoded, fun hages =>
      ofMessage_toMessage_of_parts hages fun _ => isPositive_of_ofMessage hdecoded⟩

/-- An absence of collection, an empty combination and a zero age are read back. A union of an age of
-5 seconds stays one, whatever stands beside it in the message. -/
theorem message_round_trip_mixed :
    let policy := combined .union [noGc, combined .intersection [], maxAge 0, maxVersions 2]
    let rule := Json.object [("maxAge", .object
      [("seconds", .object [("$long", .string "-5")]), ("nanos", .null)])]
    let message := Json.object [("maxNumVersions", .number 0), ("intersection", .null),
      ("union", .object [("rules", .array [rule])])]
    let decoded := combined .union [maxAge (.int (-5))]
    ofMessage policy.toMessage = .ok policy ∧ ofMessage message = .ok decoded ∧
      ofMessage decoded.toMessage = .ok decoded := by
  intro policy rule message decoded
  have hseconds : Number.ofText "-5" = .int (-5) :=
    Number.ofText_minus_digits (List.cons_ne_nil '5' []) (List.forall_mem_singleton.mpr rfl)
      (show 5 ≤ 2 ^ 53 by omega)
  have hdecoded : ofMessage message = .ok decoded := by
    change (((Except.ok (Number.ofText "-5")).map maxAge).bind fun policy =>
      .ok (combined .union [policy])) = _
    rw [hseconds]
    rfl
  have hrange : ¬ policy.OutOfRange := by
    have hage : Number.IsCountIn 0 (2 ^ 53 - 1) 0 := ⟨0, by omega, by omega, rfl⟩
    have hcount : Number.IsCountIn 1 (2 ^ 31 - 1) 2 := ⟨2, by omega, by omega, rfl⟩
    rintro (⟨seconds, hpart, hout⟩ | ⟨count, hpart, hout⟩)
    · obtain rfl : seconds = 0 := by simpa [policy, partOf_combined_iff] using hpart
      exact hout hage
    · obtain rfl : count = 2 := by simpa [policy, partOf_combined_iff] using hpart
      exact hout hcount
  have hrule : IsMessage rule :=
    .leaf (fun mode => by cases mode <;> rfl)
      (.of_lookup rfl (Or.inr ⟨_, rfl, .of_lookup rfl (Or.inr (.printed rfl)),
        .of_lookup rfl (Or.inl rfl)⟩)) (.of_none rfl)
  have hmessage : IsMessage message := by
    refine .intro (fun mode => ?_) (fun mode items hrules => ?_) (.of_none rfl)
      (.of_lookup rfl (Or.inr ⟨0, rfl⟩))
    · cases mode with
      | union => exact .of_lookup rfl (Or.inr ⟨_, rfl, .of_lookup rfl (Or.inr ⟨[rule], rfl⟩)⟩)
      | intersection => exact .of_lookup rfl (Or.inl rfl)
    · obtain ⟨_, hcontent, hitems⟩ := hrules
      cases mode with
      | union =>
        cases hcontent
        cases hitems
        exact List.forall_mem_singleton.mpr hrule
      | intersection => cases hcontent
  obtain ⟨_, hmeans, hstable⟩ := (message_round_trip policy message).2 hmessage
  obtain rfl := Except.ok.inj (hdecoded.symm.trans hmeans)
  refine ⟨(message_round_trip policy message).1 hrange, hdecoded,
    hstable fun seconds hpart => ⟨-5, by decide, ?_⟩⟩
  simpa [decoded, partOf_combined_iff] using hpart

end Policy

end Retention
