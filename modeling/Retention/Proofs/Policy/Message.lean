import Retention.Proofs.Number.Numeral
import Retention.Table.Message

/-!
# Policies and their rule messages

The message that sets a policy means that policy, as long as its ages are whole seconds that have a
double of their own and its counts are positive. Nothing else is asked of it: a combination may have
any number of children, and an absence of collection may stand anywhere in the tree.

## Main definitions

* `Policy.Sendable`: the policies whose messages mean them.

## Main results

* `Policy.Sendable.ofMessage_toMessage`: a policy is read back from its message.
-/

namespace Retention.Policy

/-- The policies whose messages mean them. -/
inductive Sendable : Policy → Prop
  | noGc : Sendable .noGc
  | maxAge {seconds : Nat} (hsafe : seconds ≤ 2 ^ 53 - 1) : Sendable (.maxAge (.int seconds))
  | maxVersions {count : Number} (hpositive : count.isPositive = true) :
      Sendable (.maxVersions count)
  | combined {mode : Mode} {children : List Policy}
      (hchildren : ∀ child ∈ children, Sendable child) : Sendable (.combined mode children)

/-- The age of a message without nanoseconds is its seconds. -/
theorem wholeSeconds_int {seconds : Int} (h : seconds.natAbs ≤ 2 ^ 53) :
    Age.wholeSeconds (.object [("seconds", .number (.int seconds)), ("nanos", .number 0)]) =
      .ok (.int seconds) := by
  have hseconds : Age.printedNumber (.number (.int seconds)) = .ok (.int seconds) :=
    congrArg Except.ok (Number.ofText_text_signed h)
  change (Age.printedNumber (.number (.int seconds)) >>= fun seconds => pure seconds) = _
  rw [hseconds]
  rfl

/-- An age of whole seconds is read back from its message. -/
theorem ofMessage_toMessage_maxAge {seconds : Int} (h : seconds.natAbs ≤ 2 ^ 53) :
    ofMessage (toMessage (.maxAge (.int seconds))) = .ok (.maxAge (.int seconds)) := by
  have hleaf : ofMessage (toMessage (.maxAge (.int seconds))) = (Age.wholeSeconds (.object
      [("seconds", .number (.int seconds)), ("nanos", .number 0)])).map Policy.maxAge := rfl
  rw [hleaf, wholeSeconds_int h]
  rfl

/-- A positive number of versions is read back from its message. -/
theorem ofMessage_toMessage_maxVersions {count : Number} (h : count.isPositive = true) :
    ofMessage (toMessage (.maxVersions count)) = .ok (.maxVersions count) :=
  congrArg Except.ok (if_pos h)

/-- Policies that are each read back from their message are read back from a list of them. -/
theorem ofMessages_toMessages {policies : List Policy}
    (h : ∀ policy ∈ policies, ofMessage (toMessage policy) = .ok policy) :
    ofMessages (toMessages policies) = .ok policies := by
  induction policies with
  | nil => rfl
  | cons policy rest ih =>
    rw [toMessages, ofMessages, h policy List.mem_cons_self,
      ih fun other hother => h other (List.mem_cons_of_mem _ hother)]
    rfl

/-- A combination is what its messages mean, under its mode. -/
theorem ofMessage_toMessage_combined (mode : Mode) (children : List Policy) :
    ofMessage (toMessage (.combined mode children)) =
      (ofMessages (toMessages children)).map (combined mode) := by
  cases mode <;> rfl

/-- **There and back over the wire.** A policy is read back from the message that sets it. -/
theorem Sendable.ofMessage_toMessage {policy : Policy} (h : Sendable policy) :
    ofMessage (toMessage policy) = .ok policy := by
  induction h with
  | noGc => rfl
  | maxAge hsafe => exact ofMessage_toMessage_maxAge (by omega)
  | maxVersions hpositive => exact ofMessage_toMessage_maxVersions hpositive
  | combined _ ih =>
    rw [ofMessage_toMessage_combined, ofMessages_toMessages ih]
    rfl

end Retention.Policy
