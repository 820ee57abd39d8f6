import Retention.Proofs.Http.Query
import Retention.Proofs.Ledger.Orderly
import Retention.Proofs.Rule.Grammar
import Retention.Service

/-!
# Orders

A request can be an order about a family: to give it a policy and to record it with rules and a
deletion mode, or to let it go. What orders make of a family does not depend on the other families:
a family that is given a policy has it and is recorded with it; one that is let go loses its policy,
unless it is abandoned, and what is recorded of it stays but says that it was released.

## Main definitions

* `Order`, `Standing`: orders, and how a family stands.
* `Standing.ofOrders`: how a family stands after the orders about it.
* `Service.Asks`: the order that a request is.

## Main results

* `Standing.unreleased_iff`: a family is recorded as not released when it was last given a policy.
* `Service.readMode_eq_ok_iff`, `Service.queryMode_eq_ok_iff`: the modes that requests give.
-/

namespace Retention

open Http

/-! ### Orders and families -/

/-- An order about a family: it is given the policy of a rule text, or it is let go in a mode that
may be left open. -/
inductive Order where
  | put (rules : Json) (policy : Policy) (mode : DeletionMode)
  | delete (requested : Option DeletionMode)

/-- How a family stands: the policy that it was given last, if any, and what is recorded of it. -/
structure Standing where
  live : Option Policy
  recorded : Option Recorded

/-- The orders about a family. -/
def ordersFor (family : FamilyRef) (orders : List (FamilyRef × Order)) : List Order :=
  orders.filterMap fun (target, order) => if target = family then some order else none

namespace Standing

/-- A family that there was no order about. -/
def initial : Standing := ⟨none, none⟩

/-- The mode that a family is let go in: the one that is asked for, or else the recorded one. -/
def deletionMode (standing : Standing) (requested : Option DeletionMode) : DeletionMode :=
  (requested.or (standing.recorded.map Recorded.mode)).getD .default

/-- How a family stands after an order. -/
def carryOut (standing : Standing) : Order → Standing
  | .put rules policy mode => ⟨some policy, some ⟨rules, mode, false⟩⟩
  | .delete requested =>
    { live := match standing.deletionMode requested with
        | .default => some .noGc
        | .abandon => standing.live
      recorded := standing.recorded.map fun recorded => { recorded with released := true } }

/-- How a family stands after some orders. -/
def after (orders : List Order) : Standing := orders.foldl carryOut initial

theorem after_concat (orders : List Order) (order : Order) :
    after (orders ++ [order]) = (after orders).carryOut order := by
  rw [after, List.foldl_append]
  rfl

end Standing

/-- How a family stands after the orders about it among others. -/
def Standing.ofOrders (orders : List (FamilyRef × Order)) (family : FamilyRef) : Standing :=
  .after (ordersFor family orders)

section Orders

variable {family target : FamilyRef} {orders : List (FamilyRef × Order)} {order : Order}

theorem ordersFor_concat_self : ordersFor family (orders ++ [(family, order)]) =
    ordersFor family orders ++ [order] := by
  simp [ordersFor]

theorem ordersFor_concat_of_ne (h : target ≠ family) :
    ordersFor family (orders ++ [(target, order)]) = ordersFor family orders := by
  simp [ordersFor, h]

/-- An order about a family is carried out on it. -/
theorem Standing.ofOrders_concat_self : ofOrders (orders ++ [(family, order)]) family =
    (ofOrders orders family).carryOut order := by
  rw [ofOrders, ordersFor_concat_self, after_concat]
  rfl

/-- An order about another family changes nothing. -/
theorem Standing.ofOrders_concat_of_ne (h : target ≠ family) :
    ofOrders (orders ++ [(target, order)]) family = ofOrders orders family := by
  rw [ofOrders, ordersFor_concat_of_ne h]
  rfl

/-- The orders about a family are among all of them. -/
theorem mem_of_mem_ordersFor (h : order ∈ ordersFor family orders) : (family, order) ∈ orders := by
  obtain ⟨⟨target, own⟩, hmem, hown⟩ := List.mem_filterMap.mp h
  obtain ⟨rfl, ⟨⟩⟩ := Option.ite_none_right_eq_some.mp hown
  exact hmem

end Orders

namespace Standing

/-- What is recorded of a family says that it was not released exactly when the last order about it
gave it a policy, and then it has this policy. -/
theorem unreleased_iff {orders : List Order} {recorded : Recorded} :
    ((after orders).recorded = some recorded ∧ recorded.released = false) ↔
      ∃ policy, orders.getLast? = some (.put recorded.rules policy recorded.mode) ∧
        after orders = ⟨some policy, some recorded⟩ := by
  obtain ⟨rules, mode, released⟩ := recorded
  rcases List.eq_nil_or_concat orders with rfl | ⟨front, order, rfl⟩
  · simp [after, initial]
  rw [List.concat_eq_append, after_concat, List.getLast?_concat]
  cases order with
  | put given policy chosen =>
    constructor
    · rintro ⟨hrecorded, rfl⟩
      obtain ⟨rfl, rfl, -⟩ := Recorded.mk.inj (Option.some.inj hrecorded)
      exact ⟨policy, rfl, rfl⟩
    · rintro ⟨_, -, hstanding⟩
      obtain ⟨-, hrecorded⟩ := Standing.mk.inj hstanding
      obtain ⟨rfl, rfl, rfl⟩ := Recorded.mk.inj (Option.some.inj hrecorded)
      exact ⟨rfl, rfl⟩
  | delete requested =>
    constructor
    · rintro ⟨hrecorded, rfl⟩
      obtain ⟨_, -, ⟨⟩⟩ := Option.map_eq_some_iff.mp hrecorded
    · rintro ⟨_, ⟨⟩, -⟩

end Standing

/-! ### The modes that requests give -/

/-- A word spells a deletion mode, in any letter case. -/
def DeletionMode.Spells (mode : DeletionMode) (word : String) : Prop :=
  EqIgnoringCase word.toList mode.word.toList

theorem DeletionMode.ofWord?_lowerCase_eq_some_iff {word : String} {mode : DeletionMode} :
    DeletionMode.ofWord? (String.ofList (lowerCase word)) = some mode ↔ mode.Spells word := by
  have hlower : ∀ letter ∈ mode.word.toList, letter.isLower = true := by
    have hall : mode.word.toList.all Char.isLower = true := by cases mode <;> rfl
    exact List.all_eq_true.mp hall
  rw [Spells, ← map_toLower_eq_iff hlower]
  change _ ↔ lowerCase word = mode.word.toList
  constructor
  · intro h
    have hword : mode.word = String.ofList (lowerCase word) := by simpa using List.find?_some h
    rw [hword, String.toList_ofList]
  · intro h
    rw [h, String.ofList_toList]
    cases mode <;> decide

instance (mode : DeletionMode) (word : String) : Decidable (mode.Spells word) :=
  decidable_of_iff _ DeletionMode.ofWord?_lowerCase_eq_some_iff

namespace Service

/-- A value gives a deletion mode: a word that spells it, or nothing or null for the default. -/
inductive GivesMode : Option Json → DeletionMode → Prop
  | absent : GivesMode none .default
  | null : GivesMode (some .null) .default
  | word {word : String} {mode : DeletionMode} (h : mode.Spells word) :
      GivesMode (some (.string (.whole word))) mode

theorem readMode_eq_ok_iff {value : Option Json} {mode : DeletionMode} :
    readMode value = .ok mode ↔ GivesMode value mode := by
  unfold readMode
  split
  · constructor
    · rintro ⟨⟩
      exact .absent
    · rintro ⟨⟩
      rfl
  · constructor
    · rintro ⟨⟩
      exact .null
    · rintro ⟨⟩
      rfl
  · next word =>
    constructor
    · intro h
      split at h
      · next hword =>
        obtain rfl := Except.ok.inj h
        exact .word (DeletionMode.ofWord?_lowerCase_eq_some_iff.mp hword)
      · cases h
    · rintro (_ | _ | hword)
      rw [DeletionMode.ofWord?_lowerCase_eq_some_iff.mpr hword]
  · next hnone hnull hword =>
    constructor
    · rintro ⟨⟩
    · rintro (_ | _ | hspells)
      · exact absurd rfl hnull
      · exact absurd rfl (hword _)

/-- The name of the parameter that gives a deletion mode. -/
def modeName : List Char := "deletion_mode".toList

/-- A query gives one deletion mode at most: no parameter is for it, or a single one with its name
as the key. -/
def Unambiguous (query : List Char) : Prop :=
  named modeName query = [] ∨ ∃ word, named modeName query = [⟨modeName, word⟩]

/-- The deletion mode that such a query gives, if it gives one. -/
inductive QueryGives (query : List Char) : Option DeletionMode → Prop
  | absent (h : named modeName query = []) : QueryGives query none
  | once {word : List Char} {mode : DeletionMode} (h : named modeName query = [⟨modeName, word⟩])
      (hmode : mode.Spells (String.ofList word)) : QueryGives query (some mode)

theorem queryMode_eq_ok_iff {query : List Char} {requested : Option DeletionMode}
    (hsingle : Unambiguous query) :
    queryMode query = .ok requested ↔ QueryGives query requested := by
  rcases hsingle with habsent | ⟨word, honce⟩
  · have hvalue : plainValue? "deletion_mode".toList query = none := plainValue?_of_absent habsent
    rw [queryMode, hvalue]
    constructor
    · rintro ⟨⟩
      exact .absent habsent
    · rintro (_ | ⟨h, -⟩)
      · rfl
      · cases habsent.symm.trans h
  · have hvalue : plainValue? "deletion_mode".toList query = some word :=
      plainValue?_of_once honce rfl
    rw [queryMode, hvalue]
    constructor
    · intro h
      obtain ⟨mode, hmode, rfl⟩ := map_eq_ok_iff.mp h
      rcases readMode_eq_ok_iff.mp hmode with _ | _ | hspells
      exact .once honce hspells
    · rintro (h | ⟨h, hmode⟩)
      · cases honce.symm.trans h
      · obtain ⟨⟨⟩, -⟩ := List.cons.inj (honce.symm.trans h)
        exact map_eq_ok_iff.mpr ⟨_, readMode_eq_ok_iff.mpr (.word hmode), rfl⟩

/-! ### Requests -/

/-- A request that has been read: the place that it is about, its query, and the value of its
content. -/
structure Asked where
  place : Place
  query : List Char
  value : Json

/-- What a request comes to, if it is carried, leads to a place, and has content that can be read.
-/
def asked? (service : Service) (request : Request) : Option Asked :=
  if request.isCarried then
    (Target.ofText? request.target).bind fun target =>
      match Place.ofPath target.path, request.value service.readsJson with
      | .found place, .ok value => some ⟨place, target.query, value⟩
      | _, _ => none
  else none

/-- The order that a request is. The rules that are recorded are those of its content, with null for
none, and the policy is the one that they compile to. -/
inductive Asks (service : Service) (request : Request) : FamilyRef → Order → Prop
  | put {table : TableName} {family : Text} {query : List Char} {value : Json}
      {mode : DeletionMode} {policy : Policy} (hmethod : request.method = .put)
      (hasked : service.asked? request = some ⟨.policy table family, query, value⟩)
      (hobject : value.isObject = true) (hmode : GivesMode (value.member? "deletion_mode") mode)
      (hrules : Policy.ofText (value.member? "gc_rules") = .ok policy) :
      Asks service request (target table family)
        (.put ((value.member? "gc_rules").getD .null) policy mode)
  | delete {table : TableName} {family : Text} {query : List Char} {value : Json}
      {requested : Option DeletionMode} (hmethod : request.method = .delete)
      (hasked : service.asked? request = some ⟨.policy table family, query, value⟩)
      (hmode : QueryGives query requested) :
      Asks service request (target table family) (.delete requested)

/-- A request that can be such an order. -/
inductive Changes (service : Service) (request : Request) : Prop
  | put (hmethod : request.method = .put)
  | delete (hmethod : request.method = .delete)
      (hsingle : ∀ asked, service.asked? request = some asked → Unambiguous asked.query)

end Service

end Retention
