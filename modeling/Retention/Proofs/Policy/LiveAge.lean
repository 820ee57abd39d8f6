import Retention.Proofs.Number.Ceiling
import Retention.Proofs.Policy.Place

/-!
# The ages of live rules

A family may have an age with a fraction of a second, which no rule can say. It is read as the least
number of whole seconds that is not below it, so what is shown never keeps cells for less time than
the family does. The seconds may come as a number, as decimal digits or as an object that prints
these digits, and what is left out or null counts as zero. The nanoseconds may have the other sign.

The quotient by the nanoseconds of a second is rounded to a double before it is rounded up. The
range of an age is such that this makes no difference, and that the sum is exact.

## Main definitions

* `LiveAge`: ages in seconds and nanoseconds, with their range.
* `LiveAge.length`: how long an age is, in seconds.
* `Policy.AgeAt`, `LiveAge.StandsAt`: an age that counts at a place in a message.

## Main results

* `LiveAge.wholeSeconds_eq`: the whole seconds of an age are the ceiling of its length.
* `Policy.at?_eq_maxAge_iff`: the ages in a policy are read from those in its message.
* `Policy.live_ages_round_up`: at every depth an age is read as the least number of whole seconds
  that is not below it.
-/

namespace Retention

/-! ### Where ages count -/

namespace Policy

variable {members : List (Text × Json)} {message : Json} {policy : Policy} {seconds : Number}

/-- Some members set an age, and no combination beside it. -/
def SetsAge (members : List (Text × Json)) (age : Json) : Prop :=
  (∀ mode : Mode, Unset members mode.word) ∧
    members.lookup (.whole "maxAge") = some age ∧ age.isTruthy = true

/-- An age that counts at a place in a message. -/
def AgeAt (age : Json) (place : List (Mode × Nat)) (message : Json) : Prop :=
  ∃ members, MessageAt (.object members) place message ∧ SetsAge members age

/-- A leaf is an age when one is set. -/
theorem ofLeaf_eq_maxAge_iff : ofLeaf members = .ok (.maxAge seconds) ↔
    ∃ age, members.lookup (.whole "maxAge") = some age ∧ age.isTruthy = true ∧
      Age.wholeSeconds age = .ok seconds := by
  rw [ofLeaf]
  cases hage : (members.lookup (.whole "maxAge")).filter Json.isTruthy with
  | some age =>
    obtain ⟨hlookup, htruthy⟩ := Option.filter_eq_some_iff.mp hage
    rw [exceptMap_eq_ok_iff]
    constructor
    · rintro ⟨_, hseconds, ⟨⟩⟩
      exact ⟨age, hlookup, htruthy, hseconds⟩
    · rintro ⟨other, hother, -, hseconds⟩
      obtain rfl := Option.some.inj (hlookup.symm.trans hother)
      exact ⟨seconds, hseconds, rfl⟩
  | none =>
    refine iff_of_false (fun h => ?_) ?_
    · dsimp only at h
      split at h
      · split at h <;> cases h
      · cases h
    · rintro ⟨age, hlookup, htruthy, -⟩
      rw [Option.filter_eq_some_iff.mpr ⟨hlookup, htruthy⟩] at hage
      cases hage

/-- A message means an age when one is set and no combination is. -/
theorem ofMessage_eq_maxAge_iff : ofMessage message = .ok (.maxAge seconds) ↔
    ∃ members age, message = .object members ∧ SetsAge members age ∧
      Age.wholeSeconds age = .ok seconds := by
  constructor
  · intro h
    cases message with
    | object members =>
      obtain hunion | ⟨-, hintersection⟩ | ⟨hunset, hleaf⟩ := ofMessage_object_sources h
      · obtain ⟨_, ⟨⟩⟩ := exists_combined_of_branch? hunion
      · obtain ⟨_, ⟨⟩⟩ := exists_combined_of_branch? hintersection
      · obtain ⟨age, hlookup, htruthy, hseconds⟩ := ofLeaf_eq_maxAge_iff.mp hleaf
        exact ⟨members, age, rfl, ⟨hunset, hlookup, htruthy⟩, hseconds⟩
    | _ => cases h
  · rintro ⟨members, age, rfl, ⟨hunset, hlookup, htruthy⟩, hseconds⟩
    rw [ofMessage_eq_ofLeaf hunset]
    exact ofLeaf_eq_maxAge_iff.mpr ⟨age, hlookup, htruthy, hseconds⟩

/-- The ages in a policy are read from the ages in its message, each at its own place. -/
theorem at?_eq_maxAge_iff {place : List (Mode × Nat)} (h : ofMessage message = .ok policy) :
    policy.at? place = some (.maxAge seconds) ↔
      ∃ age, AgeAt age place message ∧ Age.wholeSeconds age = .ok seconds := by
  rw [at?_eq_some_iff h]
  simp only [ofMessage_eq_maxAge_iff]
  constructor
  · rintro ⟨_, hplace, members, age, rfl, hsets, hseconds⟩
    exact ⟨age, ⟨members, hplace, hsets⟩, hseconds⟩
  · rintro ⟨age, ⟨members, hplace, hsets⟩, hseconds⟩
    exact ⟨_, hplace, members, age, rfl, hsets, hseconds⟩

end Policy

/-! ### The length of an age -/

/-- An age in seconds and nanoseconds of either sign. The seconds and the next whole number have
doubles of their own, and the nanoseconds are less than a second. -/
structure LiveAge where
  seconds : ℤ
  nanos : ℤ
  natAbs_seconds_le : seconds.natAbs ≤ 2 ^ 53 - 2
  natAbs_nanos_lt : nanos.natAbs < 10 ^ 9

namespace LiveAge

/-- How long an age is, in seconds. -/
def length (age : LiveAge) : ℚ := age.seconds + age.nanos / 10 ^ 9

/-- The ways to give seconds: as a number, as its decimal digits, or as an object that prints them.
Zero may be left out or null. -/
inductive GivesSeconds (seconds : ℤ) : Option Json → Prop
  | number : GivesSeconds seconds (some (.number (.int seconds)))
  | digits : GivesSeconds seconds (some (.string (toString seconds)))
  | printed {members : List (Text × Json)}
      (hprinted : Age.printedObject members = some (.whole (toString seconds))) :
      GivesSeconds seconds (some (.object members))
  | missing (hzero : seconds = 0) : GivesSeconds seconds none
  | null (hzero : seconds = 0) : GivesSeconds seconds (some .null)

/-- The ways to give nanoseconds: as a number, and zero may be left out or null. -/
inductive GivesNanos (nanos : ℤ) : Option Json → Prop
  | number : GivesNanos nanos (some (.number (.int nanos)))
  | missing (hzero : nanos = 0) : GivesNanos nanos none
  | null (hzero : nanos = 0) : GivesNanos nanos (some .null)

/-- Some members give an age. -/
structure WrittenAs (age : LiveAge) (members : List (Text × Json)) : Prop where
  seconds : GivesSeconds age.seconds (members.lookup (.whole "seconds"))
  nanos : GivesNanos age.nanos (members.lookup (.whole "nanos"))

/-- An age stands at a place in a message. -/
def StandsAt (age : LiveAge) (place : List (Mode × Nat)) (message : Json) : Prop :=
  ∃ members, Policy.AgeAt (.object members) place message ∧ age.WrittenAs members

variable {age : LiveAge} {members : List (Text × Json)}

/-! ### The whole seconds of an age -/

/-- Less than a second rounds up to a second if it is positive, and to nothing otherwise. -/
theorem ceil_length (age : LiveAge) :
    ⌈age.length⌉ = if 0 < age.nanos then age.seconds + 1 else age.seconds := by
  have hrange := age.natAbs_nanos_lt
  have hsecond : (0 : ℚ) < 10 ^ 9 := by norm_num
  rw [length, Int.ceil_intCast_add]
  split
  · next hpositive =>
    have hlow : (0 : ℚ) < age.nanos := by exact_mod_cast hpositive
    have hhigh : (age.nanos : ℚ) ≤ 10 ^ 9 := by exact_mod_cast (by omega : age.nanos ≤ 10 ^ 9)
    have hone : ⌈(age.nanos / 10 ^ 9 : ℚ)⌉ = 1 :=
      Int.ceil_eq_iff.mpr ⟨by simpa using hlow, by simpa [div_le_one hsecond] using hhigh⟩
    rw [hone]
  · next hnegative =>
    have hlow : (-10 ^ 9 : ℚ) < age.nanos := by
      exact_mod_cast (by omega : (-10 ^ 9 : ℤ) < age.nanos)
    have hhigh : (age.nanos : ℚ) ≤ 0 := by exact_mod_cast not_lt.mp hnegative
    have hzero : ⌈(age.nanos / 10 ^ 9 : ℚ)⌉ = 0 := by
      rw [Int.ceil_eq_iff, lt_div_iff₀ hsecond, div_le_iff₀ hsecond]
      constructor
      · simpa using hlow
      · simpa using hhigh
    rw [hzero, add_zero]

/-- Seconds are read whatever way they are given. -/
theorem GivesSeconds.seconds_eq {seconds : ℤ}
    (h : GivesSeconds seconds (members.lookup (.whole "seconds")))
    (hrange : seconds.natAbs ≤ 2 ^ 53) : Age.seconds (.object members) = .ok (.int seconds) := by
  have hmember : (Json.object members).member? "seconds" = members.lookup (.whole "seconds") := rfl
  have hdigits := Number.ofText_toString hrange
  unfold Age.seconds
  rw [hmember]
  generalize members.lookup (.whole "seconds") = given at h
  cases h with
  | number => exact congrArg Except.ok (Number.ofText_text_signed hrange)
  | digits => exact congrArg Except.ok hdigits
  | printed hprinted =>
    simp only [hprinted]
    exact congrArg Except.ok hdigits
  | missing hzero | null hzero => rw [hzero]; rfl

/-- Nanoseconds are read whatever way they are given. -/
theorem GivesNanos.nanos_eq {nanos : ℤ} (h : GivesNanos nanos (members.lookup (.whole "nanos"))) :
    Age.nanos (.object members) = .ok (.int nanos) := by
  have hmember : (Json.object members).member? "nanos" = members.lookup (.whole "nanos") := rfl
  unfold Age.nanos
  rw [hmember]
  generalize members.lookup (.whole "nanos") = given at h
  cases h with
  | number => rfl
  | missing hzero | null hzero => rw [hzero]; rfl

/-- The whole seconds of an age are the least that are not below its length. -/
theorem wholeSeconds_eq (h : age.WrittenAs members) :
    Age.wholeSeconds (.object members) = .ok (.int ⌈age.length⌉) := by
  have hseconds := age.natAbs_seconds_le
  have hnanos := age.natAbs_nanos_lt
  rw [Age.wholeSeconds, h.seconds.seconds_eq (by omega), h.nanos.nanos_eq, ceil_length]
  change Except.ok (if Number.isPositive (.int age.nanos) then _ else _) = _
  simp only [Number.isPositive, decide_eq_true_eq]
  split
  · -- The bound on the seconds leaves room for one more.
    next hpositive =>
    rw [Number.ceil_divNat_int hpositive (by rw [Age.nanosPerSecond]; omega) (by decide),
      Number.add_int (show (age.seconds + 1).natAbs ≤ 2 ^ 53 by omega)]
  · rfl

/-- Where an age stands in a message, the policy of the message has its whole seconds. -/
theorem StandsAt.at?_eq {place : List (Mode × Nat)} {message : Json} {policy : Policy}
    (h : age.StandsAt place message) (hpolicy : Policy.ofMessage message = .ok policy) :
    policy.at? place = some (.maxAge (.int ⌈age.length⌉)) := by
  obtain ⟨members, hage, hwritten⟩ := h
  exact (Policy.at?_eq_maxAge_iff hpolicy).mpr ⟨_, hage, wholeSeconds_eq hwritten⟩

/-- A message that is an age means its whole seconds. -/
theorem StandsAt.ofMessage_eq {message : Json} (h : age.StandsAt [] message) :
    Policy.ofMessage message = .ok (.maxAge (.int ⌈age.length⌉)) := by
  obtain ⟨members, ⟨_, hplace, hsets⟩, hwritten⟩ := h
  cases hplace
  exact Policy.ofMessage_eq_maxAge_iff.mpr ⟨_, _, rfl, hsets, wholeSeconds_eq hwritten⟩

end LiveAge

namespace Policy

/-- **Live ages round up.** A message with an age means the least number of whole seconds that is
not below that age, whichever way its seconds are given. Every message of the admin API means some
policy. A policy has ages only where its message has them, however deep and whatever stands around
them, and there it has that number of seconds, which is never shorter than the live age. Of two live
ages, in one message or in two, the longer one is not read as the shorter. -/
theorem live_ages_round_up :
    (∀ (age : LiveAge) (message : Json), age.StandsAt [] message →
      ∃ seconds : ℤ, ofMessage message = .ok (.maxAge (.int seconds)) ∧
        IsLeast {whole : ℤ | age.length ≤ whole} seconds) ∧
    (∀ message : Json, IsMessage message → ∃ policy, ofMessage message = .ok policy) ∧
    ∀ (message : Json) (policy : Policy), ofMessage message = .ok policy →
      (∀ place seconds, policy.at? place = some (.maxAge seconds) →
        ∃ age, AgeAt age place message) ∧
      ∀ (age : LiveAge) (place : List (Mode × Nat)), age.StandsAt place message →
        ∃ seconds : ℤ, policy.at? place = some (.maxAge (.int seconds)) ∧
          IsLeast {whole : ℤ | age.length ≤ whole} seconds ∧
          ∀ (longer : LiveAge) (elsewhere : List (Mode × Nat)) (other : Json) (meant : Policy),
            longer.StandsAt elsewhere other → ofMessage other = .ok meant →
            age.length ≤ longer.length →
            ∃ more : ℤ, meant.at? elsewhere = some (.maxAge (.int more)) ∧ seconds ≤ more := by
  have hleast (age : LiveAge) : IsLeast {whole : ℤ | age.length ≤ whole} ⌈age.length⌉ :=
    ⟨Set.mem_ofPred.mpr (Int.le_ceil _), fun _ hle => Int.ceil_le.mpr (Set.mem_ofPred.mp hle)⟩
  refine ⟨fun age message hstands => ⟨_, hstands.ofMessage_eq, hleast age⟩,
    fun _ hmessage => hmessage.exists_ofMessage, fun message policy hpolicy => ⟨?_, ?_⟩⟩
  · intro place seconds hseconds
    obtain ⟨age, hage, -⟩ := (at?_eq_maxAge_iff hpolicy).mp hseconds
    exact ⟨age, hage⟩
  · intro age place hstands
    refine ⟨_, hstands.at?_eq hpolicy, hleast age, ?_⟩
    intro longer elsewhere other meant hlonger hmeant hle
    exact ⟨_, hlonger.at?_eq hmeant, Int.ceil_mono hle⟩

/-- A nanosecond less than a minute is read as a minute in an intersection in a union, and a whole
minute that an object prints is not read as less. -/
theorem live_ages_round_up_nested :
    let rule := Json.object [("maxAge", .object
      [("seconds", .string "59"), ("nanos", .number (.int 999999999))])]
    let inner := Json.object [("intersection", .object [("rules", .array [rule])])]
    let message := Json.object [("union", .object [("rules", .array [.object [], inner])])]
    let place : List (Mode × Nat) := [(.union, 1), (.intersection, 0)]
    let minute := Json.object [("maxAge", .object
      [("seconds", .object [("$long", .string "60")]), ("nanos", .null)])]
    LiveAge.StandsAt ⟨59, 999999999, by decide, by decide⟩ place message ∧ IsMessage message ∧
      (∃ policy, ofMessage message = .ok policy ∧ policy.at? place = some (.maxAge 60) ∧
        ∃ found, AgeAt found place message) ∧
      LiveAge.StandsAt ⟨60, 0, by decide, by decide⟩ [] minute ∧
      ofMessage minute = .ok (.maxAge 60) := by
  intro rule inner message place minute
  let age : LiveAge := ⟨59, 999999999, by decide, by decide⟩
  let whole : LiveAge := ⟨60, 0, by decide, by decide⟩
  have hmodes (value : Json) (mode : Mode) :
      List.lookup (.whole mode.word) [((.whole "maxAge" : Text), value)] = none := by
    cases mode <;> rfl
  have hunset (value : Json) (mode : Mode) : Unset [("maxAge", value)] mode.word :=
    .of_none (hmodes value mode)
  have hstands : age.StandsAt place message :=
    ⟨_, ⟨_, .inside ⟨⟨_, rfl, rfl⟩, nofun⟩ rfl
      (.inside ⟨⟨_, rfl, rfl⟩, fun _ => .of_none rfl⟩ rfl .here), hunset _, rfl, rfl⟩,
      .digits, .number⟩
  have hwhole : whole.StandsAt [] minute :=
    ⟨_, ⟨_, .here, hunset _, rfl, rfl⟩, .printed rfl, .null rfl⟩
  have hrule : IsMessage rule :=
    .leaf (hmodes _) (.of_lookup rfl (Or.inr ⟨_, rfl, .of_lookup rfl (Or.inr (.text _)),
      .of_lookup rfl (Or.inr ⟨_, rfl⟩)⟩)) (.of_none rfl)
  have hempty : IsMessage (.object []) := .leaf (fun _ => rfl) (.of_none rfl) (.of_none rfl)
  have hinner : IsMessage inner :=
    .combination .intersection (List.forall_mem_singleton.mpr hrule)
  have hmessage : IsMessage message :=
    .combination .union
      (List.forall_mem_cons.mpr ⟨hempty, List.forall_mem_singleton.mpr hinner⟩)
  obtain ⟨hsingle, hmeans, hdeep⟩ := live_ages_round_up
  obtain ⟨policy, hpolicy⟩ := hmeans message hmessage
  obtain ⟨hfound, hread⟩ := hdeep message policy hpolicy
  obtain ⟨seconds, hseconds, hleast, hmonotone⟩ := hread age place hstands
  obtain ⟨more, hmore, hmoreLeast⟩ := hsingle whole minute hwhole
  have hlength : age.length = 60 - 1 / 10 ^ 9 := by norm_num [LiveAge.length, age]
  have hwholeLength : whole.length = 60 := by norm_num [LiveAge.length, whole]
  have hsixty : seconds = 60 := by
    have hlow : age.length ≤ seconds := Set.mem_ofPred.mp hleast.1
    have hhigh : seconds ≤ 60 := hleast.2 (Set.mem_ofPred.mpr (by rw [hlength]; norm_num))
    have habove : (59 : ℚ) < seconds := by linarith
    have habove' : 59 < seconds := by exact_mod_cast habove
    omega
  have hmoreSixty : more = 60 := by
    have hhigh : more ≤ 60 := hmoreLeast.2 (Set.mem_ofPred.mpr (by rw [hwholeLength]; norm_num))
    obtain ⟨_, ⟨⟩, hle⟩ := hmonotone whole [] minute _ hwhole hmore
      (by rw [hlength, hwholeLength]; norm_num)
    omega
  subst hsixty hmoreSixty
  exact ⟨hstands, hmessage, ⟨policy, hpolicy, hseconds, hfound place _ hseconds⟩, hwhole, hmore⟩

end Policy

end Retention
