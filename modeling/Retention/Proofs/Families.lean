import Retention.Proofs.World
import Retention.Table.Name

/-!
# The families of a world

A world has a family under a name when its table is there and shows one. Giving a family a rule
message replaces its rule and touches nothing else: the other families of its table and all other
tables are as they were. That is all the admin API ever does to a table.

## Main definitions

* `World.family?`: the family that a world has under a name.
* `World.ownFamily?`: the family that a table itself has.
* `World.Given`: a family has been given a rule message.
* `World.HidesNext`: a fault that makes a table look missing.

## Main results

* `World.Given.family?_self`, `World.Given.family?_of_ne`: what becomes of the families.
* `World.given_of_modifyFamily`: a call that replaces a rule does just that.
* `World.exists_modifyFamily`: without faults it does so when the table itself has the family.
-/

namespace Retention

/-! ### The families of a world -/

/-- The rule of a family is replaced when its table has the family. -/
theorem Families.isSome_replace? (id : Text) (message families : Json) :
    (replace? id message families).isSome = (families.member? id).isSome := by
  cases families with
  | object members => exact Option.isSome_map
  | _ => rfl

/-- A family is told by its table and its own name. -/
theorem FamilyRef.ext {target other : FamilyRef} (htable : target.table = other.table)
    (hfamily : target.family = other.family) : target = other := by
  obtain ⟨table, family⟩ := target
  obtain ⟨otherTable, otherFamily⟩ := other
  obtain rfl : table = otherTable := htable
  obtain rfl : family = otherFamily := hfamily
  rfl

/-- The families next to one whose rule message was replaced are found as before. -/
theorem Families.find?_replace?_of_ne {id other : Text} {message families changed : Json}
    (hne : other ≠ id) (h : replace? id message families = some changed) :
    find? other changed = find? other families := by
  cases families with
  | object members =>
    obtain ⟨_, -, rfl⟩ := Option.map_eq_some_iff.mp h
    change ((Entries.put id _ members).lookup other).or _ = (members.lookup other).or _
    rw [Entries.lookup_put_of_ne hne]
  | _ => simp [replace?] at h

namespace World

variable {world before after : World} {target other : FamilyRef}

/-- The family that a world has under a name. -/
def family? (world : World) (target : FamilyRef) : Option Json :=
  (world.tables.lookup target.table).bind (Families.find? target.family)

theorem family?_congr (h : after.tables = before.tables) (target : FamilyRef) :
    after.family? target = before.family? target := by
  rw [family?, family?, h]

/-- The family that a table itself has under a name; only such a family can be given a rule. -/
def ownFamily? (world : World) (target : FamilyRef) : Option Json :=
  (world.tables.lookup target.table).bind fun families => families.member? target.family

theorem ownFamily?_congr (h : after.tables = before.tables) (target : FamilyRef) :
    after.ownFamily? target = before.ownFamily? target := by
  rw [ownFamily?, ownFamily?, h]

/-- A family that a table itself has is found as it is. -/
theorem family?_of_ownFamily? {family : Json} (h : world.ownFamily? target = some family) :
    world.family? target = some family := by
  obtain ⟨families, hlookup, hmember⟩ := Option.bind_eq_some_iff.mp h
  rw [family?, hlookup]
  cases families with
  | object members => exact Families.find?_of_lookup hmember
  | _ => cases hmember

/-- A family has been given a rule message: it is there, its rule was replaced, and no other table
was touched. -/
def Given (before after : World) (target : FamilyRef) (message : Json) : Prop :=
  ∃ families changed, before.tables.lookup target.table = some families ∧
    Families.replace? target.family message families = some changed ∧
    after.tables = Entries.put target.table changed before.tables

/-- What is done besides the tables is no part of it. -/
theorem Given.congr {earlier later : World} {message : Json}
    (h : Given before after target message) (hbefore : earlier.tables = before.tables)
    (hafter : later.tables = after.tables) : Given earlier later target message := by
  obtain ⟨families, changed, hlookup, hreplace, hput⟩ := h
  rw [← hbefore] at hlookup hput
  exact ⟨families, changed, hlookup, hreplace, hafter.trans hput⟩

/-- A family that was given a rule message has it. -/
theorem Given.family?_self {message : Json} (h : Given before after target message) :
    after.family? target = some (.object [("gcRule", message)]) := by
  obtain ⟨families, changed, -, hreplace, htables⟩ := h
  rw [family?, htables, Entries.lookup_put_self]
  exact Families.find?_of_replace? hreplace

/-- The other families are as they were. -/
theorem Given.family?_of_ne {message : Json} (h : Given before after target message)
    (hne : other ≠ target) : after.family? other = before.family? other := by
  obtain ⟨families, changed, hlookup, hreplace, htables⟩ := h
  rw [family?, family?, htables]
  by_cases htable : other.table = target.table
  · -- The table of the family is another one only in the family's own place.
    have hfamily : other.family ≠ target.family := fun heq => hne (FamilyRef.ext htable heq)
    rw [htable, Entries.lookup_put_self, hlookup]
    exact Families.find?_replace?_of_ne hfamily hreplace
  · rw [Entries.lookup_put_of_ne htable]

/-- A table has the family that was given a rule message. -/
theorem Given.ownFamily?_self {message : Json} (h : Given before after target message) :
    after.ownFamily? target = some (.object [("gcRule", message)]) := by
  obtain ⟨families, changed, -, hreplace, htables⟩ := h
  rw [ownFamily?, htables, Entries.lookup_put_self]
  cases families with
  | object members =>
    obtain ⟨_, -, rfl⟩ := Option.map_eq_some_iff.mp hreplace
    exact Entries.lookup_put_self _ _ _
  | _ => cases hreplace

/-- Only a family that its table has is given a rule message. -/
theorem Given.exists_ownFamily? {message : Json} (h : Given before after target message) :
    ∃ held, before.ownFamily? target = some held := by
  obtain ⟨families, changed, hlookup, hreplace, -⟩ := h
  obtain ⟨held, hheld⟩ := Option.isSome_iff_exists.mp
    ((Families.isSome_replace? target.family message families).symm.trans (by rw [hreplace]; rfl))
  exact ⟨held, Option.bind_eq_some_iff.mpr ⟨families, hlookup, hheld⟩⟩

/-- The other families of a table are as they were. -/
theorem Given.ownFamily?_of_ne {message : Json} (h : Given before after target message)
    (hne : other ≠ target) : after.ownFamily? other = before.ownFamily? other := by
  obtain ⟨families, changed, hlookup, hreplace, htables⟩ := h
  rw [ownFamily?, ownFamily?, htables]
  by_cases htable : other.table = target.table
  · have hfamily : other.family ≠ target.family := fun heq => hne (FamilyRef.ext htable heq)
    rw [htable, Entries.lookup_put_self, hlookup]
    cases families with
    | object members =>
      obtain ⟨_, -, rfl⟩ := Option.map_eq_some_iff.mp hreplace
      exact Entries.lookup_put_of_ne hfamily _ _
    | _ => cases hreplace
  · rw [Entries.lookup_put_of_ne htable]

/-- The next call for a table fails as if the table were missing. -/
def HidesNext (world : World) : Prop :=
  ∃ failure, (Fault.strike .getTable world.faults).1 = some failure ∧
    (Failure.ofCall "getTable" failure).hasStoreCode .notFound = true

/-! ### Calls that change no table -/

/-- The tables are as they were. -/
def SameTables (before after : World) : Prop := after.tables = before.tables

instance : Std.Refl SameTables := ⟨fun _ => rfl⟩

instance : IsTrans World SameTables := ⟨fun _ _ _ h h' => Eq.trans h' h⟩

theorem sameTables_strike (point : FaultPoint) : (strike point).Keeps SameTables := fun world => by
  rw [strike_snd]
  rfl

theorem sameTables_showTable (table : Text) : (showTable table).Keeps SameTables :=
  (sameTables_strike _).bind fun _ world => by
    split <;> rfl

/-- What the admin API shows when asked for a table. -/
theorem showTable_fst (table : Text) (world : World) :
    (showTable table world).1 =
      match (Fault.strike .getTable world.faults).1 with
      | some failure => .error failure
      | none => (world.tables.lookup table).elim (.error (tableMissing table)) fun families =>
        .ok (Families.shownTable families) := by
  cases hstrike : Fault.strike .getTable world.faults with
  | mk struck faults =>
    cases struck with
    | some failure => exact congrArg Prod.fst (Step.bind_of_error (strike_of_some hstrike) _)
    | none =>
      refine (congrArg Prod.fst (Step.bind_of_ok (strike_of_none hstrike) _)).trans ?_
      dsimp only
      cases world.tables.lookup table <;> rfl

/-- What the admin API shows when a rule is replaced and no fault waits. -/
theorem modifyFamily_fst (table family : Text) (message : Json) (hfaults : world.faults = []) :
    (modifyFamily table family message world).1 =
      (world.tables.lookup table).elim (.error (tableMissing table)) fun families =>
        (Families.replace? family message families).elim (.error (familyMissing family))
          fun changed => .ok (world.reply.getD (Families.shownTable changed)) := by
  refine (congrArg Prod.fst (Step.bind_of_ok (strike_of_faults_nil hfaults _) _)).trans ?_
  dsimp only
  cases world.tables.lookup table with
  | none => rfl
  | some families =>
    dsimp only [Option.elim]
    cases Families.replace? family message families <;> rfl

/-- When the admin API replaces a rule, the family has been given the message. -/
theorem given_of_modifyFamily {table family : Text} {message shown : Json}
    (h : modifyFamily table family message world = (.ok shown, after)) :
    Given world after ⟨table, family⟩ message := by
  obtain ⟨_, struck, hstrike, hmodify⟩ := Step.bind_eq_ok_iff.mp h
  have htables : struck.tables = world.tables := (sameTables_strike _).of_eq hstrike
  split at hmodify
  · cases hmodify
  · next families hlookup =>
    rw [htables] at hlookup
    split at hmodify
    · cases hmodify
    · next changed hreplace =>
      obtain ⟨-, rfl⟩ := Prod.mk.inj hmodify
      exact ⟨families, changed, hlookup, hreplace, by rw [← htables]⟩

/-- When the admin API does not replace a rule, it changes no table. -/
theorem sameTables_of_modifyFamily {table family : Text} {message : Json} {failure : Failure}
    (h : modifyFamily table family message world = (.error failure, after)) :
    SameTables world after := by
  rcases Step.bind_eq_error_iff.mp h with hstrike | ⟨_, struck, hstrike, hmodify⟩
  · exact (sameTables_strike _).of_eq hstrike
  · have hstruck := (sameTables_strike _).of_eq hstrike
    split at hmodify
    · rwa [← (Prod.mk.inj hmodify).2]
    · split at hmodify
      · rwa [← (Prod.mk.inj hmodify).2]
      · cases hmodify

/-- A call that replaces a rule passes when no fault waits and the table itself has the family. It
shows the answer that was prepared, or else the table with the new rule. -/
theorem exists_modifyFamily {table family : Text} {held : Json} (hfaults : world.faults = [])
    (hentry : world.ownFamily? ⟨table, family⟩ = some held) (message : Json) : ∃ changed after,
      modifyFamily table family message world =
        (.ok (world.reply.getD (Families.shownTable changed)), after) ∧ after.faults = [] ∧
        Families.find? family changed = some (.object [("gcRule", message)]) := by
  obtain ⟨families, hlookup, hmember⟩ := Option.bind_eq_some_iff.mp hentry
  obtain ⟨changed, hchanged⟩ := Option.isSome_iff_exists.mp
    ((Families.isSome_replace? family message families).trans (by rw [hmember]; rfl))
  have hmodify : modifyFamily table family message world =
      (.ok (world.reply.getD (Families.shownTable changed)), { world with
        faults := [], tables := Entries.put table changed world.tables, reply := none }) := by
    refine (Step.bind_of_ok (strike_of_faults_nil hfaults _) _).trans ?_
    simp only [hlookup, hchanged]
  exact ⟨changed, _, hmodify, rfl, Families.find?_of_replace? hchanged⟩

end World

end Retention
