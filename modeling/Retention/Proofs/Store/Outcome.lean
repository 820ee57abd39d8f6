import Retention.Proofs.Service.WriteBack
import Retention.Proofs.Table.Name

/-!
# What the store's operations fail with

Setting, getting and listing policies begin with the names: one that does not follow its pattern is
refused, and nothing was asked for. Otherwise one call is made, for these names and no others, and
what it is rejected with is what the operation fails with: a store failure as it is, and anything
else as the cause of a store failure, under the code of its status. A value that cannot be put into
words is not reported so, because its words go into the message.

Reading a family and comparing it with a rule text take a failure of one code as the absence of a
policy, and pass on every other.

## Main definitions

* `familyIdPattern`, `FamilyRef.Follows`: names that follow their patterns.
* `StoreCode.ofStatuses`: the statuses that have a code of their own.
* `Failure.Reported`: what the failure of a call is reported as.
* `World.Rejects`: a call that the admin API rejects.
* `Store.Guarded`: an operation that checks its names and then makes one call.

## Main results

* `isFamilyId_iff_matches`, `FamilyRef.check_eq_ok_iff_follows`: what is checked of names.
* `Failure.reported_ofCall`: a failure with words is reported.
* `Store.guarded_setPolicy`, `Store.guarded_getPolicy`, `Store.guarded_listPolicies`.
* `Store.failures_normalized`: what the operations fail with, and what becomes of it.
* `Store.not_reported_without_words`: a rejected value that is not reported.
-/

namespace Retention

/-! ### Names -/

/-- The pattern of column family ids: that of table names, up to sixty-four characters. -/
def familyIdPattern : Language Char := {chars | chars ∈ TableName.namePattern ∧ chars.length ≤ 64}

/-- What is checked of a column family id is its pattern. -/
theorem isFamilyId_iff_matches {id : Text} :
    isFamilyId id = true ↔ id.Matches familyIdPattern := by
  cases id with
  | broken points => exact iff_of_false nofun (by rintro ⟨_, -, ⟨⟩⟩)
  | whole text =>
    rw [isFamilyId, Bool.and_eq_true, TableName.isName_iff_mem, decide_eq_true_eq]
    constructor
    · exact fun h => ⟨text.toList, h, by rw [String.ofList_toList]⟩
    · rintro ⟨chars, hchars, heq⟩
      rwa [Text.whole.inj heq, String.toList_ofList]

/-- A text that is the resource name of a table. -/
def Text.NamesTable (text : Text) : Prop := ∃ name : TableName, name.Follows ∧ name.write = text

theorem TableName.exists_check_iff {text : Text} :
    (∃ name, TableName.check text = .ok name) ↔ text.NamesTable := by
  simp only [TableName.check_eq_ok_iff, TableName.read?_eq_some_iff, Text.NamesTable]

/-- A column family whose names follow their patterns. -/
structure FamilyRef.Follows (target : FamilyRef) : Prop where
  table : target.table.NamesTable
  family : target.family.Matches familyIdPattern

/-- A text that is not the resource name of a table is refused. -/
theorem TableName.check_of_not_namesTable {text : Text} (h : ¬text.NamesTable) :
    TableName.check text = .error (.badArgument "table" text TableName.pattern) := by
  unfold TableName.check
  split
  · next name hread => exact absurd ⟨name, TableName.read?_eq_some_iff.mp hread⟩ h
  · rfl

/-- The names of a column family pass when they follow their patterns. -/
theorem FamilyRef.check_of_follows {target : FamilyRef} (h : target.Follows) :
    target.check = .ok () := by
  obtain ⟨name, hname⟩ := TableName.exists_check_iff.mpr h.table
  rw [FamilyRef.check, hname]
  exact if_pos (isFamilyId_iff_matches.mpr h.family)

/-- The names of a column family that do not follow their patterns are refused. -/
theorem FamilyRef.exists_check_of_not_follows {target : FamilyRef} (h : ¬target.Follows) :
    ∃ message, target.check = .error (.store .invalidArgument message none) := by
  by_cases htable : target.table.NamesTable
  · obtain ⟨name, hname⟩ := TableName.exists_check_iff.mpr htable
    have hid : ¬isFamilyId target.family = true := fun hid =>
      h ⟨htable, isFamilyId_iff_matches.mp hid⟩
    rw [FamilyRef.check, hname]
    exact ⟨_, if_neg hid⟩
  · rw [FamilyRef.check, TableName.check_of_not_namesTable htable]
    exact ⟨_, rfl⟩

theorem FamilyRef.check_eq_ok_iff_follows {target : FamilyRef} :
    target.check = .ok () ↔ target.Follows := by
  refine ⟨fun h => ?_, FamilyRef.check_of_follows⟩
  by_contra hnot
  obtain ⟨message, hcheck⟩ := FamilyRef.exists_check_of_not_follows hnot
  cases h.symm.trans hcheck

/-! ### What failures are reported as -/

/-- The statuses of the admin API that have a code of their own. -/
def StoreCode.ofStatuses : List (Number × StoreCode) :=
  [(1, .cancelled), (3, .invalidArgument), (4, .deadlineExceeded), (5, .notFound),
    (7, .permissionDenied), (9, .failedPrecondition), (14, .unavailable)]

namespace Failure

/-- The code of a failure: that of its status, and unknown for a status without one, for a code
that is no number and for a failure without a code. -/
def IsCoded (failure : Failure) (code : StoreCode) : Prop :=
  (∃ status, failure.outsideCode? = some (.number status) ∧
      (status, code) ∈ StoreCode.ofStatuses) ∨
    code = .unknown ∧ ∀ status, failure.outsideCode? = some (.number status) →
      status ∉ StoreCode.ofStatuses.map Prod.fst

/-- What the failure of a call is reported as: itself if it is a store failure, and else a store
failure whose cause it is. -/
inductive Reported (method : String) : Failure → Failure → Prop
  | store (code : StoreCode) (message : Text) (cause : Option Failure) :
      Reported method (.store code message cause) (.store code message cause)
  | caused {failure : Failure} {code : StoreCode} {words : Text} (hstore : failure.isStore = false)
      (hcode : failure.IsCoded code) (hwords : failure.words = .ok words) :
      Reported method failure (.store code (method ++ " failed: " ++ words) (some failure))

end Failure

/-- A status has the code of the table of statuses. -/
theorem StoreCode.ofStatus_cases (status : Number) :
    (status, StoreCode.ofStatus status) ∈ StoreCode.ofStatuses ∨
      StoreCode.ofStatus status = .unknown ∧ status ∉ StoreCode.ofStatuses.map Prod.fst := by
  unfold StoreCode.ofStatus
  split
  case h_8 h1 h3 h4 h5 h7 h9 h14 =>
    refine Or.inr ⟨rfl, ?_⟩
    simp only [StoreCode.ofStatuses, List.map_cons, List.map_nil, List.mem_cons, List.not_mem_nil,
      or_false, not_or]
    exact ⟨h1, h3, h4, h5, h7, h9, h14⟩
  all_goals exact Or.inl (by decide)

theorem StoreCode.eq_of_mem_ofStatuses {status : Number} {code : StoreCode}
    (h : (status, code) ∈ StoreCode.ofStatuses) : code = StoreCode.ofStatus status := by
  simp only [StoreCode.ofStatuses, List.mem_cons, Prod.mk.injEq, List.not_mem_nil, or_false] at h
  rcases h with ⟨rfl, rfl⟩ | ⟨rfl, rfl⟩ | ⟨rfl, rfl⟩ | ⟨rfl, rfl⟩ | ⟨rfl, rfl⟩ | ⟨rfl, rfl⟩ |
    ⟨rfl, rfl⟩ <;> rfl

namespace Failure

/-- The code of a failure is the one that it is given. -/
theorem isCoded_iff {failure : Failure} {code : StoreCode} :
    failure.IsCoded code ↔ code = failure.storeCode := by
  unfold IsCoded storeCode
  split
  · next status hstatus =>
    rw [hstatus]
    simp only [Option.some.injEq, Json.number.injEq, exists_eq_left', forall_eq']
    constructor
    · rintro (hmem | ⟨rfl, hnot⟩)
      · exact StoreCode.eq_of_mem_ofStatuses hmem
      · obtain hmem | ⟨hunknown, -⟩ := StoreCode.ofStatus_cases status
        · exact absurd (List.mem_map_of_mem hmem) hnot
        · exact hunknown.symm
    · rintro rfl
      exact StoreCode.ofStatus_cases status
  · next hother =>
    refine ⟨?_, fun hcode => Or.inr ⟨hcode, fun status hstatus => absurd hstatus (hother status)⟩⟩
    rintro (⟨status, hstatus, -⟩ | ⟨hcode, -⟩)
    · exact absurd hstatus (hother status)
    · exact hcode

/-- A failure with words is reported. -/
theorem reported_ofCall (method : String) {failure : Failure} (h : failure.HasWords) :
    Reported method failure (ofCall method failure) := by
  obtain ⟨words, hwords⟩ := h
  cases hstore : failure.isStore with
  | true =>
    cases failure with
    | store => exact .store _ _ _
    | _ => cases hstore
  | false =>
    have hcall : ofCall method failure =
        .store failure.storeCode (method ++ " failed: " ++ words) (some failure) := by
      cases failure with
      | store => cases hstore
      | raised value =>
        rw [ofCall, hwords]
        rintro _ _ _ ⟨⟩
      | _ => rw [← Except.ok.inj hwords]; rfl
    rw [hcall]
    exact .caused hstore (isCoded_iff.mpr rfl) hwords

end Failure

/-! ### Calls that are rejected -/

namespace World

/-- What the admin API does when one of the two table calls is made. -/
def answer : AdminCall → Step World Json
  | .getTable table _ => showTable table
  | .modifyFamilies table family message _ => modifyFamily table family message
  | .getProjectId | .close => pure .null

/-- The admin API rejects a call with a failure. -/
def Rejects (world : World) (call : AdminCall) (failure : Failure) : Prop :=
  (answer call world).1 = .error failure

theorem noCall_answer (call : AdminCall) : (answer call).Keeps NoCall := by
  cases call with
  | getTable table => exact noCall_showTable table
  | modifyFamilies table family message => exact noCall_modifyFamily table family message
  | getProjectId | close => exact Step.keeps_pure _

/-- Two worlds whose admin API answers alike: they have the same tables, the same prepared answer and
the same faults. -/
structure AnswersAlike (before after : World) : Prop where
  tables_eq : after.tables = before.tables
  reply_eq : after.reply = before.reply
  faults_eq : after.faults = before.faults

theorem agrees_strike (point : FaultPoint) : (strike point).Agrees AnswersAlike := by
  intro before after h
  have hfaults := h.faults_eq
  rcases hstrike : Fault.strike point before.faults with ⟨_ | failure, faults⟩
  · rw [strike_of_none hstrike, strike_of_none (hfaults ▸ hstrike)]
    exact ⟨rfl, h.tables_eq, h.reply_eq, rfl⟩
  · rw [strike_of_some hstrike, strike_of_some (hfaults ▸ hstrike)]
    exact ⟨rfl, h.tables_eq, h.reply_eq, rfl⟩

/-- A call is answered alike where the admin API does so. -/
theorem agrees_answer (call : AdminCall) : (answer call).Agrees AnswersAlike := by
  cases call with
  | getTable table =>
    refine (agrees_strike _).bind fun _ before after h => ?_
    rw [h.tables_eq]
    split <;> exact ⟨rfl, h⟩
  | modifyFamilies table family message =>
    refine (agrees_strike _).bind fun _ before after h => ?_
    rw [h.tables_eq, h.reply_eq]
    split
    · exact ⟨rfl, h⟩
    · split
      · exact ⟨rfl, h⟩
      · exact ⟨rfl, rfl, rfl, h.faults_eq⟩
  | getProjectId | close => exact Step.agrees_pure _

/-- What the admin API answers does not depend on the calls that were made before. -/
theorem answer_fst_calls (call : AdminCall) (world : World) (calls : List AdminCall) :
    (answer call { world with calls := calls }).1 = (answer call world).1 :=
  (agrees_answer call world { world with calls := calls } ⟨rfl, rfl, rfl⟩).1.symm

end World

/-- A caller who has not given up when a call is to be made. -/
def CallOptions.Unaborted (options : CallOptions) : Prop :=
  ∀ signal, options.signal = some signal → signal.aborted = false

namespace Store

open World

variable {α : Type} {store : Store} {target : FamilyRef} {table : Text} {options : CallOptions}
  {call : AdminCall} {effect : Step World α} {world : World}

/-! ### The call -/

/-- A call is made once, unless its caller has given up already. -/
theorem calls_send (hunaborted : options.Unaborted) (h : effect.Keeps NoCall) :
    (send options call effect world).2.calls = world.calls ++ [call] := by
  obtain ⟨_ | signal, timeout⟩ := options
  · rw [send_apply]
    exact (h _).calls_eq
  · have haborted := hunaborted signal rfl
    obtain hpending | hsettles := signal.precedes_cases
    · rw [send_of_pending haborted hpending]
      cases signal.answered with
      | true => exact (h (pendingIn signal call world)).calls_eq
      | false => rfl
    · rw [send_of_settle haborted hsettles, send_apply]
      exact (h _).calls_eq

/-- A call whose caller waits ends as the admin API answers it. -/
theorem send_answer_fst (hwaits : options.Waits) :
    (send options call (answer call) world).1 =
      (answer call world).1.mapError (Failure.ofCall call.method) := by
  obtain ⟨_ | signal, timeout⟩ := options
  · rw [send_apply, answer_fst_calls]
  · obtain ⟨haborted, hsettles⟩ := hwaits signal rfl
    rw [send_of_settle haborted hsettles, send_apply, answer_fst_calls]

/-! ### Operations that make one call -/

/-- An operation that checks its names and then makes one call. With names that do not follow their
patterns it is refused. Otherwise the call is made once, unless its caller has given up before; the
operation fails with what the call was rejected with, as it is reported, or it is cancelled by a
caller who gives up before the call has settled. -/
structure Guarded (store : Store) (follows : Prop) (call : Option Json → AdminCall)
    (operation : CallOptions → Step World α) : Prop where
  refused : ¬follows → ∀ options world, ∃ message,
    operation options world = (.error (.store .invalidArgument message none), world)
  calls_eq : follows → ∀ options world, options.Unaborted →
    (operation options world).2.calls = world.calls ++ [call (store.timeout options)]
  rejected : follows → ∀ options world failure, options.Waits →
    world.Rejects (call (store.timeout options)) failure → failure.HasWords →
      ∃ reported, Failure.Reported (call (store.timeout options)).method failure reported ∧
        (operation options world).1 = .error reported
  cancelled : follows → ∀ signal timeout world, signal.aborted = false →
    signal.Precedes .abort .settle → (operation ⟨some signal, timeout⟩ world).1 =
      .error (.store .cancelled
        ((call (store.timeout ⟨some signal, timeout⟩)).method ++ " cancelled") (some signal.reason))

/-- Checking names, then making a call and working on its answer is such an operation. -/
theorem guarded_of_eq {follows : Prop} {call : Option Json → AdminCall} {check : Except Failure Unit}
    {operation : CallOptions → Step World α} {next : Json → Except Failure α}
    (hrefused : ¬follows → ∃ message, check = .error (.store .invalidArgument message none))
    (hpassed : follows → check = .ok ())
    (heq : ∀ options, operation options = Step.ofExcept check >>= fun _ =>
      send options (call (store.timeout options)) (answer (call (store.timeout options))) >>=
        fun shown => Step.ofExcept (next shown)) :
    Guarded store follows call operation := by
  -- What follows the call changes nothing, so all is decided by the call.
  have hsent (hfollows : follows) (options : CallOptions) (world : World) :
      operation options world =
        ((send options (call (store.timeout options)) (answer (call (store.timeout options)))
            world).1 >>= next,
          (send options (call (store.timeout options)) (answer (call (store.timeout options)))
            world).2) := by
    rw [heq, hpassed hfollows]
    exact Step.bind_ofExcept_apply _ _ _
  constructor
  case refused =>
    intro hnot options world
    obtain ⟨message, hcheck⟩ := hrefused hnot
    refine ⟨message, ?_⟩
    rw [heq, hcheck]
    rfl
  case calls_eq =>
    intro hfollows options world hunaborted
    rw [hsent hfollows]
    exact calls_send hunaborted (noCall_answer _)
  case rejected =>
    intro hfollows options world failure hwaits hrejects hwords
    refine ⟨_, Failure.reported_ofCall _ hwords, ?_⟩
    rw [hsent hfollows]
    dsimp only
    rw [send_answer_fst hwaits, hrejects]
    rfl
  case cancelled =>
    intro hfollows signal timeout world haborted hpending
    rw [hsent hfollows]
    dsimp only
    rw [send_of_pending haborted hpending]
    rfl

/-- Setting a policy is guarded, and its call is for the family and the message of the policy. -/
theorem guarded_setPolicy (store : Store) (target : FamilyRef) (policy : Policy) :
    Guarded store target.Follows
      (.modifyFamilies target.table target.family policy.toMessage)
      (store.setPolicy target policy) :=
  guarded_of_eq FamilyRef.exists_check_of_not_follows FamilyRef.check_of_follows
    (setPolicy_eq store target policy)

/-- The column families of a table are worked on without a step of their own. -/
theorem families_bind_ofExcept (store : Store) (table : Text) (options : CallOptions)
    (next : Json → Except Failure α) :
    (store.families table options >>= fun families => Step.ofExcept (next families)) =
      send options (.getTable table (store.timeout options)) (showTable table) >>= fun shown =>
        Step.ofExcept ((Families.ofTable shown).mapError Failure.shape >>= next) := by
  funext world
  rw [families, Step.bind_ofExcept_apply, Step.bind_ofExcept_apply, Step.bind_ofExcept_apply]
  dsimp only
  cases (send options (.getTable table (store.timeout options)) (showTable table) world).1 <;> rfl

/-- Asking for a policy is guarded, and its call is for the table of the family. -/
theorem guarded_getPolicy (store : Store) (target : FamilyRef) :
    Guarded store target.Follows (.getTable target.table) (store.getPolicy target) :=
  guarded_of_eq FamilyRef.exists_check_of_not_follows FamilyRef.check_of_follows
    fun options => (getPolicy_eq store target options).trans
      (congrArg _ (funext fun _ => families_bind_ofExcept store target.table options _))

/-- Listing policies is guarded by the name of the table, and its call is for the table. -/
theorem guarded_listPolicies (store : Store) (table : Text) :
    Guarded store table.NamesTable (.getTable table) (store.listPolicies table) := by
  have heq (options : CallOptions) : store.listPolicies table options =
      Step.ofExcept ((TableName.check table).map fun _ => ()) >>= fun _ =>
        store.families table options >>= fun families => Step.ofExcept
          (listing <$> (policies (Families.entries families)).mapError Failure.shape) := by
    funext world
    rw [listPolicies]
    cases TableName.check table with
    | error failure => rfl
    | ok name =>
      refine congrFun (congrArg (Bind.bind (store.families table options)) ?_) world
      funext families world
      rw [Step.map_apply]
      rfl
  refine guarded_of_eq (fun hnot => ?_) (fun hnames => ?_) fun options => (heq options).trans
    (congrArg _ (funext fun _ => families_bind_ofExcept store table options _))
  · rw [TableName.check_of_not_namesTable hnot]
    exact ⟨_, rfl⟩
  · obtain ⟨name, hname⟩ := TableName.exists_check_iff.mpr hnames
    rw [hname]
    rfl

/-! ### Reading and comparing -/

section Reading

variable {after : World} {failure : Failure} {rules : Option Json} {desired : Policy}

/-- What reading a family does when it could not be asked for. -/
theorem live_of_getPolicy (h : store.getPolicy target options world = (.error failure, after)) :
    store.live target options world =
      (if failure.hasStoreCode .notFound then .ok .noGc else .error failure, after) := by
  have hmap : ((fun policy => policy.getD .noGc) <$> store.getPolicy target options) world =
      (.error failure, after) := by
    rw [Step.map_apply, h]
    rfl
  refine (Step.recover_of_error hmap).trans ?_
  split <;> rfl

/-- Without a policy there is no text, and only the absence of collection has not drifted. -/
theorem reads_none_of_live (h : store.live target options world = (.ok .noGc, after)) :
    store.read target options world = (.ok none, after) ∧
      ∀ rules desired, Policy.ofText rules = .ok desired → ∃ drifted,
        store.drift target rules options world = (.ok ⟨drifted, desired, .noGc⟩, after) ∧
          (drifted = false ↔ desired = .noGc) := by
  refine ⟨Step.bind_of_ok h _, fun rules desired hdesired => ?_⟩
  obtain ⟨drifted, hdiffers, hdrifted⟩ :=
    (Policy.authored_of_ofText hdesired).differs_eq (Or.inl rfl)
  exact ⟨drifted, drift_eq_ok_iff.mpr ⟨hdesired, h, hdiffers⟩, hdrifted.trans eq_comm⟩

/-- A failure to read a family is passed on. -/
theorem fails_of_live (h : store.live target options world = (.error failure, after)) :
    store.read target options world = (.error failure, after) ∧
      ∀ rules desired, Policy.ofText rules = .ok desired →
        store.drift target rules options world = (.error failure, after) := by
  refine ⟨Step.bind_of_error h _, fun rules desired hdesired => ?_⟩
  rw [drift, hdesired]
  exact Step.bind_of_error h _

end Reading

/-- **What the store's operations fail with.** Setting, getting and listing policies are refused for
names that do not follow their patterns. Otherwise they make one call, for just these names, and a
failure that it is rejected with and that has words is reported: itself if it is a store failure,
else as the cause of one with the code of its status. Reading a family and comparing it with a rule
text take the failures that say it is not found, and no others, as the absence of a policy. -/
theorem failures_normalized (store : Store) :
    (∀ target policy, Guarded store target.Follows
      (.modifyFamilies target.table target.family policy.toMessage)
      (store.setPolicy target policy)) ∧
    (∀ target : FamilyRef, Guarded store target.Follows (.getTable target.table)
      (store.getPolicy target)) ∧
    (∀ table : Text, Guarded store table.NamesTable (.getTable table) (store.listPolicies table)) ∧
    ∀ target options world failure after,
      store.getPolicy target options world = (.error failure, after) →
      (failure.hasStoreCode .notFound = true →
        store.read target options world = (.ok none, after) ∧
        ∀ rules desired, Policy.ofText rules = .ok desired → ∃ drifted,
          store.drift target rules options world = (.ok ⟨drifted, desired, .noGc⟩, after) ∧
            (drifted = false ↔ desired = .noGc)) ∧
      (failure.hasStoreCode .notFound = false →
        store.read target options world = (.error failure, after) ∧
        ∀ rules desired, Policy.ofText rules = .ok desired →
          store.drift target rules options world = (.error failure, after)) := by
  refine ⟨guarded_setPolicy store, guarded_getPolicy store, guarded_listPolicies store, ?_⟩
  intro target options world failure after h
  have hlive := live_of_getPolicy h
  refine ⟨fun hcode => ?_, fun hcode => ?_⟩
  · rw [hcode] at hlive
    exact reads_none_of_live hlive
  · rw [hcode] at hlive
    exact fails_of_live hlive

/-! ### Small worlds -/

/-- A world with a family whose next call of a kind is rejected. -/
def worldRejecting (point : FaultPoint) (failure : Failure) : World :=
  { worldHolding (.object []) with faults := [⟨point, 0, failure⟩] }

theorem follows_someFamily : someFamily.Follows := FamilyRef.check_eq_ok_iff_follows.mp rfl

/-- A rejected number is no status, an error with a status has its code, and a name with a space is
refused. -/
theorem failures_normalized_rejected :
    (setPolicy ⟨none⟩ someFamily .noGc .none
        (worldRejecting .modifyFamilies (.raised (.number 14)))).1 =
      .error (.store .unknown "modifyColumnFamilies failed: 14" (some (.raised (.number 14)))) ∧
    (∃ words, (getPolicy ⟨none⟩ someFamily .none
        (worldRejecting .getTable (.plain "gone" (some (.number 14))))).1 =
      .error (.store .unavailable words (some (.plain "gone" (some (.number 14)))))) ∧
    (∃ message, getPolicy ⟨none⟩ ⟨someFamily.table, "a b"⟩ .none (worldHolding .null) =
      (.error (.store .invalidArgument message none), worldHolding .null)) ∧
    ∃ after, read ⟨none⟩ someFamily .none
      (worldRejecting .getTable (.plain "gone" (some (.number 5)))) = (.ok none, after) := by
  refine ⟨?_, ?_, ?_, ?_⟩
  · obtain ⟨reported, hreported, hresult⟩ :=
      ((failures_normalized ⟨none⟩).1 someFamily .noGc).rejected follows_someFamily .none
        (worldRejecting .modifyFamilies (.raised (.number 14))) (.raised (.number 14))
        CallOptions.waits_none rfl ⟨_, rfl⟩
    rw [hresult]
    cases hreported with
    | caused _ hcode hwords =>
      rw [Failure.isCoded_iff.mp hcode, ← Except.ok.inj hwords]
      rfl
  · obtain ⟨reported, hreported, hresult⟩ :=
      ((failures_normalized ⟨none⟩).2.1 someFamily).rejected follows_someFamily .none
        (worldRejecting .getTable (.plain "gone" (some (.number 14))))
        (.plain "gone" (some (.number 14))) CallOptions.waits_none rfl ⟨_, rfl⟩
    rw [hresult]
    cases hreported with
    | caused _ hcode _ =>
      rw [Failure.isCoded_iff.mp hcode]
      exact ⟨_, rfl⟩
  · have hnot : ¬(FamilyRef.mk someFamily.table "a b").Follows := fun h => by
      cases FamilyRef.check_eq_ok_iff_follows.mpr h
    exact ((failures_normalized ⟨none⟩).2.1 ⟨someFamily.table, "a b"⟩).refused hnot _ _
  · have hget : getPolicy ⟨none⟩ someFamily .none
        (worldRejecting .getTable (.plain "gone" (some (.number 5)))) =
      (.error _, (getPolicy ⟨none⟩ someFamily .none
        (worldRejecting .getTable (.plain "gone" (some (.number 5))))).2) := rfl
    exact ⟨_, (((failures_normalized ⟨none⟩).2.2.2 _ _ _ _ _ hget).1 rfl).1⟩

/-- A rejected value that cannot be put into words is not reported: the operation fails with a fault
of the value. -/
theorem not_reported_without_words :
    let failure := Failure.raised (.object [("toString", .number 1)])
    someFamily.Follows ∧ failure.isStore = false ∧
      (worldRejecting .getTable failure).Rejects (.getTable someFamily.table none) failure ∧
      ∀ code message cause, (getPolicy ⟨none⟩ someFamily .none
        (worldRejecting .getTable failure)).1 ≠ .error (.store code message cause) := by
  intro failure
  have hresult : (getPolicy ⟨none⟩ someFamily .none (worldRejecting .getTable failure)).1 =
    .error (.shape .hidden) := rfl
  refine ⟨follows_someFamily, rfl, rfl, fun code message cause h => ?_⟩
  cases hresult.symm.trans h

end Store

end Retention
