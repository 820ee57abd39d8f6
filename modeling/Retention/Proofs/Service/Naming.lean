import Retention.Proofs.Service.SentOnce
import Retention.Proofs.Store.Side
import Retention.Proofs.Table.Name

/-!
# The tables that requests ask for

A request names its table in three parts, each percent-encoded in its path. The parts are decoded and
glued together to a resource name, and that is checked before a call goes out for it. So every table
that a call goes out for has the decoded parts as its own, whatever they are: slashes and words of
resource names that were encoded in a part lead to no other table, as a name glued from such a part
is refused.

## Main definitions

* `Http.Place.Names`: the parts that a path names a table by.
* `AdminCall.IsAbout`: the table that a call goes out for.
* `World.AsksAbout`: calls that went out between two worlds are about some tables.

## Main results

* `Http.Place.names_of_ofPath`: the table of a place is the one that its path names.
* `Service.asksAbout_respondAt`: what is asked for at a place.
* `Service.tables_not_confused`: what resource names are read as, and what requests ask for.
-/

namespace Retention

open Http

/-! ### Paths -/

namespace Http.Place

variable {path : List Char} {encoded : List (List Char)} {place : Place} {name : TableName}

/-- The table of a place. -/
def table? : Place → Option TableName
  | policies table | policy table _ => some table
  | _ => none

/-- Segments name a table by three of them, each decoded, after the words for what they are. -/
inductive Names : List (List Char) → TableName → Prop
  | mk {projects encodedProject instances encodedInstance tables encodedTable : List Char}
      {project «instance» table : List Char} {rest : List (List Char)}
      (hwords : isWord "projects" projects ∧ isWord "instances" instances ∧ isWord "tables" tables)
      (hproject : Percent.decode? encodedProject = some project)
      (hinstance : Percent.decode? encodedInstance = some «instance»)
      (htable : Percent.decode? encodedTable = some table) :
      Names (projects :: encodedProject :: instances :: encodedInstance :: tables ::
          encodedTable :: rest)
        ⟨String.ofList project, String.ofList «instance», String.ofList table⟩

/-- What comes after the name of a table makes no difference to it. -/
theorem Names.append (h : Names encoded name) (rest : List (List Char)) :
    Names (encoded ++ rest) name := by
  cases h with
  | mk hwords hproject hinstance htable => exact .mk hwords hproject hinstance htable

/-- Up to an empty one at the end, all segments of a path count that come after its first slash. -/
theorem segments_of_pathSegments (h : pathSegments path = some encoded) :
    ∃ rest, segments '/' path = [] :: (encoded ++ rest) := by
  unfold pathSegments at h
  split at h
  · next rest hpath =>
    split at h
    · next first others hreverse =>
      obtain rfl := Option.some.inj h
      have hrest : rest = (first :: others).reverse ++ [[]] := by
        rw [← List.reverse_reverse rest, hreverse, List.reverse_cons]
      exact ⟨[[]], by rw [hpath, hrest]⟩
    · obtain rfl := Option.some.inj h
      exact ⟨[], by rw [hpath, List.append_nil]⟩
  · cases h

/-- A place is addressed by what its encoded names are decoded to. -/
theorem mapM_of_located {make : List String → Option Place} (h : located encoded make = .found place) :
    ∃ names, encoded.mapM Percent.decode? = some names ∧
      make (names.map String.ofList) = some place := by
  unfold located names? at h
  split at h
  · cases h
  · cases h
  · next names hnames =>
    split at hnames
    · cases hnames
    · obtain ⟨decoded, hdecoded, rfl⟩ := Option.map_eq_some_iff.mp (Option.some.inj hnames)
      cases hmake : make (decoded.map String.ofList) with
      | none =>
        rw [hmake] at h
        cases h
      | some made =>
        rw [hmake] at h
        cases h
        exact ⟨decoded, hdecoded, hmake⟩

theorem mapM_cons_eq_some_iff {α β : Type} {f : α → Option β} {first : α} {rest : List α}
    {values : List β} : (first :: rest).mapM f = some values ↔
      ∃ value others, f first = some value ∧ rest.mapM f = some others ∧ values = value :: others := by
  simp only [List.mapM_cons, Option.bind_eq_bind, Option.bind_eq_some_iff, Option.pure_def,
    Option.some.injEq, eq_comm (a := values)]
  tauto

/-- The first three of some names that are decoded. -/
theorem exists_of_mapM_decode? {first second third : List Char} {rest values : List (List Char)}
    (h : (first :: second :: third :: rest).mapM Percent.decode? = some values) :
    ∃ project «instance» table others, Percent.decode? first = some project ∧
      Percent.decode? second = some «instance» ∧ Percent.decode? third = some table ∧
      rest.mapM Percent.decode? = some others ∧
      values = project :: «instance» :: table :: others := by
  obtain ⟨project, _, hproject, hsecond, rfl⟩ := mapM_cons_eq_some_iff.mp h
  obtain ⟨«instance», _, hinstance, hthird, rfl⟩ := mapM_cons_eq_some_iff.mp hsecond
  obtain ⟨table, others, htable, hrest, rfl⟩ := mapM_cons_eq_some_iff.mp hthird
  exact ⟨project, «instance», table, others, hproject, hinstance, htable, hrest, rfl⟩

/-- Segments that lead to a place of a table name it. -/
theorem names_of_ofSegments (h : ofSegments encoded = .found place)
    (hname : place.table? = some name) : Names encoded name := by
  unfold ofSegments at h
  split at h
  · split_ifs at h <;> cases h <;> cases hname
  · split_ifs at h <;> cases h <;> cases hname
  · split_ifs at h with hwords
    simp only [Bool.and_eq_true] at hwords
    obtain ⟨⟨⟨hprojects, hinstances⟩, htables⟩, -⟩ := hwords
    obtain ⟨_, hnames, hmake⟩ := mapM_of_located h
    obtain ⟨_, _, _, _, hproject, hinstance, htable, hrest, rfl⟩ := exists_of_mapM_decode? hnames
    obtain rfl := Option.some.inj hrest
    cases hmake
    cases hname
    exact .mk ⟨hprojects, hinstances, htables⟩ hproject hinstance htable
  · split_ifs at h with hwords
    simp only [Bool.and_eq_true] at hwords
    obtain ⟨⟨⟨⟨hprojects, hinstances⟩, htables⟩, -⟩, -⟩ := hwords
    obtain ⟨_, hnames, hmake⟩ := mapM_of_located h
    obtain ⟨_, _, _, _, hproject, hinstance, htable, hrest, rfl⟩ := exists_of_mapM_decode? hnames
    obtain ⟨_, _, -, hnil, rfl⟩ := mapM_cons_eq_some_iff.mp hrest
    obtain rfl := Option.some.inj hnil
    cases hmake
    cases hname
    exact .mk ⟨hprojects, hinstances, htables⟩ hproject hinstance htable
  · cases h

/-- **The table of a place** is the one that its path names. -/
theorem names_of_ofPath (h : ofPath path = .found place) (hname : place.table? = some name) :
    ∃ encoded, segments '/' path = [] :: encoded ∧ Names encoded name := by
  unfold ofPath at h
  cases hpath : pathSegments path with
  | none =>
    rw [hpath] at h
    cases h
  | some encoded =>
    rw [hpath] at h
    obtain ⟨rest, hrest⟩ := segments_of_pathSegments hpath
    exact ⟨_, hrest, (names_of_ofSegments h hname).append rest⟩

end Http.Place

/-! ### Calls -/

variable {tables : TableName → Prop} {call : AdminCall}

/-- A call is about some tables: if it is sent with a resource name, that is read as one of them. -/
def AdminCall.IsAbout (tables : TableName → Prop) (call : AdminCall) : Prop :=
  ∀ sent, call.request? = some sent → ∃ text name,
    sent.member? "name" = some (.string text) ∧ TableName.check text = .ok name ∧ tables name

theorem AdminCall.IsAbout.getTable {text : Text} {name : TableName} (timeout : Option Json)
    (h : TableName.check text = .ok name) (hname : tables name) :
    (AdminCall.getTable text timeout).IsAbout tables := by
  rintro _ ⟨⟩
  exact ⟨text, name, rfl, h, hname⟩

theorem AdminCall.IsAbout.modifyFamilies {text : Text} {name : TableName} (family : Text)
    (message : Json) (timeout : Option Json) (h : TableName.check text = .ok name)
    (hname : tables name) :
    (AdminCall.modifyFamilies text family message timeout).IsAbout tables := by
  rintro _ ⟨⟩
  exact ⟨text, name, rfl, h, hname⟩

namespace World

variable {before after : World}

/-- All calls between two worlds are about some tables. -/
def AsksAbout (tables : TableName → Prop) (before after : World) : Prop :=
  ∃ made, before.Sends made after ∧ ∀ call ∈ made, call.IsAbout tables

theorem AsksAbout.of_calls_eq (h : after.calls = before.calls) : AsksAbout tables before after :=
  ⟨[], sends_nil h, List.forall_mem_nil _⟩

theorem AsksAbout.of_noCall (h : NoCall before after) : AsksAbout tables before after :=
  .of_calls_eq h.calls_eq

instance : Std.Refl (AsksAbout tables) := ⟨fun _ => .of_calls_eq rfl⟩

instance : IsTrans World (AsksAbout tables) where
  trans _ _ _ := by
    rintro ⟨made, hsends, hmade⟩ ⟨others, hsends', hothers⟩
    refine ⟨made ++ others, hsends.trans hsends', fun call hcall => ?_⟩
    exact (List.mem_append.mp hcall).elim (hmade call) (hothers call)

theorem asksAbout_of_noCall {α : Type} {step : Step World α} (h : step.Keeps NoCall) :
    step.Keeps (AsksAbout tables) :=
  fun world => .of_noCall (h world)

/-- A call is noted when it is made. -/
theorem asksAbout_noteCall (h : call.IsAbout tables) : (noteCall call).Keeps (AsksAbout tables) :=
  fun _ => ⟨[call], rfl, by simpa using h⟩

end World

namespace Store

open World

variable {options : CallOptions}

/-- Whether its caller waits or gives up, a call is about what it goes out for. -/
theorem asksAbout_send {α : Type} {effect : Step World α} (h : call.IsAbout tables)
    (heffect : effect.Keeps NoCall) : (send options call effect).Keeps (AsksAbout tables) :=
  keeps_send (asksAbout_noteCall h) (fun _ _ => .of_calls_eq rfl) (asksAbout_of_noCall heffect)

end Store

namespace Service

open World Store

variable {service : Service} {options : CallOptions} {table : TableName} {family : Text}

/-! ### Handlers -/

section Handlers

variable (htables : ∀ name, TableName.check table.write = .ok name → tables name)

include htables

/-- The names of a family are checked before its table is asked for. -/
theorem asksAbout_live : (service.store.live (target table family) options).Keeps
    (AsksAbout tables) :=
  keeps_live_of_check fun hcheck => by
    obtain ⟨name, hname, -⟩ := bind_eq_ok_iff.mp hcheck
    exact asksAbout_send (.getTable _ hname (htables name hname)) (noCall_showTable _)

/-- The names of a family are checked before it is changed. -/
theorem asksAbout_setPolicy (policy : Policy) :
    (service.store.setPolicy (target table family) policy options).Keeps (AsksAbout tables) :=
  keeps_setPolicy_of_check fun hcheck => by
    obtain ⟨name, hname, -⟩ := bind_eq_ok_iff.mp hcheck
    exact asksAbout_send (.modifyFamilies _ _ _ hname (htables name hname))
      (noCall_modifyFamily _ _ _)

theorem asksAbout_listPoliciesWith :
    (service.listPoliciesWith table options).Keeps (AsksAbout tables) :=
  (keeps_listRules_of_check fun name hname => asksAbout_send
    (.getTable _ hname (htables name hname)) (noCall_showTable _)).bind fun _ =>
      Step.keeps_pure _

theorem asksAbout_getPolicyWith :
    (service.getPolicyWith (target table family) options).Keeps (AsksAbout tables) :=
  ((asksAbout_live htables).bind fun _ => Step.keeps_ofExcept _).bind fun text => by
    cases text <;> exact Step.keeps_pure _

theorem asksAbout_putPolicyWith (value : Json) :
    (service.putPolicyWith (target table family) value options).Keeps (AsksAbout tables) :=
  (Step.keeps_ofExcept _).bind fun _ => (Step.keeps_ofExcept _).bind fun _ =>
    (keeps_apply_of_setPolicy (asksAbout_setPolicy htables) _).bind fun _ =>
      (asksAbout_of_noCall (noCall_moment.bind fun _ => noCall_execute _ _ _)).bind fun _ =>
        (Step.keeps_ofExcept _).bind fun _ => Step.keeps_pure _

theorem asksAbout_deletePolicyWith (query : List Char) :
    (service.deletePolicyWith (target table family) query options).Keeps (AsksAbout tables) := by
  have hfind : (World.findByFamily (target table family).table family).Keeps NoCall :=
    noCall_execute _ _ _
  have hmark (id now : Text) : (World.markReleased .pool id now).Keeps NoCall :=
    noCall_execute _ _ _
  refine (Step.keeps_ofExcept _).bind fun _ => (asksAbout_of_noCall hfind).bind fun record =>
    (keeps_release_of_setPolicy (asksAbout_setPolicy htables _) _).bind fun _ => ?_
  cases record with
  | none => exact Step.keeps_pure _
  | some record =>
    exact asksAbout_of_noCall (noCall_moment.bind fun now => (hmark record.id now).bind fun _ =>
      Step.keeps_pure _)

end Handlers

/-! ### Requests -/

variable {disconnects : Bool} {world after : World} {response : Response} {place : Place}
  {method : Method} {query : List Char} {value : Json}

/-- **What is asked for at a place.** Calls are about the table that the name of the place's table
is read as. -/
theorem asksAbout_respondAt (htables : ∀ table, place.table? = some table → ∀ name,
      TableName.check table.write = .ok name → tables name)
    (h : service.respondAt place method query value disconnects world = (response, after)) :
    AsksAbout tables world after := by
  have hanswer {handler : Step World Response} (hhandler : handler.Keeps (AsksAbout tables))
      (h : answer handler world = (response, after)) : AsksAbout tables world after := by
    have hworld := hhandler world
    rwa [← answer_snd, h] at hworld
  unfold respondAt at h
  split at h
  · obtain ⟨-, rfl⟩ := Prod.mk.inj h
    exact .of_calls_eq rfl
  · exact .of_calls_eq (calls_health h)
  · have hready : RequestSends service world [.getProjectId] after := requestSends_of_readiness h
    exact ⟨_, hready.sends, by simp [AdminCall.IsAbout, AdminCall.request?]⟩
  · obtain ⟨-, rfl⟩ := Prod.mk.inj h
    exact .of_calls_eq rfl
  · exact hanswer (Step.keeps_ofExcept _) h
  · exact hanswer (asksAbout_listPoliciesWith (htables _ rfl)) h
  · exact hanswer (asksAbout_getPolicyWith (htables _ rfl)) h
  · exact hanswer (asksAbout_putPolicyWith (htables _ rfl) _) h
  · exact hanswer (asksAbout_deletePolicyWith (htables _ rfl) _) h
  · obtain ⟨-, rfl⟩ := Prod.mk.inj h
    exact .of_calls_eq rfl

end Service

/-- The table that a request names in its path. -/
def Http.Request.Names (request : Request) (name : TableName) : Prop :=
  ∃ target encoded, Target.ofText? request.target = some target ∧
    segments '/' target.path = [] :: encoded ∧ Place.Names encoded name

namespace Service

open World

variable {service : Service} {request : Request} {asked : Asked} {table name : TableName}

/-- The name that a request leads to a place with is read as the one that its path names. -/
theorem names_of_asked (hasked : service.asked? request = some asked)
    (hplaced : asked.place.table? = some table)
    (hname : TableName.check table.write = .ok name) : request.Names name := by
  unfold asked? at hasked
  split at hasked
  · obtain ⟨target, htarget, hread⟩ := Option.bind_eq_some_iff.mp hasked
    split at hread
    · next place value hplace hvalue =>
      obtain rfl := Option.some.inj hread
      obtain ⟨encoded, hpath, hnames⟩ := Place.names_of_ofPath hplace hplaced
      refine ⟨target, encoded, htarget, hpath, ?_⟩
      cases hnames with
      | mk hwords hproject hinstance htable =>
        rw [TableName.eq_of_check_write hname]
        exact .mk hwords hproject hinstance htable
    · cases hread
  · cases hasked

/-- Whatever becomes of a request, its calls are about the table that its path names. -/
theorem asksAbout_handle (service : Service) (request : Request) (disconnects : Bool)
    (world : World) : AsksAbout request.Names world (service.handle request disconnects world).2 := by
  rw [handle_snd]
  rcases hrespond : service.respond request disconnects world with ⟨response, after⟩
  obtain ⟨rfl, -⟩ | ⟨asked, full, hasked, -, hfull⟩ := respond_cases hrespond
  · exact .of_calls_eq rfl
  · exact asksAbout_respondAt (fun table hplaced name => names_of_asked hasked hplaced) hfull

/-- **Tables are not confused.** A resource name that is glued together from any three texts is read
just when these follow the patterns of their parts, and then as these three; every resource name that
is read is written as it was. So whatever the path of a request and however it is encoded, every
table that a call of the request goes out for has the three decoded segments of the path as its
parts. -/
theorem tables_not_confused :
    (∀ (project «instance» table : List Nat) (name : TableName),
      TableName.check (TableName.ofPoints project «instance» table).write = .ok name ↔
        (TableName.ofPoints project «instance» table).Follows ∧
          name = TableName.ofPoints project «instance» table) ∧
    (∀ (text : Text) (name : TableName), TableName.check text = .ok name → name.write = text) ∧
    ∀ (service : Service) (request : Request) (disconnects : Bool) (world : World),
      AsksAbout request.Names world (service.handle request disconnects world).2 := by
  refine ⟨fun project «instance» table name => ?_, fun text name h => ?_, asksAbout_handle⟩
  · rw [TableName.check_eq_ok_iff, TableName.read?_write_eq_some_iff]
  · exact (TableName.read?_eq_some_iff.mp (TableName.check_eq_ok_iff.mp h)).2

end Service

end Retention
