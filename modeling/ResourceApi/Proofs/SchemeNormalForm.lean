import ResourceApi.Proofs.Dialect
import ResourceApi.Proofs.TidyValue

/-!
# Normal form of security schemes

What a document says of its security schemes is read from an option and written again: every member
under its outer name, and nothing where there was null. A scheme in that form is read back as the
scheme that it is.

**Records** (`Checked.record_ofJson`). An object that presents its members has no stray key, and
each member is found under its outer name.

**Schemes** (`SecurityScheme.ofData_toJson`). A sound scheme is read back from what it is written
as, flow by flow.

**Main result** (`normal_form`). Written schemes are the normal form of what they were read from:
they are read and written as they are. A document made with them in place of the option is the same
document.
-/

namespace ResourceApi

open Checked Json

/-! ## Objects -/

namespace Json

/-- The keys of the object are outer names of the members, each once and in order. -/
def KeysFrom (names : List Name) (v : Json) : Prop :=
  ∃ ms, v = .obj ms ∧ (Assoc.keys ms).Sublist (names.map Name.outer)

theorem Presents.keysFrom {names : List Name} {n : Nat} {v : Json} (h : Presents names n v) :
    KeysFrom names v := by
  obtain ⟨ms, hv, hms⟩ := h
  exact ⟨ms, hv, hms.keys⟩

@[simp] theorem get?_obj_optionalText (k key : Text) (s : Option Text) :
    (obj (optionalText k s)).get? key = if k = key then s.map Json.str else none :=
  get?_obj_memberIf _

theorem Tidy.not_occurs_null {n : Nat} {v : Json} (h : Tidy n v) : ¬ Json.null.Occurs v := by
  intro hnull
  induction hnull generalizing n with
  | here => cases h
  | member hp _ ih =>
    cases h with
    | object _ hvalues => exact ih (hvalues _ hp)
  | item hv _ ih =>
    cases h with
    | list hitems => exact ih (hitems _ hv)

end Json

namespace Checked

variable {α : Type} {names : List Name} {n : Name} {v : Json} {ms : List (Data × Data)}

/-- The outer names can be encoded, and no member has the own name of another one for its outer
name. -/
def Apart (names : List Name) : Prop :=
  ∀ n ∈ names, n.outer.isWhole = true ∧ ∀ n' ∈ names, n'.outer = n.own → n.own = n.outer

instance : Decidable (Apart names) :=
  inferInstanceAs (Decidable (∀ n ∈ names, _))

/-- The member is what the object has under the outer name. -/
def FoundAs (v : Json) (ms : List (Data × Data)) (n : Name) : Prop :=
  find? ms n = (v.get? n.outer).map fun x => (n.outer, Data.ofJson x)

section

variable {ns : List (Text × Json)} (hkeys : (Assoc.keys ns).Sublist (names.map Name.outer))

include hkeys

theorem foundAs_ofMembers (hnames : Apart names) (hn : n ∈ names) :
    FoundAs (.obj ns) (Data.ofMembers ns) n := by
  unfold FoundAs
  cases houter : (Json.obj ns).get? n.outer with
  | some x => exact find?_eq_of_outer (by rw [Data.lookup_ofMembers, houter]; rfl)
  | none =>
    -- a key that is the own name of the member would be its outer name too
    have hown : (Json.obj ns).get? n.own = none := by
      refine (Assoc.get?_eq_none_iff ns n.own).2 fun hmem => ?_
      obtain ⟨n', hn', hname⟩ := List.mem_map.1 (hkeys.subset hmem)
      have hsame := (hnames n hn).2 n' hn' hname
      exact (Assoc.get?_eq_none_iff ns n.outer).1 houter (hsame ▸ hmem)
    rw [find?_eq_of_own (by rw [Data.lookup_ofMembers, houter]; rfl), Data.lookup_ofMembers, hown]
    rfl

theorem exists_name_of_mem_ofMembers {m : Data × Data} (hm : m ∈ Data.ofMembers ns) :
    ∃ n ∈ names, ∃ x, m.1 = .str n.outer ∧ (Json.obj ns).get? n.outer = some x := by
  rw [Data.ofMembers_eq_map] at hm
  obtain ⟨p, hp, rfl⟩ := List.mem_map.1 hm
  have hmem : p.1 ∈ Assoc.keys ns := List.mem_map_of_mem hp
  obtain ⟨n, hn, hname⟩ := List.mem_map.1 (hkeys.subset hmem)
  obtain ⟨x, hx⟩ : ∃ x, Assoc.get? ns p.1 = some x := by
    rw [← Option.ne_none_iff_exists']
    exact fun hnone => (Assoc.get?_eq_none_iff ns p.1).1 hnone hmem
  exact ⟨n, hn, x, by rw [hname], hname ▸ hx⟩

theorem strayIssues_ofMembers (hnames : Apart names) :
    strayIssues (Data.ofMembers ns) names = [] := by
  unfold strayIssues
  rw [List.filterMap_eq_nil_iff]
  intro m hm
  obtain ⟨n, hn, x, hm, hx⟩ := exists_name_of_mem_ofMembers hkeys hm
  have hfound : find? (Data.ofMembers ns) n = some (n.outer, Data.ofJson x) :=
    (foundAs_ofMembers hkeys hnames hn).trans (by rw [hx]; rfl)
  have hused : isUsed (Data.ofMembers ns) names n.outer = true := isUsed_iff.2 ⟨n, hn, _, hfound⟩
  simp [hm, hused]

end

/-- **An object whose keys are outer names is accepted** when its members are. -/
theorem record_ofJson (hnames : Apart names) (hv : KeysFrom names v)
    {checks : List (Data × Data) → Checked α} {a : α}
    (hchecks : ∀ ms, (∀ n ∈ names, FoundAs v ms n) → checks ms = .ok a) :
    record (fun ms => closed ms names (checks ms)) (Data.ofJson v) = .ok a := by
  obtain ⟨ns, rfl, hkeys⟩ := hv
  refine record_eq_ok_iff.2 ⟨_, rfl, closed_eq_ok_iff.2 ⟨?_, strayIssues_ofMembers hkeys hnames,
    hchecks _ fun n hn => foundAs_ofMembers hkeys hnames hn⟩⟩
  rw [List.any_eq_false]
  intro m hm
  obtain ⟨n, hn, x, hm, -⟩ := exists_name_of_mem_ofMembers hkeys hm
  simpa [hm, isUnencodable, Text.isWhole, Option.isSome_iff_ne_none] using (hnames n hn).1

/-! ### Members -/

theorem required_of_foundAs {check : Data → Checked α} {x : Json} {a : α} (hfound : FoundAs v ms n)
    (hget : v.get? n.outer = some x) (h : check (Data.ofJson x) = .ok a) :
    required ms n check = .ok a :=
  required_eq_ok (hfound.trans (by rw [hget]; rfl)) h

theorem defaulted_of_foundAs {check : Data → Checked α} {x : Json} {a default : α}
    (hfound : FoundAs v ms n) (hget : v.get? n.outer = some x)
    (h : check (Data.ofJson x) = .ok a) : defaulted ms n default check = .ok a :=
  defaulted_eq_ok (hfound.trans (by rw [hget]; rfl)) h

/-- A member that is left out where there is none is read as it was. -/
theorem nullable_of_foundAs {check : Data → Checked α} {write : α → Json} {a? : Option α}
    (hfound : FoundAs v ms n) (hget : v.get? n.outer = a?.map write)
    (hnull : ∀ a, Data.ofJson (write a) ≠ .null)
    (h : ∀ a, a? = some a → check (Data.ofJson (write a)) = .ok a) :
    defaulted ms n none (nullable check) = .ok a? := by
  cases a? with
  | none => exact defaulted_of_find?_eq_none (hfound.trans (by rw [hget]; rfl))
  | some a =>
    exact defaulted_eq_ok (hfound.trans (by rw [hget]; rfl)) (nullable_eq_ok (hnull a) (h a rfl))

/-- A map of values that are read back is read back. -/
theorem textMap_ofJson {check : Data → Checked α} {write : α → Json} {m : Assoc Text α}
    (hm : (Assoc.keys m).Nodup) (h : ∀ p ∈ m, check (Data.ofJson (write p.2)) = .ok p.2) :
    textMap check (Data.ofJson (.obj (Assoc.mapValues write m))) = .ok m := by
  refine textMap_eq_ok_iff.2 ⟨_, m, rfl, ?_, Assoc.ofList_eq_self hm⟩
  rw [Data.ofMembers_eq_map, Assoc.mapValues, List.map_map, List.forall₂_map_left_iff,
    List.forall₂_same]
  exact fun p hp => ⟨rfl, h p hp⟩

end Checked

/-! ## Schemes read back -/

namespace SecurityScheme

variable {v : Json} {ms : List (Data × Data)} {n : Name}

theorem optionalTextAt_of_foundAs {s : Option Text} (hfound : FoundAs v ms n)
    (hget : v.get? n.outer = s.map Json.str) : optionalTextAt ms n = .ok s :=
  nullable_of_foundAs hfound hget nofun fun _ _ => rfl

theorem constant_of_foundAs {key value : Text} (hvalue : value.isWhole = true)
    (hfound : FoundAs v ms (.plain key)) (hget : v.get? key = some (.str value)) :
    constant ms key value = .ok value :=
  required_of_foundAs hfound hget (oneOf_eq_ok_iff.2 ⟨rfl, hvalue, List.mem_singleton_self value⟩)

theorem flow?_toJson {f : OAuthFlow} (h : (Assoc.keys f.scopes).Nodup) :
    flow? (Data.ofJson f.toJson) = .ok f := by
  refine record_ofJson (by decide +kernel) (presents_flow (n := 0) h).keysFrom fun ms hms => ?_
  simp only [flowNames, List.forall_mem_cons] at hms
  obtain ⟨hdescription, hauthorization, htoken, hrefresh, hscopes, -⟩ := hms
  have hdescription : describedAs ms = .ok f.description :=
    optionalTextAt_of_foundAs hdescription
      (by simp [OAuthFlow.toJson, descriptionName, Name.plain, Text.ofString_inj])
  have hauthorization : optionalTextAt ms authorizationUrlName = .ok f.authorizationUrl :=
    optionalTextAt_of_foundAs hauthorization
      (by simp [OAuthFlow.toJson, authorizationUrlName, Text.ofString_inj])
  have htoken : optionalTextAt ms tokenUrlName = .ok f.tokenUrl :=
    optionalTextAt_of_foundAs htoken (by simp [OAuthFlow.toJson, tokenUrlName, Text.ofString_inj])
  have hrefresh : optionalTextAt ms refreshUrlName = .ok f.refreshUrl :=
    optionalTextAt_of_foundAs hrefresh
      (by simp [OAuthFlow.toJson, refreshUrlName, Text.ofString_inj])
  have hread : textMap text (Data.ofJson (.obj (Assoc.mapValues Json.str f.scopes))) =
      .ok f.scopes :=
    textMap_ofJson h fun _ _ => rfl
  have hscopes : defaulted ms (.plain "scopes") [] (textMap text) = .ok f.scopes :=
    defaulted_of_foundAs hscopes (by simp [OAuthFlow.toJson, Name.plain, Text.ofString_inj]) hread
  rw [hdescription, hauthorization, htoken, hrefresh, hscopes]
  rfl

theorem flows?_toJson {f : OAuthFlows} (h : ∀ flow ∈ f.all, (Assoc.keys flow.scopes).Nodup) :
    flows? (Data.ofJson f.toJson) = .ok f := by
  refine record_ofJson (by decide +kernel) (presents_flows (n := 0) h).keysFrom fun ms hms => ?_
  simp only [flowsNames, List.forall_mem_cons] at hms
  obtain ⟨hdescription, hcode, himplicit, hpassword, hcredentials, -⟩ := hms
  have hflow {flow? : Option OAuthFlow} {n : Name} (hfound : FoundAs f.toJson ms n)
      (hget : f.toJson.get? n.outer = flow?.map OAuthFlow.toJson)
      (hoffered : ∀ flow, flow? = some flow → flow ∈ f.all) : optionalFlowAt ms n = .ok flow? :=
    nullable_of_foundAs hfound hget nofun fun flow hflow =>
      flow?_toJson (h flow (hoffered flow hflow))
  simp only [OAuthFlows.mem_all_iff] at hflow
  have hdescription : describedAs ms = .ok f.description :=
    optionalTextAt_of_foundAs hdescription
      (by simp [OAuthFlows.toJson, descriptionName, Name.plain, Text.ofString_inj])
  have hcode : optionalFlowAt ms authorizationCodeName = .ok f.authorizationCode :=
    hflow hcode (by simp [OAuthFlows.toJson, authorizationCodeName, Text.ofString_inj])
      fun _ => .inl
  have himplicit : optionalFlowAt ms (.plain "implicit") = .ok f.implicit :=
    hflow himplicit (by simp [OAuthFlows.toJson, Name.plain, Text.ofString_inj])
      fun _ hf => .inr (.inl hf)
  have hpassword : optionalFlowAt ms (.plain "password") = .ok f.password :=
    hflow hpassword (by simp [OAuthFlows.toJson, Name.plain, Text.ofString_inj])
      fun _ hf => .inr (.inr (.inl hf))
  have hcredentials : optionalFlowAt ms clientCredentialsName = .ok f.clientCredentials :=
    hflow hcredentials (by simp [OAuthFlows.toJson, clientCredentialsName, Text.ofString_inj])
      fun _ hf => .inr (.inr (.inr hf))
  rw [hdescription, hcode, himplicit, hpassword, hcredentials]
  rfl

theorem apart_memberNames (s : SecurityScheme) : Apart s.memberNames := by
  cases s <;> simp only [memberNames] <;> decide +kernel

/-- What a scheme says of itself. -/
def description : SecurityScheme → Option Text
  | .httpBasic d | .httpBearer d _ | .apiKey d _ _ | .oauth2 d _ | .openIdConnect d _ => d

/-- The type of a scheme, as it is written. -/
def typeText : SecurityScheme → Text
  | .httpBasic _ | .httpBearer _ _ => "http"
  | .apiKey _ _ _ => "apiKey"
  | .oauth2 _ _ => "oauth2"
  | .openIdConnect _ _ => "openIdConnect"

theorem read_shared {s : SecurityScheme} (hms : ∀ n ∈ s.memberNames, FoundAs s.toJson ms n) :
    describedAs ms = .ok s.description ∧ constant ms "type" s.typeText = .ok s.typeText := by
  have hnames : descriptionName ∈ s.memberNames ∧ .plain "type" ∈ s.memberNames := by
    cases s <;> simp [memberNames]
  have hdescription : s.toJson.get? descriptionName.outer = s.description.map Json.str := by
    cases s <;> simp [toJson, description, descriptionName, Name.plain, Text.ofString_inj]
  have htype : s.toJson.get? "type" = some (.str s.typeText) := by
    cases s <;> simp [toJson, typeText, Text.ofString_inj]
  have hwhole : s.typeText.isWhole = true := by
    cases s <;> simp only [typeText] <;> decide +kernel
  exact ⟨optionalTextAt_of_foundAs (hms _ hnames.1) hdescription,
    constant_of_foundAs hwhole (hms _ hnames.2) htype⟩

variable {d : Option Text}

theorem httpBasic?_toJson : httpBasic? (Data.ofJson (httpBasic d).toJson) = .ok (.httpBasic d) := by
  have hpresents : Presents (httpBasic d).memberNames 3 _ := Sound.presents (n := 0) trivial
  refine record_ofJson (apart_memberNames _) hpresents.keysFrom fun ms hms => ?_
  have hdescription : describedAs ms = .ok d := (read_shared hms).1
  have htype : constant ms "type" "http" = .ok "http" := (read_shared hms).2
  have hscheme : constant ms "scheme" "basic" = .ok "basic" :=
    constant_of_foundAs (by decide) (hms _ (by simp [memberNames]))
      (by simp [toJson, Text.ofString_inj])
  rw [hdescription, htype, hscheme]
  rfl

theorem httpBearer?_toJson {format : Option Text} :
    httpBearer? (Data.ofJson (httpBearer d format).toJson) = .ok (.httpBearer d format) := by
  have hpresents : Presents (httpBearer d format).memberNames 3 _ := Sound.presents (n := 0) trivial
  refine record_ofJson (apart_memberNames _) hpresents.keysFrom fun ms hms => ?_
  have hdescription : describedAs ms = .ok d := (read_shared hms).1
  have htype : constant ms "type" "http" = .ok "http" := (read_shared hms).2
  have hscheme : constant ms "scheme" "bearer" = .ok "bearer" :=
    constant_of_foundAs (by decide) (hms _ (by simp [memberNames]))
      (by simp [toJson, Text.ofString_inj])
  have hformat : optionalTextAt ms bearerFormatName = .ok format :=
    optionalTextAt_of_foundAs (hms _ (by simp [memberNames]))
      (by simp [toJson, bearerFormatName, Text.ofString_inj])
  rw [hdescription, htype, hscheme, hformat]
  rfl

theorem apiKey?_toJson {location name : Text} (h : (apiKey d location name).Sound) :
    apiKey? (Data.ofJson (apiKey d location name).toJson) = .ok (.apiKey d location name) := by
  refine record_ofJson (apart_memberNames _) (h.presents (n := 0)).keysFrom fun ms hms => ?_
  have hdescription : describedAs ms = .ok d := (read_shared hms).1
  have htype : constant ms "type" "apiKey" = .ok "apiKey" := (read_shared hms).2
  have hwhole : ∀ t ∈ keyLocations, t.chars?.isSome = true := by decide +kernel
  have hlocation : required ms locationName (oneOf keyLocations) = .ok location :=
    required_of_foundAs (hms _ (by simp [memberNames])) (x := .str location)
      (by simp [toJson, locationName, Text.ofString_inj])
      (oneOf_eq_ok_iff.2 ⟨rfl, hwhole location h, h⟩)
  have hname : required ms (.plain "name") text = .ok name :=
    required_of_foundAs (hms _ (by simp [memberNames])) (x := .str name)
      (by simp [toJson, Name.plain, Text.ofString_inj]) rfl
  rw [keyLocations] at hlocation
  rw [hdescription, htype, hlocation, hname]
  rfl

theorem oauth2?_toJson {flows : OAuthFlows} (h : (oauth2 d flows).Sound) :
    oauth2? (Data.ofJson (oauth2 d flows).toJson) = .ok (.oauth2 d flows) := by
  refine record_ofJson (apart_memberNames _) (h.presents (n := 0)).keysFrom fun ms hms => ?_
  have hdescription : describedAs ms = .ok d := (read_shared hms).1
  have htype : constant ms "type" "oauth2" = .ok "oauth2" := (read_shared hms).2
  have hflows : required ms (.plain "flows") flows? = .ok flows :=
    required_of_foundAs (hms _ (by simp [memberNames])) (x := flows.toJson)
      (by simp [toJson, Name.plain, Text.ofString_inj]) (flows?_toJson h)
  rw [hdescription, htype, hflows]
  rfl

theorem openIdConnect?_toJson {url : Text} :
    openIdConnect? (Data.ofJson (openIdConnect d url).toJson) = .ok (.openIdConnect d url) := by
  have hpresents : Presents (openIdConnect d url).memberNames 3 _ := Sound.presents (n := 0) trivial
  refine record_ofJson (apart_memberNames _) hpresents.keysFrom fun ms hms => ?_
  have hdescription : describedAs ms = .ok d := (read_shared hms).1
  have htype : constant ms "type" "openIdConnect" = .ok "openIdConnect" := (read_shared hms).2
  have hurl : required ms openIdConnectUrlName text = .ok url :=
    required_of_foundAs (hms _ (by simp [memberNames])) (x := .str url)
      (by simp [toJson, openIdConnectUrlName, Text.ofString_inj]) rfl
  rw [hdescription, htype, hurl]
  rfl

/-- **A sound scheme is read back** from what it is written as. -/
theorem ofData_toJson {s : SecurityScheme} (h : s.Sound) :
    ofData (Data.ofJson s.toJson) = .ok s := by
  refine ofData_eq_ok_iff.2 ?_
  cases s with
  | httpBasic d => exact ⟨_, httpBasic?, .head _, httpBasic?_toJson⟩
  | httpBearer d format => exact ⟨_, httpBearer?, .tail _ (.head _), httpBearer?_toJson⟩
  | apiKey d location name => exact ⟨_, apiKey?, .tail _ (.tail _ (.head _)), apiKey?_toJson h⟩
  | oauth2 d flows =>
    exact ⟨_, oauth2?, .tail _ (.tail _ (.tail _ (.head _))), oauth2?_toJson h⟩
  | openIdConnect d url =>
    exact ⟨_, openIdConnect?, .tail _ (.tail _ (.tail _ (.tail _ (.head _)))),
      openIdConnect?_toJson⟩

end SecurityScheme

/-! ## Normal form -/

/-- What the security schemes of a document are written as; null stands for none at all. -/
def schemesJson : Option (Assoc Text SecurityScheme) → Json
  | none => .null
  | some schemes => .obj (Assoc.mapValues SecurityScheme.toJson schemes)

/-- Security schemes as a document holds them. -/
def normalizedSchemes (v : Data) : Except Failure Json :=
  (readSecuritySchemes v).map schemesJson

/-- The generator with other security schemes in its options. -/
def Generator.withSchemes (g : Generator) (v : Data) : Generator :=
  { g with options := { g.options with securitySchemes := v } }

/-- The schemes are those of the members, in normal form. -/
structure SecurityScheme.Normalizes (ms : List (Data × Data))
    (schemes : Assoc Text SecurityScheme) : Prop where
  /-- Every member fits exactly one kind. -/
  one_kind : ∀ m ∈ ms, ∃! name, Fits name m.2
  /-- Every member is read, and keys that stand for one text are one name. -/
  members_read : ∃ pairs, List.Forall₂ (fun m p => text m.1 = .ok p.1 ∧ ofData m.2 = .ok p.2) ms
    pairs ∧ Assoc.ofList pairs = schemes
  /-- The names are the keys, in the same order. -/
  same_names : ∀ names : List Text, ms.map Prod.fst = names.map Data.str → names.Nodup →
    Assoc.keys schemes = names
  /-- There is no null, at any depth. -/
  no_null : ¬ Json.null.Occurs (schemesJson (some schemes))
  /-- A scheme is written under outer names. -/
  outer_names : ∀ p ∈ schemes, KeysFrom p.2.memberNames p.2.toJson
  /-- So is every flow of a scheme; the scopes of a flow have the names they were given. -/
  outer_flow_names : ∀ p ∈ schemes, ∀ d flows, p.2 = .oauth2 d flows →
    KeysFrom flowsNames flows.toJson ∧ ∀ f ∈ flows.all, KeysFrom flowNames f.toJson

theorem readSecuritySchemes_eq_ok_iff {v : Data} {schemes : Option (Assoc Text SecurityScheme)} :
    readSecuritySchemes v = .ok schemes ↔ v = .null ∧ schemes = none ∨
      v ≠ .null ∧ ∃ m, textMap SecurityScheme.ofData v = .ok m ∧ some m = schemes := by
  rw [readSecuritySchemes, toExcept_eq_ok_iff, nullable_eq_ok_iff]

/-- What is read has distinct names and is sound. -/
theorem sound_of_textMap {v : Data} {schemes : Assoc Text SecurityScheme}
    (h : textMap SecurityScheme.ofData v = .ok schemes) :
    (Assoc.keys schemes).Nodup ∧ ∀ p ∈ schemes, p.2.Sound :=
  of_textMap SecurityScheme.sound_of_ofData h

/-- **Schemes are read back** from what they are written as. -/
theorem readSecuritySchemes_schemesJson {v : Data} {schemes : Option (Assoc Text SecurityScheme)}
    (h : readSecuritySchemes v = .ok schemes) :
    readSecuritySchemes (Data.ofJson (schemesJson schemes)) = .ok schemes := by
  rcases readSecuritySchemes_eq_ok_iff.1 h with ⟨-, rfl⟩ | ⟨-, m, hm, rfl⟩
  · rfl
  · obtain ⟨hkeys, hsound⟩ := sound_of_textMap hm
    refine readSecuritySchemes_eq_ok_iff.2 (.inr ⟨nofun, m, ?_, rfl⟩)
    exact textMap_ofJson hkeys fun p hp => SecurityScheme.ofData_toJson (hsound p hp)

theorem SecurityScheme.exists_normalizes {v : Data} {schemes : Assoc Text SecurityScheme}
    (h : readSecuritySchemes v = .ok (some schemes)) :
    ∃ ms, v.opened = .map ms ∧ Normalizes ms schemes := by
  obtain ⟨-, hnone⟩ | ⟨-, m, hm, hschemes⟩ := readSecuritySchemes_eq_ok_iff.1 h
  · cases hnone
  obtain rfl : m = schemes := Option.some.inj hschemes
  obtain ⟨-, hsound⟩ := sound_of_textMap hm
  obtain ⟨ms, pairs, hms, hpairs, hwritten⟩ := textMap_eq_ok_iff.1 hm
  refine ⟨ms, hms, ?_, ⟨pairs, hpairs, hwritten⟩, ?_, ?_, ?_, ?_⟩
  · intro member hmember
    obtain ⟨p, -, -, hread⟩ := exists_of_mem_left hpairs hmember
    exact existsUnique_fits hread
  · intro names hnames hnodup
    have htexts : List.Forall₂ (fun k name => text k = .ok name) (ms.map Prod.fst)
        (Assoc.keys pairs) :=
      List.forall₂_map_left_iff.2 (List.forall₂_map_right_iff.2 (hpairs.imp fun _ _ hp => hp.1))
    rw [hnames, List.forall₂_map_left_iff] at htexts
    have hkeys : names = Assoc.keys pairs :=
      List.forall₂_eq_eq_eq ▸ htexts.imp fun _ _ hname => Checked.ok.inj hname
    rw [← hwritten, Assoc.ofList_eq_self (hkeys ▸ hnodup), hkeys]
  · exact (tidy_of_readSecuritySchemes (n := 0) h rfl).not_occurs_null
  · exact fun p hp => ((hsound p hp).presents (n := 0)).keysFrom
  · intro p hp d flows hflows
    have hscopes : (oauth2 d flows).Sound := hflows ▸ hsound p hp
    exact ⟨(presents_flows (n := 0) hscopes).keysFrom,
      fun f hf => (presents_flow (n := 0) (hscopes f hf)).keysFrom⟩

/-- **Written schemes are in normal form.** They are read and written as they are, the option takes
them as they are, and a document made with them is the one that has them. -/
theorem normal_form {v : Data} {r : Json} (h : normalizedSchemes v = .ok r) :
    (v = .null ∧ r = .null ∨ ∃ ms schemes, v.opened = .map ms ∧ r = schemesJson (some schemes) ∧
      SecurityScheme.Normalizes ms schemes) ∧
    normalizedSchemes (Data.ofJson r) = .ok r ∧
    Options.mapOrNull (Data.ofJson r) = .ok (Data.ofJson r) ∧
    ∀ (g : Generator) d, g.options.securitySchemes = v → g.document = .ok d →
      ((Json.obj d.components).get? "securitySchemes").getD .null = r ∧
      (g.withSchemes (Data.ofJson r)).document = .ok d := by
  obtain ⟨schemes, hread, rfl⟩ := map_eq_ok_iff.1 h
  have hagain := readSecuritySchemes_schemesJson hread
  refine ⟨?_, ?_, ?_, ?_⟩
  · cases schemes with
    | none =>
      obtain ⟨hv, -⟩ | ⟨-, m, -, hm⟩ := readSecuritySchemes_eq_ok_iff.1 hread
      · exact .inl ⟨hv, rfl⟩
      · cases hm
    | some schemes =>
      obtain ⟨ms, hms, hnormal⟩ := SecurityScheme.exists_normalizes hread
      exact .inr ⟨ms, schemes, hms, rfl, hnormal⟩
  · rw [normalizedSchemes, hagain]
    rfl
  · cases schemes <;> rfl
  · intro g d hv hd
    obtain ⟨schemes', schemas, paths, hschemes, hschemas, hpaths, rfl⟩ :=
      Generator.document_eq_ok_iff.1 hd
    obtain rfl : schemes' = schemes := Except.ok.inj (hschemes.symm.trans (hv ▸ hread))
    refine ⟨?_, Generator.document_eq_ok_iff.2
      ⟨schemes', schemas, paths, hagain, hschemas, hpaths, rfl⟩⟩
    cases schemes' with
    | none => simp [Document.components, schemesJson, Text.ofString_inj]
    | some m => simp [Document.components, schemesJson, Text.ofString_inj]

namespace Blog

/-- A key whose place stands under its own name, and tokens with some members under own names and
some null. -/
def givenSchemes : Data := Data.ofJson (.obj [
  ("key", .obj [("type", .str "apiKey"), ("location", .str "header"), ("name", .str "X-Key"),
    ("description", .null)]),
  ("login", .obj [("type", .str "oauth2"), ("flows", .obj [
    ("client_credentials", .obj [("token_url", .str "https://blog/token")]),
    ("implicit", .null)])])])

/-- The same under outer names, without null and with the scopes that are there by default. -/
def writtenSchemes : Json := .obj [
  ("key", .obj [("type", .str "apiKey"), ("in", .str "header"), ("name", .str "X-Key")]),
  ("login", .obj [("type", .str "oauth2"), ("flows", .obj [
    ("clientCredentials", .obj [("tokenUrl", .str "https://blog/token"), ("scopes", .obj [])])])])]

/-- The document of the blog is the same with schemes as they are given and as they are written. -/
theorem written_schemes_fed_back :
    normalizedSchemes givenSchemes = .ok writtenSchemes ∧
      normalizedSchemes (Data.ofJson writtenSchemes) = .ok writtenSchemes ∧
      ∃ d, (generator.withSchemes givenSchemes).document = .ok d ∧
        (generator.withSchemes (Data.ofJson writtenSchemes)).document = .ok d := by
  have hgiven : normalizedSchemes givenSchemes = .ok writtenSchemes := rfl
  obtain ⟨d, hd⟩ : ∃ d, (generator.withSchemes givenSchemes).document = .ok d := ⟨_, rfl⟩
  obtain ⟨-, hagain, -, hdocument⟩ := normal_form hgiven
  exact ⟨hgiven, hagain, d, hd, (hdocument _ d rfl hd).2⟩

end Blog

end ResourceApi
