import ResourceApi.Security
import ResourceApi.Proofs.Acceptance

/-!
# Kinds of security schemes

A value is read as a security scheme by trying five kinds, and the first one that it fits is
taken. The order does not matter: every kind fixes members that are written under one name only,
and what one kind fixes no other kind accepts (`exists_differing_member`).

**Main result** (`existsUnique_fits`). A value that is read as a security scheme fits exactly one
kind. The scheme is the one of that kind (`ofData_eq_ok_iff`), and it is *sound*: its location is
one of three, and the scopes of each of its flows have distinct names (`sound_of_ofData`).
-/

namespace ResourceApi

open Checked

/-- The ways of obtaining a token that are offered. -/
def OAuthFlows.all (f : OAuthFlows) : List OAuthFlow :=
  [f.authorizationCode, f.implicit, f.password, f.clientCredentials].filterMap id

theorem OAuthFlows.mem_all_iff {f : OAuthFlows} {flow : OAuthFlow} :
    flow ∈ f.all ↔ f.authorizationCode = some flow ∨ f.implicit = some flow ∨
      f.password = some flow ∨ f.clientCredentials = some flow := by
  simp [all, eq_comm]

namespace SecurityScheme

/-- The places in which a key may be sent. -/
def keyLocations : List Text := ["header", "query", "cookie"]

/-- What can be said of a scheme that was read: its key is sent in one of the places, and the scopes
of its flows are maps. -/
def Sound : SecurityScheme → Prop
  | .apiKey _ location _ => location ∈ keyLocations
  | .oauth2 _ flows => ∀ f ∈ flows.all, (Assoc.keys f.scopes).Nodup
  | _ => True

/-- The value fits the kind of scheme with the name. -/
def Fits (name : Text) (v : Data) : Prop :=
  ∃ check s, (name, check) ∈ kinds ∧ check v = .ok s

/-- The members that a kind of scheme fixes, each with its text. -/
def fixedMembers : List (Text × List (Text × Text)) := [
  ("HttpBasicScheme", [("type", "http"), ("scheme", "basic")]),
  ("HttpBearerScheme", [("type", "http"), ("scheme", "bearer")]),
  ("ApiKeyScheme", [("type", "apiKey")]),
  ("OAuth2Scheme", [("type", "oauth2")]),
  ("OpenIdConnectScheme", [("type", "openIdConnect")])]

variable {name name' : Text} {check check' : Data → Checked SecurityScheme} {v : Data}
  {s : SecurityScheme} {ms : List (Data × Data)}

/-! ## What a scheme is read from -/

theorem lookup_of_constant {key value t : Text} (h : constant ms key value = .ok t) :
    Data.lookup ms key = some (.str value) := by
  unfold constant required find? at h
  cases hlookup : Data.lookup ms key with
  | none => simp [Name.plain, hlookup] at h
  | some w =>
    simp only [Name.plain, hlookup, under_eq_ok_iff] at h
    obtain ⟨hw, -, ht⟩ := oneOf_eq_ok_iff.1 h
    rw [hw, List.mem_singleton.1 ht]

theorem nodup_scopes_of_flow {f : OAuthFlow} (h : flow? v = .ok f) :
    (Assoc.keys f.scopes).Nodup := by
  obtain ⟨ms, -, hclosed⟩ := record_eq_ok_iff.1 h
  have hparts := (closed_eq_ok_iff.1 hclosed).2.2
  simp only [seq_eq_ok_iff, Checked.map_eq_ok_iff] at hparts
  obtain ⟨_, scopes, ⟨_, refresh, ⟨_, token, ⟨_, authorization, ⟨description, -, rfl⟩, -, rfl⟩,
    -, rfl⟩, -, rfl⟩, hscopes, rfl⟩ := hparts
  refine of_defaulted (P := fun m : Assoc Text Text => (Assoc.keys m).Nodup) ?_ (fun hread => ?_)
    hscopes
  · exact List.nodup_nil
  · exact (of_textMap (P := fun _ => True) (fun _ => trivial) hread).1

theorem nodup_scopes_of_optionalFlow {n : Name} {f? : Option OAuthFlow}
    (h : optionalFlowAt ms n = .ok f?) : ∀ f, f? = some f → (Assoc.keys f.scopes).Nodup :=
  of_defaulted (P := fun f? => ∀ f, f? = some f → (Assoc.keys f.scopes).Nodup) nofun
    (of_nullable nodup_scopes_of_flow) h

theorem nodup_scopes_of_flows {flows : OAuthFlows} (h : flows? v = .ok flows) :
    ∀ f ∈ flows.all, (Assoc.keys f.scopes).Nodup := by
  obtain ⟨ms, -, hclosed⟩ := record_eq_ok_iff.1 h
  have hparts := (closed_eq_ok_iff.1 hclosed).2.2
  obtain ⟨_, credentials, h₁, hcredentials, rfl⟩ := seq_eq_ok_iff.1 hparts
  obtain ⟨_, password, h₂, hpassword, rfl⟩ := seq_eq_ok_iff.1 h₁
  obtain ⟨_, «implicit», h₃, himplicit, rfl⟩ := seq_eq_ok_iff.1 h₂
  obtain ⟨_, code, h₄, hcode, rfl⟩ := seq_eq_ok_iff.1 h₃
  obtain ⟨description, -, rfl⟩ := Checked.map_eq_ok_iff.1 h₄
  intro f hf
  rcases OAuthFlows.mem_all_iff.1 hf with hf | hf | hf | hf
  · exact nodup_scopes_of_optionalFlow hcode f hf
  · exact nodup_scopes_of_optionalFlow himplicit f hf
  · exact nodup_scopes_of_optionalFlow hpassword f hf
  · exact nodup_scopes_of_optionalFlow hcredentials f hf

/-- **What a value that fits a kind has**: the members that the kind fixes. What is read from it is
sound. -/
theorem fixed_of_kind (hkind : (name, check) ∈ kinds) (h : check v = .ok s) :
    (∃ ms fixed, v.opened = .map ms ∧ (name, fixed) ∈ fixedMembers ∧
      ∀ p ∈ fixed, Data.lookup ms p.1 = some (.str p.2)) ∧ s.Sound := by
  simp only [kinds, List.mem_cons, Prod.mk.injEq, List.not_mem_nil, or_false] at hkind
  rcases hkind with ⟨rfl, rfl⟩ | ⟨rfl, rfl⟩ | ⟨rfl, rfl⟩ | ⟨rfl, rfl⟩ | ⟨rfl, rfl⟩ <;>
    obtain ⟨ms, hms, hclosed⟩ := record_eq_ok_iff.1 h <;>
    have hparts := (closed_eq_ok_iff.1 hclosed).2.2 <;>
    simp only [seq_eq_ok_iff, Checked.map_eq_ok_iff] at hparts
  case inl =>
    obtain ⟨_, _, ⟨_, _, ⟨_, -, rfl⟩, htype, rfl⟩, hscheme, rfl⟩ := hparts
    exact ⟨⟨ms, _, hms, .head _,
      by simp [lookup_of_constant htype, lookup_of_constant hscheme]⟩, trivial⟩
  case inr.inl =>
    obtain ⟨_, _, ⟨_, _, ⟨_, _, ⟨_, -, rfl⟩, htype, rfl⟩, hscheme, rfl⟩, -, rfl⟩ := hparts
    exact ⟨⟨ms, _, hms, .tail _ (.head _),
      by simp [lookup_of_constant htype, lookup_of_constant hscheme]⟩, trivial⟩
  case inr.inr.inl =>
    obtain ⟨_, _, ⟨_, location, ⟨_, _, ⟨_, -, rfl⟩, htype, rfl⟩, hlocation, rfl⟩, -, rfl⟩ := hparts
    exact ⟨⟨ms, _, hms, .tail _ (.tail _ (.head _)), by simp [lookup_of_constant htype]⟩,
      of_required (P := fun t => t ∈ keyLocations) mem_of_oneOf hlocation⟩
  case inr.inr.inr.inl =>
    obtain ⟨_, flows, ⟨_, _, ⟨_, -, rfl⟩, htype, rfl⟩, hflows, rfl⟩ := hparts
    exact ⟨⟨ms, _, hms, .tail _ (.tail _ (.tail _ (.head _))), by simp [lookup_of_constant htype]⟩,
      of_required (P := fun flows => ∀ f ∈ OAuthFlows.all flows, (Assoc.keys f.scopes).Nodup)
        nodup_scopes_of_flows hflows⟩
  case inr.inr.inr.inr =>
    obtain ⟨_, _, ⟨_, _, ⟨_, -, rfl⟩, htype, rfl⟩, -, rfl⟩ := hparts
    exact ⟨⟨ms, _, hms, .tail _ (.tail _ (.tail _ (.tail _ (.head _)))),
      by simp [lookup_of_constant htype]⟩, trivial⟩

/-! ## One kind only -/

theorem exists_differing_member :
    ∀ r ∈ fixedMembers, ∀ r' ∈ fixedMembers, r.1 ≠ r'.1 →
      ∃ p ∈ r.2, ∃ p' ∈ r'.2, p.1 = p'.1 ∧ p.2 ≠ p'.2 := by
  decide +kernel

/-- **No value fits two kinds of scheme.** -/
theorem Fits.unique (h : Fits name v) (h' : Fits name' v) : name = name' := by
  obtain ⟨check, s, hkind, hs⟩ := h
  obtain ⟨check', s', hkind', hs'⟩ := h'
  obtain ⟨⟨ms, fixed, hms, hrow, hfixed⟩, -⟩ := fixed_of_kind hkind hs
  obtain ⟨⟨ms', fixed', hms', hrow', hfixed'⟩, -⟩ := fixed_of_kind hkind' hs'
  obtain rfl : ms = ms' := Data.map.inj (hms.symm.trans hms')
  by_contra hne
  obtain ⟨p, hp, p', hp', hkey, hdiffer⟩ := exists_differing_member _ hrow _ hrow' hne
  have hlookup := hfixed' p' hp'
  rw [← hkey, hfixed p hp] at hlookup
  exact hdiffer (Data.str.inj (Option.some.inj hlookup))

theorem check_unique (h : (name, check) ∈ kinds) (h' : (name, check') ∈ kinds) :
    check = check' := by
  have hnames : (Assoc.keys kinds).Nodup := by decide +kernel
  have hget := (Assoc.get?_eq_some_iff_mem hnames).2 h
  rw [(Assoc.get?_eq_some_iff_mem hnames).2 h'] at hget
  exact (Option.some.inj hget).symm

theorem eq_of_kinds {s' : SecurityScheme} (hkind : (name, check) ∈ kinds) (h : check v = .ok s)
    (hkind' : (name', check') ∈ kinds) (h' : check' v = .ok s') : s = s' := by
  obtain rfl : name = name' := Fits.unique ⟨check, s, hkind, h⟩ ⟨check', s', hkind', h'⟩
  obtain rfl := check_unique hkind hkind'
  exact Checked.ok.inj (h.symm.trans h')

theorem exists_kind_of_findSome?
    (h : (kinds.map fun k => under (.key k.1) (k.2 v)).findSome? Checked.toOption = some s) :
    ∃ name check, (name, check) ∈ kinds ∧ check v = .ok s := by
  obtain ⟨c, hc, hs⟩ := List.exists_of_findSome?_eq_some h
  obtain ⟨⟨name, check⟩, hkind, rfl⟩ := List.mem_map.1 hc
  exact ⟨name, check, hkind, under_eq_ok_iff.1 (toOption_eq_some_iff.1 hs)⟩

/-- **A value is read as a scheme when it fits some kind**, and as the scheme of that kind. -/
theorem ofData_eq_ok_iff :
    ofData v = .ok s ↔ ∃ name check, (name, check) ∈ kinds ∧ check v = .ok s := by
  unfold ofData
  simp only
  constructor
  · intro h
    split at h
    · next s' hfound =>
      cases h
      exact exists_kind_of_findSome? hfound
    · cases h
  · rintro ⟨name, check, hkind, hs⟩
    split
    · next s' hfound =>
      obtain ⟨name', check', hkind', hs'⟩ := exists_kind_of_findSome? hfound
      rw [eq_of_kinds hkind' hs' hkind hs]
    · next hnone =>
      have hrefused := List.findSome?_eq_none_iff.1 hnone _ (List.mem_map_of_mem hkind)
      rw [toOption_eq_some_iff.2 (under_eq_ok_iff.2 hs)] at hrefused
      cases hrefused

/-- **A value that is read as a scheme fits exactly one kind.** -/
theorem existsUnique_fits (h : ofData v = .ok s) : ∃! name, Fits name v := by
  obtain ⟨name, check, hkind, hs⟩ := ofData_eq_ok_iff.1 h
  exact ⟨name, ⟨check, s, hkind, hs⟩, fun _ hname => hname.unique ⟨check, s, hkind, hs⟩⟩

theorem sound_of_ofData (h : ofData v = .ok s) : s.Sound := by
  obtain ⟨name, check, hkind, hs⟩ := ofData_eq_ok_iff.1 h
  exact (fixed_of_kind hkind hs).2

end SecurityScheme

end ResourceApi
