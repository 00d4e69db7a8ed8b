import ResourceApi.Proofs.DocumentView
import ResourceApi.Proofs.Pruning
import ResourceApi.Proofs.ResolvedReference
import ResourceApi.Proofs.TwoRuns

/-!
# The version of the target format

The version decides in which style schemas admit null, and nothing else. Two values are *restyled*
when they are equal but for the fragments that admit null, each of which is one fragment in two
styles.

**Schemas** (`parallel_componentSchemas`). The schemas of a model in two styles are restyled, name
by name; or neither style has any, for the same reason. Every builder puts fragments into objects
and lists, and what is restyled there is restyled as a whole.

**Mentions** (`Restyled.mentions_iff`). A style wraps a fragment or adds a flag to it, so it
mentions no name and hides none. Pruning then keeps the same names.

**Documents** (`version_moves_only_null`). So documents in two versions differ in the version, and
their schemas in how they admit null.
-/

namespace ResourceApi

open Schema Json

/-! ## Restyled values -/

/-- The values are equal but for fragments that admit null, each in its own style on either side. -/
inductive Restyled (style style' : NullStyle) : Json → Json → Prop
  | refl (v : Json) : Restyled style style' v v
  | null {s : Json} : IsObject s → s.get? "nullable" = none →
      Restyled style style' (nullable style s) (nullable style' s)
  | member {k : Text} {v v' : Json} {ms ms' : List (Text × Json)} : Restyled style style' v v' →
      Restyled style style' (.obj ms) (.obj ms') →
      Restyled style style' (.obj ((k, v) :: ms)) (.obj ((k, v') :: ms'))
  | item {v v' : Json} {xs xs' : List Json} : Restyled style style' v v' →
      Restyled style style' (.arr xs) (.arr xs') →
      Restyled style style' (.arr (v :: xs)) (.arr (v' :: xs'))

section

variable {style style' : NullStyle} {s t : Json} {n : Text}

theorem mentions_flagged (h : s.get? "nullable" = none) :
    (flagged s).Mentions n ↔ s.Mentions n := by
  cases s with
  | obj ms =>
    have hkey : ("nullable" : Text) ∉ Assoc.keys ms := (Assoc.get?_eq_none_iff _ _).1 h
    rw [flagged, Assoc.insert_of_not_mem hkey, mentions_obj_append]
    simp [mentions_obj_cons]
  | _ => rfl

/-- **Either style mentions what the fragment mentions.** -/
theorem mentions_nullable_iff (h : s.get? "nullable" = none) :
    (nullable style s).Mentions n ↔ s.Mentions n := by
  cases style with
  | asType => simp [nullable]
  | flag =>
    by_cases href : isRef s
    · simp [nullable, href, mentions_obj_cons]
    · simp only [nullable, href]
      exact mentions_flagged h

theorem isObject_nullable (style : NullStyle) (h : IsObject s) : IsObject (nullable style s) :=
  h.nullableIf true

/-- Restyling makes no text and changes none. -/
theorem Restyled.eq_str_iff (h : Restyled style style' s t) {x : Text} :
    s = .str x ↔ t = .str x := by
  have hobject {v : Json} (hv : IsObject v) : v ≠ .str x := by
    rintro rfl
    exact hv
  cases h with
  | refl v => rfl
  | null hs _ =>
    exact iff_of_false (hobject (isObject_nullable style hs))
      (hobject (isObject_nullable style' hs))
  | member _ _ => exact iff_of_false nofun nofun
  | item _ _ => exact iff_of_false nofun nofun

/-- **Restyled values mention the same names.** -/
theorem Restyled.mentions_iff (h : Restyled style style' s t) : s.Mentions n ↔ t.Mentions n := by
  -- a member under `$ref` is a text in both values or in neither, so links stay links
  induction h with
  | refl v => rfl
  | null _ hs => rw [mentions_nullable_iff hs, mentions_nullable_iff hs]
  | member hv _ ihv ihms => rw [mentions_obj_cons, mentions_obj_cons, hv.eq_str_iff, ihv, ihms]
  | item _ _ ihv ihxs => rw [mentions_arr_cons, mentions_arr_cons, ihv, ihxs]

theorem Restyled.obj {ms ms' : List (Text × Json)}
    (h : Assoc.Alike (Restyled style style') ms ms') :
    Restyled style style' (.obj ms) (.obj ms') := by
  induction h with
  | nil => exact .refl _
  | @cons p q _ _ hpq _ ih =>
    obtain ⟨k, v⟩ := p
    obtain ⟨l, w⟩ := q
    obtain ⟨hkey, hv⟩ := hpq
    cases hkey
    exact .member hv ih

theorem Restyled.obj_append {ms ms' : List (Text × Json)} (front : List (Text × Json))
    (h : Assoc.Alike (Restyled style style') ms ms') :
    Restyled style style' (.obj (front ++ ms)) (.obj (front ++ ms')) :=
  .obj ((Assoc.Alike.refl .refl front).append h)

theorem Restyled.arrayOf (h : Restyled style style' s t) :
    Restyled style style' (Schema.arrayOf s) (Schema.arrayOf t) :=
  .member (.refl _) (.member h (.refl _))

theorem Restyled.arrayIf (h : Restyled style style' s t) (array : Bool) :
    Restyled style style' (Schema.arrayIf array s) (Schema.arrayIf array t) := by
  unfold Schema.arrayIf
  split_ifs
  · exact h.arrayOf
  · exact h

theorem restyled_nullableIf (optional : Bool) (hs : IsObject s) (h : s.get? "nullable" = none) :
    Restyled style style' (nullableIf optional style s) (nullableIf optional style' s) := by
  unfold nullableIf
  split_ifs
  · exact .null hs h
  · exact .refl s

end

/-! ## Restyled schemas -/

section

variable {style style' : NullStyle}

section

variable {k : Text} {v v' : Json} {ms ms' : List (Text × Json)}

theorem alike_cons (hv : Restyled style style' v v')
    (h : Assoc.Alike (Restyled style style') ms ms') :
    Assoc.Alike (Restyled style style') ((k, v) :: ms) ((k, v') :: ms') :=
  .cons ⟨rfl, hv⟩ h

theorem restyled_properties (front : List (Text × Json))
    (h : Assoc.Alike (Restyled style style') ms ms') :
    Restyled style style' (.obj (front ++ member "properties" (.obj ms)))
      (.obj (front ++ member "properties" (.obj ms'))) :=
  .obj_append front (alike_cons (.obj h) .nil)

end

/-- **The shared schemas are restyled**: what admits null in them are the links to other pages, the
data of a to-one relationship, and the request that sets one. -/
theorem alike_shared : Assoc.Alike (Restyled style style') (shared style) (shared style') := by
  have hlink (d : Text) : Restyled style style' (nullable style (described "string" d))
      (nullable style' (described "string" d)) := .null trivial rfl
  have hdata : Restyled style style' (nullable style (ref "_resourceIdentifier"))
      (nullable style' (ref "_resourceIdentifier")) := .null trivial rfl
  have hsame {p : Text × Json} {ms ms' : List (Text × Json)}
      (h : Assoc.Alike (Restyled style style') ms ms') :
      Assoc.Alike (Restyled style style') (p :: ms) (p :: ms') := alike_cons (.refl p.2) h
  unfold shared
  refine hsame (hsame (hsame (hsame (hsame (alike_cons ?pagination (hsame (hsame (hsame
    (alike_cons ?toOne (alike_cons ?toOneWithLinks (hsame (hsame (hsame (hsame
      (alike_cons ?request (hsame (hsame .nil)))))))))))))))))
  case pagination =>
    exact restyled_properties [("type", "object"), _, _] (alike_cons (hlink _)
      (alike_cons (hlink _) (alike_cons (hlink _) (alike_cons (hlink _) .nil))))
  case toOne => exact restyled_properties [("type", "object"), _] (alike_cons hdata .nil)
  case toOneWithLinks =>
    exact restyled_properties [("type", "object"), _, _] (hsame (alike_cons hdata .nil))
  case request =>
    have hrequest : Restyled style style'
        (nullable style (.obj [("type", "object"), ("required", Json.texts ["data"]),
          ("properties", .obj [("data", ref "_resourceIdentifier")])]))
        (nullable style' _) := .null trivial rfl
    -- the description goes in front of either style
    cases style <;> cases style' <;> exact .member (.refl _) hrequest

namespace Model

variable {m : Model} {owner : Option Text}

theorem get?_nullable_baseSchema {f : Field} {s : Json} (h : m.baseSchema owner f = .ok s) :
    s.get? "nullable" = none := by
  rcases baseSchema_cases h with ⟨p, rfl⟩ | ⟨name, -, rfl⟩
  · cases p <;> rfl
  · rfl

theorem parallel_fieldSchema (f : Field) :
    Parallel (Restyled style style') (m.fieldSchema style owner f)
      (m.fieldSchema style' owner f) := by
  unfold fieldSchema
  cases hbase : m.baseSchema owner f with
  | error u => exact .error u
  | ok s => exact .ok ((restyled_nullableIf f.optional (isObject_baseSchema hbase)
      (get?_nullable_baseSchema hbase)).arrayIf f.array)

theorem parallel_properties (fields : List Field) :
    Parallel (Assoc.Alike (Restyled style style'))
      (fields.mapM fun f => (m.fieldSchema style owner f).map (Prod.mk f.name))
      (fields.mapM fun f => (m.fieldSchema style' owner f).map (Prod.mk f.name)) :=
  .mapM_same fun f _ => (parallel_fieldSchema f).map fun _ _ h => ⟨rfl, h⟩

theorem parallel_typeSchema (d : TypeDecl) :
    Parallel (Restyled style style') (m.typeSchema style d) (m.typeSchema style' d) := by
  refine (parallel_properties d.fields).map fun ps qs h => ?_
  exact restyled_properties [("type", "object"), _] h.ofList

theorem alike_relationshipSchemas (mode : Mode) (fields : List Field) :
    Assoc.Alike (Restyled style style') (m.relationshipSchemas style mode fields)
      (m.relationshipSchemas style' mode fields) := by
  refine Assoc.Alike.ofList ?_
  rw [Assoc.Alike, List.forall₂_map_left_iff, List.forall₂_map_right_iff, List.forall₂_same]
  exact fun f _ => ⟨rfl, restyled_nullableIf f.optional trivial rfl⟩

theorem restyled_attributesSchema (required : List Text) {ps qs : List (Text × Json)}
    (h : Assoc.Alike (Restyled style style') ps qs) :
    Restyled style style' (attributesSchema required ps) (attributesSchema required qs) := by
  unfold attributesSchema
  split_ifs
  · exact restyled_properties [("type", "object")] h.ofList
  · exact restyled_properties [("type", "object"), ("required", texts required)] h.ofList

theorem alike_relationshipsMember {ps qs : Assoc Text Json}
    (h : Assoc.Alike (Restyled style style') ps qs) :
    Assoc.Alike (Restyled style style') (relationshipsMember ps) (relationshipsMember qs) := by
  cases h with
  | nil => exact .nil
  | cons hpq hrest =>
    exact .cons ⟨rfl, restyled_properties [("type", "object")] (.cons hpq hrest)⟩ .nil

theorem restyled_resourceObject {e : Entity} {mode : Mode} {id s t : Json} {ps qs : Assoc Text Json}
    (hattributes : Restyled style style' s t)
    (hrelationships : Assoc.Alike (Restyled style style') ps qs) :
    Restyled style style' (resourceObject e mode id s ps) (resourceObject e mode id t qs) := by
  refine restyled_properties [("type", "object"), _, _] ?_
  refine alike_cons (.refl _) (alike_cons (.refl _) (alike_cons hattributes ?_))
  exact alike_relationshipsMember hrelationships

theorem parallel_entitySchema (mode : Mode) (e : Entity) :
    Parallel (Restyled style style') (m.entitySchema style mode e)
      (m.entitySchema style' mode e) := by
  refine (parallel_properties _).bind fun ps qs h => ?_
  refine Parallel.bind_same fun id => ?_
  exact .ok (restyled_resourceObject (restyled_attributesSchema _ h)
    (alike_relationshipSchemas mode _))

theorem restyled_request {description : Text} {required : List Text} {s t : Json}
    (h : Restyled style style' s t) :
    Restyled style style' (envelope description required [("data", s), ("meta", ref "_meta")])
      (envelope description required [("data", t), ("meta", ref "_meta")]) :=
  restyled_properties [("type", "object"), _, _] (alike_cons h (alike_cons (.refl _) .nil))

theorem parallel_entitySchemas (e : Entity) :
    Parallel (Assoc.Alike (Restyled style style')) (m.entitySchemas style e)
      (m.entitySchemas style' e) := by
  refine (parallel_entitySchema .read e).bind fun read read' hread => ?_
  refine (parallel_entitySchema .create e).bind fun create create' hcreate => ?_
  refine (parallel_entitySchema .update e).bind fun update update' hupdate => ?_
  exact .ok (alike_cons hread (alike_cons (restyled_request hcreate)
    (alike_cons (restyled_request hupdate) (Assoc.Alike.refl .refl _))))

/-- **The schemas of a model in two styles are restyled**, name by name. -/
theorem parallel_componentSchemas :
    Parallel (Assoc.Alike (Restyled style style')) (m.componentSchemas style)
      (m.componentSchemas style') := by
  refine (Parallel.mapM_same fun e _ => parallel_entitySchemas e).bind fun es es' hes => ?_
  refine (Parallel.mapM_same (S := fun p q => p.1 = q.1 ∧ Restyled style style' p.2 q.2) fun d _ =>
    (parallel_typeSchema d).map fun _ _ h => ⟨rfl, h⟩).bind fun ts ts' hts => ?_
  refine .ok (Assoc.Alike.ofList ?_)
  exact ((alike_shared.append (Assoc.Alike.refl .refl _)).append (List.rel_flatten hes)).append hts

end Model

end

/-! ## Documents -/

namespace Generator

/-- The generator for another version, which admits null in another style. -/
def inVersion (g : Generator) (version : Text) (style : NullStyle) : Generator :=
  { g with options := { g.options with specVersion := version }, nullStyle := style }

/-- Neither the paths nor the parts that stand outside the components look at the version. -/
theorem parallel_document_inVersion (g : Generator) (version : Text) (style : NullStyle) :
    Parallel (fun d d' => Assoc.Alike (Restyled g.nullStyle style) d.schemas d'.schemas ∧
        d' = { d with specVersion := version, schemas := d'.schemas })
      g.document (g.inVersion version style).document := by
  have hschemas : Parallel (Assoc.Alike (Restyled g.nullStyle style)) g.schemas
      (g.inVersion version style).schemas := Model.parallel_componentSchemas.mapError _
  refine Parallel.bind_same fun schemes => ?_
  refine hschemas.bind fun schemas schemas' halike => ?_
  refine Parallel.bind_same fun paths => ?_
  exact .ok ⟨prune_alike (fun _ _ h _ => h.mentions_iff) halike, rfl⟩

/-- **The version decides only how null is admitted.** Two runs for versions that can be read fail
for the same reason, or give documents that are one but for their versions and the bodies of their
schemas, and those are restyled from the style of the one version to that of the other; and their
warnings are the same. -/
theorem version_moves_only_null (m : Model) (openness : Entity → Except Failure Openness)
    {o : Options} {version : Text} {style style' : NullStyle} (hstyle : o.nullStyle = .ok style)
    (hstyle' : { o with specVersion := version }.nullStyle = .ok style') :
    Parallel (fun d d' => d.toJson.withoutBodies = d'.toJson.withoutBodies ∧
        Assoc.Alike (Restyled style style') d.schemas d'.schemas)
      (Generator.new m o openness >>= Generator.document)
      (Generator.new m { o with specVersion := version } openness >>= Generator.document) ∧
    (Generator.new m o openness).map warnings =
      (Generator.new m { o with specVersion := version } openness).map warnings := by
  have hnew : Generator.new m o openness = .ok ⟨m, o, style, openness⟩ :=
    new_eq_ok_iff.2 ⟨style, hstyle, rfl⟩
  have hnew' : Generator.new m { o with specVersion := version } openness =
      .ok (inVersion ⟨m, o, style, openness⟩ version style') :=
    new_eq_ok_iff.2 ⟨style', hstyle', rfl⟩
  rw [hnew, hnew']
  refine ⟨(parallel_document_inVersion _ version style').imp fun d d' h => ?_, rfl⟩
  obtain ⟨halike, hd'⟩ := h
  rw [hd']
  exact ⟨(Document.withoutBodies_toJson_eq halike.keys_eq.symm).symm, halike⟩

end Generator

namespace Blog

/-- The blog for version 3.1.0, which admits null as a type, is the blog but for its schemas. -/
theorem newer_version_restyled : ∃ d d',
    (Generator.new generator.model generator.options >>= Generator.document) = .ok d ∧
    (Generator.new generator.model { generator.options with specVersion := "3.1.0" } >>=
      Generator.document) = .ok d' ∧
    d.specVersion ≠ d'.specVersion ∧ d.toJson.withoutBodies = d'.toJson.withoutBodies ∧
    Assoc.Alike (Restyled .flag .asType) d.schemas d'.schemas := by
  have hstyle : generator.options.nullStyle = .ok .flag := rfl
  have hstyle' : { generator.options with specVersion := "3.1.0" }.nullStyle = .ok .asType := rfl
  obtain ⟨hruns, -⟩ := Generator.version_moves_only_null generator.model
    (fun e => .ok e.openness) hstyle hstyle'
  obtain ⟨d, hd⟩ : ∃ d, (Generator.new generator.model generator.options >>=
      Generator.document) = .ok d := ⟨_, rfl⟩
  obtain ⟨d', hd'⟩ : ∃ d, (Generator.new generator.model
      { generator.options with specVersion := "3.1.0" } >>= Generator.document) = .ok d := ⟨_, rfl⟩
  rw [hd, hd'] at hruns
  refine ⟨d, d', hd, hd', ?_, hruns.of_ok⟩
  cases hd
  cases hd'
  decide

end Blog

end ResourceApi
