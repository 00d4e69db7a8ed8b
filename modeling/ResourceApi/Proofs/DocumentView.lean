import ResourceApi.Document
import ResourceApi.Proofs.OrderedMap
import ResourceApi.Proofs.Words

/-!
# Views of documents

Two documents are compared by what is left of them when some members are looked away from. A view
leaves everything else as it is: the other members, their order, and the names in every map.

**Without security** (`withoutSecurity_toJson`). The view that drops the `security` of every
operation is the document of the closed operations, those that fall under the requirements of the
document.

**Without bodies** (`withoutBodies_toJson_eq`). The view that blanks the version and the body of
every schema keeps the names of the schemas in their order.
-/

namespace ResourceApi

namespace Json

/-! ## Members -/

variable {k key : Text} {f : Json → Json} {ms ns : List (Text × Json)}

/-- The members with a function applied to the value under a key. -/
def changeAt (key : Text) (f : Json → Json) (ms : List (Text × Json)) : List (Text × Json) :=
  ms.map fun p => if p.1 = key then (p.1, f p.2) else p

/-- The members without the one under a key. -/
def dropAt (key : Text) (ms : List (Text × Json)) : List (Text × Json) :=
  ms.filter fun p => p.1 ≠ key

@[simp] theorem changeAt_append :
    changeAt key f (ms ++ ns) = changeAt key f ms ++ changeAt key f ns :=
  List.map_append

@[simp] theorem changeAt_member (v : Json) :
    changeAt key f (member k v) = member k (if k = key then f v else v) := by
  by_cases h : k = key <;> simp [changeAt, member, h]

@[simp] theorem changeAt_memberIf (v? : Option Json) :
    changeAt key f (memberIf k v?) = memberIf k (if k = key then v?.map f else v?) := by
  cases v? <;> by_cases h : k = key <;> simp [changeAt, memberIf, h]

@[simp] theorem dropAt_append : dropAt key (ms ++ ns) = dropAt key ms ++ dropAt key ns :=
  List.filter_append ..

@[simp] theorem dropAt_member (v : Json) :
    dropAt key (member k v) = if k = key then [] else member k v := by
  by_cases h : k = key <;> simp [dropAt, member, h]

@[simp] theorem dropAt_memberIf (v? : Option Json) :
    dropAt key (memberIf k v?) = if k = key then [] else memberIf k v? := by
  cases v? <;> by_cases h : k = key <;> simp [dropAt, memberIf, h]

@[simp] theorem get?_obj_append :
    (obj (ms ++ ns)).get? key = ((obj ms).get? key).or ((obj ns).get? key) :=
  Assoc.get?_append ms ns key

@[simp] theorem get?_obj_member (v : Json) :
    (obj (member k v)).get? key = if k = key then some v else none := rfl

@[simp] theorem get?_obj_memberIf (v? : Option Json) :
    (obj (memberIf k v?)).get? key = if k = key then v? else none := by
  cases v? with
  | none => exact (ite_self none).symm
  | some v => rfl

/-! ## Objects -/

/-- Applies a function to the member of an object under a key. -/
def mapMember (key : Text) (f : Json → Json) : Json → Json
  | .obj ms => .obj (changeAt key f ms)
  | v => v

/-- Applies a function to every member of an object. -/
def mapMembers (f : Json → Json) : Json → Json
  | .obj ms => .obj (Assoc.mapValues f ms)
  | v => v

/-- Leaves out the member of an object under a key. -/
def without (key : Text) : Json → Json
  | .obj ms => .obj (dropAt key ms)
  | v => v

@[simp] theorem mapMember_obj : mapMember key f (.obj ms) = .obj (changeAt key f ms) := rfl

/-- A document without the `security` of its operations. -/
def withoutSecurity : Json → Json :=
  mapMember "paths" (mapMembers (mapMembers (without "security")))

/-- A document with a blank in place of its version and of the body of each of its schemas. -/
def withoutBodies (document : Json) : Json :=
  (document.mapMember "openapi" fun _ => .null).mapMember "components"
    (mapMember "schemas" (mapMembers fun _ => .null))

/-- Where all bodies are blank, only the names are left. -/
theorem mapMembers_blank : (obj ms).mapMembers (fun _ => .null) =
    .obj ((Assoc.keys ms).map fun n => (n, .null)) := by
  rw [mapMembers, Assoc.mapValues, Assoc.keys, List.map_map]
  rfl

end Json

open Json

/-! ## Parts -/

theorem Document.get?_paths (d : Document) : d.toJson.get? "paths" = some (pathsJson d.paths) := by
  simp [toJson, members, Text.ofString_inj]

theorem Document.get?_schemas (d : Document) :
    ((d.toJson.get? "components").bind (·.get? "schemas")) = some (.obj d.schemas) := by
  simp [toJson, members, components, Text.ofString_inj]

/-! ## Without security -/

/-- The operation under the requirements of its document. -/
def Operation.closed (o : Operation) : Operation := { o with isOpen := false }

def PathItem.closed (item : PathItem) : PathItem := item.map fun o => (o.1, o.2.closed)

/-- The document with all of its operations under its requirements. -/
def Document.closed (d : Document) : Document :=
  { d with paths := Assoc.mapValues PathItem.closed d.paths }

theorem Operation.toJson_closed (o : Operation) :
    o.closed.toJson = o.toJson.without "security" := by
  simp [toJson, without, closed, Text.ofString_inj]
  rfl

theorem PathItem.toJson_closed (item : PathItem) :
    item.closed.toJson = item.toJson.mapMembers (without "security") := by
  simp only [toJson, closed, mapMembers, Assoc.mapValues, List.map_map]
  refine congrArg Json.obj (List.map_congr_left fun o _ => ?_)
  exact congrArg (Prod.mk o.1.name) o.2.toJson_closed

theorem pathsJson_closed (paths : Assoc Text PathItem) :
    pathsJson (Assoc.mapValues PathItem.closed paths) =
      (pathsJson paths).mapMembers (mapMembers (without "security")) := by
  simp only [pathsJson, mapMembers, Assoc.mapValues, List.map_map]
  refine congrArg Json.obj (List.map_congr_left fun p _ => ?_)
  exact congrArg (Prod.mk p.1) p.2.toJson_closed

/-- **A document without the security of its operations** is that of the closed operations. -/
theorem Document.withoutSecurity_toJson (d : Document) :
    d.toJson.withoutSecurity = d.closed.toJson := by
  have hview : d.toJson.withoutSecurity = .obj (member "openapi" d.specVersion ++
      member "info" (.obj d.info.members) ++ member "tags" (.arr (d.tags.map Tag.toJson)) ++
      member "paths" ((pathsJson d.paths).mapMembers (mapMembers (without "security"))) ++
      member "components" (.obj d.components) ++ memberIf "security" d.requirements) := by
    simp [withoutSecurity, toJson, members, Text.ofString_inj]
  rw [hview, ← pathsJson_closed]
  rfl

/-! ## Without bodies -/

/-- **Documents agree without versions and bodies** when they differ in nothing else. -/
theorem Document.withoutBodies_toJson_eq {d : Document} {version : Text}
    {schemas : Assoc Text Json} (h : Assoc.keys schemas = Assoc.keys d.schemas) :
    { d with specVersion := version, schemas }.toJson.withoutBodies = d.toJson.withoutBodies := by
  simp [withoutBodies, toJson, members, components, mapMembers_blank, h, Text.ofString_inj]
  rfl

end ResourceApi
