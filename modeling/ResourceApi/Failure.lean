import ResourceApi.Checked
import ResourceApi.Misfit
import ResourceApi.Model

/-!
# Failures

What can go wrong between a definition and a document, by cause. Most causes are reported to the
user in the words of `message`; a misfit has no words of its own.
-/

namespace ResourceApi

/-- The files that are read. -/
inductive FileRole where
  | model | options
  deriving DecidableEq, Repr, Inhabited

/-- What is checked as a whole. -/
inductive Subject where
  | definition | options | securitySchemes
  deriving DecidableEq, Repr, Inhabited

/-- Why there is no result. -/
inductive Failure where
  | unresolved (u : Unresolved)
  | unsupportedOption
  | unreadable (role : FileRole) (path : Text)
  | notMapping (role : FileRole) (path : Text)
  | invalid (subject : Option Subject) (title : Text) (issues : List Issue)
  | misfit (m : Misfit)
  deriving Repr, Inhabited

namespace FileRole

def title : FileRole → String
  | .model => "Model"
  | .options => "Options"

def noun : FileRole → String
  | .model => "model"
  | .options => "options"

end FileRole

namespace Subject

/-- The words before the count of issues. -/
def heading : Subject → String
  | .definition => "Invalid model definition: "
  | .options => "Invalid generator options: "
  | .securitySchemes => "\"securitySchemes\" option is invalid: "

end Subject

/-- The text of a dangling type name; an owner that is empty is not mentioned. -/
def Unresolved.message (u : Unresolved) : Text :=
  let place : Text :=
    match u.owner with
    | none => ""
    | some owner => if owner.isEmpty then "" else " (in \"" ++ owner ++ "\")"
  "Type \"" ++ u.typeName ++ "\" cannot be resolved to an entity, enum or type def" ++ place

/-- The first line of a report of issues. -/
def issuesMessage (subject : Option Subject) (title : Text) (count : Nat) : Text :=
  let heading : Text :=
    match subject with
    | some s => s.heading
    | none => ""
  heading ++ toString count ++ (if count = 1 then " validation error for "
    else " validation errors for ") ++ title

/-- The words for a failure; none for a misfit. -/
def Failure.message? : Failure → Option Text
  | .unresolved u => some u.message
  | .unsupportedOption => some "\"omitInputDetails\" option is not supported for \"rest\" flavor"
  | .unreadable role path => some ("Cannot parse " ++ role.noun ++ " file " ++ path)
  | .notMapping role path => some (role.title ++ " file " ++ path ++ " must contain a mapping")
  | .invalid subject title issues => some (issuesMessage subject title issues.length)
  | .misfit _ => none

/-- The typed value of a check, or its issues as a failure. -/
def Checked.toExcept {α : Type} (subject : Option Subject) (title : Text) :
    Checked α → Except Failure α
  | .ok a => .ok a
  | .bad issues => .error (.invalid subject title issues)

/-! ## The words of a fault -/

/-- The code that names a kind of fault. -/
def Fault.code : Fault → String
  | .missing => "missing"
  | .notText => "string_type"
  | .notUnicode => "string_unicode"
  | .notBool => "bool_type"
  | .unreadableBool => "bool_parsing"
  | .notList => "list_type"
  | .notMap => "dict_type"
  | .notRecord => "model_type"
  | .notPath => "path_type"
  | .notAllowed => "literal_error"
  | .unknownKey => "extra_forbidden"
  | .badKey => "invalid_key"
  | .badVersion _ => "value_error"

/-- The explanation of a fault, where its code does not say enough. -/
def Fault.explanation? : Fault → Option Text
  | .badVersion given => some ("Value error, not a valid OpenAPI version: " ++ Text.quoted given)
  | _ => none

end ResourceApi
