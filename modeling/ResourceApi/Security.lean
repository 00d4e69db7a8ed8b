import ResourceApi.Failure

/-!
# Security schemes

The ways in which a caller can prove who it is. A scheme is given as a record whose members may
be written under the names of the target format or under their own names, and is written under
the names of the target format, with every member left out that has no value.

A record that is no scheme has five lists of issues, one for each kind of scheme it might be.
-/

namespace ResourceApi

open Checked

/-- One way of obtaining a token. -/
structure OAuthFlow where
  description : Option Text
  authorizationUrl : Option Text
  tokenUrl : Option Text
  refreshUrl : Option Text
  scopes : Assoc Text Text
  deriving DecidableEq, Repr, Inhabited

/-- The ways of obtaining a token that a server offers. -/
structure OAuthFlows where
  description : Option Text
  authorizationCode : Option OAuthFlow
  implicit : Option OAuthFlow
  password : Option OAuthFlow
  clientCredentials : Option OAuthFlow
  deriving DecidableEq, Repr, Inhabited

/-- A security scheme. -/
inductive SecurityScheme where
  | httpBasic (description : Option Text)
  | httpBearer (description : Option Text) (bearerFormat : Option Text)
  | apiKey (description : Option Text) (location name : Text)
  | oauth2 (description : Option Text) (flows : OAuthFlows)
  | openIdConnect (description : Option Text) (url : Text)
  deriving DecidableEq, Repr, Inhabited

/-! ## Writing -/

/-- A text that is left out when it has no value. -/
def optionalText (key : Text) (s : Option Text) : List (Text × Json) :=
  Json.memberIf key (s.map Json.str)

def OAuthFlow.toJson (f : OAuthFlow) : Json :=
  .obj (optionalText "description" f.description ++
    optionalText "authorizationUrl" f.authorizationUrl ++
    optionalText "tokenUrl" f.tokenUrl ++
    optionalText "refreshUrl" f.refreshUrl ++
    Json.member "scopes" (.obj (Assoc.mapValues Json.str f.scopes)))

def OAuthFlows.toJson (f : OAuthFlows) : Json :=
  .obj (optionalText "description" f.description ++
    Json.memberIf "authorizationCode" (f.authorizationCode.map OAuthFlow.toJson) ++
    Json.memberIf "implicit" (f.implicit.map OAuthFlow.toJson) ++
    Json.memberIf "password" (f.password.map OAuthFlow.toJson) ++
    Json.memberIf "clientCredentials" (f.clientCredentials.map OAuthFlow.toJson))

def SecurityScheme.toJson : SecurityScheme → Json
  | .httpBasic d => .obj (optionalText "description" d ++
      Json.member "type" "http" ++ Json.member "scheme" "basic")
  | .httpBearer d format => .obj (optionalText "description" d ++
      Json.member "type" "http" ++ Json.member "scheme" "bearer" ++
      optionalText "bearerFormat" format)
  | .apiKey d location name => .obj (optionalText "description" d ++
      Json.member "type" "apiKey" ++ Json.member "in" location ++ Json.member "name" name)
  | .oauth2 d flows => .obj (optionalText "description" d ++
      Json.member "type" "oauth2" ++ Json.member "flows" flows.toJson)
  | .openIdConnect d url => .obj (optionalText "description" d ++
      Json.member "type" "openIdConnect" ++ Json.member "openIdConnectUrl" url)

/-! ## Reading -/

namespace SecurityScheme

def descriptionName : Name := .plain "description"

def optionalTextAt (ms : List (Data × Data)) (n : Name) : Checked (Option Text) :=
  defaulted ms n none (nullable text)

def describedAs (ms : List (Data × Data)) : Checked (Option Text) :=
  optionalTextAt ms descriptionName

/-- A member whose value is fixed. -/
def constant (ms : List (Data × Data)) (key value : Text) : Checked Text :=
  required ms (.plain key) (oneOf [value])

def httpBasic? : Data → Checked SecurityScheme :=
  record fun ms => closed ms [descriptionName, .plain "type", .plain "scheme"]
    ((fun d _ _ => .httpBasic d)
      <$> describedAs ms
      <*> constant ms "type" "http"
      <*> constant ms "scheme" "basic")

def bearerFormatName : Name := ⟨"bearerFormat", "bearer_format"⟩

def httpBearer? : Data → Checked SecurityScheme :=
  record fun ms => closed ms [descriptionName, .plain "type", .plain "scheme", bearerFormatName]
    ((fun d _ _ format => .httpBearer d format)
      <$> describedAs ms
      <*> constant ms "type" "http"
      <*> constant ms "scheme" "bearer"
      <*> optionalTextAt ms bearerFormatName)

def locationName : Name := ⟨"in", "location"⟩

def apiKey? : Data → Checked SecurityScheme :=
  record fun ms => closed ms [descriptionName, .plain "type", locationName, .plain "name"]
    ((fun d _ location name => .apiKey d location name)
      <$> describedAs ms
      <*> constant ms "type" "apiKey"
      <*> required ms locationName (oneOf ["header", "query", "cookie"])
      <*> required ms (.plain "name") text)

def authorizationUrlName : Name := ⟨"authorizationUrl", "authorization_url"⟩
def tokenUrlName : Name := ⟨"tokenUrl", "token_url"⟩
def refreshUrlName : Name := ⟨"refreshUrl", "refresh_url"⟩

def flow? : Data → Checked OAuthFlow :=
  record fun ms =>
    closed ms [descriptionName, authorizationUrlName, tokenUrlName, refreshUrlName, .plain "scopes"]
      (OAuthFlow.mk
        <$> describedAs ms
        <*> optionalTextAt ms authorizationUrlName
        <*> optionalTextAt ms tokenUrlName
        <*> optionalTextAt ms refreshUrlName
        <*> defaulted ms (.plain "scopes") [] (textMap text))

def authorizationCodeName : Name := ⟨"authorizationCode", "authorization_code"⟩
def clientCredentialsName : Name := ⟨"clientCredentials", "client_credentials"⟩

def optionalFlowAt (ms : List (Data × Data)) (n : Name) : Checked (Option OAuthFlow) :=
  defaulted ms n none (nullable flow?)

def flows? : Data → Checked OAuthFlows :=
  record fun ms =>
    closed ms [descriptionName, authorizationCodeName, .plain "implicit", .plain "password",
        clientCredentialsName]
      (OAuthFlows.mk
        <$> describedAs ms
        <*> optionalFlowAt ms authorizationCodeName
        <*> optionalFlowAt ms (.plain "implicit")
        <*> optionalFlowAt ms (.plain "password")
        <*> optionalFlowAt ms clientCredentialsName)

def oauth2? : Data → Checked SecurityScheme :=
  record fun ms => closed ms [descriptionName, .plain "type", .plain "flows"]
    ((fun d _ flows => .oauth2 d flows)
      <$> describedAs ms
      <*> constant ms "type" "oauth2"
      <*> required ms (.plain "flows") flows?)

def openIdConnectUrlName : Name := ⟨"openIdConnectUrl", "open_id_connect_url"⟩

def openIdConnect? : Data → Checked SecurityScheme :=
  record fun ms => closed ms [descriptionName, .plain "type", openIdConnectUrlName]
    ((fun d _ url => .openIdConnect d url)
      <$> describedAs ms
      <*> constant ms "type" "openIdConnect"
      <*> required ms openIdConnectUrlName text)

/-- The kinds of scheme, in the order in which they are tried. -/
def kinds : List (Text × (Data → Checked SecurityScheme)) := [
  ("HttpBasicScheme", httpBasic?),
  ("HttpBearerScheme", httpBearer?),
  ("ApiKeyScheme", apiKey?),
  ("OAuth2Scheme", oauth2?),
  ("OpenIdConnectScheme", openIdConnect?)]

/-- The first kind of scheme that a value fits, or the issues with every kind. -/
def ofData (v : Data) : Checked SecurityScheme :=
  let tried := kinds.map fun (name, check) => under (.key name) (check v)
  match tried.findSome? Checked.toOption with
  | some s => .ok s
  | none => .bad (tried.flatMap Checked.issues)

/-- What the schemes of a document are called as a whole. -/
def collectionTitle : Text :=
  "dict[str,union[" ++ Text.join "," (kinds.map Prod.fst) ++ "]]"

end SecurityScheme

/-- The security schemes of a document by name; null stands for none at all. -/
def readSecuritySchemes (v : Data) : Except Failure (Option (Assoc Text SecurityScheme)) :=
  (nullable (textMap SecurityScheme.ofData) v).toExcept (some .securitySchemes)
    SecurityScheme.collectionTitle

end ResourceApi
