import Rollout.Config.Source
import Rollout.Meta
import Rollout.Record.Basic

/-!
# Secrets

Confidential data for pods. Texts stand under `stringData` as they are, all other
contents under `data` in base 64. The type of a Secret says which keys it must have.
-/

namespace Rollout

/-- What a Secret is for. -/
inductive SecretType where
  | opaqueData
  | tls
  | dockerConfigJson
  | basicAuth
  | serviceAccountToken
deriving DecidableEq

namespace SecretType

/-- The type in a definition. -/
def name : SecretType → String
  | opaqueData => "Opaque"
  | tls => "Tls"
  | dockerConfigJson => "DockerConfigJson"
  | basicAuth => "BasicAuth"
  | serviceAccountToken => "ServiceAccountToken"

/-- The type in a record. -/
def recordName : SecretType → String
  | opaqueData => "Opaque"
  | tls => "kubernetes.io/tls"
  | dockerConfigJson => "kubernetes.io/dockerconfigjson"
  | basicAuth => "kubernetes.io/basic-auth"
  | serviceAccountToken => "kubernetes.io/service-account-token"

/-- The keys that Secrets of the type must have. -/
def requiredKeys : SecretType → List String
  | tls => ["tls.crt", "tls.key"]
  | dockerConfigJson => [".dockerconfigjson"]
  | basicAuth => ["username", "password"]
  | opaqueData | serviceAccountToken => []

def codec : Codec SecretType :=
  .choice [opaqueData, tls, dockerConfigJson, basicAuth, serviceAccountToken] name

end SecretType

/-- A Secret. -/
structure Secret where
  info : Meta
  secretType : SecretType := .opaqueData
  sources : List DataSource := []
  /-- Where the entries are mounted as files. Without it they become variables. -/
  mountPath : Option String := none
  missingSources : MissingSources := .error
  immutable : Bool := false

namespace Secret

/-- A Secret without data. -/
def named (name : String) : Secret := { info := { name } }

def codec : Codec Secret :=
  .mapping "Secret" <|
    Secret.mk <$> .part (·.info) Meta.fields
      <*> .defaulted "secretType" (·.secretType) SecretType.codec .opaqueData
      <*> .items "sources" (·.sources) DataSource.codec
      <*> .optional "mountPath" (·.mountPath) .text
      <*> .defaulted "missingSources" (·.missingSources) MissingSources.codec .error
      <*> .defaulted "immutable" (·.immutable) .bool false

def mapInfo (s : Secret) (f : Meta → Meta) : Secret := { s with info := f s.info }

/-- Add a source. -/
def add (s : Secret) (source : DataSource) : Secret :=
  { s with sources := s.sources ++ [source] }

def withType (s : Secret) (secretType : SecretType) : Secret := { s with secretType }

def withMountPath (s : Secret) (path : String) : Secret := { s with mountPath := some path }

def withMissingSources (s : Secret) (policy : MissingSources) : Secret :=
  { s with missingSources := policy }

def asImmutable (s : Secret) : Secret := { s with immutable := true }

/-- A Secret with a certificate and its key, both read from files. -/
def tls (name cert key : String) : Secret :=
  (named name).withType .tls
    |>.add (.file (some "tls.crt") cert)
    |>.add (.file (some "tls.key") key)

/-- A Secret with the credentials for one image registry. -/
def dockerConfig (name registry user password : String) : Secret :=
  let auth := Bytes.Base64.encode (Bytes.ofText s!"{user}:{password}")
  let config : Value := .mapping [("auths", .mapping [(registry, .mapping
    [("username", .text user), ("password", .text password), ("auth", .text auth)])])]
  (named name).withType .dockerConfigJson
    |>.add (.literal ".dockerconfigjson" (Json.text config))

/-- A Secret with a user name and a password. -/
def basicAuth (name user password : String) : Secret :=
  (named name).withType .basicAuth
    |>.add (.literal "username" user) |>.add (.literal "password" password)

/-- The data that the sources give. -/
def resolve (files : FileTree) (s : Secret) : Except SourceError ResolvedData :=
  DataSource.resolve files s.info.name s.missingSources s.sources

/-- The record of resolved data. -/
def recordOf (s : Secret) (d : ResolvedData) : Record :=
  ⟨[("apiVersion", .text "v1"), ("kind", .text "Secret"), ("metadata", s.info.toValue true),
      ("type", .text s.secretType.recordName), ("stringData", d.textValue)] ++
    (if d.binary.isEmpty then [] else [("data", d.binaryValue)]) ++
    if s.immutable then [("immutable", .bool true)] else []⟩

def records (files : FileTree) (s : Secret) : Except SourceError (List Record) :=
  (s.resolve files).map fun d => [s.recordOf d]

/-- What is wrong with the resolved data. -/
def dataProblems (s : Secret) (d : ResolvedData) : List String :=
  let name := s.info.name
  let typeName := s.secretType.recordName
  ((s.secretType.requiredKeys.filter fun key => !d.text.has key && !d.binary.has key).map
    fun key => s!"Secret '{name}' of type {typeName} is missing required key '{key}'") ++
  if d.isEmpty then [s!"Secret '{name}' has no data"] else []

/-- What is wrong with a Secret. -/
def problems (files : FileTree) (s : Secret) : List String :=
  s.info.problems "Secret" ++
    match s.resolve files with
    | .ok d => s.dataProblems d
    | .error e => [e.message]

/-- What compose makes nothing of. -/
def composeNotes (s : Secret) : List String :=
  let name := s.info.name
  let typeName := s.secretType.recordName
  if s.secretType = .opaqueData then []
  else [s!"Secret '{name}': type {typeName} has no compose equivalent; " ++
    "entries are exposed as plain environment"]

end Secret

end Rollout
