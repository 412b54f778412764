import Rollout.Bytes.Sha256
import Rollout.Config.Source
import Rollout.Meta
import Rollout.Record.Basic

/-!
# ConfigMaps

Configuration data for pods. Texts stand under `data`, all other contents under
`binaryData`. The checksum of a ConfigMap changes with its data, so that pods which carry
it are replaced when their configuration changes.
-/

namespace Rollout

/-- A ConfigMap. -/
structure ConfigMap where
  info : Meta
  sources : List DataSource := []
  /-- Where the entries are mounted as files. Without it they become variables. -/
  mountPath : Option String := none
  missingSources : MissingSources := .error
  immutable : Bool := false

namespace ConfigMap

/-- A ConfigMap without data. -/
def named (name : String) : ConfigMap := { info := { name } }

def codec : Codec ConfigMap :=
  .mapping "ConfigMap" <|
    ConfigMap.mk <$> .part (·.info) Meta.fields
      <*> .items "sources" (·.sources) DataSource.codec
      <*> .optional "mountPath" (·.mountPath) .text
      <*> .defaulted "missingSources" (·.missingSources) MissingSources.codec .error
      <*> .defaulted "immutable" (·.immutable) .bool false

def mapInfo (c : ConfigMap) (f : Meta → Meta) : ConfigMap := { c with info := f c.info }

/-- Add a source. -/
def add (c : ConfigMap) (source : DataSource) : ConfigMap :=
  { c with sources := c.sources ++ [source] }

def withMountPath (c : ConfigMap) (path : String) : ConfigMap := { c with mountPath := some path }

def withMissingSources (c : ConfigMap) (policy : MissingSources) : ConfigMap :=
  { c with missingSources := policy }

def asImmutable (c : ConfigMap) : ConfigMap := { c with immutable := true }

/-- The data that the sources give. -/
def resolve (files : FileTree) (c : ConfigMap) : Except SourceError ResolvedData :=
  DataSource.resolve files c.info.name c.missingSources c.sources

/-- One entry in the text that is digested: key and content, each closed by a zero byte. -/
def digestEntry (key : String) (content : Bytes) : Bytes :=
  Bytes.ofText key ++ 0 :: content ++ [0]

/-- The bytes that are digested for some data. -/
def digestInput (d : ResolvedData) : Bytes :=
  (d.text.flatMap fun (k, v) => digestEntry k (Bytes.ofText v)) ++
    d.binary.flatMap fun (k, v) => digestEntry k v

/-- The checksum of the resolved data. -/
def checksum (files : FileTree) (c : ConfigMap) : Except SourceError String :=
  (c.resolve files).map fun d => Bytes.Sha256.hex (digestInput d)

/-- The record of resolved data. -/
def recordOf (c : ConfigMap) (d : ResolvedData) : Record :=
  ⟨[("apiVersion", .text "v1"), ("kind", .text "ConfigMap"), ("metadata", c.info.toValue true),
      ("data", d.textValue)] ++
    (if d.binary.isEmpty then [] else [("binaryData", d.binaryValue)]) ++
    if c.immutable then [("immutable", .bool true)] else []⟩

def records (files : FileTree) (c : ConfigMap) : Except SourceError (List Record) :=
  (c.resolve files).map fun d => [c.recordOf d]

/-- The most bytes that the data of one object may have. -/
def sizeLimit : Nat := 1024 * 1024

/-- A character that a key may hold. -/
def isKeyChar (ch : Char) : Bool := ch.isAlphanum || ch = '-' || ch = '_' || ch = '.'

/-- What is wrong with the resolved data. -/
def dataProblems (name : String) (d : ResolvedData) : List String :=
  let size := (d.text.map fun entry => Text.byteLength entry.2).foldl (· + ·) 0 +
    (d.binary.map fun entry => entry.2.length).foldl (· + ·) 0
  (if size > sizeLimit then
    [s!"ConfigMap '{name}' holds {size} bytes, above the 1MiB object limit"]
  else []) ++
  ((d.text.keys ++ d.binary.keys).filter fun key => !key.toList.all isKeyChar).map
    fun key => s!"ConfigMap '{name}' has invalid key '{key}'"

/-- What is wrong with a ConfigMap. -/
def problems (files : FileTree) (c : ConfigMap) : List String :=
  c.info.problems "ConfigMap" ++
    match c.resolve files with
    | .ok d => dataProblems c.info.name d
    | .error e => [e.message]

end ConfigMap

end Rollout
