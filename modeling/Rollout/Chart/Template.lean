import Rollout.Chart.Source
import Rollout.Record.Order
import Rollout.Text.Basic
import Rollout.Text.Split
import Rollout.Yaml.Printer

/-!
# Templates of a chart

A template consists of sections that are the same in every chart and of values that are
copied from records. Of a workload the values of the chart decide the image, the
environment, the probes and the resources; all else is copied.

Pairs of braces open and close actions of a template. In a text that is to come out as
it is, each pair is an action that prints it.
-/

namespace Rollout.Chart

/-! ### Texts inside templates -/

/-- The action that prints two opening braces. -/
def printOpen : List Char := "\x7b\x7b\"\x7b\x7b\"\x7d\x7d".toList

/-- The action that prints two closing braces. -/
def printClose : List Char := "\x7b\x7b\"\x7d\x7d\"\x7d\x7d".toList

/-- A text such that no pair of braces in it acts. -/
def escapeChars : List Char → List Char
  | '\x7b' :: '\x7b' :: rest => printOpen ++ escapeChars rest
  | '\x7d' :: '\x7d' :: rest => printClose ++ escapeChars rest
  | c :: rest => c :: escapeChars rest
  | [] => []

/-- A text such that no pair of braces in it acts. -/
def escape (s : String) : String := String.ofList (escapeChars s.toList)

/-- A value that is copied into a template as YAML, each line behind some blanks. -/
def copied (indent : Nat) (v : Value) : String :=
  let pad := String.ofList (List.replicate indent ' ')
  String.join ((Text.lines (escape (Yaml.text v))).map fun line => pad ++ line ++ "\n")

/-! ### Templates -/

/-- A section of a template. -/
inductive Section where
  /-- Lines in the language of templates. -/
  | shared (source : String)
  /-- A value that comes out as it is, each line behind some blanks. -/
  | copied (indent : Nat) (v : Value)

namespace Section

def text : Section → String
  | shared source => source
  | copied indent v => Chart.copied indent v

/-- The text of a whole template. -/
def textAll (sections : List Section) : String := String.join (sections.map text)

/-- A copied value that is left out if it is not there. -/
def ofOption (indent : Nat) (key : String) (v : Option Value) : List Section :=
  match v with
  | some v => [copied indent (.mapping [(key, v)])]
  | none => []

/-- A copied mapping that is left out if it is empty. -/
def ofEntries (indent : Nat) (entries : Assoc Value) : List Section :=
  if entries.isEmpty then [] else [copied indent (.mapping entries)]

/-- A copied list that is left out if it is empty. -/
def ofItems (indent : Nat) (items : List Value) : List Section :=
  if items.isEmpty then [] else [copied indent (.list items)]

end Section

/-- The fields of the main container that the values of the chart decide. -/
def containerFields : List String :=
  ["name", "image", "imagePullPolicy", "env", "livenessProbe", "readinessProbe", "resources"]

/-- The fields of a pod that the values of the chart decide. -/
def podFields : List String := ["containers", "serviceAccountName", "nodeSelector"]

/-- The entries under other keys than some. -/
def without (keys : List String) (entries : Assoc Value) : Assoc Value :=
  entries.filter fun (key, _) => !keys.contains key

/-- The specification of the pods of a workload. -/
def podOf (r : Record) : Assoc Value := ((r.get? "spec.template.spec").map Value.entries).getD []

/-- The containers of a pod. -/
def containersOf (pod : Assoc Value) : List Value :=
  ((pod.get? "containers").map Value.items).getD []

/-- What only a StatefulSet has. -/
def statefulSections (chart : String) (r : Record) : List Section :=
  if r.kind?.getD "" = "StatefulSet" then
    .shared (fill (marked "  serviceName: ‹‹ include \"<chart>.fullname\" . ››\n") chart) ::
      Section.ofOption 2 "podManagementPolicy" (r.get? "spec.podManagementPolicy")
  else []

/-- The template of a workload. -/
def workloadSections (chart : String) (r : Record) : List Section :=
  let pod := podOf r
  let containers := containersOf pod
  let main := (containers.head?.map Value.entries).getD []
  [.shared (fillKind (fill workloadHead chart) (r.kind?.getD "Deployment"))] ++
    statefulSections chart r ++ [.shared (fill workloadPod chart)] ++
    Section.ofEntries 10 (without containerFields main) ++
    Section.ofItems 8 (containers.drop 1) ++
    Section.ofEntries 6 (without podFields pod) ++
    Section.ofOption 2 "volumeClaimTemplates" (r.get? "spec.volumeClaimTemplates")

/-- The template of a Service. The values decide its first port, the others are copied. -/
def serviceSections (chart : String) (r : Option Record) : List Section :=
  let ports := ((r.bind (·.get? "spec.ports")).map Value.items).getD []
  [.shared (fill serviceHead chart)] ++ Section.ofItems 4 (ports.drop 1) ++
    [.shared (fill
      (marked ("  selector:\n    ‹‹- include \"<chart>.selectorLabels\" . | nindent 4 ››\n" ++
        "‹‹- end ››\n"))
      chart)]

/-- What stands for the namespace of a copied record until its text is made. -/
def namespaceMark : String := "__deckhand_release_namespace__"

/-- The template of a copied record. It is bound to the namespace of the release. -/
def recordText (r : Record) : String :=
  let bound := if Kind.isClusterScoped r.kind then r else r.setNamespace namespaceMark
  Text.replace (escape (Yaml.text bound.toValue)) namespaceMark (marked "‹‹ .Release.Namespace ››")

/-- What is told after an installation. -/
def noteText (chart : String) (custom : Option String) (hasWorkload : Bool) : String :=
  match custom with
  | some text => String.ofList (Text.trimRight text.toList) ++ "\n"
  | none =>
    if hasWorkload then fill notesText chart
    else marked "Thank you for installing ‹‹ .Chart.Name ››.\n"

end Rollout.Chart
