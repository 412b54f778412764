import Rollout.Proofs.Record.Metadata

/-!
# References between records

What the records that run pods refer to, read off the records themselves: the volumes that
a container mounts, the records behind these volumes and behind the variables of the
container, and the records that others name in their `spec`.
-/

namespace Rollout

/-- The value under a key, null if there is none. -/
def Value.at (v : Value) (key : String) : Value := (v.field? key).getD .null

theorem Value.at_mapping (m : Assoc Value) (key : String) :
    (Value.mapping m).at key = (m.get? key).getD .null :=
  rfl

/-- The name that a value has. -/
def Value.nameOf? (v : Value) : Option String := (v.at "name").text?

/-- What is referred to: a record of some kind, in the namespace of the one that refers
to it. -/
structure Target where
  kind : String
  name : String
deriving DecidableEq

/-- The target that a value has under a key, where `nameKey` gives its name. -/
def Value.target? (v : Value) (kind key nameKey : String) : Option Target :=
  ((v.at key).at nameKey).text?.map (⟨kind, ·⟩)

/-- What a volume of a pod is backed by. -/
def Value.volumeTargets (v : Value) : List Target :=
  (v.target? "ConfigMap" "configMap" "name").toList ++
    (v.target? "Secret" "secret" "secretName").toList ++
    (v.target? "PersistentVolumeClaim" "persistentVolumeClaim" "claimName").toList

/-- Where an entry for several variables takes them from. -/
def Value.variableTargets (v : Value) : List Target :=
  (v.target? "ConfigMap" "configMapRef" "name").toList ++
    (v.target? "Secret" "secretRef" "name").toList

namespace Record

def spec (r : Record) : Value := r.toValue.at "spec"

theorem Extends.spec {r s : Record} (h : Extends r s) : s.spec = r.spec :=
  congrArg (fun v : Option Value => v.getD .null) (h.field? (by decide : "spec" ≠ "metadata"))

/-- The pods that a record runs. -/
def podSpec (r : Record) : Value := (r.spec.at "template").at "spec"

/-- The volumes of the pods. -/
def podVolumes (r : Record) : List Value := (r.podSpec.at "volumes").items

/-- The first container of the pods. -/
def mainContainer (r : Record) : Value := (r.podSpec.at "containers").items.headD .null

/-- The mounts of the main container. -/
def mainMounts (r : Record) : List Value := (r.mainContainer.at "volumeMounts").items

/-- What the main container takes all variables of. -/
def mainVariableSources (r : Record) : List Value := (r.mainContainer.at "envFrom").items

/-- The templates of the claims that each pod gets. -/
def claimTemplates (r : Record) : List Value := (r.spec.at "volumeClaimTemplates").items

/-- The record that is scaled. -/
def scaleTarget (r : Record) : Value := r.spec.at "scaleTargetRef"

/-- Whether the pods of a record are those of an application. -/
def RunsApplication (r : Record) : Prop := r.kind = "Deployment" ∨ r.kind = "StatefulSet"

theorem not_runsApplication {r : Record} {kind : String} (hkind : r.kind = kind)
    (h : kind ∉ ["Deployment", "StatefulSet"]) : ¬ r.RunsApplication := by
  rintro (hruns | hruns)
  · exact h (hkind ▸ hruns ▸ List.mem_cons_self)
  · exact h (hkind ▸ hruns ▸ List.mem_cons_of_mem _ List.mem_cons_self)

/-- A record of the list is what the owner refers to. -/
def Resolves (rs : List Record) (owner : Record) (t : Target) : Prop :=
  ⟨t.kind, t.name, owner.namespace?⟩ ∈ rs.map identity

end Record

end Rollout
