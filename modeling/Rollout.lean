import Rollout.Main
import Rollout.Proofs.App.Namespace
import Rollout.Proofs.App.Reference
import Rollout.Proofs.Chart.Evaluation
import Rollout.Proofs.Chart.Image
import Rollout.Proofs.Custom
import Rollout.Proofs.Definition.Complete
import Rollout.Proofs.Definition.Group
import Rollout.Proofs.Definition.Repeated
import Rollout.Proofs.Definition.RoundTrip
import Rollout.Proofs.Definition.Selection
import Rollout.Proofs.Kustomize
import Rollout.Proofs.Manifest
import Rollout.Proofs.Rendering.Order
import Rollout.Proofs.Rendering.Scope
import Rollout.Proofs.Terraform.Address
import Rollout.Proofs.Value.Merge
import Rollout.Proofs.Chart.Values
import Rollout.Proofs.Chart.Primary
import Rollout.Proofs.Chart.Service
import Rollout.Proofs.Chart.Ingress
import Rollout.Proofs.Chart.Workload
import Rollout.Proofs.App.Route
import Rollout.Proofs.Chart.Account
import Rollout.Proofs.Network.Traffic
import Rollout.Proofs.Access.Grant
import Rollout.Proofs.App.Storage
import Rollout.Proofs.Project.Namespace
import Rollout.Proofs.Compose.Closed
import Rollout.Proofs.Rendering.Settings
import Rollout.Proofs.Rendering.Confined
import Rollout.Proofs.Rendering.Failure
import Rollout.Proofs.Command
import Rollout.Proofs.App.ListKey
import Rollout.Proofs.App.Account
import Rollout.Proofs.Definition.Minimal
import Rollout.Proofs.Compose.Health
import Rollout.Proofs.Config.EnvFile
import Rollout.Proofs.Compose.Environment
import Rollout.Proofs.Value.DeepMerge
import Rollout.Proofs.Override
import Rollout.Proofs.Config.Resolve
import Rollout.Proofs.Definition.GroupMeta
import Rollout.Proofs.Hcl.Block
import Rollout.Proofs.Terraform.Input
import Rollout.Proofs.Terraform.Sample
import Rollout.Proofs.Project.Overlay
import Rollout.Proofs.Schedule
import Rollout.Proofs.Config.Template
import Rollout.Proofs.Compose.Attached
import Rollout.Proofs.Manifest.Combined
import Rollout.Proofs.Name
import Rollout.Proofs.Hcl.Key
import Rollout.Proofs.Network.Host
