import Kubespray.Lib.OrdDict
import Kubespray.Lib.PyValue
import Kubespray.Lib.PyStr
import Kubespray.Lib.IpAddress
import Kubespray.Lib.Transition
import Kubespray.Lib.Grep
import Kubespray.Lib.HostsFile
import Kubespray.Lib.Facts
import Kubespray.Lib.Base64
import Kubespray.Lib.Cidr
import Kubespray.Inventory.Hostnames
import Kubespray.Inventory.HostList
import Kubespray.Inventory.AddForms
import Kubespray.Inventory.Groups
import Kubespray.Inventory.Program
import Kubespray.Inventory.Placement
import Kubespray.Inventory.Runs
import Kubespray.Inventory.Etcd
import Kubespray.Inventory.RouteReflectors
import Kubespray.Inventory.Creation
import Kubespray.Inventory.GroupChecks
import Kubespray.Inventory.Deletion
import Kubespray.Inventory.HostIps
import Kubespray.Inventory.Growth
import Kubespray.Inventory.Extension
import Kubespray.Inventory.Frame
import Kubespray.Inventory.Preservation
import Kubespray.Inventory.Additions
import Kubespray.Inventory.Loading
import Kubespray.Inventory.Repetition
import Kubespray.Etcd.Members
import Kubespray.Etcd.RemoveMember
import Kubespray.Etcd.JoinMember
import Kubespray.Etcd.Certificates
import Kubespray.Etcd.CertificateAuthority
import Kubespray.Etcd.Distribution
import Kubespray.ControlPlane.FirstControlPlane
import Kubespray.ControlPlane.EncryptionKey
import Kubespray.Upgrade.Schedulability
import Kubespray.Preinstall.AddressPlan
import Kubespray.ControlPlane.Tokens
import Kubespray.Etcd.Recovery
import Kubespray.Kube.Manager
import Kubespray.Terraform.Convert
import Kubespray.Terraform.Resources
import Kubespray.Terraform.Attributes
import Kubespray.Terraform.Hosts
import Kubespray.Terraform.Pipeline
import Kubespray.Inventory.Leftovers
import Kubespray.Inventory.Ranges
import Kubespray.Inventory.Imports
import Kubespray.Terraform.Queries
import Kubespray.Download.ContainerCache
import Kubespray.Lib.Fields
import Kubespray.Offline.ContainerImages
import Kubespray.Kube.Idempotence
import Kubespray.Etcd.BrokenHosts
import Kubespray.Lib.LastMatch
import Kubespray.Preinstall.LocalhostEntries
import Kubespray.Lib.Rolling
import Kubespray.Upgrade.Rollout
import Kubespray.Lib.Combine
import Kubespray.Lib.Optimistic
import Kubespray.Network.RouteReflector
import Kubespray.Network.CalicoConfig
import Kubespray.Network.CalicoRuns
import Kubespray.Lib.Playbook
import Kubespray.Network.Peering
import Kubespray.Network.Sessions
import Kubespray.Lib.Quorum
import Kubespray.Etcd.Majorities
import Kubespray.Lib.LastField
import Kubespray.Download.FileCache
import Kubespray.Download.KubeadmImages
import Kubespray.Lib.Retention
import Kubespray.Lib.Decimal
import Kubespray.Etcd.Backups
import Kubespray.Lib.ManagedBlock
import Kubespray.Preinstall.ManagedFiles
import Kubespray.Lib.FirstGroup
import Kubespray.Lib.Unique
import Kubespray.Preinstall.ResolvConf
import Kubespray.Terraform.Hostfile
import Kubespray.Inventory.Positions
import Kubespray.Inventory.AddressRuns
import Kubespray.Etcd.Scaling
import Kubespray.Kube.States
import Kubespray.ControlPlane.TokenCopies
