import OCF.Api.Access
import OCF.Api.Addressing
import OCF.Api.Attachments
import OCF.Api.Authority
import OCF.Api.Capacity
import OCF.Api.ClusterAddresses
import OCF.Api.ConcurrentAttach
import OCF.Api.ControlPort
import OCF.Api.Controller
import OCF.Api.CredentialHeader
import OCF.Api.Detection
import OCF.Api.DirectoryGroups
import OCF.Api.DirectoryLogin
import OCF.Api.DiskListing
import OCF.Api.Durable
import OCF.Api.Egress
import OCF.Api.Failover
import OCF.Api.FleetAddresses
import OCF.Api.Gate
import OCF.Api.Identity
import OCF.Api.Join
import OCF.Api.LatencyPolicy
import OCF.Api.LbBackends
import OCF.Api.LocalAccounts
import OCF.Api.Lossless
import OCF.Api.OverlayAddresses
import OCF.Api.OvsMesh
import OCF.Api.Partition
import OCF.Api.Persist
import OCF.Api.RelayDelivery
import OCF.Api.Reschedule
import OCF.Api.RescheduleFailures
import OCF.Api.RescheduleFrame
import OCF.Api.Restart
import OCF.Api.Restore
import OCF.Api.RouteView
import OCF.Api.Underlay
import OCF.Api.UnderlayFollows
import OCF.Api.WgPlan
import OCF.Api.Wireguard
import OCF.Api.WireguardStatus
import OCF.Api.WorkloadRestore
import OCF.Authz.Decision
import OCF.Authz.Engine
import OCF.Consensus.Convergence
import OCF.Consensus.FabricNet
import OCF.Consensus.LogStore
import OCF.Consensus.Snapshot
import OCF.Consensus.Storage
import OCF.Core.Resource
import OCF.Fabric.Crypto
import OCF.Fabric.Detector
import OCF.Fabric.FloatPaths
import OCF.Fabric.Handshake
import OCF.Fabric.HopByHop
import OCF.Fabric.Isolation
import OCF.Fabric.Membership
import OCF.Fabric.MembershipEvents
import OCF.Fabric.Node
import OCF.Fabric.Recovery
import OCF.Fabric.Routing
import OCF.Fabric.Session
import OCF.Fabric.ShortestPath
import OCF.Fabric.Stream
import OCF.Fabric.Transit
import OCF.Fabric.Transport
import OCF.Foundations.BTreeMap
import OCF.Foundations.Binary64
import OCF.Foundations.ByteScan
import OCF.Foundations.Clamp
import OCF.Foundations.Cryptokey
import OCF.Foundations.Fair
import OCF.Foundations.FirstMin
import OCF.Foundations.Framing
import OCF.Foundations.HashMap
import OCF.Foundations.Iptables
import OCF.Foundations.Json
import OCF.Foundations.JsonReading
import OCF.Foundations.JsonText
import OCF.Foundations.LabelSearch
import OCF.Foundations.LastWrite
import OCF.Foundations.Ldap
import OCF.Foundations.Lines
import OCF.Foundations.Lists
import OCF.Foundations.NftScript
import OCF.Foundations.Nftables
import OCF.Foundations.OpenFlow
import OCF.Foundations.Packets
import OCF.Foundations.PreferredWalks
import OCF.Foundations.Refinement
import OCF.Foundations.Rotation
import OCF.Foundations.Run
import OCF.Foundations.Text
import OCF.Foundations.Utf8
import OCF.Foundations.Walk
import OCF.Foundations.XmlText
import OCF.Host.CpuInventory
import OCF.Host.DiskHistory
import OCF.Host.Disks
import OCF.Host.Diskstats
import OCF.Host.DnfUpdates
import OCF.Host.HealthChecks
import OCF.Host.HealthSweep
import OCF.Host.Inventory
import OCF.Host.InventoryCollector
import OCF.Host.Lsblk
import OCF.Host.LsblkBytes
import OCF.Host.Metrics
import OCF.Host.Packages
import OCF.Host.Updates
import OCF.Host.Usage
import OCF.Host.UserSync
import OCF.Host.Vulnerabilities
import OCF.Kernel.Firewall
import OCF.Kernel.FirewallBackends
import OCF.Kernel.FirewallNft
import OCF.Kernel.Services
import OCF.Lb.Certificates
import OCF.Lb.Controller
import OCF.Lb.DnsPayload
import OCF.Lb.DnsRecords
import OCF.Lb.Fairness
import OCF.Lb.Metrics
import OCF.Lb.Routing
import OCF.Network.Backend
import OCF.Network.ConcurrentVpc
import OCF.Network.Controller
import OCF.Network.Egress
import OCF.Network.Gateway
import OCF.Network.Integrity
import OCF.Network.Ipam
import OCF.Network.IpamSafety
import OCF.Network.Lexicon
import OCF.Network.Names
import OCF.Network.Policies
import OCF.Network.PolicyConvergence
import OCF.Network.PolicyScope
import OCF.Network.PolicyVerdicts
import OCF.Runtime.Autoscaler
import OCF.Runtime.Command
import OCF.Runtime.DomainXml
import OCF.Runtime.Listing
import OCF.Runtime.Migration
import OCF.Runtime.Provider
import OCF.Runtime.Workload
import OCF.Store.Backends
import OCF.Store.StateStore
import OCF.Topology.Store
import OCF.Topology.Tree
