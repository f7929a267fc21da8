import ThinkLocal.Approval.ApprovalRouter
import ThinkLocal.Approval.DurableDecision
import ThinkLocal.Approval.FailClosed
import ThinkLocal.Approval.FreigabeMatrix
import ThinkLocal.Approval.Meldekanal
import ThinkLocal.Approval.TelegramMeldekanal
import ThinkLocal.Audit.AllEvents
import ThinkLocal.Audit.AuditLog
import ThinkLocal.Audit.Chain
import ThinkLocal.Audit.PeerImport
import ThinkLocal.Audit.SignedTexts
import ThinkLocal.Config.ConfigRevisions
import ThinkLocal.Config.LaunchdPlist
import ThinkLocal.Crl.RevocationList
import ThinkLocal.Events.WebSocket
import ThinkLocal.Foundation.Clocks
import ThinkLocal.Foundation.Coalescing
import ThinkLocal.Foundation.Comparison
import ThinkLocal.Foundation.Documents
import ThinkLocal.Foundation.Except
import ThinkLocal.Foundation.FileTree
import ThinkLocal.Foundation.Framing
import ThinkLocal.Foundation.Freshness
import ThinkLocal.Foundation.InsertionMap
import ThinkLocal.Foundation.KeyedEntries
import ThinkLocal.Foundation.LastMatch
import ThinkLocal.Foundation.Logs
import ThinkLocal.Foundation.Machine
import ThinkLocal.Foundation.MapCrdt
import ThinkLocal.Foundation.Markup
import ThinkLocal.Foundation.NewestFirst
import ThinkLocal.Foundation.Optimistic
import ThinkLocal.Foundation.Ranking
import ThinkLocal.Foundation.Segments
import ThinkLocal.Foundation.SharedFiles
import ThinkLocal.Inbox.Acknowledgement
import ThinkLocal.Inbox.AdaptivePoller
import ThinkLocal.Inbox.AgentInbox
import ThinkLocal.Inbox.AgentMessage
import ThinkLocal.Inbox.AgentRegistry
import ThinkLocal.Inbox.Broadcast
import ThinkLocal.Inbox.CrossNodeDelivery
import ThinkLocal.Inbox.InboxApi
import ThinkLocal.Inbox.InboxMigration
import ThinkLocal.Inbox.InboxViews
import ThinkLocal.Inbox.InstanceDelivery
import ThinkLocal.Inbox.OrderIngest
import ThinkLocal.Inbox.RegistryEvents
import ThinkLocal.Inbox.SignedOrder
import ThinkLocal.Inbox.StoreSoundness
import ThinkLocal.Inbox.StoredOrder
import ThinkLocal.Ipc.Delivery
import ThinkLocal.Ipc.SocketFraming
import ThinkLocal.Ipc.UnixSocket
import ThinkLocal.Issuance.CertIssuer
import ThinkLocal.Issuance.CertPop
import ThinkLocal.Issuance.SingleUse
import ThinkLocal.Js.Base64
import ThinkLocal.Js.Data
import ThinkLocal.Js.Date
import ThinkLocal.Js.Doubles
import ThinkLocal.Js.EntryFile
import ThinkLocal.Js.JsonGrammar
import ThinkLocal.Js.JsonPaths
import ThinkLocal.Js.JsonRoundTrip
import ThinkLocal.Js.JsonValues
import ThinkLocal.Js.Number
import ThinkLocal.Js.Path
import ThinkLocal.Js.ReadNumber
import ThinkLocal.Js.Text
import ThinkLocal.Js.Utf16
import ThinkLocal.Js.UriComponent
import ThinkLocal.Js.Utf8
import ThinkLocal.Js.Value
import ThinkLocal.Mcp.ForwardExecutor
import ThinkLocal.Mcp.Forwarding
import ThinkLocal.Mcp.ForwardingLaw
import ThinkLocal.Mcp.GateReason
import ThinkLocal.Mcp.HopNetwork
import ThinkLocal.Mcp.Ingress
import ThinkLocal.Mcp.RedactResponse
import ThinkLocal.Mcp.RedactedResults
import ThinkLocal.Mcp.Redaction
import ThinkLocal.Mcp.Routing
import ThinkLocal.Mcp.ServiceRegistry
import ThinkLocal.Mesh.Approval
import ThinkLocal.Mesh.CacheCycle
import ThinkLocal.Mesh.Cidr
import ThinkLocal.Mesh.Entries
import ThinkLocal.Mesh.Handling
import ThinkLocal.Mesh.KeyBinding
import ThinkLocal.Mesh.LearnerLaw
import ThinkLocal.Mesh.LearnerRuns
import ThinkLocal.Mesh.MarkEffect
import ThinkLocal.Mesh.MeshManager
import ThinkLocal.Mesh.MessageHandler
import ThinkLocal.Mesh.PartitionDetector
import ThinkLocal.Mesh.PeerCache
import ThinkLocal.Mesh.PeerCacheLaw
import ThinkLocal.Mesh.PeerLearning
import ThinkLocal.Mesh.PeerSelection
import ThinkLocal.Mesh.Presence
import ThinkLocal.Mesh.RateLimiter
import ThinkLocal.Mesh.Rollback
import ThinkLocal.Mesh.SenderIdentity
import ThinkLocal.Mesh.ServerIdentityPin
import ThinkLocal.Mesh.SubjectAltName
import ThinkLocal.Messages.Messages
import ThinkLocal.Messages.Replay
import ThinkLocal.Messages.ReplayProtection
import ThinkLocal.Onboarding.ExistingTrust
import ThinkLocal.Onboarding.SingleUse
import ThinkLocal.Onboarding.TokenApi
import ThinkLocal.Pairing.Ceremony
import ThinkLocal.Pairing.DurablePairings
import ThinkLocal.Pairing.PairedPeersFile
import ThinkLocal.Pairing.PairingHandler
import ThinkLocal.Pairing.PairingStore
import ThinkLocal.Registry.AnnounceSync
import ThinkLocal.Registry.CapabilityHash
import ThinkLocal.Registry.CapabilityRegistry
import ThinkLocal.Registry.Gossip
import ThinkLocal.Registry.ImportOrder
import ThinkLocal.Registry.OwnerView
import ThinkLocal.Registry.Poison
import ThinkLocal.Registry.ReplicaView
import ThinkLocal.Registry.Replication
import ThinkLocal.Registry.SkillManager
import ThinkLocal.RegistrySync.Convergence
import ThinkLocal.RegistrySync.Coordinator
import ThinkLocal.RegistrySync.FrameReader
import ThinkLocal.RegistrySync.InboundBuffer
import ThinkLocal.RegistrySync.Links
import ThinkLocal.RegistrySync.Overflow
import ThinkLocal.RegistrySync.SingleFlight
import ThinkLocal.RegistrySync.Steps
import ThinkLocal.RegistrySync.TickLoop
import ThinkLocal.Sessions.AtomicWrite
import ThinkLocal.Sessions.BranchExclusion
import ThinkLocal.Sessions.ClaudeCodeAdapter
import ThinkLocal.Sessions.ExactlyOnce
import ThinkLocal.Sessions.RecoveryEvents
import ThinkLocal.Sessions.RecoveryHistory
import ThinkLocal.Sessions.RecoveryLaw
import ThinkLocal.Sessions.SessionCheckout
import ThinkLocal.Sessions.SessionWatcher
import ThinkLocal.Sessions.Snippet
import ThinkLocal.Sessions.TailOffset
import ThinkLocal.SkillPackages.PackagePipeline
import ThinkLocal.SkillPackages.SkillPackage
import ThinkLocal.Skills.Activation
import ThinkLocal.Skills.CircuitBreaker
import ThinkLocal.Skills.ClaudeHeader
import ThinkLocal.Skills.Decisions
import ThinkLocal.Skills.Discovery
import ThinkLocal.Skills.InstallOrder
import ThinkLocal.Skills.InstalledSkills
import ThinkLocal.Skills.ManifestHash
import ThinkLocal.Skills.Sandbox
import ThinkLocal.Skills.SchemaValidator
import ThinkLocal.Skills.SemVer
import ThinkLocal.Skills.SkillAnnounce
import ThinkLocal.Skills.SkillDeps
import ThinkLocal.Skills.SkillFiles
import ThinkLocal.Skills.SkillHealth
import ThinkLocal.Skills.SkillHealthMonitor
import ThinkLocal.Skills.SkillLifecycle
import ThinkLocal.Skills.SkillOwnership
import ThinkLocal.Spiffe.IdentityGrammars
import ThinkLocal.Spiffe.SpiffeUri
import ThinkLocal.Tasks.BudgetGuard
import ThinkLocal.Tasks.ExecutionState
import ThinkLocal.Tasks.TaskChain
import ThinkLocal.Tasks.TaskExecutor
import ThinkLocal.Tasks.TaskManager
import ThinkLocal.Tasks.TaskQueue
import ThinkLocal.Tasks.TaskRouter
import ThinkLocal.Tls.LegacyMigration
import ThinkLocal.Tls.MigrationLock
import ThinkLocal.Tls.NodeCertificates
import ThinkLocal.Tls.PeerChain
import ThinkLocal.Tls.TlsBundle
import ThinkLocal.Vault.CredentialVault
import ThinkLocal.Vault.Expiry
import ThinkLocal.Vault.Revocation
import ThinkLocal.Wake.SweepTargets
import ThinkLocal.Wake.SweepWiring
import ThinkLocal.Wake.WakeContract
import ThinkLocal.Mesh.Libp2pIdentity
import ThinkLocal.Issuance.CertRequest
