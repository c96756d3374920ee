import GraphqlOrmBackup.Interaction.Outcome
import GraphqlOrmBackup.Interaction.Prog
import GraphqlOrmBackup.Interaction.Fallible
import GraphqlOrmBackup.Interaction.Pool
import GraphqlOrmBackup.Interaction.Within
import GraphqlOrmBackup.Interaction.Simulation
import GraphqlOrmBackup.Hex
import GraphqlOrmBackup.Text
import GraphqlOrmBackup.Uuid
import GraphqlOrmBackup.Json.Value
import GraphqlOrmBackup.Json.Write
import GraphqlOrmBackup.Json.Parse
import GraphqlOrmBackup.Json.RoundTrip
import GraphqlOrmBackup.Json.Injective
import GraphqlOrmBackup.Json.Bounds
import GraphqlOrmBackup.Json.Codec
import GraphqlOrmBackup.Replay
import GraphqlOrmBackup.Error
import GraphqlOrmBackup.Foreign
import GraphqlOrmBackup.Database
import GraphqlOrmBackup.ColumnPolicies
import GraphqlOrmBackup.Manifest
import GraphqlOrmBackup.Crates
import GraphqlOrmBackup.Keys
import GraphqlOrmBackup.Repository
import GraphqlOrmBackup.PrefixedRepository
import GraphqlOrmBackup.Lineage
import GraphqlOrmBackup.Chain
import GraphqlOrmBackup.ChainSpec
import GraphqlOrmBackup.Verify
import GraphqlOrmBackup.Payload
import GraphqlOrmBackup.Lock
import GraphqlOrmBackup.Backup
import GraphqlOrmBackup.Restore
import GraphqlOrmBackup.Prune
import GraphqlOrmBackup.Serde
import GraphqlOrmBackup.Sha256
import GraphqlOrmBackup.Reference
import GraphqlOrmBackup.Environment
import GraphqlOrmBackup.SealedManifests
import GraphqlOrmBackup.LockClients
import GraphqlOrmBackup.MutualExclusion
import GraphqlOrmBackup.FiledChain
import GraphqlOrmBackup.ManifestChecksum
import GraphqlOrmBackup.LegacyManifests
import GraphqlOrmBackup.Intact
import GraphqlOrmBackup.GarbageCollection
import GraphqlOrmBackup.ManifestKeys
import GraphqlOrmBackup.ObjectWrites
import GraphqlOrmBackup.ObjectHonesty
import GraphqlOrmBackup.ObjectStranding
import GraphqlOrmBackup.ObjectEntries
import GraphqlOrmBackup.ObjectAgreement
import GraphqlOrmBackup.ObjectReplay
import GraphqlOrmBackup.ObjectRestore
import GraphqlOrmBackup.PayloadWrites
import GraphqlOrmBackup.PayloadDepth
import GraphqlOrmBackup.ChangeGroups
import GraphqlOrmBackup.Writers
import GraphqlOrmBackup.CrashConsistency
import GraphqlOrmBackup.ChainLoadability
import GraphqlOrmBackup.Reachability
import GraphqlOrmBackup.Garbage
import GraphqlOrmBackup.PruneIdempotence
import GraphqlOrmBackup.OperationCalls
import GraphqlOrmBackup.WriterClients
import GraphqlOrmBackup.Serialization
import GraphqlOrmBackup.Durability
import GraphqlOrmBackup.DanglingObjects
import GraphqlOrmBackup.Delivery
import GraphqlOrmBackup.RestoreSafety
import GraphqlOrmBackup.RestoreFailures
import GraphqlOrmBackup.RestoredPayloads
import GraphqlOrmBackup.DryRun
import GraphqlOrmBackup.KeyedStore
import GraphqlOrmBackup.Compaction
import GraphqlOrmBackup.BackupChains
import GraphqlOrmBackup.BackupHistories
import GraphqlOrmBackup.ConcurrentDurability
import GraphqlOrmBackup.ReaderCalls
import GraphqlOrmBackup.ConcurrentReaders
import GraphqlOrmBackup.OrmAdapter
import GraphqlOrmBackup.OrmRoundTrip
import GraphqlOrmBackup.ObjectListing
import GraphqlOrmBackup.OrmObjects
import GraphqlOrmBackup.ObjectRoundTrip
import GraphqlOrmBackup.Sql
import GraphqlOrmBackup.SqlReference
import GraphqlOrmBackup.RestoreTarget
import GraphqlOrmBackup.ReplayOrder
import GraphqlOrmBackup.ExportOrder
import GraphqlOrmBackup.Renaming
import GraphqlOrmBackup.Tenants
import GraphqlOrmBackup.DeletionReports
import GraphqlOrmBackup.Availability
import GraphqlOrmBackup.Damage
