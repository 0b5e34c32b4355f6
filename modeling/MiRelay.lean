import MiRelay.Core.Durable
import MiRelay.Core.Interleaving
import MiRelay.Core.Separated
import MiRelay.Core.Table
import MiRelay.Core.Run
import MiRelay.Protocol
import MiRelay.Directory.Inventory
import MiRelay.Directory.Compare
import MiRelay.Core.FileSystem
import MiRelay.Directory.Root
import MiRelay.Directory.RootScan
import MiRelay.Core.Utf8
import MiRelay.Storage.Media
import MiRelay.Storage.Streams
import MiRelay.Storage.Library
import MiRelay.Storage.ContentPaths
import MiRelay.Storage.Receiving
import MiRelay.Storage.Remains
import MiRelay.Storage.CalmRuns
import MiRelay.Storage.AllOrNothing
import MiRelay.Server.Database
import MiRelay.Server.Directory
import MiRelay.Server.Folders
import MiRelay.Server.History
import MiRelay.Server.Confluence
import MiRelay.Server.Readable
import MiRelay.Server.Reports
import MiRelay.Server.Sends
import MiRelay.Server.Undisturbed
import MiRelay.Server.WellFormed
import MiRelay.Server.Relay
import MiRelay.Server.Store
import MiRelay.Server.Uploads
import MiRelay.Server.Exit
import MiRelay.Server.Service
import MiRelay.Server.Guards
import MiRelay.Server.StoreGuards
import MiRelay.Server.UploadGuards
import MiRelay.Server.ExitGuards
import MiRelay.Server.Pending
import MiRelay.Server.Publication
import MiRelay.Server.Revocation
import MiRelay.Server.Leftovers
import MiRelay.Server.Erasure
import MiRelay.Server.Offsets
import MiRelay.Server.Identities
import MiRelay.Server.ObjectPaths
import MiRelay.Core.Paging
import MiRelay.Core.Base64
import MiRelay.Server.Landing
import MiRelay.Server.Discards
import MiRelay.Server.Resumable
import MiRelay.Server.Pairing
import MiRelay.Server.Invitations
import MiRelay.Server.Listing
import MiRelay.Server.Snapshots
import MiRelay.Server.Reads
import MiRelay.Server.ExitRows
import MiRelay.Server.Noninterference
import MiRelay.Exit.Parties
import MiRelay.Exit.Agreement
import MiRelay.Exit.Completion
import MiRelay.Desktop.Tree
import MiRelay.Desktop.Resources
import MiRelay.Desktop.CleanExit
import MiRelay.Desktop.Removal
import MiRelay.Desktop.Frame
import MiRelay.Desktop.Isolation
import MiRelay.Server.Metadata
import MiRelay.Client.HttpSource
import MiRelay.Client.Pagination
import MiRelay.Client.Scan
import MiRelay.Client.Sync
import MiRelay.Client.Receipts
import MiRelay.Client.SyncGuards
import MiRelay.Client.SyncRuns
import MiRelay.Client.Acknowledgements
import MiRelay.Client.Wallpapers
import MiRelay.Client.SyncEvents
import MiRelay.Client.FileEvents
import MiRelay.Client.Sender
import MiRelay.Client.SenderSound
import MiRelay.Client.SenderRuns
import MiRelay.Core.Selection
import MiRelay.Core.Splice
import MiRelay.Desktop.Files
import MiRelay.Desktop.FileHistory
import MiRelay.Client.StagedPayloads
import MiRelay.Client.Tus
import MiRelay.Client.TusRuns
import MiRelay.Client.UploadMetadata
import MiRelay.Client.Retries
import MiRelay.Client.Receiver
import MiRelay.Client.ReceiverSteps
import MiRelay.Client.DirectoryReceipts
import MiRelay.Client.Artifacts
import MiRelay.Client.Replays
import MiRelay.Client.FilesystemSource
import MiRelay.Client.InboxRules
import MiRelay.Client.FolderScan
import MiRelay.Client.FolderRuns
import MiRelay.Client.Outset
import MiRelay.Client.Installation
import MiRelay.Handover.Custody
import MiRelay.Android.RelayStore
import MiRelay.Android.Ownership
import MiRelay.Android.DirectoryVersions
import MiRelay.Android.AutoStore
import MiRelay.Android.AutoSending
import MiRelay.Android.AutoSettling
import MiRelay.Android.Names
import MiRelay.Android.Staging
import MiRelay.Android.StagingSound
import MiRelay.Android.Cleanup
import MiRelay.Desktop.ImageHeaders
import MiRelay.Desktop.Registry
import MiRelay.Desktop.OwnedTree
import MiRelay.Desktop.Photos
import MiRelay.Desktop.PhotoGrid
import MiRelay.Desktop.PreviewCache
import MiRelay.Client.Pairing
import MiRelay.Desktop.Config
import MiRelay.Desktop.Connection
import MiRelay.Desktop.ConnectionRuns
import MiRelay.Desktop.ConnectionGuards
import MiRelay.Desktop.Disconnection
