import AssetStore.Admin.Pages
import AssetStore.Admin.Revisions
import AssetStore.Capability.Store
import AssetStore.Fetcher.Gallica
import AssetStore.Fetcher.Images
import AssetStore.Fetcher.Keys
import AssetStore.Fetcher.Malformed
import AssetStore.Fetcher.Outbound
import AssetStore.Fetcher.Refetch
import AssetStore.Fetcher.Templates
import AssetStore.Guard.Bytes
import AssetStore.Guard.Presign
import AssetStore.Guard.Scopes
import AssetStore.Guard.SingleUse
import AssetStore.Identity.Handshake
import AssetStore.IssuanceRate
import AssetStore.Lifecycle.Grace
import AssetStore.Lifecycle.Settled
import AssetStore.Paths.Renormalization
import AssetStore.Postgres.Invariants
import AssetStore.Registry.Citations
import AssetStore.Registry.Rebinding
import AssetStore.Registry.Replay
import AssetStore.Registry.Requests
import AssetStore.S3.Contents
import AssetStore.S3.Multipart
import AssetStore.Service.Alone
import AssetStore.Service.Strangers
import AssetStore.WorkAdmission
import AssetStore.Lifecycle.Evictions
