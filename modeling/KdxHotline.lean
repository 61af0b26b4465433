import KdxHotline.Auth.Bans
import KdxHotline.Auth.IpRules
import KdxHotline.Auth.Limiter
import KdxHotline.Auth.Moderation
import KdxHotline.Auth.Rank
import KdxHotline.Auth.Replacing
import KdxHotline.Auth.Unknown
import KdxHotline.Chat.Invitations
import KdxHotline.Client.Geometry
import KdxHotline.Client.KnownHosts
import KdxHotline.Client.LocalName
import KdxHotline.Client.Login
import KdxHotline.Client.PinFile
import KdxHotline.Client.Publish
import KdxHotline.Client.Sidecar
import KdxHotline.Client.Spki
import KdxHotline.Crypto.Proof
import KdxHotline.Crypto.Secrecy
import KdxHotline.Crypto.Transcript
import KdxHotline.Files.Bounds
import KdxHotline.Files.Catalog
import KdxHotline.Files.Deleting
import KdxHotline.Files.FreeName
import KdxHotline.Files.Inherited
import KdxHotline.Files.Probing
import KdxHotline.History.Order
import KdxHotline.History.Retention
import KdxHotline.Listener.DenyLog
import KdxHotline.News.Window
import KdxHotline.Presence.Complete
import KdxHotline.Protocol.Messages.Payloads
import KdxHotline.Protocol.Oversized
import KdxHotline.Protocol.Reassembly
import KdxHotline.Storage.News
import KdxHotline.Storage.TransferState
import KdxHotline.Transfer.Dispatch
import KdxHotline.Transfer.Live
import KdxHotline.Transfer.OpenUploads
import KdxHotline.Transfer.Reserve
import KdxHotline.Transfer.Streaming
import KdxHotline.Transfer.Throttle
import KdxHotline.Transfer.Truthful
import KdxHotline.Transfer.UploadProtocol
import KdxHotline.Transfer.Orphans
import KdxHotline.Transfer.Restarts
import KdxHotline.Listener.ConnLimits
import KdxHotline.Auth.Attempts
