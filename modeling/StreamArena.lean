import StreamArena.Library.LastWriter
import StreamArena.Library.KeyedTable
import StreamArena.Library.SqlLike
import StreamArena.Library.Runs
import StreamArena.Library.Calls
import StreamArena.Library.Base64Url
import StreamArena.UserState.ReplayConvergence
import StreamArena.UserState.TitleFrame
import StreamArena.UserState.SeriesCollapse
import StreamArena.UserState.DurableDeletes
import StreamArena.UserState.MyList
import StreamArena.Persistence.Boot
import StreamArena.Preferences.EnabledFlag
import StreamArena.Secrets.TokenProvenance
import StreamArena.Playback.ValidationLease
import StreamArena.Playback.SessionReports
import StreamArena.Accounts.LoginSessions
import StreamArena.Accounts.Recovery
import StreamArena.Accounts.FailureBackoff
import StreamArena.Accounts.RateLimiter
import StreamArena.Library.MediaPlaylist
import StreamArena.LiveHls.PlaylistCache
import StreamArena.LiveHls.Grants
import StreamArena.LiveHls.WindowTrim
import StreamArena.LiveHls.WorkerCache
import StreamArena.LiveHls.WorkerEgress
import StreamArena.LocalTorrent.IdlePause
import StreamArena.LocalTorrent.CacheQuota
import StreamArena.Streaming.SegmentWait
import StreamArena.Streaming.TranscodeJobs
import StreamArena.Uploads.FinishedFiles
import StreamArena.Streaming.TranscodeInput
import StreamArena.Mobile.StripProxy
import StreamArena.Mobile.RequestFraming
import StreamArena.Resolver.TorrentLeases
import StreamArena.Resolver.ResolveJobs
import StreamArena.Egress.PublicDns
import StreamArena.LiveHls.HeightCap
import StreamArena.LiveHls.CacheBudgets
import StreamArena.LiveHls.AudioDefaults
import StreamArena.Playback.SessionRepersist
import StreamArena.WebPlayer.CheckpointSave
import StreamArena.WebPlayer.ManualSourceSwitch
import StreamArena.Mobile.MyListSync
import StreamArena.Mobile.ApiCache
import StreamArena.Mobile.AuthSession
import StreamArena.UserState.UpsertGuards
import StreamArena.Mobile.SavedPosition
import StreamArena.Streaming.ByteRanges
import StreamArena.Routes.StaticPaths
import StreamArena.Media.SubtitleTimes
import StreamArena.Media.SubtitleTiming
import StreamArena.Media.CuePreservation
import StreamArena.Resolver.Multiplex
import StreamArena.Resolver.SequenceParameterSet
import StreamArena.Catalogue.LibraryWrites
import StreamArena.Streaming.InternalAccess
import StreamArena.Resolver.HlsQuality
import StreamArena.Resolver.AvcDimensions
import StreamArena.Resolver.LazyTickets
import StreamArena.LiveHls.WorkerRelay
import StreamArena.Resolver.HedgedRace
import StreamArena.Resolver.LockMaps
import StreamArena.Resolver.WarmReplies
import StreamArena.Football.LazyCandidates
import StreamArena.Football.LiveTokens
import StreamArena.Football.StartTimes
import StreamArena.WebPlayer.ContinueMerge
import StreamArena.WebPlayer.ResolveCoordinator
import StreamArena.WebPlayer.ResolvePrewarm
import StreamArena.WebPlayer.SourceRecovery
import StreamArena.WebPlayer.SubtitleCues
import StreamArena.WebPlayer.SubtitleOffset
