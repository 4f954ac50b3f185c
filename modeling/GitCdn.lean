import GitCdn.Bytes
import GitCdn.AuthCache
import GitCdn.PacketLine
import GitCdn.PackCache.Entry
import GitCdn.PackCache.Cleaner
import GitCdn.Binary64
import GitCdn.RepoCache.GitOutput
import GitCdn.RepoCache.Git
import GitCdn.RepoCache.Freshness
import GitCdn.RepoCache.CatFile
import GitCdn.Locks
import GitCdn.UploadPack.Protocol
import GitCdn.UploadPack.Race
import GitCdn.UploadPack.Termination
import GitCdn.UploadPack.SingleSpawn
import GitCdn.UploadPack.Direct
import GitCdn.UploadPack.Handler
