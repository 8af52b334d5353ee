import SmbServer.Crypto.Ccm
import SmbServer.Crypto.Cmac
import SmbServer.Ntlm.Der
import SmbServer.Server.Access
import SmbServer.Server.Atomicity
import SmbServer.Server.DeleteOnClose
import SmbServer.Server.Downgrade
import SmbServer.Server.Identity
import SmbServer.Server.InFlight
import SmbServer.Server.Inbound
import SmbServer.Server.Independence
import SmbServer.Server.ReadLoop
import SmbServer.Server.ReadOnly
import SmbServer.Server.Related
import SmbServer.Server.Signatures
import SmbServer.Server.Truncated
import SmbServer.Server.Verification
import SmbServer.Server.Watching
import SmbServer.Transport.RoundTrip
import SmbServer.Vfs.CopyChunk
import SmbServer.Vfs.Lexical
import SmbServer.Vfs.Pipe
import SmbServer.Wire.Codecs
