import SirpairOs.Fs.BufferSharing
import SirpairOs.Fs.Append
import SirpairOs.Pipe.Ready
import SirpairOs.Usock.Delivery
import SirpairOs.Mem.Copy
import SirpairOs.Mem.Stack
import SirpairOs.Syscall.Bounds
import SirpairOs.Net.DhcpBinding
import SirpairOs.Proc.Kill
import SirpairOs.Proc.Reap
import SirpairOs.Fs.References
import SirpairOs.Net.UdpChecksum
import SirpairOs.Net.DhcpOptions
import SirpairOs.Net.DnsAnswer
import SirpairOs.Net.Encapsulation
import SirpairOs.Console.Discipline
import SirpairOs.User.ViEdits
import SirpairOs.User.Memmove
import SirpairOs.User.Grep
import SirpairOs.User.ViFile
import SirpairOs.User.CurlBody
import SirpairOs.User.CurlAddress
import SirpairOs.Time.Calendar
import SirpairOs.User.Objdump
import SirpairOs.User.Strtol
import SirpairOs.Mem.Freelist
