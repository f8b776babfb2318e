import Isle.Foundation.Run
import Isle.Foundation.Faulty
import Isle.Foundation.Codec
import Isle.Foundation.Dialogue
import Isle.Foundation.Digits
import Isle.Foundation.Sorting
import Isle.Foundation.Pipe
import Isle.Foundation.PrefixCode
import Isle.Foundation.Trim
import Isle.Foundation.Reconcile
import Isle.Go.Bits
import Isle.Go.Bolt
import Isle.Go.Net
import Isle.Go.Filepath
import Isle.Go.Crypto
import Isle.Go.Entries
import Isle.Go.Disk
import Isle.Go.Shlex
import Isle.Go.Bufio
import Isle.Go.Maps
import Isle.Go.Strconv
import Isle.Go.Files
import Isle.Go.Text
import Isle.Go.Lines
import Isle.Go.HostPort
import Isle.Go.Places
import Isle.Go.FileSystem
import Isle.Forward.Message
import Isle.Forward.Connection
import Isle.Forward.ToClient
import Isle.Forward.ToService
import Isle.Forward.Ports
import Isle.Forward.Orphans
import Isle.Forward.Ownership
import Isle.Forward.Pass
import Isle.Forward.Targets
import Isle.Forward.Accept
import Isle.Guest.Console
import Isle.Guest.Create
import Isle.Guest.Running
import Isle.Guest.Deletion
import Isle.Guest.Vars
import Isle.Guest.Network
import Isle.Guest.Addresses
import Isle.Guest.Search
import Isle.Guest.Usable
import Isle.Guest.Ipv6
import Isle.Guest.Apps
import Isle.Guest.Monitor
import Isle.Guest.Adverts
import Isle.Guest.Agreement
import Isle.Guest.Links
import Isle.Guest.Boot
import Isle.Log.Entry
import Isle.Log.Writer
import Isle.Log.Directory
import Isle.Log.Reader
import Isle.Log.Durable
import Isle.Log.Retention
import Isle.Log.Foreign
import Isle.Log.RoundTrip
import Isle.Log.Logger
import Isle.Log.Sessions
import Isle.Log.Tail
import Isle.Log.Handles
import Isle.Log.Sizes
import Isle.Log.Count
import Isle.Ssh.Buffer
import Isle.Ssh.Channel
import Isle.Ssh.Sender
import Isle.Ssh.Transport
import Isle.Ssh.Handshake
import Isle.Ssh.Link
import Isle.Ssh.Messages
import Isle.Ssh.Mpint
import Isle.Ssh.Demux
import Isle.Ssh.Pty
import Isle.Cmd.StateDir
import Isle.Ghrelease.Unpack
import Isle.Vm.Session
import Isle.Vm.CommandLine
import Isle.Vm.Bytesize
import Isle.Vm.Disks
import Isle.Vm.Config
import Isle.Vm.Remote
import Isle.Guest.Auth
import Isle.Timesync.Frames
import Isle.Timesync.Robust
import Isle.Xuser.ColonFile
import Isle.Xuser.Users
import Isle.Xuser.Groups
import Isle.Guest.Identity
import Isle.Vm.Dns
import Isle.Guest.Resolvers
import Isle.Locator.Resolve
import Isle.Locator.Fetch
import Isle.Guest.AddApp
import Isle.Helper.Init
import Isle.Poly1305.Generic
import Isle.Poly1305.Sum
import Isle.Ssh.Cipher
import Isle.Ssh.Framing
import Isle.Ssh.Rekey
import Isle.Ssh.Peers
import Isle.Ssh.Delivery
import Isle.Ssh.Algorithms
import Isle.Ssh.Kex
import Isle.Ssh.Exchange
import Isle.Ssh.SharedSecret
import Isle.Ssh.Session
