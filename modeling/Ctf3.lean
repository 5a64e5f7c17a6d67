import Ctf3.Lib.ByteOrder
import Ctf3.Lib.Sha1
import Ctf3.Lib.RingWindow
import Ctf3.Lib.Printf
import Ctf3.Lib.GoIo
import Ctf3.Lib.Trace
import Ctf3.Lib.Regexp
import Ctf3.Lib.Strconv
import Ctf3.Lib.GoStrings
import Ctf3.Lib.CString
import Ctf3.Lib.Js
import Ctf3.Lib.Shard
import Ctf3.Libgit2.Odb
import Ctf3.Libgit2.Oid
import Ctf3.Libgit2.Shorten
import Ctf3.Level0.Hash
import Ctf3.Level0.SpellCheck
import Ctf3.Level0.Bloom
import Ctf3.Level0.Bounds
import Ctf3.Level1.Kernel
import Ctf3.Level1.Common
import Ctf3.Level1.ForceHash
import Ctf3.Level1.Commit
import Ctf3.Level1.Difficulty
import Ctf3.Level1.OpenCL
import Ctf3.Level1.Miner
import Ctf3.Level2.Shield
import Ctf3.Level2.ClientStats
import Ctf3.Level3.CodeSearch
import Ctf3.Level4.Action
import Ctf3.Level4.Db
import Ctf3.Level4.Server
import Ctf3.Level4.Cluster
import Ctf3.Level4.BinaryTransporter
import Ctf3.Level4.Dial
import Ctf3.Level1.Naive
