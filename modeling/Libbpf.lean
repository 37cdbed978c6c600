import Libbpf.Multimap
import Libbpf.Btf.Raw
import Libbpf.Btf.Members
import Libbpf.Core.Order
import Libbpf.Core.Finish
import Libbpf.Core.Memsz
import Libbpf.Btf.PermuteCall
import Libbpf.Ringbuf.Reserved
import Libbpf.Usdt.Account
import Libbpf.Dump.InOrder
import Libbpf.Btf.Found
import Libbpf.Btf.Report
import Libbpf.Strset.Runs
import Libbpf.Linker.Concat
import Libbpf.Linker.RelosFrame
import Libbpf.Linker.MatchEquiv
import Libbpf.Log.Spec
import Libbpf.Kconfig.Spec
import Libbpf.FuncInfo.Canonical
import Libbpf.MapDef.Order
import Libbpf.Glob
import Libbpf.Dump.Value
import Libbpf.Sha256
import Libbpf.StructOps
import Libbpf.Progs
import Libbpf.Usdt.Note
