import LoongsonDune.Mmu.Config
import LoongsonDune.Mmu.Pte
import LoongsonDune.Mmu.Table
import LoongsonDune.Mmu.Flush
import LoongsonDune.Mmu.RangeOp
import LoongsonDune.Mmu.Hva
import LoongsonDune.Mmu.Fault
import LoongsonDune.Mmu.System
import LoongsonDune.Proof.Entry
import LoongsonDune.Proof.Preserve
import LoongsonDune.Proof.Dirty
import LoongsonDune.Proof.Range
import LoongsonDune.Proof.Slot
import LoongsonDune.Proof.Age
import LoongsonDune.Proof.FaultPath
import LoongsonDune.Proof.Notifier
import LoongsonDune.Proof.FlushRange
import LoongsonDune.Proof.Unmap
import LoongsonDune.Proof.Commit
import LoongsonDune.Proof.Shadow
import LoongsonDune.Proof.Stale
import LoongsonDune.Proof.Mark
import LoongsonDune.Proof.FlushFree
import LoongsonDune.Proof.SetPmdHuge
import LoongsonDune.Proof.Pool
import LoongsonDune.Proof.Fast
import LoongsonDune.Proof.HugeMap
import LoongsonDune.Proof.Walk
import LoongsonDune.Proof.Translation
import LoongsonDune.Proof.Protocol
import LoongsonDune.Proof.Synced
import LoongsonDune.Proof.DirtyLog
import LoongsonDune.Proof.Handler
import LoongsonDune.Proof.Rights
