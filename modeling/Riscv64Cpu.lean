import Riscv64Cpu.Clocked.Run
import Riscv64Cpu.Clocked.PendingWrites
import Riscv64Cpu.Pipeline.Invariant
import Riscv64Cpu.Memory.Pmem
import Riscv64Cpu.Pipeline.Hazards
import Riscv64Cpu.Pipeline.Liveness
import Riscv64Cpu.Pipeline.Drain
import Riscv64Cpu.Pipeline.Bubbles
import Riscv64Cpu.Pipeline.Forwarding
import Riscv64Cpu.Pipeline.CsrHazard
import Riscv64Cpu.Pipeline.Normal
import Riscv64Cpu.Pipeline.Retire
import Riscv64Cpu.Pipeline.Sequential
import Riscv64Cpu.Pipeline.Refinement
import Riscv64Cpu.Simulator.Difftest
import Riscv64Cpu.Clocked.Stage
import Riscv64Cpu.ReadyValid.TopCpu
import Riscv64Cpu.ReadyValid.Invariant
import Riscv64Cpu.ReadyValid.Equivalence
import Riscv64Cpu.Isa.Rv64i
import Riscv64Cpu.Isa.Alu
import Riscv64Cpu.Isa.Correctness
import Riscv64Cpu.Isa.Rv64m
import Riscv64Cpu.Isa.MulDiv
import Riscv64Cpu.Isa.Zicsr
import Riscv64Cpu.Isa.CsrInstr
import Riscv64Cpu.Pipeline.Mret
import Riscv64Cpu.Pipeline.ReadOnlyCsr
import Riscv64Cpu.Memory.Amoswap
import Riscv64Cpu.Clocked.Driven
import Riscv64Cpu.Paging.Walk
import Riscv64Cpu.Paging.Sv39
import Riscv64Cpu.ReadyValidMmu.Mmu
import Riscv64Cpu.ReadyValidMmu.Translation
import Riscv64Cpu.ReadyValidMmu.NewFetch
import Riscv64Cpu.ReadyValidMmu.NewPc
import Riscv64Cpu.ReadyValidMmu.NewRegM
import Riscv64Cpu.Collections.Patches
import Riscv64Cpu.Memory.Bounds
import Riscv64Cpu.Memory.LoadStore
import Riscv64Cpu.Collections.BitPattern
import Riscv64Cpu.Simulator.Exec
import Riscv64Cpu.Simulator.InstrTrace
import Riscv64Cpu.Collections.RingBuffer
import Riscv64Cpu.Simulator.Itrace
import Riscv64Cpu.Simulator.Snapshot
import Riscv64Cpu.CacheCpu.Icache
import Riscv64Cpu.Collections.Segment
import Riscv64Cpu.Collections.Lexicographic
import Riscv64Cpu.Klib.CString
import Riscv64Cpu.Klib.Memmove
import Riscv64Cpu.Klib.Copy
import Riscv64Cpu.Klib.Decimal
import Riscv64Cpu.Klib.Stdio
import Riscv64Cpu.Klib.StdioBounds
import Riscv64Cpu.Klib.Compare
import Riscv64Cpu.Klib.Atoi
import Riscv64Cpu.Libgcc.OnPipeline
import Riscv64Cpu.SingleCycle.Machine
import Riscv64Cpu.SingleCycle.Trap
import Riscv64Cpu.Klib.Int64Division
import Riscv64Cpu.Isa.OnPipeline
import Riscv64Cpu.ReadyValid.Program
import Riscv64Cpu.Simulator.Program
import Riscv64Cpu.ReadyValid.CsrProgram
