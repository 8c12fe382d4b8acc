import Ramulator.Hmc.Tags
import Ramulator.Drain
import Ramulator.Wakeup
import Ramulator.PrivateL1.Coverage
import Ramulator.PrivateL1.Misses
import Ramulator.Coherence
import Ramulator.PrivateL1.Order
import Ramulator.Processor.InOrder
import Ramulator.Processor.AddressSpace
import Ramulator.Processor.Modes
import Ramulator.Processor.Strides
import Ramulator.Generic.Addresses
import Ramulator.Hmc.VaultCounts
import Ramulator.Hmc.Serving
import Ramulator.Hmc.BusyCycles
import Ramulator.Generic.RefreshCycles
import Ramulator.RowHits
import Ramulator.Selection
import Ramulator.Generic.WriteRecovery
import Ramulator.Generic.Aldram
import Ramulator.Completions
import Ramulator.RowTables
import Ramulator.Processor.WindowFifo
import Ramulator.Processor.AccessCycles
import Ramulator.Generic.WriteRefresh
import Ramulator.Processor.InstructionCounts
import Ramulator.Processor.AccessMaps
import Ramulator.Hmc.Bursts
import Ramulator.Generic.Migrations
import Ramulator.Processor.CacheOptions
import Ramulator.Cache.Capacity
import Ramulator.Cache.Recency
import Ramulator.Hmc.Tokens
import Ramulator.Processor.TraceFiles
import Ramulator.Stats.Histogram
import Ramulator.Mesi.Coherence
import Ramulator.Dramtrace
