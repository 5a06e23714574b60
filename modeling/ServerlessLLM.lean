import ServerlessLLM.Checkpoint.Theorems.Balanced
import ServerlessLLM.Checkpoint.Theorems.Conversion
import ServerlessLLM.Checkpoint.Theorems.Expansion
import ServerlessLLM.Checkpoint.Theorems.PartitionReaders
import ServerlessLLM.Checkpoint.Theorems.Response
import ServerlessLLM.Checkpoint.Theorems.Restore
import ServerlessLLM.Host.Theorems.Arrival
import ServerlessLLM.Host.Theorems.Registry
import ServerlessLLM.Layerweave.Theorems.InputLimits
import ServerlessLLM.Layerweave.Theorems.LatencyLaws
import ServerlessLLM.Layerweave.Theorems.Loader
import ServerlessLLM.Layerweave.Theorems.Planning
import ServerlessLLM.Layerweave.Theorems.RidgeFit
import ServerlessLLM.Layerweave.Theorems.StageGroups
import ServerlessLLM.ModelPool.Theorems.CpuPool
import ServerlessLLM.ModelPool.Theorems.Index
import ServerlessLLM.ModelPool.Theorems.Loaded
import ServerlessLLM.ModelPool.Theorems.LruCache
import ServerlessLLM.Schedulers.Theorems.Waiting
import ServerlessLLM.Schedulers.Theorems.Migration
import ServerlessLLM.Schedulers.Theorems.Planning
import ServerlessLLM.Schedulers.Theorems.ReuseAware
import ServerlessLLM.Schedulers.Theorems.ReuseTables
import ServerlessLLM.Schedulers.Theorems.StorageAware
import ServerlessLLM.Serving.Theorems.Controller
import ServerlessLLM.Serving.Theorems.LiveMigration
import ServerlessLLM.Serving.Theorems.RouterQueue
import ServerlessLLM.Serving.Theorems.StoreManager
import ServerlessLLM.Serving.Theorems.VllmBackend
import ServerlessLLM.Simulator.Theorems.ControlledTrace
import ServerlessLLM.Simulator.Theorems.EndToEnd
import ServerlessLLM.Simulator.Theorems.EventLoop
import ServerlessLLM.Simulator.Theorems.Lookup
import ServerlessLLM.Simulator.Theorems.Mckp
import ServerlessLLM.Simulator.Theorems.Online
import ServerlessLLM.Simulator.Theorems.Residency
import ServerlessLLM.Simulator.Theorems.Segment
import ServerlessLLM.Vmm.Theorems.Adapters
import ServerlessLLM.Vmm.Theorems.Estimates
import ServerlessLLM.Vmm.Theorems.BatchUnmap
import ServerlessLLM.Vmm.Theorems.StableLoads
import ServerlessLLM.Vram.Bipartite
import ServerlessLLM.Vram.Theorems.Available
import ServerlessLLM.Vram.Theorems.Content
import ServerlessLLM.Vram.Theorems.Eviction
import ServerlessLLM.Vram.Theorems.Exact
import ServerlessLLM.Vram.Theorems.Index
import ServerlessLLM.Vram.Theorems.KvBlocks
import ServerlessLLM.Vram.Theorems.MergeGroups
import ServerlessLLM.Vram.Theorems.ReuseDisabled
import ServerlessLLM.Vram.Theorems.Weighted
import ServerlessLLM.Vram.Theorems.GpuChoice
