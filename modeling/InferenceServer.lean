import InferenceServer.Base.Run
import InferenceServer.Base.Components
import InferenceServer.Base.Buffer
import InferenceServer.Base.Act
import InferenceServer.Base.Program
import InferenceServer.Engine.Interface
import InferenceServer.Engine.Normalize
import InferenceServer.Engine.Onnx
import InferenceServer.Engine.OnnxCall
import InferenceServer.Engine.OnnxConstruct
import InferenceServer.Engine.OnnxSuccess
import InferenceServer.Engine.BoundPath
import InferenceServer.Engine.RowWise
import InferenceServer.Batching.RequestQueue
import InferenceServer.Batching.Scheduler
import InferenceServer.Batching.Invariant
import InferenceServer.Batching.Delivery
import InferenceServer.Batching.Rows
import InferenceServer.Batching.OnnxServing
import InferenceServer.Server.Admission
import InferenceServer.Server.Gates
import InferenceServer.Server.Native
import InferenceServer.Server.Request
import InferenceServer.Server.RequestMoves
import InferenceServer.Server.Permits
import InferenceServer.Server.Application
import InferenceServer.Server.ApplicationMoves
import InferenceServer.Server.Capacity
import InferenceServer.Server.Failure
import InferenceServer.Server.Shutdown
import InferenceServer.Server.BodyGates
import InferenceServer.Security.KeyFile
import InferenceServer.Security.KeyStore
import InferenceServer.Security.Protocol
import InferenceServer.Security.Atomicity
import InferenceServer.Security.LiveKeys
import InferenceServer.Security.Concurrency
import InferenceServer.Batching.HandOut
import InferenceServer.Batching.Lifecycle
import InferenceServer.Batching.QueueRuns
import InferenceServer.Base.GridStride
import InferenceServer.Batching.Window
import InferenceServer.Engine.Kernel
import InferenceServer.Engine.NormalizePath
import InferenceServer.Server.Deployment
import InferenceServer.Server.HealthyEngine
import InferenceServer.Server.Readiness
import InferenceServer.Base.Stacks
import InferenceServer.Memory.Bucket
import InferenceServer.Memory.Pool
import InferenceServer.Base.Ledger
import InferenceServer.Memory.Peak
import InferenceServer.Batching.Counters
import InferenceServer.Batching.Runtime
import InferenceServer.Base.Streams
import InferenceServer.Engine.Cuda
import InferenceServer.Engine.CudaInFlight
import InferenceServer.Engine.CudaNormalize
import InferenceServer.Base.NdArray
import InferenceServer.Preprocessing.ImageUtils
import InferenceServer.Engine.Launch
import InferenceServer.Base.OrderStatistics
import InferenceServer.Benchmarks.Percentiles
import InferenceServer.Benchmarks.Client
import InferenceServer.Benchmarks.RatePhase
import InferenceServer.Server.Lease
import InferenceServer.Engine.StubAccess
import InferenceServer.Security.Authenticator
import InferenceServer.Security.Schema
import InferenceServer.Base.Process
import InferenceServer.Server.Asgi
import InferenceServer.Server.Observability
import InferenceServer.Server.Stack
import InferenceServer.Server.StackMoves
import InferenceServer.Server.StackInvariant
import InferenceServer.Server.OneResponse
import InferenceServer.Server.Upload
import InferenceServer.Server.Replay
import InferenceServer.Base.Writeback
import InferenceServer.Security.Durability
import InferenceServer.Server.Answers
import InferenceServer.Server.Drain
import InferenceServer.Server.StackRequest
import InferenceServer.Server.RequestIds
import InferenceServer.Server.Pool
import InferenceServer.Server.EngineFailure
import InferenceServer.Server.ServerDrain
import InferenceServer.Server.Environment
import InferenceServer.Benchmarks.ServerProcess
