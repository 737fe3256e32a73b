import Numaflow.Reduce.Aligned.Gc
import Numaflow.Reduce.Unaligned.SessionGc
import Numaflow.Reduce.Unaligned.Replay
import Numaflow.Reduce.Wal.CrashSafety
import Numaflow.Reduce.Wal.Gate
import Numaflow.Reduce.Wal.Acked
import Numaflow.Watermark.Removal
import Numaflow.Throttling.Share
import Numaflow.Throttling.SharedBucket
import Numaflow.Throttling.Deposit
import Numaflow.Isb.Throttled
import Numaflow.Reduce.Wal.RoundTrip
import Numaflow.Isb.WriteOrder
import Numaflow.Isb.Orphan
import Numaflow.Isb.Fifo
import Numaflow.Watermark.MapVertex
import Numaflow.Sink.Bypass
import Numaflow.Serving.Delivery
import Numaflow.Map.Identity
import Numaflow.Serving.CallbackStore
import Numaflow.Controller.Names
import Numaflow.Controller.Rollout
import Numaflow.Controller.Resume
import Numaflow.Controller.Cycles
import Numaflow.Reduce.Aligned.Assignment
import Numaflow.Reduce.Lateness
import Numaflow.Reduce.Unaligned.SessionWatermark
import Numaflow.Controller.MonoVertexScaler
import Numaflow.Watermark.Deletion
import Numaflow.Reduce.Unaligned.SessionResponse
import Numaflow.Controller.DesiredReplicas
import Numaflow.Sqs
import Numaflow.SideInput
