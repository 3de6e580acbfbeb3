import QwenVLPaged.AppendOnly
import QwenVLPaged.AttentionAgreement
import QwenVLPaged.BaselineHonesty
import QwenVLPaged.BatchPlanning
import QwenVLPaged.BlockCounts
import QwenVLPaged.DeviceTables
import QwenVLPaged.ElementAddresses
import QwenVLPaged.Generations
import QwenVLPaged.Isolation
import QwenVLPaged.KernelWrites
import QwenVLPaged.LifetimeAccounting
import QwenVLPaged.Overtaking
import QwenVLPaged.PageTables
import QwenVLPaged.PagedReplay
import QwenVLPaged.PoolRun
import QwenVLPaged.PrefillConservation
import QwenVLPaged.PrefixCollisions
import QwenVLPaged.PrefixPins
import QwenVLPaged.RefusedAdmission
import QwenVLPaged.Restoration
import QwenVLPaged.RootSizes
import QwenVLPaged.SharingReservations
import QwenVLPaged.SnugSequences
import QwenVLPaged.SplitContext
import QwenVLPaged.TableMaps
import QwenVLPaged.WritableFlags
import QwenVLPaged.PartialBlocks
import QwenVLPaged.ReplayBooks
import QwenVLPaged.StrandedFrames
