import ItexDemo.AuxLib.Proofs.RwLockProofs
import ItexDemo.AuxLib.Proofs.TimeoutGuardProofs
import ItexDemo.Quant.Proofs.WorksetProofs
import ItexDemo.Http.Proofs.RouterProofs
import ItexDemo.Http.Proofs.ServerProofs
import ItexDemo.Http.Proofs.LifetimeProofs
import ItexDemo.Http.Proofs.ClientProofs
import ItexDemo.DemoManager.Proofs.ReloadProofs
import ItexDemo.DemoManager.Proofs.QueueLoopProofs
import ItexDemo.Sqldb.Proofs.ConnectingProofs
import ItexDemo.Sqldb.Proofs.PreparedStatementsProofs
import ItexDemo.Sqldb.Proofs.ExplicitProofs
import ItexDemo.Sqldb.Proofs.DatabaseProofs
import ItexDemo.Lib.Bytes
import ItexDemo.Cgatepp.Dumper
import ItexDemo.Cgatepp.Proofs.DumperProofs
import ItexDemo.Cgatepp.Proofs.RecordProofs
import ItexDemo.Cgatepp.Proofs.ReplayProofs
import ItexDemo.Http.Headers
import ItexDemo.Http.Proofs.HeaderProofs
import ItexDemo.Http.Proofs.ParametersProofs
import ItexDemo.Http.Proofs.RouterNodesProofs
import ItexDemo.Quant.Cloning
import ItexDemo.Quant.Proofs.CloningProofs
import ItexDemo.Cgatepp.Proofs.DiscoveryProofs
import ItexDemo.Cgatepp.Proofs.RestoringProofs
import ItexDemo.Cgatepp.Proofs.BoundsProofs
import ItexDemo.Cgatepp.Proofs.AppendingProofs
import ItexDemo.Cgatepp.Proofs.RoundTripProofs
import ItexDemo.AuxLib.Proofs.MatrixProofs
import ItexDemo.AuxLib.Proofs.Array3dProofs
import ItexDemo.AuxLib.Proofs.RandomProofs
import ItexDemo.AuxLib.Proofs.Ran2Proofs
import ItexDemo.AuxLib.Proofs.SeedingProofs
import ItexDemo.AuxLib.Proofs.Base64Proofs
import ItexDemo.DemoManager.Proofs.NetAddressProofs
import ItexDemo.Alorgate.Proofs.OrderbookProofs
import ItexDemo.Sqldb.Proofs.ResultProofs
import ItexDemo.DemoManager.Proofs.InsertProofs
import ItexDemo.Quant.Proofs.PreloadProofs
import ItexDemo.Lib.Grid
import ItexDemo.Quant.Snapshot
import ItexDemo.Quant.Proofs.DrawingProofs
import ItexDemo.AuxLib.Proofs.SpinlockTestProofs
import ItexDemo.DemoManager.Proofs.OrderbookQueueProofs
import ItexDemo.Sqldb.Proofs.PoolSectionsProofs
import ItexDemo.Quant.Proofs.WorksetSectionsProofs
import ItexDemo.AuxLib.Proofs.MersenneProofs
import ItexDemo.DemoManager.Proofs.ServiceProofs
import ItexDemo.Alorgate.Proofs.FeedOrderProofs
import ItexDemo.DemoManager.Proofs.RestartProofs
